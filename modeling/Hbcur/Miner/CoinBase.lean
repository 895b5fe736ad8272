import Hbcur.Miner.Selection
import Hbcur.Validation.Unspent

/-!
# The coinbase of a template

What `FillBlockPayee` and the height make of the coinbase of a block with proof of work: its
script, its amounts and its size.
-/

namespace Hbcur

open Serialize

/-!
# The script of the input
-/

namespace CScript

theorem sigOpsOf_push (fAccurate : Bool) (lastOpcode : Nat) {opcode : Nat}
    (h : opcode ≤ OP_16) : sigOpsOf fAccurate lastOpcode opcode = 0 := by
  unfold OP_16 at h
  unfold sigOpsOf OP_CHECKSIG OP_CHECKSIGVERIFY OP_CHECKMULTISIG OP_CHECKMULTISIGVERIFY
  rw [if_neg (by omega), if_neg (by omega)]

end CScript

theorem sigOps_pushInt64 (n : Int) :
    CScript.getSigOpCount (pushInt64 n ++ [UInt8.ofNat Script.OP_0]) false = 0 := by
  have hlength := (length_pushInt64 n).1
  have hget := Script.getOp_number n [UInt8.ofNat Script.OP_0]
  unfold CScript.getSigOpCount
  rw [List.length_append, List.length_singleton]
  obtain ⟨rounds, hrounds⟩ := Nat.exists_eq_add_of_le hlength
  rw [hrounds, Nat.add_comm 1 rounds, CScript.sigOpsFrom, hget]
  simp only
  rw [CScript.sigOpsOf_push _ _ (Script.parsed_number_le n), Nat.zero_add, CScript.sigOpsFrom]
  have hlast : CScript.getOp [UInt8.ofNat Script.OP_0] = some (0, [], []) :=
    CScript.getOp_pushBytes (b := []) (by decide) []
  rw [hlast]
  simp only
  rw [CScript.sigOpsOf_push _ _ (by decide), Nat.zero_add]
  cases rounds <;> rfl

/-!
# The outputs
-/

/-- The script which the second output pays to, if there is one. -/
def MinerEnv.payeeScript (env : MinerEnv) (tipHeight : Int) : CScript :=
  ((if paysBudget env.node tipHeight then
      (CBudgetManager.highestVoted (tipHeight + 1) 0 none
        env.node.budget.mapFinalizedBudgets).map CTxBudgetPayment.payee
    else env.payments.payee tipHeight).getD [])

/-- The payments of the next block are in range, and their scripts are of moderate size. -/
structure PaymentsFit (env : MinerEnv) (scriptPubKeyIn : CScript) (tipHeight supply : Int) :
    Prop where
  supply_le : getBlockValue tipHeight + supply ≤ env.node.params.nMaxMoneyOut
  budget : forall payment, CBudgetManager.highestVoted (tipHeight + 1) 0 none
      env.node.budget.mapFinalizedBudgets = some payment ->
    paysBudget env.node tipHeight = true ->
    0 ≤ payment.nAmount ∧
      getBlockValue tipHeight + payment.nAmount ≤ env.node.params.nMaxMoneyOut
  length_le : scriptPubKeyIn.length + (env.payeeScript tipHeight).length ≤ 1800
  sigOps_le : CScript.getSigOpCount scriptPubKeyIn false +
    CScript.getSigOpCount (env.payeeScript tipHeight) false ≤ 100

/-- The outputs of a coinbase: a reward, and perhaps a payment. -/
structure Rewards (env : MinerEnv) (scriptPubKeyIn : CScript) (tipHeight : Int)
    (vout : List CTxOut) : Prop where
  outputs : exists reward payment,
    vout = [CTxOut.make reward scriptPubKeyIn] ∨
      vout = [CTxOut.make reward scriptPubKeyIn,
        CTxOut.make payment (env.payeeScript tipHeight)]
  values : forall out, out ∈ vout -> 0 ≤ out.nValue
  total : (vout.map CTxOut.nValue).sum ≤ env.node.params.nMaxMoneyOut

theorem rewards_one {env : MinerEnv} {scriptPubKeyIn : CScript} {tipHeight reward : Int}
    (hreward : 0 ≤ reward) (hmax : reward ≤ env.node.params.nMaxMoneyOut) :
    Rewards env scriptPubKeyIn tipHeight [CTxOut.make reward scriptPubKeyIn] := by
  refine ⟨⟨reward, 0, Or.inl rfl⟩, ?_, ?_⟩
  · intro out hmem
    rw [List.mem_singleton.mp hmem]
    exact hreward
  · change reward + 0 ≤ _
    omega

theorem rewards_two {env : MinerEnv} {scriptPubKeyIn payee : CScript}
    {tipHeight reward payment : Int} (hpayee : env.payeeScript tipHeight = payee)
    (hreward : 0 ≤ reward) (hpayment : 0 ≤ payment)
    (hmax : reward + payment ≤ env.node.params.nMaxMoneyOut) :
    Rewards env scriptPubKeyIn tipHeight
      [CTxOut.make reward scriptPubKeyIn, CTxOut.make payment payee] := by
  subst hpayee
  refine ⟨⟨reward, payment, Or.inr rfl⟩, ?_, ?_⟩
  · intro out hmem
    rcases List.mem_cons.mp hmem with rfl | hmem
    · exact hreward
    · rw [List.mem_singleton.mp hmem]
      exact hpayment
  · change reward + (payment + 0) ≤ _
    omega

theorem rewards_fillBlockPayee {env : MinerEnv} {scriptPubKeyIn : CScript}
    {tipHeight nFees supply : Int} (hfit : PaymentsFit env scriptPubKeyIn tipHeight supply)
    (hfees : 0 ≤ nFees) (hsupply : nFees ≤ supply) :
    Rewards env scriptPubKeyIn tipHeight
      (fillBlockPayee env.node env.payments tipHeight (coinBaseOutline scriptPubKeyIn) nFees
        false).vout := by
  have hvalue := (getBlockValue_bounds tipHeight).1
  have hsum := hfit.supply_le
  have hlt := env.node.params.maxMoneyOut_lt
  unfold fillBlockPayee
  cases hbudget : paysBudget env.node tipHeight with
  | true =>
      rw [if_pos rfl]
      unfold CBudgetManager.fillBlockPayee
      cases hvoted : CBudgetManager.highestVoted (tipHeight + 1) 0 none
          env.node.budget.mapFinalizedBudgets with
      | none => exact rewards_one (by omega) (by omega)
      | some payment =>
          rcases hfit.budget payment hvoted hbudget with ⟨hamount, hmax⟩
          refine rewards_two ?_ (by omega) hamount hmax
          unfold MinerEnv.payeeScript
          rw [hbudget, if_pos rfl, hvoted]
          rfl
  | false =>
      rw [if_neg Bool.false_ne_true]
      unfold CMasternodePayments.fillBlockPayee
      rcases env.payments.payment_bounds tipHeight (Int.le_of_lt hvalue) with ⟨hpay, hle⟩
      cases hpayee : env.payments.payee tipHeight with
      | none =>
          have hwrap := wrapInt64_of_range (getBlockValue tipHeight + nFees) (by omega) (by omega)
          simp only [hwrap]
          exact rewards_one (by omega) (by omega)
      | some payee =>
          have hhalf : 0 ≤ nFees.tdiv 2 ∧ 2 * nFees.tdiv 2 ≤ nFees := by
            rw [Int.tdiv_eq_ediv_of_nonneg hfees]
            omega
          refine rewards_two ?_ (by omega) (by omega) (by omega)
          unfold MinerEnv.payeeScript
          rw [hbudget, if_neg Bool.false_ne_true, hpayee]
          rfl

/-!
# The coinbase
-/

section CoinBase

variable {env : MinerEnv} {scriptPubKeyIn : CScript} {tipHeight nFees : Int}

theorem vin_coinBase : (env.coinBase scriptPubKeyIn tipHeight nFees).vin =
    [{ prevout := { hash := 0, n := COutPoint.maxUInt32 }
       scriptSig := pushInt64 (tipHeight + 1) ++ [UInt8.ofNat Script.OP_0]
       nSequence := COutPoint.maxUInt32 }] := by
  unfold MinerEnv.coinBase CMutableTransaction.toTransaction
  simp only [vin_fillBlockPayee]
  rfl

theorem length_scriptSig_coinBase (nHeight : Int) :
    2 ≤ (pushInt64 nHeight ++ [UInt8.ofNat Script.OP_0]).length ∧
      (pushInt64 nHeight ++ [UInt8.ofNat Script.OP_0]).length ≤ 11 := by
  have hpush := length_pushInt64 nHeight
  rw [List.length_append, List.length_singleton]
  omega

theorem size_make_le (nValue : Int) (scriptPubKey : CScript) :
    (CTxOut.make nValue scriptPubKey).getSerializeSize ≤ 17 + scriptPubKey.length := by
  have hlength := length_writeCompactSize scriptPubKey.length
  unfold CTxOut.getSerializeSize sizeOfBytes
  rw [CTxOut.scriptPubKey_make]
  omega

/-- The coinbase has room for scripts of moderate size. -/
theorem Rewards.size_le (h : Rewards env scriptPubKeyIn tipHeight
      (env.coinBase scriptPubKeyIn tipHeight nFees).vout)
    (hlength : scriptPubKeyIn.length + (env.payeeScript tipHeight).length ≤ 1800) :
    (env.coinBase scriptPubKeyIn tipHeight nFees).getSerializeSize ≤ 1910 := by
  have hscript := (length_scriptSig_coinBase (tipHeight + 1)).2
  have hsig := length_writeCompactSize
    (pushInt64 (tipHeight + 1) ++ [UInt8.ofNat Script.OP_0]).length
  have hvin : forall txin : CTxIn, (writeCompactSize [txin].length).length = 1 := fun _ => rfl
  unfold CTransaction.getSerializeSize
  rw [vin_coinBase, hvin, List.map_singleton, List.sum_singleton]
  unfold CTxIn.getSerializeSize sizeOfBytes
  simp only
  rcases h.outputs with ⟨reward, payment, hone | htwo⟩
  · have hin := size_make_le reward scriptPubKeyIn
    rw [hone, List.map_singleton, List.sum_singleton]
    change 4 + 1 + _ + 1 + _ + 4 ≤ 1910
    omega
  · have hin := size_make_le reward scriptPubKeyIn
    have hpayee := size_make_le payment (env.payeeScript tipHeight)
    rw [htwo, List.map_cons, List.sum_cons, List.map_singleton, List.sum_singleton]
    change 4 + 1 + _ + 1 + _ + 4 ≤ 1910
    omega

theorem Rewards.sigOps_le (h : Rewards env scriptPubKeyIn tipHeight
      (env.coinBase scriptPubKeyIn tipHeight nFees).vout)
    (hsigops : CScript.getSigOpCount scriptPubKeyIn false +
      CScript.getSigOpCount (env.payeeScript tipHeight) false ≤ 100) :
    getLegacySigOpCount (env.coinBase scriptPubKeyIn tipHeight nFees) ≤ 100 := by
  unfold getLegacySigOpCount
  rw [vin_coinBase, List.map_singleton, List.sum_singleton, sigOps_pushInt64, Nat.zero_add]
  rcases h.outputs with ⟨reward, payment, hone | htwo⟩
  · rw [hone]
    change CScript.getSigOpCount scriptPubKeyIn false + 0 ≤ 100
    omega
  · rw [htwo]
    change CScript.getSigOpCount scriptPubKeyIn false +
      (CScript.getSigOpCount (env.payeeScript tipHeight) false + 0) ≤ 100
    omega

theorem Rewards.passes (h : Rewards env scriptPubKeyIn tipHeight
      (env.coinBase scriptPubKeyIn tipHeight nFees).vout)
    (hlength : scriptPubKeyIn.length + (env.payeeScript tipHeight).length ≤ 1800)
    (vstate : CValidationState) :
    checkTransaction env.node.params vstate (env.coinBase scriptPubKeyIn tipHeight nFees) =
      Except.ok () := by
  have hscript := length_scriptSig_coinBase (tipHeight + 1)
  refine checkTransaction_coinBase vin_coinBase rfl ?_ ?_ h.values h.total ?_
  · exact ⟨hscript.1, hscript.2.trans (by decide)⟩
  · intro hnil
    rcases h.outputs with ⟨reward, payment, hone | htwo⟩
    · rw [hnil] at hone
      cases hone
    · rw [hnil] at htwo
      cases htwo
  · exact (h.size_le hlength).trans (by decide)

end CoinBase

end Hbcur
