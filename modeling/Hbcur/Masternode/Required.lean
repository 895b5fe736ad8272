import Hbcur.Masternode.Amounts
import Hbcur.Masternode.Payments
import Hbcur.Masternode.Tallies

/-!
# Required payments

What `IsTransactionValid` asks of a transaction for the payees of a block, and whether
`FillBlockPayee` provides it.
-/

namespace Hbcur

open Foundation

namespace CMasternodeBlockPayees

/-- The loop which looks for enough signatures. -/
def maxSignatures (payments : List CMasternodePayee) : Int :=
  payments.foldl
    (fun nMaxSignatures payee =>
      if payee.nVotes ≥ nMaxSignatures ∧ payee.nVotes ≥ MNPAYMENTS_SIGNATURES_REQUIRED then
        payee.nVotes
      else nMaxSignatures) 0

/-- Whether a transaction pays a payee what is required. -/
def found (requiredMasternodePayment : Int) (txNew : CTransaction) (payee : CMasternodePayee) :
    Bool :=
  txNew.vout.any fun out =>
    payee.scriptPubKey == out.scriptPubKey && decide (out.nValue ≥ requiredMasternodePayment)

def isTransactionValid (ctx : PaymentContext) (payees : CMasternodeBlockPayees)
    (txNew : CTransaction) : Option Bool :=
  (getMasternodePayment ctx payees.nBlockHeight (getBlockValue payees.nBlockHeight)
      ((ctx.count + nMasternodeCountDrift : Nat) : Int)).map fun requiredMasternodePayment =>
    if maxSignatures payees.vecPayments < MNPAYMENTS_SIGNATURES_REQUIRED then true
    else payees.vecPayments.any fun payee =>
      found requiredMasternodePayment txNew payee &&
        decide (payee.nVotes ≥ MNPAYMENTS_SIGNATURES_REQUIRED)

end CMasternodeBlockPayees

namespace PaymentVotes

def isTransactionValid (ctx : PaymentContext) (votes : PaymentVotes) (txNew : CTransaction)
    (nBlockHeight : Int) : Option Bool :=
  match votes.mapMasternodeBlocks.lookup nBlockHeight with
  | none => some true
  | some payees => payees.isTransactionValid ctx txNew

/-- The votes and the list of masternodes as the source of payments. -/
def payments (ctx : PaymentContext) (votes : PaymentVotes)
    (currentMasterNode : Option CScript) : CMasternodePayments where
  getBlockPayee := votes.getBlockPayee
  currentMasterNode := currentMasterNode
  getMasternodePayment := fun nHeight blockValue =>
    (getMasternodePayment ctx nHeight blockValue).getD 0
  payment_bounds := by
    intro nHeight blockValue h
    cases hpayment : getMasternodePayment ctx nHeight blockValue with
    | none => exact ⟨le_refl _, h⟩
    | some payment => exact getMasternodePayment_bounds h hpayment

/-- The transaction with its payments, unless their amount overflows. -/
def fillBlockPayee (ctx : PaymentContext) (votes : PaymentVotes)
    (currentMasterNode : Option CScript) (nHeight : Int) (txNew : CMutableTransaction)
    (nFees : Int) (fProofOfStake : Bool) : Option CMutableTransaction :=
  (getMasternodePayment ctx nHeight (getBlockValue nHeight)).map fun _ =>
    (votes.payments ctx currentMasterNode).fillBlockPayee nHeight txNew nFees fProofOfStake

end PaymentVotes

/-!
# The best payee
-/

namespace CMasternodeBlockPayees

theorem bestPayee_foldl (payments : List CMasternodePayee) (best : Option CScript × Int) :
    best.2 ≤ (payments.foldl bestPayee best).2 ∧
      (forall p, p ∈ payments -> p.nVotes ≤ (payments.foldl bestPayee best).2) ∧
      (payments.foldl bestPayee best = best ∨
        exists p, p ∈ payments ∧
          payments.foldl bestPayee best = (some p.scriptPubKey, p.nVotes)) := by
  induction payments generalizing best with
  | nil => exact ⟨le_refl _, fun p hmem => absurd hmem List.not_mem_nil, Or.inl rfl⟩
  | cons first rest ih =>
      rw [List.foldl_cons]
      rcases ih (bestPayee best first) with ⟨hle, hall, hresult⟩
      have hfirst : best.2 ≤ (bestPayee best first).2 ∧
          first.nVotes ≤ (bestPayee best first).2 := by
        unfold bestPayee
        split_ifs with h
        · exact ⟨h.le, le_refl _⟩
        · exact ⟨le_refl _, not_lt.mp h⟩
      refine ⟨hfirst.1.trans hle, ?_, ?_⟩
      · intro p hmem
        rcases List.mem_cons.mp hmem with rfl | hrest
        · exact hfirst.2.trans hle
        · exact hall p hrest
      · rcases hresult with hsame | ⟨p, hmem, heq⟩
        · rw [hsame]
          unfold bestPayee
          split_ifs with h
          · exact Or.inr ⟨first, List.mem_cons_self, rfl⟩
          · exact Or.inl rfl
        · exact Or.inr ⟨p, List.mem_cons_of_mem _ hmem, heq⟩

/-- The payee found has as many votes as any other. -/
theorem getPayee_of_votes {payees : CMasternodeBlockPayees}
    (h : exists p, p ∈ payees.vecPayments ∧ MNPAYMENTS_SIGNATURES_REQUIRED ≤ p.nVotes) :
    exists p, p ∈ payees.vecPayments ∧ MNPAYMENTS_SIGNATURES_REQUIRED ≤ p.nVotes ∧
      payees.getPayee = some p.scriptPubKey := by
  rcases h with ⟨voted, hvoted, hvotes⟩
  rcases bestPayee_foldl payees.vecPayments (none, -1) with ⟨_, hall, hresult⟩
  have hbest := hvotes.trans (hall voted hvoted)
  unfold getPayee
  rcases hresult with hnone | ⟨p, hmem, heq⟩
  · rw [hnone] at hbest
    exact absurd hbest (by decide)
  · rw [heq] at hbest ⊢
    exact ⟨p, hmem, hbest, rfl⟩

theorem maxSignatures_ge {payments : List CMasternodePayee}
    (h : exists p, p ∈ payments ∧ MNPAYMENTS_SIGNATURES_REQUIRED ≤ p.nVotes) :
    MNPAYMENTS_SIGNATURES_REQUIRED ≤ maxSignatures payments := by
  have hfold : forall (payments : List CMasternodePayee) (n : Int),
      (MNPAYMENTS_SIGNATURES_REQUIRED ≤ n ∨ exists p, p ∈ payments ∧
        MNPAYMENTS_SIGNATURES_REQUIRED ≤ p.nVotes) ->
      MNPAYMENTS_SIGNATURES_REQUIRED ≤ payments.foldl
        (fun nMaxSignatures payee =>
          if payee.nVotes ≥ nMaxSignatures ∧ payee.nVotes ≥ MNPAYMENTS_SIGNATURES_REQUIRED then
            payee.nVotes
          else nMaxSignatures) n := by
    intro payments
    induction payments with
    | nil =>
        rintro n (hn | ⟨p, hmem, _⟩)
        · exact hn
        · cases hmem
    | cons first rest ih =>
        intro n hn
        rw [List.foldl_cons]
        apply ih _
        split_ifs with hcase
        · exact Or.inl hcase.2
        · rcases hn with hn | ⟨p, hmem, hvotes⟩
          · exact Or.inl hn
          · rcases List.mem_cons.mp hmem with rfl | hrest
            · left
              by_contra hlow
              exact hcase ⟨by omega, hvotes⟩
            · exact Or.inr ⟨p, hrest, hvotes⟩
  exact hfold payments 0 (Or.inr h)

/-- With enough votes a transaction is valid exactly if it pays one of the payees with them. -/
theorem isTransactionValid_iff {ctx : PaymentContext} {payees : CMasternodeBlockPayees}
    {txNew : CTransaction}
    (h : exists p, p ∈ payees.vecPayments ∧ MNPAYMENTS_SIGNATURES_REQUIRED ≤ p.nVotes) :
    payees.isTransactionValid ctx txNew = some true <->
      exists required, getMasternodePayment ctx payees.nBlockHeight
          (getBlockValue payees.nBlockHeight)
          ((ctx.count + nMasternodeCountDrift : Nat) : Int) = some required ∧
        exists p out, p ∈ payees.vecPayments ∧ MNPAYMENTS_SIGNATURES_REQUIRED ≤ p.nVotes ∧
          out ∈ txNew.vout ∧ p.scriptPubKey = out.scriptPubKey ∧ required ≤ out.nValue := by
  have hmax := maxSignatures_ge h
  unfold isTransactionValid
  rw [Option.map_eq_some_iff]
  refine exists_congr fun required => and_congr_right fun _ => ?_
  rw [if_neg (not_lt.mpr hmax), List.any_eq_true]
  constructor
  · rintro ⟨p, hmem, hpays⟩
    rw [Bool.and_eq_true] at hpays
    rcases hpays with ⟨hfound, hvotes⟩
    unfold found at hfound
    rcases List.any_eq_true.mp hfound with ⟨out, hout, hpaid⟩
    rw [Bool.and_eq_true, beq_iff_eq] at hpaid
    exact ⟨p, out, hmem, of_decide_eq_true hvotes, hout, hpaid.1, of_decide_eq_true hpaid.2⟩
  · rintro ⟨p, out, hmem, hvotes, hout, hscript, hvalue⟩
    refine ⟨p, hmem, ?_⟩
    rw [Bool.and_eq_true]
    refine ⟨?_, decide_eq_true hvotes⟩
    unfold found
    refine List.any_eq_true.mpr ⟨out, hout, ?_⟩
    rw [Bool.and_eq_true, beq_iff_eq]
    exact ⟨hscript, decide_eq_true hvalue⟩

end CMasternodeBlockPayees

/-!
# What is paid
-/

namespace CMutableTransaction

theorem length_resizeOutputs (tx : CMutableTransaction) (nSize : Nat) :
    (tx.resizeOutputs nSize).vout.length = nSize := by
  unfold resizeOutputs
  rw [List.length_append, List.length_take, List.length_replicate]
  omega

theorem getElem?_resizeOutputs (tx : CMutableTransaction) {nSize i : Nat} (h : i < nSize) :
    exists out, (tx.resizeOutputs nSize).vout[i]? = some out := by
  rw [← length_resizeOutputs tx nSize] at h
  exact ⟨_, List.getElem?_eq_getElem h⟩

/-- An output which has got its payee and value. -/
theorem getElem?_setPayment {tx : CMutableTransaction} {i : Nat} {out : CTxOut}
    (h : tx.vout[i]? = some out) (payee : CScript) (nValue : Int) :
    ((tx.setPayee i payee).setValue i nValue).vout[i]? =
      some { out with scriptPubKey := payee, nValue := nValue } := by
  unfold setPayee setValue
  simp only [List.getElem?_modify, if_true, h]
  rfl

theorem getElem?_setValue_ne {tx : CMutableTransaction} {i j : Nat} (h : i ≠ j) (nValue : Int) :
    (tx.setValue i nValue).vout[j]? = tx.vout[j]? := by
  unfold setValue
  simp only [List.getElem?_modify, if_neg h]
  exact Option.map_id_apply

theorem getElem?_subtractValue_ne {tx : CMutableTransaction} {i j : Nat} (h : i ≠ j)
    (nValue : Int) : (tx.subtractValue i nValue).vout[j]? = tx.vout[j]? := by
  unfold subtractValue
  simp only [List.getElem?_modify, if_neg h]
  exact Option.map_id_apply

end CMutableTransaction

/-- The payee is paid its share and half of the fees. -/
theorem CMasternodePayments.fillBlockPayee_pays {payments : CMasternodePayments}
    {nHeight : Int} {payee : CScript} (hpayee : payments.getBlockPayee (nHeight + 1) = some payee)
    (txNew : CMutableTransaction) (nFees : Int) (fProofOfStake : Bool)
    (hstake : fProofOfStake = true -> txNew.vout ≠ []) :
    exists out, out ∈ (payments.fillBlockPayee nHeight txNew nFees fProofOfStake).vout ∧
      out.scriptPubKey = payee ∧
      out.nValue = payments.getMasternodePayment nHeight (getBlockValue nHeight) +
        nFees.tdiv 2 := by
  unfold fillBlockPayee CMasternodePayments.payee
  rw [hpayee]
  simp only
  cases fProofOfStake with
  | true =>
      have hpos : 0 < txNew.vout.length := List.length_pos_iff.mpr (hstake rfl)
      rcases CMutableTransaction.getElem?_resizeOutputs txNew
        (show txNew.vout.length < txNew.vout.length + 1 from Nat.lt_succ_self _) with ⟨old, hold⟩
      have hpaid := CMutableTransaction.getElem?_setPayment hold payee
        (payments.getMasternodePayment nHeight (getBlockValue nHeight) + nFees.tdiv 2)
      rw [← CMutableTransaction.getElem?_subtractValue_ne
        (show txNew.vout.length - 1 ≠ txNew.vout.length by omega)
        (payments.getMasternodePayment nHeight (getBlockValue nHeight) + nFees.tdiv 2)] at hpaid
      exact ⟨_, List.mem_of_getElem? hpaid, rfl, rfl⟩
  | false =>
      rcases CMutableTransaction.getElem?_resizeOutputs txNew Nat.one_lt_two
        with ⟨old, hold⟩
      have hpaid := CMutableTransaction.getElem?_setPayment hold payee
        (payments.getMasternodePayment nHeight (getBlockValue nHeight) + nFees.tdiv 2)
      rw [← CMutableTransaction.getElem?_setValue_ne Nat.zero_ne_one
        (getBlockValue nHeight - payments.getMasternodePayment nHeight (getBlockValue nHeight) +
          nFees.tdiv 2)] at hpaid
      exact ⟨_, List.mem_of_getElem? hpaid, rfl, rfl⟩

/-!
# Paid and required
-/

theorem getBlockValue_of_pos {nHeight : Int} (h : 1 ≤ nHeight) : getBlockValue nHeight = COIN := by
  unfold getBlockValue
  simp only [COIN]
  split_ifs <;> omega

section Payment

variable (ctx : PaymentContext)

/-- What is required where the number of masternodes does not overflow. -/
theorem requiredPayment_eq (n : Nat)
    (h : ((ctx.count + nMasternodeCountDrift : Nat) : Int) * 5000 ≤ 2147483647) :
    getMasternodePayment ctx ((n : Int) + 1) (getBlockValue ((n : Int) + 1))
        ((ctx.count + nMasternodeCountDrift : Nat) : Int) =
      some (amountOf COIN (seesawShare ctx.nMoneySupply
        (((ctx.count + nMasternodeCountDrift) * 500000000000 : Nat) : Rat) 0 seesaw)) := by
  rw [getBlockValue_of_pos (by omega)]
  refine getMasternodePayment_eq (by omega) (if_neg ?_) ?_ h COIN
  · unfold nMasternodeCountDrift
    omega
  · unfold nMasternodeCountDrift
    omega

theorem requiredPayment_overflow (n : Nat)
    (h : ¬ ((ctx.count + nMasternodeCountDrift : Nat) : Int) * 5000 ≤ 2147483647) :
    getMasternodePayment ctx ((n : Int) + 1) (getBlockValue ((n : Int) + 1))
        ((ctx.count + nMasternodeCountDrift : Nat) : Int) = none := by
  have hone : ¬ ((ctx.count + nMasternodeCountDrift : Nat) : Int) < 1 := by
    unfold nMasternodeCountDrift
    omega
  unfold getMasternodePayment
  rw [if_pos (by omega)]
  simp only [if_neg hone]
  exact if_pos (not_le.mp h)

/-- What is paid for at least one masternode on a chain of at least one block. -/
theorem paidPayment_eq {n : Nat} (hn : 1 ≤ n) (hcount : 1 ≤ ctx.count)
    (h : (ctx.count : Int) * 5000 ≤ 2147483647) :
    getMasternodePayment ctx n (getBlockValue n) =
      some (amountOf COIN (seesawShare ctx.nMoneySupply
        ((ctx.count * 500000000000 : Nat) : Rat) 0 seesaw)) := by
  have hheight : (1 : Int) ≤ n := by exact_mod_cast hn
  rw [getBlockValue_of_pos hheight]
  exact getMasternodePayment_eq hheight (if_pos Int.zero_lt_one) hcount h COIN

/-- Nothing is paid after the first block, or if there are no masternodes. -/
theorem paidPayment_zero {n : Nat} (h : n = 0 ∨ ctx.count = 0) :
    getMasternodePayment ctx n (getBlockValue n) = some 0 := by
  unfold getMasternodePayment
  by_cases hn : (n : Int) ≥ 1
  · rw [if_pos hn]
    have hzero : ctx.count = 0 := h.resolve_left (by omega)
    simp [hzero]
  · rw [if_neg hn]

end Payment

namespace PaymentVotes

/-- Whatever the fees, the transaction filled in for the block after the tip is valid. -/
def PaysRequired (ctx : PaymentContext) (votes : PaymentVotes)
    (currentMasterNode : Option CScript) (nHeight : Int) : Prop :=
  forall (txNew : CMutableTransaction) (nFees : Int) (fProofOfStake : Bool)
    (getHash : CMutableTransaction -> UInt256), 0 ≤ nFees ->
    (fProofOfStake = true -> txNew.vout ≠ []) ->
    exists tx,
      votes.fillBlockPayee ctx currentMasterNode nHeight txNew nFees fProofOfStake = some tx ∧
      votes.isTransactionValid ctx (tx.toTransaction getHash) (nHeight + 1) = some true

/-- A coinstake with nothing but an empty output. -/
def emptyStake : CMutableTransaction :=
  { vout := [{ nValue := 0, scriptPubKey := [], nRounds := 0 }] }

theorem fillBlockPayee_emptyStake {payments : CMasternodePayments} {nHeight : Int}
    {payee : CScript} (hpayee : payments.getBlockPayee (nHeight + 1) = some payee) :
    (payments.fillBlockPayee nHeight emptyStake 0 true).vout =
      [{ nValue := 0 - (payments.getMasternodePayment nHeight (getBlockValue nHeight) + 0)
         scriptPubKey := []
         nRounds := 0 },
        { nValue := payments.getMasternodePayment nHeight (getBlockValue nHeight) + 0
          scriptPubKey := payee
          nRounds := CTxOut.null.nRounds }] := by
  unfold CMasternodePayments.fillBlockPayee CMasternodePayments.payee
  rw [hpayee]
  rfl

section Pays

variable {ctx : PaymentContext} {votes : PaymentVotes} {currentMasterNode : Option CScript}
  {n : Nat} {payees : CMasternodeBlockPayees}
  (hpayees : votes.mapMasternodeBlocks.lookup ((n : Int) + 1) = some payees)
  (hheight : payees.nBlockHeight = (n : Int) + 1)
  (hvotes : exists p, p ∈ payees.vecPayments ∧ MNPAYMENTS_SIGNATURES_REQUIRED ≤ p.nVotes)

include hpayees hvotes

variable (ctx currentMasterNode) in
/-- The payee of the block is one with enough votes. -/
theorem getBlockPayee_of_votes :
    exists p, p ∈ payees.vecPayments ∧ MNPAYMENTS_SIGNATURES_REQUIRED ≤ p.nVotes ∧
      (votes.payments ctx currentMasterNode).getBlockPayee ((n : Int) + 1) =
        some p.scriptPubKey := by
  rcases CMasternodeBlockPayees.getPayee_of_votes hvotes with ⟨p, hmem, hsix, hbest⟩
  refine ⟨p, hmem, hsix, ?_⟩
  change (votes.mapMasternodeBlocks.lookup ((n : Int) + 1)).bind
    CMasternodeBlockPayees.getPayee = some p.scriptPubKey
  rw [hpayees]
  exact hbest

include hheight

theorem paysRequired_of_le {paid required : Int}
    (hpaid : getMasternodePayment ctx n (getBlockValue n) = some paid)
    (hrequired : getMasternodePayment ctx ((n : Int) + 1) (getBlockValue ((n : Int) + 1))
      ((ctx.count + nMasternodeCountDrift : Nat) : Int) = some required)
    (hle : required ≤ paid) : votes.PaysRequired ctx currentMasterNode n := by
  intro txNew nFees fProofOfStake getHash hfees hstake
  rcases getBlockPayee_of_votes ctx currentMasterNode hpayees hvotes with ⟨p, hmem, hsix, hpayee⟩
  rcases CMasternodePayments.fillBlockPayee_pays hpayee txNew nFees fProofOfStake hstake with
    ⟨out, hout, hscript, hvalue⟩
  refine ⟨(votes.payments ctx currentMasterNode).fillBlockPayee n txNew nFees fProofOfStake,
    ?_, ?_⟩
  · unfold fillBlockPayee
    rw [hpaid]
    rfl
  · unfold isTransactionValid
    rw [hpayees]
    refine (CMasternodeBlockPayees.isTransactionValid_iff hvotes).mpr ⟨required, ?_, p, out,
      hmem, hsix, hout, hscript.symm, ?_⟩
    · rw [hheight]
      exact hrequired
    · have hshare : (votes.payments ctx currentMasterNode).getMasternodePayment n
          (getBlockValue n) = paid := by
        change (getMasternodePayment ctx n (getBlockValue n)).getD 0 = paid
        rw [hpaid]
        rfl
      have hhalf : 0 ≤ nFees.tdiv 2 := Int.tdiv_nonneg hfees (by decide)
      rw [hvalue, hshare]
      omega

/-- A coinstake with one empty output tells whether too little is paid. -/
theorem le_of_paysRequired (h : votes.PaysRequired ctx currentMasterNode n) :
    exists required, getMasternodePayment ctx ((n : Int) + 1) (getBlockValue ((n : Int) + 1))
        ((ctx.count + nMasternodeCountDrift : Nat) : Int) = some required ∧
      (0 < required -> required ≤ (getMasternodePayment ctx n (getBlockValue n)).getD 0) := by
  rcases getBlockPayee_of_votes ctx currentMasterNode hpayees hvotes with ⟨p, _, _, hpayee⟩
  rcases h emptyStake 0 true (fun _ => 0) (le_refl 0) (fun _ => List.cons_ne_nil _ _) with
    ⟨tx, hfill, hvalid⟩
  unfold isTransactionValid at hvalid
  rw [hpayees] at hvalid
  rcases (CMasternodeBlockPayees.isTransactionValid_iff hvotes).mp hvalid with
    ⟨required, hrequired, _, out, _, _, hout, _, hle⟩
  rw [hheight] at hrequired
  refine ⟨required, hrequired, fun hpos => ?_⟩
  unfold fillBlockPayee at hfill
  rcases Option.map_eq_some_iff.mp hfill with ⟨paid, hpaid, rfl⟩
  rw [hpaid]
  have hshare : (votes.payments ctx currentMasterNode).getMasternodePayment n
      (getBlockValue n) = paid := by
    change (getMasternodePayment ctx n (getBlockValue n)).getD 0 = paid
    rw [hpaid]
    rfl
  have hvout := fillBlockPayee_emptyStake hpayee
  rw [hshare] at hvout
  change out ∈ ((votes.payments ctx currentMasterNode).fillBlockPayee n emptyStake 0 true).vout
    at hout
  rw [hvout, List.mem_pair] at hout
  have hnonneg := (getMasternodePayment_bounds (getBlockValue_bounds n).1.le hpaid).1
  rcases hout with rfl | rfl
  · simp only at hle
    omega
  · simpa using hle

theorem pays_required_iff :
    votes.PaysRequired ctx currentMasterNode n <->
      1 ≤ n ∧ 1 ≤ ctx.count ∧
        ((ctx.count + nMasternodeCountDrift : Nat) : Int) * 5000 ≤ 2147483647 := by
  constructor
  · intro h
    rcases le_of_paysRequired hpayees hheight hvotes h with ⟨required, hrequired, hle⟩
    by_cases hbound : ((ctx.count + nMasternodeCountDrift : Nat) : Int) * 5000 ≤ 2147483647
    · rw [requiredPayment_eq ctx n hbound] at hrequired
      cases hrequired
      have hpos := amountOf_pos ctx.nMoneySupply
        (((ctx.count + nMasternodeCountDrift) * 500000000000 : Nat) : Rat)
      by_contra hnot
      have hzero : n = 0 ∨ ctx.count = 0 := by omega
      have hsmall := hle hpos
      rw [paidPayment_zero ctx hzero, Option.getD_some] at hsmall
      omega
    · rw [requiredPayment_overflow ctx n hbound] at hrequired
      cases hrequired
  · rintro ⟨hn, hcount, hbound⟩
    have hpaid := paidPayment_eq ctx hn hcount (by push_cast at hbound; omega)
    apply paysRequired_of_le hpayees hheight hvotes hpaid (requiredPayment_eq ctx n hbound)
    exact amount_antitone hcount (Nat.le_add_right _ _) ctx.nMoneySupply

end Pays

/-- Six votes for the payee of a block. -/
def sixVotes : PaymentVotes :=
  { mapMasternodeBlocks := (∅ : StdMap Int CMasternodeBlockPayees).insert 11
      { nBlockHeight := 11, vecPayments := [{ scriptPubKey := [0x51], nVotes := 6 }] } }

/-- A node that knows some masternodes, on a chain with a money supply. -/
def contextWith (vMasternodes : List CMasternode) : PaymentContext :=
  { mnodeman := CMasternodeMan.ofMasternodes vMasternodes 10
    activeProtocol := 70914
    nMoneySupply := 900000000 * COIN }

theorem pays_required_one_masternode :
    sixVotes.PaysRequired (contextWith [youngMasternode]) none ((10 : Nat) : Int) := by
  have hpayees : sixVotes.mapMasternodeBlocks.lookup (((10 : Nat) : Int) + 1) = some
      { nBlockHeight := 11, vecPayments := [{ scriptPubKey := [0x51], nVotes := 6 }] } := by
    decide
  refine (pays_required_iff hpayees ?_ ?_).mpr ?_
  · decide
  · exact ⟨_, List.mem_singleton_self _, by decide⟩
  · decide

/-- Without masternodes the payee with six votes is paid nothing. -/
theorem no_masternodes_nothing_paid :
    ¬ forall (ctx : PaymentContext) (votes : PaymentVotes) (currentMasterNode : Option CScript)
      (n : Nat) (payees : CMasternodeBlockPayees),
      votes.mapMasternodeBlocks.lookup ((n : Int) + 1) = some payees ->
      payees.nBlockHeight = (n : Int) + 1 ->
      (exists p, p ∈ payees.vecPayments ∧ MNPAYMENTS_SIGNATURES_REQUIRED ≤ p.nVotes) ->
      votes.PaysRequired ctx currentMasterNode n := by
  intro h
  rcases h (contextWith []) sixVotes none 10
    { nBlockHeight := 11, vecPayments := [{ scriptPubKey := [0x51], nVotes := 6 }] } (by decide)
    (by decide) ⟨_, List.mem_singleton_self _, by decide⟩ emptyStake 0 true (fun _ => 0)
    (le_refl 0) (fun _ => List.cons_ne_nil _ _) with ⟨tx, hfill, hvalid⟩
  have hpaid : fillBlockPayee (contextWith []) sixVotes none 10 emptyStake 0 true =
      some { vout := [{ nValue := 0, scriptPubKey := [], nRounds := 0 },
        { nValue := 0, scriptPubKey := [0x51], nRounds := -10 }] } := by
    decide +kernel
  change fillBlockPayee (contextWith []) sixVotes none 10 emptyStake 0 true = some tx at hfill
  rw [hpaid] at hfill
  cases hfill
  exact absurd hvalid (by decide +kernel)

end PaymentVotes

end Hbcur
