import Hbcur.Validation.Accumulators

/-!
# Ordinary transactions create no value

`CheckTransaction` and `CheckInputs` keep their totals in `int64_t` variables, and test a
total only after an amount was added to it.  Both are given here with sums which wrap; the
totals never come near the limit, so that these are the plain sums after all.
-/

namespace Hbcur

open Foundation Serialize

/-!
# The checks in `int64_t`
-/

def checkOutputInt64 (params : CChainParams) (vstate : CValidationState) (tx : CTransaction)
    (nValueOut : Int) (txout : CTxOut) : Except Failure Int := do
  require (!(txout.isEmpty && !tx.isCoinBase && !tx.isCoinStake)) (Failure.dos vstate 100)
  require (!decide (txout.nValue < 0))
    (Failure.dos vstate 100 RejectCode.invalid "bad-txns-vout-negative")
  require (!decide (txout.nValue > params.nMaxMoneyOut))
    (Failure.dos vstate 100 RejectCode.invalid "bad-txns-vout-toolarge")
  let nValueOut := wrapInt64 (nValueOut + txout.nValue)
  require (params.moneyRange nValueOut)
    (Failure.dos vstate 100 RejectCode.invalid "bad-txns-txouttotal-toolarge")
  Except.ok nValueOut

def checkTransactionInt64 (params : CChainParams) (vstate : CValidationState)
    (tx : CTransaction) : Except Failure Unit := do
  require (!tx.vin.isEmpty)
    (Failure.dos vstate 10 RejectCode.invalid "bad-txns-vin-empty")
  require (!tx.vout.isEmpty)
    (Failure.dos vstate 10 RejectCode.invalid "bad-txns-vout-empty")
  require (!decide (tx.getSerializeSize > MAX_BLOCK_SIZE))
    (Failure.dos vstate 100 RejectCode.invalid "bad-txns-oversize")
  let _ ← accumulate (checkOutputInt64 params vstate tx) 0 tx.vout
  require (decide tx.prevouts.Nodup)
    (Failure.dos vstate 100 RejectCode.invalid "bad-txns-inputs-duplicate")
  checkInputForm vstate tx

section Inputs

variable {state : Type} [CoinsState state]

def checkInputValueInt64 (params : CChainParams) (vstate : CValidationState) (v : state)
    (nSpendHeight : Int) (nValueIn : Int) (txin : CTxIn) : Except Failure Int := do
  let coins := coinsAt v txin.prevout.hash
  require (!((coins.fCoinBase || coins.fCoinStake) &&
      decide (nSpendHeight - coins.nHeight < params.nMaturity)))
    (Failure.invalid vstate RejectCode.invalid "bad-txns-premature-spend-of-coinbase")
  let out ← expect (getOutputFor v txin) Failure.aborted
  let nValueIn := wrapInt64 (nValueIn + out.nValue)
  require (params.moneyRange out.nValue && params.moneyRange nValueIn)
    (Failure.dos vstate 100 RejectCode.invalid "bad-txns-inputvalues-outofrange")
  Except.ok nValueIn

def checkFeeInt64 (params : CChainParams) (vstate : CValidationState) (tx : CTransaction)
    (nValueIn : Int) : Except Failure Unit := do
  let nValueOut ← expect tx.getValueOut Failure.aborted
  require (!decide (nValueIn < nValueOut))
    (Failure.dos vstate 100 RejectCode.invalid "bad-txns-in-belowout")
  let nTxFee := wrapInt64 (nValueIn - nValueOut)
  require (!decide (nTxFee < 0))
    (Failure.dos vstate 100 RejectCode.invalid "bad-txns-fee-negative")
  -- the sum of the fees starts at zero here
  require (params.moneyRange (wrapInt64 (0 + nTxFee)))
    (Failure.dos vstate 100 RejectCode.invalid "bad-txns-fee-outofrange")

def checkInputsInt64 (node : NodeState) (vstate : CValidationState) (v : state)
    (tx : CTransaction) (fScriptChecks : Bool) (flags : ScriptFlags) :
    Except Failure Unit :=
  onlyIf (!tx.isCoinBase) do
    require (haveInputs v tx) (Failure.invalid vstate)
    let pindexPrev ← expect (node.mapBlockIndex (CoinsState.getBestBlock v)) Failure.aborted
    let nValueIn ← accumulate
      (checkInputValueInt64 node.params vstate v (pindexPrev.nHeight + 1)) 0 tx.vin
    onlyIf (!tx.isCoinStake) (checkFeeInt64 node.params vstate tx nValueIn)
    onlyIf (fScriptChecks && !node.scriptCheckThreads)
      (forEach (fun pair => checkScript node vstate v tx flags pair.2 pair.1) tx.vin.zipIdx)

end Inputs

/-!
# Amounts in range
-/

namespace CChainParams

variable {params : CChainParams} {m n : Int}

/-- An amount in range may be added to another one before the test. -/
theorem wrapInt64_add_of_moneyRange (hm : params.moneyRange m = true)
    (hn : params.moneyRange n = true) : wrapInt64 (m + n) = m + n := by
  have hlt := params.maxMoneyOut_lt
  rw [moneyRange_iff] at hm hn
  exact wrapInt64_of_range (m + n) (by omega) (by omega)

theorem moneyRange_zero : params.moneyRange 0 = true :=
  moneyRange_iff.mpr ⟨Int.le_refl 0, params.maxMoneyOut_nonneg⟩

end CChainParams

/-!
# The sums do not wrap in the checks
-/

section Checks

variable {params : CChainParams} {vstate : CValidationState} {tx : CTransaction}

theorem moneyRange_of_checkOutput {acc acc' : Int} {out : CTxOut}
    (h : checkOutput params vstate tx acc out = Except.ok acc') :
    params.moneyRange acc' = true := by
  simp only [checkOutput, bind_eq_ok_iff, require_eq_ok_iff, Except.ok.injEq,
    exists_and_left, exists_const] at h
  rcases h with ⟨_, _, _, hrange, hacc⟩
  rw [← hacc]
  exact hrange

theorem checkOutputInt64_eq {acc : Int} (hacc : params.moneyRange acc = true) (out : CTxOut) :
    checkOutputInt64 params vstate tx acc out = checkOutput params vstate tx acc out := by
  unfold checkOutputInt64 checkOutput
  cases hneg : decide (out.nValue < 0) with
  | true =>
      -- neither of the two gets to the sum
      cases out.isEmpty && !tx.isCoinBase && !tx.isCoinStake <;> rfl
  | false =>
      cases hhigh : decide (out.nValue > params.nMaxMoneyOut) with
      | true => cases out.isEmpty && !tx.isCoinBase && !tx.isCoinStake <;> rfl
      | false =>
          have hvalue : params.moneyRange out.nValue = true :=
            CChainParams.moneyRange_iff.mpr
              ⟨Int.not_lt.mp (of_decide_eq_false hneg),
                Int.not_lt.mp (of_decide_eq_false hhigh)⟩
          rw [CChainParams.wrapInt64_add_of_moneyRange hacc hvalue]

theorem checkTransactionInt64_eq :
    checkTransactionInt64 params vstate tx = checkTransaction params vstate tx := by
  unfold checkTransactionInt64 checkTransaction
  rw [accumulate_congr (fun acc out hacc => checkOutputInt64_eq hacc out)
    (fun _ _ _ _ hone => moneyRange_of_checkOutput hone) tx.vout 0
    CChainParams.moneyRange_zero]

variable {state : Type} [CoinsState state] {v : state}

theorem moneyRange_of_checkInputValue {nSpendHeight acc acc' : Int} {txin : CTxIn}
    (h : checkInputValue params vstate v nSpendHeight acc txin = Except.ok acc') :
    params.moneyRange acc' = true := by
  simp only [checkInputValue, bind_eq_ok_iff, Unique.exists_iff, require_eq_ok_iff,
    expect_eq_ok_iff, Except.ok.injEq, Bool.and_eq_true] at h
  rcases h with ⟨_, _, _, ⟨_, hrange⟩, hacc⟩
  rw [← hacc]
  exact hrange

/-- The values of a view are tested after they are added, but they are in range before. -/
theorem checkInputValueInt64_eq (hview : ViewInRange params v) {nSpendHeight acc : Int}
    (hacc : params.moneyRange acc = true) (txin : CTxIn) :
    checkInputValueInt64 params vstate v nSpendHeight acc txin =
      checkInputValue params vstate v nSpendHeight acc txin := by
  unfold checkInputValueInt64 checkInputValue
  cases hout : getOutputFor v txin with
  | none => rfl
  | some out =>
      have hvalue := hview txin.prevout out hout
      simp only [expect]
      rw [ok_bind, ok_bind, CChainParams.wrapInt64_add_of_moneyRange hacc hvalue]

theorem checkFeeInt64_eq (htx : CheckedTransaction params tx) {nValueIn : Int}
    (hin : params.moneyRange nValueIn = true) :
    checkFeeInt64 params vstate tx nValueIn = checkFee params vstate tx nValueIn := by
  have hlt := params.maxMoneyOut_lt
  have hout := htx.valueOut_nonneg
  have htotal := htx.total
  rw [CChainParams.moneyRange_iff] at hin
  have hfee : wrapInt64 (nValueIn - tx.valueOut) = nValueIn - tx.valueOut :=
    wrapInt64_of_range _ (by omega) (by omega)
  unfold checkFeeInt64 checkFee
  rw [htx.getValueOut_eq]
  simp only [expect]
  rw [ok_bind, ok_bind, hfee, Int.zero_add, hfee]

theorem moneyRange_of_accumulate {nSpendHeight : Int} {txins : List CTxIn} {nValueIn : Int}
    (h : accumulate (checkInputValue params vstate v nSpendHeight) 0 txins =
      Except.ok nValueIn) : params.moneyRange nValueIn = true := by
  have hround : forall (_ : List CTxIn) (acc : Int) (txin : CTxIn) (acc' : Int),
      params.moneyRange acc = true ->
      checkInputValue params vstate v nSpendHeight acc txin = Except.ok acc' ->
      params.moneyRange acc' = true :=
    fun _ _ _ _ _ hone => moneyRange_of_checkInputValue hone
  exact accumulate_invariant hround txins [] 0 nValueIn CChainParams.moneyRange_zero h

theorem checkInputsInt64_eq {node : NodeState} (hview : ViewInRange node.params v)
    (htx : CheckedTransaction node.params tx) (fScriptChecks : Bool) (flags : ScriptFlags) :
    checkInputsInt64 node vstate v tx fScriptChecks flags =
      checkInputs node vstate v tx fScriptChecks flags := by
  unfold checkInputsInt64 checkInputs
  have hloop : forall nSpendHeight : Int,
      accumulate (checkInputValueInt64 node.params vstate v nSpendHeight) 0 tx.vin =
        accumulate (checkInputValue node.params vstate v nSpendHeight) 0 tx.vin :=
    fun nSpendHeight => accumulate_congr
      (fun _ txin hacc => checkInputValueInt64_eq hview hacc txin)
      (fun _ _ _ _ hone => moneyRange_of_checkInputValue hone) tx.vin 0
      CChainParams.moneyRange_zero
  congr 1
  refine bind_congr fun _ => bind_congr fun pindexPrev => ?_
  rw [hloop]
  cases hin : accumulate (checkInputValue node.params vstate v (pindexPrev.nHeight + 1)) 0
      tx.vin with
  | error err => rfl
  | ok nValueIn =>
      change (onlyIf _ (checkFeeInt64 node.params vstate tx nValueIn) >>= _) =
        (onlyIf _ (checkFee node.params vstate tx nValueIn) >>= _)
      rw [checkFeeInt64_eq htx (moneyRange_of_accumulate hin)]

end Checks

/-!
# Every sum on the way
-/

/-- The sums which `total += amount` makes, each before it is stored in `int64_t`. -/
def sumsMade : Int -> List Int -> List Int
  | _, [] => []
  | total, amount :: rest => (total + amount) :: sumsMade (wrapInt64 (total + amount)) rest

/-- Amounts which are not negative never add up to more than their sum on the way. -/
theorem inInt64_of_mem_sumsMade {amounts : List Int}
    (hnonneg : forall n, n ∈ amounts -> 0 ≤ n) :
    forall {total : Int}, 0 ≤ total -> total + amounts.sum < 9223372036854775808 ->
      forall n, n ∈ sumsMade total amounts -> InInt64 n := by
  induction amounts with
  | nil =>
      intro total _ _ n hmem
      cases hmem
  | cons amount rest ih =>
      intro total htotal hlt n hmem
      have hamount := hnonneg amount List.mem_cons_self
      have hothers : forall m, m ∈ rest -> 0 ≤ m :=
        fun m hm => hnonneg m (List.mem_cons_of_mem _ hm)
      have hrest := List.sum_nonneg hothers
      rw [List.sum_cons] at hlt
      have hone : InInt64 (total + amount) := ⟨by omega, by omega⟩
      rw [sumsMade, List.mem_cons, wrapInt64_of_range _ hone.1 hone.2] at hmem
      rcases hmem with rfl | hmem
      · exact hone
      · exact ih hothers (by omega) (by omega) n hmem

section Ordinary

variable {state : Type} [CoinsState state]

/-- What a transaction which passes spends and pays out, and how its totals are computed. -/
structure KeepsValue (params : CChainParams) (v : state) (tx : CTransaction) : Prop where
  distinct : tx.prevouts.Nodup
  available : forall txin, txin ∈ tx.vin -> exists out, unspentAt v txin.prevout = some out
  covers : (tx.vout.map CTxOut.nValue).sum ≤ (tx.vin.map (inputValue v)).sum
  outputSums : forall n, n ∈ sumsMade 0 (tx.vout.map CTxOut.nValue) -> InInt64 n
  inputSums : forall n, n ∈ sumsMade 0 (tx.vin.map (inputValue v)) -> InInt64 n
  feeSum : InInt64 ((tx.vin.map (inputValue v)).sum - (tx.vout.map CTxOut.nValue).sum)
  getValueOut_eq : tx.getValueOut = some (tx.vout.map CTxOut.nValue).sum
  getValueIn_eq : getValueIn v tx = some (tx.vin.map (inputValue v)).sum

theorem spentValue_of_ordinary {v : state} {tx : CTransaction} (hcb : tx.isCoinBase = false) :
    spentValue v tx = (tx.vin.map (inputValue v)).sum := by
  unfold spentValue
  rw [if_neg (by rw [hcb]; exact Bool.false_ne_true)]

theorem available_of_haveInputs {v : state} {tx : CTransaction} (hcb : tx.isCoinBase = false)
    (h : haveInputs v tx = true) {txin : CTxIn} (hmem : txin ∈ tx.vin) :
    exists out, unspentAt v txin.prevout = some out := by
  unfold haveInputs at h
  rw [hcb, Bool.false_or, List.all_eq_true] at h
  have hone := h txin hmem
  rw [CCoins.isAvailable_eq] at hone
  exact Option.isSome_iff_exists.mp hone

theorem ordinary_keepsValue {node : NodeState} {vstate vstate' : CValidationState} {v : state}
    {tx : CTransaction} {fScriptChecks : Bool} {flags : ScriptFlags}
    (hview : ViewInRange node.params v) (hcb : tx.isCoinBase = false)
    (hcs : tx.isCoinStake = false)
    (htx : checkTransactionInt64 node.params vstate tx = Except.ok ())
    (hin : checkInputsInt64 node vstate' v tx fScriptChecks flags = Except.ok ()) :
    KeepsValue node.params v tx := by
  rw [checkTransactionInt64_eq] at htx
  have hchecked := checkedTransaction_of_ok htx
  rw [checkInputsInt64_eq hview hchecked] at hin
  have hinputs := checkedInputs_of_ok hchecked hcb hin
  have hhave : haveInputs v tx = true := by
    unfold checkInputs at hin
    have hall := onlyIf_eq_ok_iff.mp hin (by rw [hcb]; rfl)
    exact require_eq_ok_iff.mp (then_eq_ok_iff.mp hall).1
  have havail : forall txin, txin ∈ tx.vin ->
      exists out, unspentAt v txin.prevout = some out :=
    fun txin hmem => available_of_haveInputs hcb hhave hmem
  have hspent := spentValue_of_ordinary (v := v) hcb
  have hlt := node.params.maxMoneyOut_lt
  have hout : (0 : Int) ≤ (tx.vout.map CTxOut.nValue).sum := hchecked.valueOut_nonneg
  have htotal : (tx.vout.map CTxOut.nValue).sum ≤ node.params.nMaxMoneyOut := hchecked.total
  have hnonneg := hinputs.nonneg
  have hmax := hinputs.le_max
  have hcovers : (tx.vout.map CTxOut.nValue).sum ≤ spentValue v tx := hinputs.covers hcb hcs
  rw [hspent] at hnonneg hmax hcovers
  refine ⟨hchecked.nodup, havail, hcovers, ?_, ?_, ⟨by omega, by omega⟩,
    hchecked.getValueOut_eq, ?_⟩
  · refine inInt64_of_mem_sumsMade ?_ (Int.le_refl 0) (by omega)
    intro n hmem
    rcases List.mem_map.mp hmem with ⟨out, hout, rfl⟩
    exact (hchecked.values out hout).1
  · refine inInt64_of_mem_sumsMade ?_ (Int.le_refl 0) (by omega)
    intro n hmem
    rcases List.mem_map.mp hmem with ⟨txin, htxin, rfl⟩
    rcases havail txin htxin with ⟨out, hunspent⟩
    have hget : getOutputFor v txin = some out := hunspent
    unfold inputValue
    rw [hget]
    exact (CChainParams.moneyRange_iff.mp (hview txin.prevout out hunspent)).1
  · rw [hinputs.getValueIn_eq, hspent]

end Ordinary

open SupplyExample in
theorem spender_keepsValue :
    ViewInRange node.params view ∧ spender.isCoinBase = false ∧ spender.isCoinStake = false ∧
      checkTransactionInt64 node.params {} spender = Except.ok () ∧
      checkInputsInt64 node {} view spender true { p2sh := true, dersig := true } =
        Except.ok () ∧
      KeepsValue node.params view spender := by
  have hview : ViewInRange node.params view :=
    AccumulatorsExample.viewInRange_single (by decide +kernel)
  have htx : checkTransactionInt64 node.params {} spender = Except.ok () := by decide +kernel
  have hin : checkInputsInt64 node {} view spender true { p2sh := true, dersig := true } =
      Except.ok () := by decide +kernel
  exact ⟨hview, rfl, rfl, htx, hin, ordinary_keepsValue hview rfl rfl htx hin⟩

end Hbcur
