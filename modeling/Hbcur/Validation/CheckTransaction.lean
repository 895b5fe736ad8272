import Mathlib.Algebra.Order.BigOperators.Group.List
import Hbcur.Foundation.Checks
import Hbcur.Script.SigOps
import Hbcur.Validation.Context

/-!
# Context-free checks of a transaction

`CheckTransaction` of `main.cpp` with the sizes and totals it is stated in.
-/

namespace Hbcur

open Foundation Serialize

def MAX_BLOCK_SIZE : Nat := 4000000

def MAX_BLOCK_SIGOPS : Nat := MAX_BLOCK_SIZE / 50

/-!
# Serialized sizes
-/

def sizeOfBytes (bytes : List UInt8) : Nat :=
  (writeCompactSize bytes.length).length + bytes.length

namespace CTxIn

def getSerializeSize (txin : CTxIn) : Nat :=
  36 + sizeOfBytes txin.scriptSig + 4

end CTxIn

namespace CTxOut

def getSerializeSize (txout : CTxOut) : Nat :=
  8 + sizeOfBytes txout.scriptPubKey

end CTxOut

namespace CTransaction

def getSerializeSize (tx : CTransaction) : Nat :=
  4 + (writeCompactSize tx.vin.length).length +
    (tx.vin.map CTxIn.getSerializeSize).sum +
    (writeCompactSize tx.vout.length).length +
    (tx.vout.map CTxOut.getSerializeSize).sum + 4

/-!
# Totals

`GetValueOut` throws on a negative value and on a sum which wraps.
-/

def valueOutFrom : Int -> List CTxOut -> Option Int
  | nValueOut, [] => some nValueOut
  | nValueOut, out :: rest =>
      if out.nValue < 0 then none
      else if wrapInt64 (nValueOut + out.nValue) < nValueOut then none
      else valueOutFrom (wrapInt64 (nValueOut + out.nValue)) rest

def getValueOut (tx : CTransaction) : Option Int :=
  valueOutFrom 0 tx.vout

/-- The total of the outputs as a plain sum. -/
def valueOut (tx : CTransaction) : Int :=
  (tx.vout.map CTxOut.nValue).sum

end CTransaction

/-!
# The checks
-/

def checkOutput (params : CChainParams) (state : CValidationState) (tx : CTransaction)
    (nValueOut : Int) (txout : CTxOut) : Except Failure Int := do
  require (!(txout.isEmpty && !tx.isCoinBase && !tx.isCoinStake)) (Failure.dos state 100)
  require (!decide (txout.nValue < 0))
    (Failure.dos state 100 RejectCode.invalid "bad-txns-vout-negative")
  require (!decide (txout.nValue > params.nMaxMoneyOut))
    (Failure.dos state 100 RejectCode.invalid "bad-txns-vout-toolarge")
  require (params.moneyRange (nValueOut + txout.nValue))
    (Failure.dos state 100 RejectCode.invalid "bad-txns-txouttotal-toolarge")
  Except.ok (nValueOut + txout.nValue)

def checkInputForm (state : CValidationState) (tx : CTransaction) : Except Failure Unit :=
  if tx.isCoinBase then
    forEach (fun txin => require
      (!(decide (txin.scriptSig.length < 2) || decide (txin.scriptSig.length > 150)))
      (Failure.dos state 100 RejectCode.invalid "bad-cb-length")) (tx.vin.take 1)
  else
    forEach (fun txin => require (!txin.prevout.isNull)
      (Failure.dos state 10 RejectCode.invalid "bad-txns-prevout-null")) tx.vin

def checkTransaction (params : CChainParams) (state : CValidationState)
    (tx : CTransaction) : Except Failure Unit := do
  require (!tx.vin.isEmpty)
    (Failure.dos state 10 RejectCode.invalid "bad-txns-vin-empty")
  require (!tx.vout.isEmpty)
    (Failure.dos state 10 RejectCode.invalid "bad-txns-vout-empty")
  require (!decide (tx.getSerializeSize > MAX_BLOCK_SIZE))
    (Failure.dos state 100 RejectCode.invalid "bad-txns-oversize")
  let _ ← accumulate (checkOutput params state tx) 0 tx.vout
  require (decide tx.prevouts.Nodup)
    (Failure.dos state 100 RejectCode.invalid "bad-txns-inputs-duplicate")
  checkInputForm state tx

/-!
# What a checked transaction satisfies
-/

structure CheckedTransaction (params : CChainParams) (tx : CTransaction) : Prop where
  vin_ne_nil : tx.vin ≠ []
  vout_ne_nil : tx.vout ≠ []
  values : forall out, out ∈ tx.vout -> 0 ≤ out.nValue ∧ out.nValue ≤ params.nMaxMoneyOut
  total : tx.valueOut ≤ params.nMaxMoneyOut
  nodup : tx.prevouts.Nodup
  prevout_ne_null : tx.isCoinBase = false ->
    forall txin, txin ∈ tx.vin -> txin.prevout.isNull = false

/-- What the loop over the outputs has established about those it has seen. -/
def OutputsSeen (params : CChainParams) (done : List CTxOut) (nValueOut : Int) : Prop :=
  nValueOut = (done.map CTxOut.nValue).sum ∧ params.moneyRange nValueOut = true ∧
    forall out, out ∈ done -> 0 ≤ out.nValue ∧ out.nValue ≤ params.nMaxMoneyOut

theorem outputsSeen_nil (params : CChainParams) : OutputsSeen params [] 0 := by
  refine ⟨rfl, CChainParams.moneyRange_iff.mpr ⟨Int.le_refl 0, ?_⟩, ?_⟩
  · exact params.maxMoneyOut_nonneg
  · intro out hmem
    cases hmem

theorem outputsSeen_step (params : CChainParams) {state : CValidationState}
    {tx : CTransaction} (done : List CTxOut) (acc : Int) (out : CTxOut) (acc' : Int)
    (hseen : OutputsSeen params done acc)
    (h : checkOutput params state tx acc out = Except.ok acc') :
    OutputsSeen params (done ++ [out]) acc' := by
  simp only [checkOutput, bind_eq_ok_iff, require_eq_ok_iff, Except.ok.injEq,
    exists_and_left, exists_const] at h
  rcases h with ⟨_, hneg, hhigh, hrange, hacc⟩
  rcases hseen with ⟨hsum, _, hvalues⟩
  subst hacc
  refine ⟨?_, hrange, ?_⟩
  · rw [List.map_append, List.sum_append, hsum]
    simp
  · intro o hmem
    rcases List.mem_append.mp hmem with hold | hnew
    · exact hvalues o hold
    · rw [List.mem_singleton.mp hnew]
      simp only [Bool.not_eq_eq_eq_not, Bool.not_true, decide_eq_false_iff_not] at hneg hhigh
      omega

theorem checkedTransaction_of_ok {params : CChainParams} {state : CValidationState}
    {tx : CTransaction} (h : checkTransaction params state tx = Except.ok ()) :
    CheckedTransaction params tx := by
  simp only [checkTransaction, bind_eq_ok_iff, require_eq_ok_iff, exists_const] at h
  rcases h with ⟨hvin, hvout, _, total, houts, hnodup, hform⟩
  have hseen := accumulate_invariant (outputsSeen_step params) tx.vout [] 0 total
    (outputsSeen_nil params) houts
  rw [List.nil_append] at hseen
  rcases hseen with ⟨hsum, hrange, hvalues⟩
  refine ⟨?_, ?_, hvalues, ?_, of_decide_eq_true hnodup, ?_⟩
  · intro hnil
    rw [hnil] at hvin
    cases hvin
  · intro hnil
    rw [hnil] at hvout
    cases hvout
  · have hle := (CChainParams.moneyRange_iff.mp hrange).2
    rw [hsum] at hle
    exact hle
  · intro hcb txin hmem
    rw [checkInputForm, if_neg (by rw [hcb]; exact Bool.false_ne_true)] at hform
    have hone := forEach_eq_ok_iff.mp hform txin hmem
    rw [require_eq_ok_iff] at hone
    simpa using hone

/-!
# Totals of checked transactions
-/

theorem sum_nonneg_of_values {outs : List CTxOut}
    (h : forall out, out ∈ outs -> 0 ≤ out.nValue) : 0 ≤ (outs.map CTxOut.nValue).sum := by
  apply List.sum_nonneg
  intro n hn
  rcases List.mem_map.mp hn with ⟨out, hmem, rfl⟩
  exact h out hmem

/-- The total does not wrap as long as the plain sum stays in range. -/
theorem valueOutFrom_eq (bound : Int) (hbound : bound < 9223372036854775808) :
    forall (outs : List CTxOut) (acc : Int), 0 ≤ acc ->
      (forall out, out ∈ outs -> 0 ≤ out.nValue) ->
      acc + (outs.map CTxOut.nValue).sum ≤ bound ->
      CTransaction.valueOutFrom acc outs = some (acc + (outs.map CTxOut.nValue).sum) := by
  intro outs
  induction outs with
  | nil =>
      intro acc _ _ _
      simp [CTransaction.valueOutFrom]
  | cons out rest ih =>
      intro acc hacc hvalues htotal
      have hout := hvalues out List.mem_cons_self
      have hrest := sum_nonneg_of_values fun o ho => hvalues o (List.mem_cons_of_mem _ ho)
      rw [List.map_cons, List.sum_cons] at htotal ⊢
      have hwrap : wrapInt64 (acc + out.nValue) = acc + out.nValue :=
        wrapInt64_of_range _ (by omega) (by omega)
      rw [CTransaction.valueOutFrom, if_neg (by omega), hwrap, if_neg (by omega)]
      rw [ih _ (by omega) (fun o ho => hvalues o (List.mem_cons_of_mem _ ho)) (by omega)]
      rw [Int.add_assoc]

namespace CheckedTransaction

variable {params : CChainParams} {tx : CTransaction}

theorem valueOut_nonneg (h : CheckedTransaction params tx) : 0 ≤ tx.valueOut :=
  sum_nonneg_of_values fun out hmem => (h.values out hmem).1

theorem getValueOut_eq (h : CheckedTransaction params tx) :
    tx.getValueOut = some tx.valueOut := by
  have hlt := params.maxMoneyOut_lt
  have htotal := h.total
  have heq := valueOutFrom_eq params.nMaxMoneyOut (by omega) tx.vout 0
    (Int.le_refl 0) (fun out hmem => (h.values out hmem).1)
    (by rw [Int.zero_add]; exact htotal)
  rw [Int.zero_add] at heq
  exact heq

end CheckedTransaction

/-!
# When a transaction passes
-/

/-- The report which is passed in does not matter. -/
theorem checkTransaction_report {params : CChainParams} {state : CValidationState}
    (state' : CValidationState) {tx : CTransaction}
    (h : checkTransaction params state tx = Except.ok ()) :
    checkTransaction params state' tx = Except.ok () := by
  refine SucceedsWith.bind (SucceedsWith.require id) (fun _ => ?_) () h
  refine SucceedsWith.bind (SucceedsWith.require id) fun _ => ?_
  refine SucceedsWith.bind (SucceedsWith.require id) fun _ => ?_
  refine SucceedsWith.bind (SucceedsWith.accumulate (fun acc out => ?_) tx.vout 0) fun _ => ?_
  · refine SucceedsWith.bind (SucceedsWith.require id) fun _ => ?_
    refine SucceedsWith.bind (SucceedsWith.require id) fun _ => ?_
    refine SucceedsWith.bind (SucceedsWith.require id) fun _ => ?_
    exact SucceedsWith.bind (SucceedsWith.require id) fun _ => SucceedsWith.refl _
  · refine SucceedsWith.bind (SucceedsWith.require id) fun _ => ?_
    refine SucceedsWith.ite (SucceedsWith.forEach fun _ => ?_) (SucceedsWith.forEach fun _ => ?_)
    · exact SucceedsWith.require id
    · exact SucceedsWith.require id

theorem accumulate_checkOutput {params : CChainParams} {state : CValidationState}
    {tx : CTransaction} (hcb : tx.isCoinBase = true) :
    forall (outs : List CTxOut) (acc : Int), 0 ≤ acc ->
      (forall out, out ∈ outs -> 0 ≤ out.nValue) ->
      acc + (outs.map CTxOut.nValue).sum ≤ params.nMaxMoneyOut ->
      exists total, accumulate (checkOutput params state tx) acc outs = Except.ok total := by
  intro outs
  induction outs with
  | nil =>
      intro acc _ _ _
      exact ⟨acc, rfl⟩
  | cons out rest ih =>
      intro acc hacc hvalues htotal
      have hout := hvalues out List.mem_cons_self
      have hothers := fun o ho => hvalues o (List.mem_cons_of_mem out ho)
      have hrest := sum_nonneg_of_values hothers
      rw [List.map_cons, List.sum_cons] at htotal
      have hone : checkOutput params state tx acc out = Except.ok (acc + out.nValue) := by
        simp only [checkOutput, then_eq_ok_iff, require_eq_ok_iff, and_true]
        refine ⟨by simp [hcb], ?_, ?_, CChainParams.moneyRange_iff.mpr ⟨?_, ?_⟩⟩
        · rw [Bool.not_eq_true', decide_eq_false_iff_not]
          omega
        · rw [Bool.not_eq_true', decide_eq_false_iff_not]
          omega
        · omega
        · omega
      rcases ih (acc + out.nValue) (by omega) hothers (by omega) with ⟨total, hloop⟩
      exact ⟨total, bind_eq_ok_iff.mpr ⟨_, hone, hloop⟩⟩

/-- A coinbase passes by its amounts, its size and the length of its script. -/
theorem checkTransaction_coinBase {params : CChainParams} {state : CValidationState}
    {tx : CTransaction} {txin : CTxIn} (hvin : tx.vin = [txin])
    (hnull : txin.prevout.isNull = true)
    (hscript : 2 ≤ txin.scriptSig.length ∧ txin.scriptSig.length ≤ 150) (hvout : tx.vout ≠ [])
    (hvalues : forall out, out ∈ tx.vout -> 0 ≤ out.nValue)
    (htotal : tx.valueOut ≤ params.nMaxMoneyOut) (hsize : tx.getSerializeSize ≤ MAX_BLOCK_SIZE) :
    checkTransaction params state tx = Except.ok () := by
  have hcb : tx.isCoinBase = true := by
    unfold CTransaction.isCoinBase
    rw [hvin]
    exact hnull
  unfold CTransaction.valueOut at htotal
  have houts : exists total, accumulate (checkOutput params state tx) 0 tx.vout =
      Except.ok total :=
    accumulate_checkOutput hcb tx.vout 0 (Int.le_refl 0) hvalues (by omega)
  rcases houts with ⟨total, hloop⟩
  simp only [checkTransaction, bind_eq_ok_iff, require_eq_ok_iff, exists_const, hvin]
  refine ⟨rfl, ?_, ?_, total, hloop, ?_, ?_⟩
  · simpa using hvout
  · rw [Bool.not_eq_true', decide_eq_false_iff_not]
    omega
  · unfold CTransaction.prevouts
    rw [hvin]
    simp
  · rw [checkInputForm, if_pos hcb, hvin]
    simp only [List.take_succ_cons, List.take_zero, forEach_eq_ok_iff, List.mem_singleton,
      forall_eq, require_eq_ok_iff]
    simp only [Bool.not_eq_true', Bool.or_eq_false_iff, decide_eq_false_iff_not]
    omega

end Hbcur
