import Hbcur.Foundation.Choosing
import Hbcur.Serialize.Integers

/-!
# The approximate best subset

`ApproximateBestSubset` of `wallet.cpp`.  Amounts are 64-bit integers, whose sums wrap; the
random bit which is drawn for an item in the first pass of a repetition is an argument.
-/

namespace Hbcur

open Foundation Serialize

/-- A value with the transaction of the wallet, as a pointer, and the output which has it. -/
structure Coin where
  first : Int
  second : Nat × Nat
  deriving DecidableEq, Repr

namespace ApproximateBestSubset

/-- The variables of the loops. -/
structure Search where
  vfIncluded : List Bool
  nTotal : Int
  fReachedTarget : Bool
  vfBest : List Bool
  nBest : Int

/-- An item is included, and taken out again if the target is reached with it. -/
def tryItem (nTargetValue : Int) (i : Nat) (coin : Coin) (s : Search) : Search :=
  let nTotal := wrapInt64 (s.nTotal + coin.first)
  let vfIncluded := s.vfIncluded.set i true
  if nTargetValue ≤ nTotal then
    { vfIncluded := vfIncluded.set i false
      nTotal := wrapInt64 (nTotal - coin.first)
      fReachedTarget := true
      vfBest := if nTotal < s.nBest then vfIncluded else s.vfBest
      nBest := if nTotal < s.nBest then nTotal else s.nBest }
  else { s with vfIncluded := vfIncluded, nTotal := nTotal }

/-- `nPass == 0 ? insecure_rand() & 1 : !vfIncluded[i]` -/
def isTried (draw : Nat -> Bool) (nPass i : Nat) (s : Search) : Bool :=
  if nPass = 0 then draw i else !s.vfIncluded.getD i false

def passLoop (nTargetValue : Int) (draw : Nat -> Bool) (nPass : Nat) :
    List Coin -> Nat -> Search -> Search
  | [], _, s => s
  | coin :: vValue, i, s =>
      passLoop nTargetValue draw nPass vValue (i + 1)
        (if isTried draw nPass i s then tryItem nTargetValue i coin s else s)

/-- Two passes, the second only if the first has not reached the target. -/
def repetition (vValue : List Coin) (nTargetValue : Int) (draw : Nat -> Bool) (s : Search) :
    Search :=
  let s := { s with
    vfIncluded := List.replicate vValue.length false
    nTotal := 0
    fReachedTarget := false }
  let s := passLoop nTargetValue draw 0 vValue 0 s
  if !s.fReachedTarget then passLoop nTargetValue draw 1 vValue 0 s else s

def repetitionLoop (vValue : List Coin) (nTargetValue : Int) (draws : Nat -> Nat -> Bool) :
    Nat -> Nat -> Search -> Search
  | 0, _, s => s
  | rounds + 1, nRep, s =>
      if s.nBest ≠ nTargetValue then
        repetitionLoop vValue nTargetValue draws rounds (nRep + 1)
          (repetition vValue nTargetValue (draws nRep) s)
      else s

end ApproximateBestSubset

open ApproximateBestSubset in
/-- `vfBest` and `nBest`, for the bits drawn in each repetition for each item. -/
def approximateBestSubset (vValue : List Coin) (nTotalLower nTargetValue : Int)
    (draws : Nat -> Nat -> Bool) (iterations : Nat) : List Bool × Int :=
  let s := repetitionLoop vValue nTargetValue draws iterations 0
    { vfIncluded := []
      nTotal := 0
      fReachedTarget := false
      vfBest := List.replicate vValue.length true
      nBest := nTotalLower }
  (s.vfBest, s.nBest)

namespace ApproximateBestSubset

/-!
# The running total, the flags and the best sum
-/

def sumOf (coins : List Coin) : Int := (coins.map Coin.first).sum

/-- Flags for each item, whose choice reaches the target with a given sum. -/
structure Reaches (vValue : List Coin) (nTargetValue : Int) (flags : List Bool) (sum : Int) :
    Prop where
  length_eq : flags.length = vValue.length
  sum_eq : sum = sumOf (chosen vValue flags)
  target_le : nTargetValue ≤ sum

/-- The invariant of the loops; what was found first is what all items add up to. -/
structure Consistent (vValue : List Coin) (nTargetValue : Int) (s : Search) : Prop where
  length_eq : s.vfIncluded.length = vValue.length
  total_eq : s.nTotal = sumOf (chosen vValue s.vfIncluded)
  best : Reaches vValue nTargetValue s.vfBest s.nBest

section Loops

variable {vValue : List Coin} {nTargetValue : Int} {s : Search}
  (hnonneg : forall coin, coin ∈ vValue -> 0 ≤ coin.first)
  (hsum : sumOf vValue < 9223372036854775808)

include hnonneg hsum

/-- Sums of chosen items do not wrap. -/
theorem wrapInt64_sumOf (flags : List Bool) :
    wrapInt64 (sumOf (chosen vValue flags)) = sumOf (chosen vValue flags) := by
  have hle := sum_chosen_le Coin.first flags hnonneg
  have hpos := sum_chosen_nonneg Coin.first flags hnonneg
  unfold sumOf at hsum ⊢
  exact wrapInt64_of_range _ (by omega) (by omega)

theorem consistent_tryItem {i : Nat} {coin : Coin} (h : Consistent vValue nTargetValue s)
    (hcoin : vValue[i]? = some coin) (hflag : s.vfIncluded[i]? = some false) :
    Consistent vValue nTargetValue (tryItem nTargetValue i coin s) := by
  have hincluded : wrapInt64 (s.nTotal + coin.first) =
      sumOf (chosen vValue (s.vfIncluded.set i true)) := by
    have hset := sum_chosen_set Coin.first hcoin hflag
    rw [h.total_eq]
    unfold sumOf at hset ⊢
    rw [← hset]
    exact wrapInt64_sumOf hnonneg hsum _
  have hexcluded : wrapInt64 (wrapInt64 (s.nTotal + coin.first) - coin.first) = s.nTotal := by
    have hset := sum_chosen_set Coin.first hcoin hflag
    rw [hincluded, h.total_eq]
    unfold sumOf at hset ⊢
    rw [hset, Int.add_sub_cancel]
    exact wrapInt64_sumOf hnonneg hsum _
  have hlength : (s.vfIncluded.set i true).length = vValue.length := by
    rw [List.length_set, h.length_eq]
  unfold tryItem
  simp only
  split
  case isTrue hreached =>
    refine ⟨?_, ?_, ?_⟩
    · rw [List.length_set, hlength]
    · simp only
      rw [set_set_self hflag, hexcluded, h.total_eq]
    · split
      · exact ⟨hlength, hincluded, hreached⟩
      · exact h.best
  case isFalse => exact ⟨hlength, hincluded, h.best⟩

/-- In the first pass, the items which are still to come are not included. -/
theorem consistent_passLoop (draw : Nat -> Bool) (nPass : Nat) {rest : List Coin} {i : Nat}
    (hrest : vValue.drop i = rest) (h : Consistent vValue nTargetValue s)
    (hfresh : nPass = 0 -> forall j, i ≤ j -> j < vValue.length ->
      s.vfIncluded[j]? = some false) :
    Consistent vValue nTargetValue (passLoop nTargetValue draw nPass rest i s) := by
  induction rest generalizing i s with
  | nil => exact h
  | cons coin rest ih =>
      have hlt : i < vValue.length := by
        apply Nat.lt_of_not_le
        intro hle
        rw [List.drop_eq_nil_of_le hle] at hrest
        cases hrest
      have hparts := hrest
      rw [List.drop_eq_getElem_cons hlt, List.cons.injEq] at hparts
      have hcoin : vValue[i]? = some coin := by rw [List.getElem?_eq_getElem hlt, hparts.1]
      rw [passLoop]
      split
      case isTrue htried =>
        have hflag : s.vfIncluded[i]? = some false := by
          by_cases hpass : nPass = 0
          · exact hfresh hpass i (Nat.le_refl i) hlt
          · have hin : i < s.vfIncluded.length := h.length_eq.symm ▸ hlt
            rw [isTried, if_neg hpass, List.getD_eq_getElem?_getD, List.getElem?_eq_getElem hin,
              Option.getD_some, Bool.not_eq_true'] at htried
            rw [List.getElem?_eq_getElem hin, htried]
        apply ih hparts.2 (consistent_tryItem hnonneg hsum h hcoin hflag)
        intro hpass j hle hj
        have hsame : (tryItem nTargetValue i coin s).vfIncluded[j]? = s.vfIncluded[j]? := by
          have hne : i ≠ j := by omega
          unfold tryItem
          simp only
          split
          · rw [List.getElem?_set_ne hne, List.getElem?_set_ne hne]
          · rw [List.getElem?_set_ne hne]
        rw [hsame]
        exact hfresh hpass j (by omega) hj
      case isFalse =>
        apply ih hparts.2 h
        intro hpass j hle hj
        exact hfresh hpass j (by omega) hj

theorem reaches_repetition (draw : Nat -> Bool)
    (h : Reaches vValue nTargetValue s.vfBest s.nBest) :
    Reaches vValue nTargetValue (repetition vValue nTargetValue draw s).vfBest
      (repetition vValue nTargetValue draw s).nBest := by
  have hstart : Consistent vValue nTargetValue { s with
      vfIncluded := List.replicate vValue.length false
      nTotal := 0
      fReachedTarget := false } := by
    refine ⟨List.length_replicate, ?_, h⟩
    simp only
    rw [chosen_false]
    rfl
  have hfirst := consistent_passLoop hnonneg hsum draw 0 (i := 0) rfl hstart (by
    intro _ j _ hj
    exact List.getElem?_replicate_of_lt hj)
  unfold repetition
  simp only
  rw [List.drop_zero] at hfirst
  split
  · exact (consistent_passLoop hnonneg hsum draw 1 (i := 0) rfl hfirst nofun).best
  · exact hfirst.best

theorem reaches_repetitionLoop (draws : Nat -> Nat -> Bool) (rounds nRep : Nat)
    (h : Reaches vValue nTargetValue s.vfBest s.nBest) :
    Reaches vValue nTargetValue
      (repetitionLoop vValue nTargetValue draws rounds nRep s).vfBest
      (repetitionLoop vValue nTargetValue draws rounds nRep s).nBest := by
  induction rounds generalizing nRep s with
  | zero => exact h
  | succ rounds ih =>
      rw [repetitionLoop]
      split
      · exact ih (nRep + 1) (reaches_repetition hnonneg hsum (draws nRep) h)
      · exact h

/-- Where all items reach the target, so does the subset which is found. -/
theorem reaches_approximateBestSubset (draws : Nat -> Nat -> Bool) (iterations : Nat)
    (htarget : nTargetValue ≤ sumOf vValue) :
    Reaches vValue nTargetValue
      (approximateBestSubset vValue (sumOf vValue) nTargetValue draws iterations).1
      (approximateBestSubset vValue (sumOf vValue) nTargetValue draws iterations).2 := by
  apply reaches_repetitionLoop hnonneg hsum
  refine ⟨List.length_replicate, ?_, htarget⟩
  simp only
  rw [chosen_true]

end Loops

theorem Reaches.mono {vValue : List Coin} {nTargetValue nTargetValue' sum : Int}
    {flags : List Bool} (h : Reaches vValue nTargetValue flags sum)
    (hle : nTargetValue' ≤ nTargetValue) : Reaches vValue nTargetValue' flags sum :=
  ⟨h.length_eq, h.sum_eq, hle.trans h.target_le⟩

end ApproximateBestSubset
end Hbcur
