import Mathlib.Data.Nat.Bitwise
import Mathlib.Data.Nat.Size
import Mathlib.Tactic.Ring

/-!
# Natural numbers as lists of words

Numbers of a fixed size, as lists of `w`-bit words with the lowest word first.  The
operations are the loops of schoolbook arithmetic, and each has one lemma about values.
-/

namespace Hbcur
namespace Foundation
namespace Limbs

variable {w : Nat}

def value : List (BitVec w) -> Nat
  | [] => 0
  | x :: xs => x.toNat + 2 ^ w * value xs

@[simp]
theorem value_nil : value ([] : List (BitVec w)) = 0 := rfl

@[simp]
theorem value_cons (x : BitVec w) (xs : List (BitVec w)) :
    value (x :: xs) = x.toNat + 2 ^ w * value xs := rfl

theorem two_pow_mul_succ (w n : Nat) : 2 ^ (w * (n + 1)) = 2 ^ w * 2 ^ (w * n) := by
  rw [Nat.mul_succ, Nat.add_comm, Nat.pow_add]

theorem value_lt (xs : List (BitVec w)) : value xs < 2 ^ (w * xs.length) := by
  induction xs with
  | nil => exact Nat.one_pos
  | cons x xs ih =>
      have hx := x.isLt
      rw [value_cons, List.length_cons, two_pow_mul_succ]
      calc x.toNat + 2 ^ w * value xs < 2 ^ w + 2 ^ w * value xs := by omega
        _ = 2 ^ w * (value xs + 1) := by rw [Nat.mul_succ, Nat.add_comm]
        _ ≤ 2 ^ w * 2 ^ (w * xs.length) := Nat.mul_le_mul_left _ ih

/-- The low word of a number, followed by the words of its rest. -/
theorem mod_two_pow_succ (n w k : Nat) :
    n % 2 ^ w + 2 ^ w * (n / 2 ^ w % 2 ^ (w * k)) = n % 2 ^ (w * (k + 1)) := by
  rw [two_pow_mul_succ, Nat.mod_mul]

/-- The lowest words of a number. -/
def words : Nat -> Nat -> List (BitVec w)
  | 0, _ => []
  | count + 1, n => BitVec.ofNat w n :: words count (n / 2 ^ w)

theorem length_words (count : Nat) :
    forall n, (words count n : List (BitVec w)).length = count := by
  induction count with
  | zero => intro n; rfl
  | succ count ih =>
      intro n
      rw [words, List.length_cons, ih]

theorem value_words (count : Nat) :
    forall n, value (words count n : List (BitVec w)) = n % 2 ^ (w * count) := by
  induction count with
  | zero =>
      intro n
      simp [words, Nat.mod_one]
  | succ count ih =>
      intro n
      rw [words, value_cons, ih, BitVec.toNat_ofNat, mod_two_pow_succ]

/-!
# Multiplication by a word
-/

def mulLoop (factor : Nat) : Nat -> List (BitVec w) -> List (BitVec w)
  | _, [] => []
  | carry, x :: xs =>
      let n := carry + factor * x.toNat
      BitVec.ofNat w n :: mulLoop factor (n / 2 ^ w) xs

theorem length_mulLoop (factor : Nat) (xs : List (BitVec w)) :
    forall carry, (mulLoop factor carry xs).length = xs.length := by
  induction xs with
  | nil => intro carry; rfl
  | cons x xs ih =>
      intro carry
      rw [mulLoop, List.length_cons, List.length_cons, ih]

theorem value_mulLoop (factor : Nat) (xs : List (BitVec w)) :
    forall carry, value (mulLoop factor carry xs) =
      (carry + factor * value xs) % 2 ^ (w * xs.length) := by
  induction xs with
  | nil =>
      intro carry
      simp [mulLoop, Nat.mod_one]
  | cons x xs ih =>
      intro carry
      rw [mulLoop, value_cons, ih, BitVec.toNat_ofNat, List.length_cons]
      have hsplit : carry + factor * value (x :: xs) =
          (carry + factor * x.toNat) + 2 ^ w * (factor * value xs) := by
        rw [value_cons]
        ring
      rw [hsplit, ← mod_two_pow_succ, Nat.add_mul_mod_self_left,
        Nat.add_mul_div_left _ _ (Nat.two_pow_pos w)]

/-!
# Addition and subtraction
-/

def addLoop : Nat -> List (BitVec w) -> List (BitVec w) -> List (BitVec w)
  | carry, x :: xs, y :: ys =>
      let n := carry + x.toNat + y.toNat
      BitVec.ofNat w n :: addLoop (n / 2 ^ w) xs ys
  | _, _, _ => []

theorem length_addLoop (xs : List (BitVec w)) :
    forall carry ys, ys.length = xs.length -> (addLoop carry xs ys).length = xs.length := by
  induction xs with
  | nil => intro carry ys _; cases ys <;> rfl
  | cons x xs ih =>
      intro carry ys hlen
      cases ys with
      | nil => cases hlen
      | cons y ys =>
          rw [addLoop, List.length_cons, List.length_cons, ih _ ys (Nat.succ.inj hlen)]

theorem value_addLoop (xs : List (BitVec w)) :
    forall carry ys, ys.length = xs.length -> value (addLoop carry xs ys) =
      (carry + value xs + value ys) % 2 ^ (w * xs.length) := by
  induction xs with
  | nil =>
      intro carry ys hlen
      cases ys with
      | nil => simp [addLoop, Nat.mod_one]
      | cons y ys => cases hlen
  | cons x xs ih =>
      intro carry ys hlen
      cases ys with
      | nil => cases hlen
      | cons y ys =>
          rw [addLoop, value_cons, ih _ ys (Nat.succ.inj hlen), BitVec.toNat_ofNat,
            List.length_cons]
          have hsplit : carry + value (x :: xs) + value (y :: ys) =
              (carry + x.toNat + y.toNat) + 2 ^ w * (value xs + value ys) := by
            rw [value_cons, value_cons]
            ring
          rw [hsplit, ← mod_two_pow_succ, Nat.add_mul_mod_self_left,
            Nat.add_mul_div_left _ _ (Nat.two_pow_pos w), ← Nat.add_assoc]

/-- Add one, with the carry running up as long as words become zero. -/
def incLoop : List (BitVec w) -> List (BitVec w)
  | [] => []
  | x :: xs => if x + 1#w = 0#w then (x + 1#w) :: incLoop xs else (x + 1#w) :: xs

theorem length_incLoop (xs : List (BitVec w)) : (incLoop xs).length = xs.length := by
  induction xs with
  | nil => rfl
  | cons x xs ih =>
      rw [incLoop]
      split_ifs
      · rw [List.length_cons, List.length_cons, ih]
      · rfl

theorem value_map_not (xs : List (BitVec w)) :
    value (xs.map (fun x => ~~~x)) + value xs + 1 = 2 ^ (w * xs.length) := by
  induction xs with
  | nil => rfl
  | cons x xs ih =>
      have hx := x.isLt
      rw [List.map_cons, value_cons, value_cons, BitVec.toNat_not, List.length_cons,
        two_pow_mul_succ, ← ih]
      rw [Nat.mul_add, Nat.mul_add, Nat.mul_one]
      omega

theorem value_incLoop (xs : List (BitVec w)) :
    value (incLoop xs) = (value xs + 1) % 2 ^ (w * xs.length) := by
  induction xs with
  | nil => simp [incLoop]
  | cons x xs ih =>
      have hx := x.isLt
      have hsum : (x + 1#w).toNat = (x.toNat + 1) % 2 ^ w := by
        rw [BitVec.toNat_add, BitVec.toNat_ofNat, Nat.add_mod_mod]
      have hshift : value (x :: xs) + 1 = (x.toNat + 1) + 2 ^ w * value xs := by
        rw [value_cons]
        omega
      rw [incLoop, List.length_cons, hshift, ← mod_two_pow_succ, Nat.add_mul_mod_self_left,
        Nat.add_mul_div_left _ _ (Nat.two_pow_pos w), ← hsum]
      split_ifs with hzero
      · -- the word was all ones, and the carry goes on
        rw [hzero, BitVec.toNat_zero] at hsum
        have hfull : x.toNat + 1 = 2 ^ w := by
          have hdvd := Nat.le_of_dvd (Nat.succ_pos _) (Nat.dvd_of_mod_eq_zero hsum.symm)
          omega
        rw [value_cons, ih, hfull, Nat.div_self (Nat.two_pow_pos w), Nat.add_comm 1]
      · have hlt : x.toNat + 1 < 2 ^ w := by
          by_contra hge
          apply hzero
          apply BitVec.eq_of_toNat_eq
          have hfull : x.toNat + 1 = 2 ^ w := by omega
          rw [hsum, hfull, Nat.mod_self, BitVec.toNat_zero]
        rw [value_cons, Nat.div_eq_of_lt hlt, Nat.zero_add, Nat.mod_eq_of_lt (value_lt xs)]

/-- Two's complement. -/
def negWords (xs : List (BitVec w)) : List (BitVec w) := incLoop (xs.map (fun x => ~~~x))

theorem length_negWords (xs : List (BitVec w)) : (negWords xs).length = xs.length := by
  rw [negWords, length_incLoop, List.length_map]

theorem value_addLoop_negWords {xs ys : List (BitVec w)} (hlen : ys.length = xs.length)
    (hle : value ys ≤ value xs) : value (addLoop 0 xs (negWords ys)) = value xs - value ys := by
  have hnot := value_map_not ys
  have hxs := value_lt xs
  rw [value_addLoop _ _ _ ((length_negWords ys).trans hlen), negWords, value_incLoop,
    List.length_map, hlen, Nat.add_mod_mod, Nat.zero_add]
  rw [hlen] at hnot
  have hsum : value xs + (value (ys.map (fun x => ~~~x)) + 1) =
      (value xs - value ys) + 2 ^ (w * xs.length) := by
    omega
  rw [hsum, Nat.add_mod_right, Nat.mod_eq_of_lt (by omega)]

/-!
# Comparison
-/

/-- Compare from the highest word down. -/
def compareWords : List (BitVec w) -> List (BitVec w) -> Ordering
  | x :: xs, y :: ys => (compareWords xs ys).then (compare x.toNat y.toNat)
  | _, _ => Ordering.eq

theorem compareWords_eq (xs : List (BitVec w)) :
    forall ys, ys.length = xs.length ->
      compareWords xs ys = compare (value xs) (value ys) := by
  induction xs with
  | nil =>
      intro ys hlen
      cases ys with
      | nil => rfl
      | cons y ys => cases hlen
  | cons x xs ih =>
      intro ys hlen
      cases ys with
      | nil => cases hlen
      | cons y ys =>
          have hx := x.isLt
          have hy := y.isLt
          rw [compareWords, ih ys (Nat.succ.inj hlen), value_cons, value_cons]
          rcases Nat.lt_trichotomy (value xs) (value ys) with hlt | heq | hgt
          · have hmul := Nat.mul_le_mul_left (2 ^ w) hlt
            rw [Nat.mul_succ] at hmul
            have hall : x.toNat + 2 ^ w * value xs < y.toNat + 2 ^ w * value ys := by omega
            rw [Nat.compare_eq_lt.mpr hlt, Nat.compare_eq_lt.mpr hall]
            rfl
          · rw [heq, Nat.compare_eq_eq.mpr rfl]
            rcases Nat.lt_trichotomy x.toNat y.toNat with hlt | heq' | hgt
            · rw [Nat.compare_eq_lt.mpr hlt, Nat.compare_eq_lt.mpr (Nat.add_lt_add_right hlt _)]
              rfl
            · rw [heq', Nat.compare_eq_eq.mpr rfl, Nat.compare_eq_eq.mpr rfl]
              rfl
            · rw [Nat.compare_eq_gt.mpr hgt, Nat.compare_eq_gt.mpr (Nat.add_lt_add_right hgt _)]
              rfl
          · have hmul := Nat.mul_le_mul_left (2 ^ w) hgt
            rw [Nat.mul_succ] at hmul
            have hall : y.toNat + 2 ^ w * value ys < x.toNat + 2 ^ w * value xs := by omega
            rw [Nat.compare_eq_gt.mpr hgt, Nat.compare_eq_gt.mpr hall]
            rfl

/-!
# Bits
-/

/-- A word of a list, zero beyond its end. -/
def wordAt (xs : List (BitVec w)) (i : Nat) : BitVec w := xs[i]?.getD 0

theorem testBit_value (hw : 0 < w) (xs : List (BitVec w)) :
    forall i, (value xs).testBit i = (wordAt xs (i / w)).getLsbD (i % w) := by
  induction xs with
  | nil => intro i; simp [wordAt]
  | cons x xs ih =>
      intro i
      rw [value_cons, Nat.add_comm, Nat.testBit_two_pow_mul_add _ x.isLt]
      split_ifs with hlt
      · rw [Nat.div_eq_of_lt hlt, Nat.mod_eq_of_lt hlt]
        rfl
      · have hge : w ≤ i := Nat.not_lt.mp hlt
        have hdiv : i / w = (i - w) / w + 1 := by
          rw [← Nat.add_div_right _ hw, Nat.sub_add_cancel hge]
        rw [ih, Nat.mod_eq_sub_mod hge, hdiv]
        rfl

theorem wordAt_map_range (f : Nat -> BitVec w) (n i : Nat) :
    wordAt ((List.range n).map f) i = if i < n then f i else 0#w := by
  unfold wordAt
  split_ifs with hlt
  · simp [List.getElem?_range hlt]
  · have hlen : ((List.range n).map f).length ≤ i := by
      rw [List.length_map, List.length_range]
      exact Nat.not_lt.mp hlt
    rw [List.getElem?_eq_none hlen]
    rfl

/-!
# Shifts
-/

/-- Quotient and remainder of a difference without a borrow. -/
theorem div_mod_sub_of_le {i n : Nat} (hmod : n % w ≤ i % w) (hdiv : n / w ≤ i / w) (hw : 0 < w) :
    n ≤ i ∧ (i - n) / w = i / w - n / w ∧ (i - n) % w = i % w - n % w := by
  have hi := Nat.div_add_mod i w
  have hn := Nat.div_add_mod n w
  have hr := Nat.mod_lt i hw
  have hmul := Nat.mul_le_mul_left w hdiv
  refine ⟨by omega, (Nat.div_mod_unique hw).mpr ⟨?_, by omega⟩⟩
  rw [Nat.mul_sub]
  omega

/-- Quotient and remainder of a difference with a borrow. -/
theorem div_mod_sub_of_lt {i n : Nat} (hmod : i % w < n % w) (hdiv : n / w + 1 ≤ i / w)
    (hw : 0 < w) :
    n ≤ i ∧ (i - n) / w = i / w - n / w - 1 ∧ (i - n) % w = i % w + (w - n % w) := by
  have hi := Nat.div_add_mod i w
  have hn := Nat.div_add_mod n w
  have hr := Nat.mod_lt n hw
  have hmul := Nat.mul_le_mul_left w hdiv
  rw [Nat.mul_succ] at hmul
  refine ⟨by omega, (Nat.div_mod_unique hw).mpr ⟨?_, by omega⟩⟩
  rw [Nat.sub_sub, Nat.mul_sub, Nat.mul_succ]
  omega

def shlWord (shift : Nat) (xs : List (BitVec w)) (j : Nat) : BitVec w :=
  (if shift / w + 1 ≤ j ∧ shift % w ≠ 0 then
      wordAt xs (j - shift / w - 1) >>> (w - shift % w)
    else 0#w) |||
    (if shift / w ≤ j then wordAt xs (j - shift / w) <<< (shift % w) else 0#w)

def shlWords (shift : Nat) (xs : List (BitVec w)) : List (BitVec w) :=
  (List.range xs.length).map (shlWord shift xs)

theorem length_shlWords (shift : Nat) (xs : List (BitVec w)) :
    (shlWords shift xs).length = xs.length := by
  rw [shlWords, List.length_map, List.length_range]

theorem getLsbD_shlWord (hw : 0 < w) (shift : Nat) (xs : List (BitVec w)) (i : Nat) :
    (shlWord shift xs (i / w)).getLsbD (i % w) =
      (decide (shift ≤ i) && (value xs).testBit (i - shift)) := by
  have hr := Nat.mod_lt i hw
  rw [testBit_value hw, shlWord, BitVec.getLsbD_or]
  by_cases hmod : shift % w ≤ i % w
  · -- the bit comes from the word `shift / w` below
    have hhigh : forall b : BitVec w,
        (b >>> (w - shift % w)).getLsbD (i % w) = false := by
      intro b
      rw [BitVec.getLsbD_ushiftRight]
      exact BitVec.getLsbD_of_ge _ _ (by omega)
    by_cases hdiv : shift / w ≤ i / w
    · rcases div_mod_sub_of_le hmod hdiv hw with ⟨hle, hq, hm⟩
      rw [if_pos hdiv, BitVec.getLsbD_shiftLeft, hq, hm]
      have hge : ¬ i % w < shift % w := Nat.not_lt.mpr hmod
      split_ifs
      · rw [hhigh]
        simp [hr, hge, hle]
      · simp [hr, hge, hle]
    · have hlt : ¬ shift ≤ i := by
        intro hle
        exact hdiv (Nat.div_le_div_right hle)
      rw [if_neg hdiv, if_neg (by omega)]
      simp [hlt]
  · -- the bit was carried out of the word below that one
    have hlow : forall b : BitVec w, (b <<< (shift % w)).getLsbD (i % w) = false := by
      intro b
      rw [BitVec.getLsbD_shiftLeft]
      simp
      omega
    by_cases hdiv : shift / w + 1 ≤ i / w
    · rcases div_mod_sub_of_lt (Nat.not_le.mp hmod) hdiv hw with ⟨hle, hq, hm⟩
      rw [if_pos ⟨hdiv, by omega⟩, if_pos (by omega), hlow, BitVec.getLsbD_ushiftRight, hq, hm,
        Nat.add_comm (w - shift % w)]
      simp [hle]
    · have hlt : ¬ shift ≤ i := by
        intro hle
        have hi := Nat.div_add_mod i w
        have hn := Nat.div_add_mod shift w
        have hmul := Nat.mul_le_mul_left w (show i / w ≤ shift / w by omega)
        omega
      rw [if_neg (by omega)]
      split_ifs
      · simp [hlow, hlt]
      · simp [hlt]

theorem value_shlWords (hw : 0 < w) (shift : Nat) (xs : List (BitVec w)) :
    value (shlWords shift xs) = (value xs * 2 ^ shift) % 2 ^ (w * xs.length) := by
  apply Nat.eq_of_testBit_eq
  intro i
  rw [testBit_value hw, shlWords, wordAt_map_range, Nat.testBit_mod_two_pow,
    Nat.testBit_mul_two_pow, ← getLsbD_shlWord hw]
  have hiff : i / w < xs.length <-> i < w * xs.length := by
    rw [Nat.div_lt_iff_lt_mul hw, Nat.mul_comm]
  split_ifs with hlt
  · simp [hiff.mp hlt]
  · have hge : ¬ i < w * xs.length := fun h => hlt (hiff.mpr h)
    simp [hge]

def shrWord (shift : Nat) (xs : List (BitVec w)) (j : Nat) : BitVec w :=
  (if shift % w ≠ 0 then wordAt xs (j + shift / w + 1) <<< (w - shift % w) else 0#w) |||
    wordAt xs (j + shift / w) >>> (shift % w)

def shrWords (shift : Nat) (xs : List (BitVec w)) : List (BitVec w) :=
  (List.range xs.length).map (shrWord shift xs)

theorem length_shrWords (shift : Nat) (xs : List (BitVec w)) :
    (shrWords shift xs).length = xs.length := by
  rw [shrWords, List.length_map, List.length_range]

theorem getLsbD_shrWord (hw : 0 < w) (shift : Nat) (xs : List (BitVec w)) (i : Nat) :
    (shrWord shift xs (i / w)).getLsbD (i % w) = (value xs).testBit (i + shift) := by
  have hr := Nat.mod_lt i hw
  have hs := Nat.mod_lt shift hw
  have hi := Nat.div_add_mod i w
  have hn := Nat.div_add_mod shift w
  rw [testBit_value hw, shrWord, BitVec.getLsbD_or, BitVec.getLsbD_ushiftRight]
  by_cases hlt : i % w + shift % w < w
  · have hsum : (i + shift) / w = i / w + shift / w ∧
        (i + shift) % w = i % w + shift % w := by
      refine (Nat.div_mod_unique hw).mpr ⟨?_, hlt⟩
      rw [Nat.mul_add]
      omega
    have hlow : forall b : BitVec w, shift % w ≠ 0 ->
        (b <<< (w - shift % w)).getLsbD (i % w) = false := by
      intro b _
      rw [BitVec.getLsbD_shiftLeft]
      simp
      omega
    rw [hsum.1, hsum.2, Nat.add_comm (shift % w)]
    split_ifs with hzero
    · simp [hlow _ hzero]
    · simp
  · have hsum : (i + shift) / w = i / w + shift / w + 1 ∧
        (i + shift) % w = i % w - (w - shift % w) := by
      refine (Nat.div_mod_unique hw).mpr ⟨?_, by omega⟩
      rw [Nat.mul_succ, Nat.mul_add]
      omega
    have hhigh : forall b : BitVec w, b.getLsbD (shift % w + i % w) = false := by
      intro b
      exact BitVec.getLsbD_of_ge _ _ (by omega)
    rw [hsum.1, hsum.2, hhigh, if_pos (by omega), BitVec.getLsbD_shiftLeft]
    have hge : ¬ i % w < w - shift % w := by omega
    simp [hr, hge]

theorem value_shrWords (hw : 0 < w) (shift : Nat) (xs : List (BitVec w)) :
    value (shrWords shift xs) = value xs / 2 ^ shift := by
  apply Nat.eq_of_testBit_eq
  intro i
  rw [testBit_value hw, shrWords, wordAt_map_range, Nat.testBit_div_two_pow]
  split_ifs with hlt
  · exact getLsbD_shrWord hw shift xs i
  · have hle : w * xs.length ≤ i + shift := by
      have hge := Nat.mul_le_mul_left w (Nat.not_lt.mp hlt)
      have hdiv := Nat.mul_div_le i w
      omega
    rw [BitVec.getLsbD_zero, Nat.testBit_lt_two_pow
      ((value_lt xs).trans_le (Nat.pow_le_pow_right Nat.two_pos hle))]

/-!
# The highest bit
-/

/-- The highest bit set among the bits `n` down to 1, or bit 0. -/
def wordBits (x : BitVec w) : Nat -> Nat
  | 0 => 1
  | n + 1 => if x.getLsbD (n + 1) then n + 2 else wordBits x n

def bits : List (BitVec w) -> Nat
  | [] => 0
  | x :: xs =>
      if bits xs ≠ 0 then w + bits xs
      else if x ≠ 0#w then wordBits x (w - 1)
      else 0

theorem wordBits_eq {x : BitVec w} (hx : x ≠ 0#w) (n : Nat) (h : x.toNat < 2 ^ (n + 1)) :
    wordBits x n = Nat.size x.toNat := by
  have hpos : 0 < x.toNat := by
    rw [Nat.pos_iff_ne_zero]
    intro hzero
    exact hx (BitVec.eq_of_toNat_eq (hzero.trans BitVec.toNat_zero.symm))
  induction n with
  | zero =>
      have hone : x.toNat = 1 := by omega
      rw [hone]
      rfl
  | succ n ih =>
      rw [wordBits, BitVec.getLsbD]
      split_ifs with hbit
      · apply le_antisymm
        · exact Nat.lt_size.mpr (Nat.ge_two_pow_of_testBit hbit)
        · exact Nat.size_le.mpr h
      · apply ih
        apply Nat.lt_pow_two_of_testBit
        intro i hi
        rcases Nat.eq_or_lt_of_le hi with rfl | hlt
        · exact Bool.eq_false_of_not_eq_true hbit
        · exact Nat.testBit_lt_two_pow (h.trans_le (Nat.pow_le_pow_right Nat.two_pos hlt))

theorem bits_eq (hw : 0 < w) (xs : List (BitVec w)) : bits xs = Nat.size (value xs) := by
  induction xs with
  | nil => rfl
  | cons x xs ih =>
      have hx := x.isLt
      rw [bits, value_cons, ih]
      split_ifs with hhigh hlow
      · have hpos : 0 < value xs := Nat.size_pos.mp (Nat.pos_of_ne_zero hhigh)
        apply le_antisymm
        · have hge : 2 ^ (Nat.size (value xs) - 1) ≤ value xs := by
            apply Nat.lt_size.mp
            omega
          have hsize : w + Nat.size (value xs) = w + (Nat.size (value xs) - 1) + 1 := by omega
          rw [hsize]
          apply Nat.lt_size.mpr
          rw [Nat.pow_add]
          exact (Nat.mul_le_mul_left _ hge).trans (Nat.le_add_left _ _)
        · rw [Nat.size_le, Nat.pow_add]
          have hlt := Nat.mul_le_mul_left (2 ^ w) (Nat.lt_size_self (value xs))
          rw [Nat.mul_succ] at hlt
          omega
      · have hzero := Nat.size_eq_zero.mp (not_not.mp hhigh)
        rw [hzero, Nat.mul_zero, Nat.add_zero]
        apply wordBits_eq hlow
        rw [Nat.sub_add_cancel hw]
        exact hx
      · have hzero := Nat.size_eq_zero.mp (not_not.mp hhigh)
        rw [hzero, not_not.mp hlow]
        simp

/-!
# Division
-/

def setBit (xs : List (BitVec w)) (n : Nat) : List (BitVec w) :=
  xs.modify (n / w) (fun x => x ||| (1#w <<< (n % w)))

theorem length_setBit (xs : List (BitVec w)) (n : Nat) :
    (setBit xs n).length = xs.length := List.length_modify _ _ _

/-- A bit below all bits that are set is added. -/
theorem value_setBit (hw : 0 < w) {xs : List (BitVec w)} {n m : Nat}
    (hn : n < w * xs.length) (hxs : value xs = 2 ^ (n + 1) * m) :
    value (setBit xs n) = value xs + 2 ^ n := by
  have hsum : value xs + 2 ^ n = value xs ||| 2 ^ n := by
    rw [hxs, ← Nat.two_pow_add_eq_or_of_lt (Nat.pow_lt_pow_right Nat.one_lt_two (Nat.lt_succ_self n))]
  rw [hsum]
  apply Nat.eq_of_testBit_eq
  intro i
  rw [Nat.testBit_or, testBit_value hw, testBit_value hw, Nat.testBit_two_pow]
  have hr := Nat.mod_lt n hw
  have hri := Nat.mod_lt i hw
  have hidx : n / w < xs.length := by
    rw [Nat.div_lt_iff_lt_mul hw, Nat.mul_comm]
    exact hn
  unfold setBit wordAt
  rw [List.getElem?_modify]
  by_cases hword : n / w = i / w
  · rw [hword] at hidx
    simp only [hword, if_true, List.getElem?_eq_getElem hidx, Option.map_eq_map,
      Option.map_some, Option.getD_some, BitVec.getLsbD_or, BitVec.getLsbD_shiftLeft,
      BitVec.getLsbD_one]
    have hiff : n = i <-> i % w - n % w = 0 ∧ ¬ i % w < n % w := by
      constructor
      · rintro rfl
        omega
      · intro h
        rw [← Nat.div_add_mod n w, ← Nat.div_add_mod i w, hword]
        omega
    by_cases heq : n = i
    · simp [heq, hw, hri]
    · by_cases hlt : i % w < n % w
      · simp [hlt, heq]
      · have hne : i % w - n % w ≠ 0 := fun h => heq (hiff.mpr ⟨h, hlt⟩)
        simp [hne, heq]
  · have hne : n ≠ i := by
      rintro rfl
      exact hword rfl
    simp [hword, hne]

/-- One bit of the quotient after the other, from bit `shift` down to bit 0. -/
def divLoop : Nat -> List (BitVec w) -> List (BitVec w) -> List (BitVec w) -> List (BitVec w)
  | 0, _, _, quotient => quotient
  | shift + 1, num, div, quotient =>
      if compareWords num div ≠ Ordering.lt then
        divLoop shift (addLoop 0 num (negWords div)) (shrWords 1 div) (setBit quotient shift)
      else divLoop shift num (shrWords 1 div) quotient

theorem length_divLoop {size : Nat} (count : Nat) :
    forall {num div quotient : List (BitVec w)}, num.length = size -> div.length = size ->
      quotient.length = size -> (divLoop count num div quotient).length = size := by
  induction count with
  | zero =>
      intro num div quotient _ _ hquot
      exact hquot
  | succ shift ih =>
      intro num div quotient hnum hdiv hquot
      have hshr : (shrWords 1 div).length = size := (length_shrWords 1 div).trans hdiv
      rw [divLoop]
      split_ifs
      · refine ih ?_ hshr ((length_setBit _ _).trans hquot)
        rw [length_addLoop num 0 _ ((length_negWords div).trans (hdiv.trans hnum.symm)), hnum]
      · exact ih hnum hshr hquot

theorem value_divLoop (hw : 0 < w) {divisor size : Nat} (count : Nat) :
    forall {num div quotient : List (BitVec w)} {m : Nat},
      num.length = size -> div.length = size -> quotient.length = size ->
      count ≤ w * size ->
      (forall shift, count = shift + 1 -> value div = divisor * 2 ^ shift) ->
      value num < divisor * 2 ^ count -> value quotient = 2 ^ count * m ->
      value (divLoop count num div quotient) = value quotient + value num / divisor := by
  induction count with
  | zero =>
      intro num div quotient m _ _ _ _ _ hlt _
      rw [divLoop, Nat.div_eq_of_lt (by omega), Nat.add_zero]
  | succ shift ih =>
      intro num div quotient m hnum hdivlen hquot hcount hdiv hlt hm
      have hvalue := hdiv shift rfl
      have hlen : div.length = num.length := hdivlen.trans hnum.symm
      have hnext : forall shift', shift = shift' + 1 ->
          value (shrWords 1 div) = divisor * 2 ^ shift' := by
        rintro shift' rfl
        rw [value_shrWords hw, hvalue, Nat.pow_one, Nat.pow_succ, ← Nat.mul_assoc,
          Nat.mul_div_cancel _ Nat.two_pos]
      have hshr : (shrWords 1 div).length = size := (length_shrWords 1 div).trans hdivlen
      have hm' : 2 ^ (shift + 1) * m = 2 ^ shift * (2 * m) := by
        rw [Nat.pow_succ, Nat.mul_assoc]
      rw [divLoop, compareWords_eq num div hlen]
      split_ifs with hge
      · -- the shifted divisor fits, and its bit is set
        have hle : value div ≤ value num := by
          by_contra hnot
          exact hge (Nat.compare_eq_lt.mpr (Nat.not_le.mp hnot))
        have hsub := value_addLoop_negWords hlen hle
        have hbit : value (setBit quotient shift) = value quotient + 2 ^ shift :=
          value_setBit hw (by rw [hquot]; omega) hm
        have hposdiv : 0 < divisor := by
          rcases Nat.eq_zero_or_pos divisor with hzero | hpos
          · rw [hzero, Nat.zero_mul] at hlt
            exact absurd hlt (Nat.not_lt_zero _)
          · exact hpos
        rw [ih (m := 2 * m + 1) ?_ hshr ((length_setBit _ _).trans hquot) (by omega) hnext ?_ ?_,
          hbit, hsub, hvalue]
        · rw [hvalue] at hle
          have hsplit : value num = (value num - divisor * 2 ^ shift) + divisor * 2 ^ shift := by
            omega
          have hdivsum : value num / divisor =
              (value num - divisor * 2 ^ shift) / divisor + 2 ^ shift := by
            rw [← Nat.add_mul_div_left _ _ hposdiv, ← hsplit]
          omega
        · rw [length_addLoop num 0 _ ((length_negWords div).trans hlen), hnum]
        · rw [hsub, hvalue]
          rw [Nat.pow_succ, ← Nat.mul_assoc] at hlt
          omega
        · rw [hbit, hm, hm', Nat.mul_succ]
      · have hltdiv : value num < value div :=
          Nat.compare_eq_lt.mp (not_not.mp hge)
        exact ih (m := 2 * m) hnum hshr hquot (by omega) hnext (hvalue ▸ hltdiv) (hm.trans hm')

/-- Division with remainder thrown away, which fails for the divisor zero. -/
def divWords (num div : List (BitVec w)) : Option (List (BitVec w)) :=
  let zero := List.replicate num.length 0#w
  if bits div = 0 then none
  else if bits num < bits div then some zero
  else
    let shift := bits num - bits div
    some (divLoop (shift + 1) num (shlWords shift div) zero)

theorem value_replicate_zero (n : Nat) : value (List.replicate n 0#w) = 0 := by
  induction n with
  | zero => rfl
  | succ n ih => simp [List.replicate_succ, ih]

theorem divWords_eq_some (hw : 0 < w) {num div : List (BitVec w)}
    (hlen : div.length = num.length) (hdiv : value div ≠ 0) :
    exists quotient, divWords num div = some quotient ∧ quotient.length = num.length ∧
      value quotient = value num / value div := by
  have hsize : Nat.size (value div) ≠ 0 := fun h => hdiv (Nat.size_eq_zero.mp h)
  unfold divWords
  simp only [bits_eq hw]
  rw [if_neg hsize]
  split_ifs with hlt
  · refine ⟨_, rfl, List.length_replicate, ?_⟩
    have hless : value num < value div := by
      by_contra hge
      exact absurd (Nat.size_le_size (Nat.not_lt.mp hge)) (Nat.not_le.mpr hlt)
    rw [value_replicate_zero, Nat.div_eq_of_lt hless]
  · have hnumlt := Nat.lt_size_self (value num)
    have hdivlt := Nat.lt_size_self (value div)
    have hbound : Nat.size (value num) ≤ w * num.length := Nat.size_le.mpr (value_lt num)
    have hlow : 2 ^ (Nat.size (value div) - 1) ≤ value div := by
      apply Nat.lt_size.mp
      omega
    have hshift : value (shlWords (Nat.size (value num) - Nat.size (value div)) div) =
        value div * 2 ^ (Nat.size (value num) - Nat.size (value div)) := by
      rw [value_shlWords hw, Nat.mod_eq_of_lt]
      have hmul := Nat.mul_lt_mul_of_pos_right hdivlt
        (Nat.two_pow_pos (Nat.size (value num) - Nat.size (value div)))
      rw [← Nat.pow_add, Nat.add_sub_cancel' (Nat.not_lt.mp hlt)] at hmul
      refine hmul.trans_le (Nat.pow_le_pow_right Nat.two_pos ?_)
      rw [hlen]
      exact hbound
    have hfits : value num <
        value div * 2 ^ (Nat.size (value num) - Nat.size (value div) + 1) := by
      apply hnumlt.trans_le
      refine le_trans (le_of_eq ?_) (Nat.mul_le_mul_right _ hlow)
      rw [← Nat.pow_add]
      congr 1
      omega
    have hzero := value_replicate_zero (w := w) num.length
    have hshl := (length_shlWords (Nat.size (value num) - Nat.size (value div)) div).trans hlen
    refine ⟨_, rfl, length_divLoop _ rfl hshl List.length_replicate, ?_⟩
    rw [value_divLoop (m := 0) hw _ rfl hshl List.length_replicate (by omega)
      (fun shift h => by rw [hshift, Nat.succ.inj h]) hfits hzero, hzero, Nat.zero_add]

/-!
# Multiplication

Each word of the first factor adds a multiple of the second one to the words of the result
from its own place up.  Carries out of the highest word are lost.
-/

/-- The inner loop, over the words of the result from one place up. -/
def mulAddLoop (factor : Nat) : Nat -> List (BitVec w) -> List (BitVec w) -> List (BitVec w)
  | carry, x :: xs, y :: ys =>
      let n := carry + x.toNat + factor * y.toNat
      BitVec.ofNat w n :: mulAddLoop factor (n / 2 ^ w) xs ys
  | _, xs, _ => xs

theorem length_mulAddLoop (factor : Nat) (xs : List (BitVec w)) :
    forall carry ys, (mulAddLoop factor carry xs ys).length = xs.length := by
  induction xs with
  | nil =>
      intro carry ys
      rfl
  | cons x xs ih =>
      intro carry ys
      cases ys with
      | nil => rfl
      | cons y ys => rw [mulAddLoop, List.length_cons, List.length_cons, ih]

theorem value_mulAddLoop (factor : Nat) (xs : List (BitVec w)) :
    forall carry ys, xs.length ≤ ys.length -> value (mulAddLoop factor carry xs ys) =
      (carry + value xs + factor * value ys) % 2 ^ (w * xs.length) := by
  induction xs with
  | nil =>
      intro carry ys _
      simp [mulAddLoop, Nat.mod_one]
  | cons x xs ih =>
      intro carry ys hlen
      cases ys with
      | nil => cases hlen
      | cons y ys =>
          rw [mulAddLoop, value_cons, ih _ ys (Nat.le_of_succ_le_succ hlen),
            BitVec.toNat_ofNat, List.length_cons]
          have hsplit : carry + value (x :: xs) + factor * value (y :: ys) =
              (carry + x.toNat + factor * y.toNat) +
                2 ^ w * (value xs + factor * value ys) := by
            rw [value_cons, value_cons]
            ring
          rw [hsplit, ← mod_two_pow_succ, Nat.add_mul_mod_self_left,
            Nat.add_mul_div_left _ _ (Nat.two_pow_pos w), ← Nat.add_assoc]

/-- The outer loop, over the words of the first factor. -/
def mulWords : List (BitVec w) -> List (BitVec w) -> List (BitVec w) -> List (BitVec w)
  | a :: as, bs, acc =>
      match mulAddLoop a.toNat 0 acc bs with
      | [] => []
      | x :: xs => x :: mulWords as bs xs
  | [], _, acc => acc

theorem length_mulWords (as : List (BitVec w)) :
    forall bs acc, (mulWords as bs acc).length = acc.length := by
  induction as with
  | nil =>
      intro bs acc
      rfl
  | cons a as ih =>
      intro bs acc
      have hlen := length_mulAddLoop a.toNat acc 0 bs
      rw [mulWords]
      cases hrow : mulAddLoop a.toNat 0 acc bs with
      | nil =>
          rw [hrow] at hlen
          exact hlen
      | cons x xs =>
          rw [hrow] at hlen
          rw [List.length_cons, ih, ← hlen, List.length_cons]

theorem value_mulWords (as : List (BitVec w)) :
    forall bs acc, acc.length ≤ bs.length -> value (mulWords as bs acc) =
      (value acc + value as * value bs) % 2 ^ (w * acc.length) := by
  induction as with
  | nil =>
      intro bs acc _
      rw [mulWords, value_nil, Nat.zero_mul, Nat.add_zero, Nat.mod_eq_of_lt (value_lt acc)]
  | cons a as ih =>
      intro bs acc hle
      have hlen := length_mulAddLoop a.toNat acc 0 bs
      have hrow := value_mulAddLoop a.toNat acc 0 bs hle
      rw [mulWords]
      cases hcase : mulAddLoop a.toNat 0 acc bs with
      | nil =>
          rw [hcase] at hlen
          rw [← hlen, List.length_nil, Nat.mul_zero, Nat.pow_zero, Nat.mod_one]
          rfl
      | cons x xs =>
          rw [hcase, List.length_cons] at hlen
          rw [hcase, Nat.zero_add, value_cons] at hrow
          -- the lowest word is settled, the others take the rest of the first factor
          rw [← hlen] at hrow ⊢
          simp only
          rw [value_cons, ih bs xs (by omega), value_cons]
          have hx : x.toNat = (value acc + a.toNat * value bs) % 2 ^ w := by
            rw [two_pow_mul_succ] at hrow
            have h := congrArg (· % 2 ^ w) hrow
            simpa [Nat.mod_eq_of_lt x.isLt, Nat.mod_mul_right_mod] using h
          have hxs : value xs = (value acc + a.toNat * value bs) / 2 ^ w %
              2 ^ (w * xs.length) := by
            rw [← mod_two_pow_succ, ← hx] at hrow
            exact Nat.eq_of_mul_eq_mul_left (Nat.two_pow_pos w) (Nat.add_left_cancel hrow)
          have hsplit : value acc + (a.toNat + 2 ^ w * value as) * value bs =
              (value acc + a.toNat * value bs) + 2 ^ w * (value as * value bs) := by
            ring
          rw [hsplit, ← mod_two_pow_succ, Nat.add_mul_mod_self_left,
            Nat.add_mul_div_left _ _ (Nat.two_pow_pos w), ← hx, hxs, Nat.mod_add_mod]

end Limbs
end Foundation
end Hbcur
