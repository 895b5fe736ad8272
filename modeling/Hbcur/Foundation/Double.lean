import Mathlib.Algebra.Order.Field.Power
import Mathlib.Data.Int.Log
import Mathlib.Data.Rat.Floor
import Mathlib.Tactic.Positivity

/-!
# Doubles

The values of 64 bit floating-point numbers as rationals, rounded to the nearest one with ties
to even.  Neither overflow nor underflow is looked at.
-/

namespace Hbcur
namespace Foundation

def roundHalfEven (q : Rat) : Int :=
  if q - ⌊q⌋ < 1 / 2 then ⌊q⌋
  else if 1 / 2 < q - ⌊q⌋ then ⌊q⌋ + 1
  else if ⌊q⌋ % 2 = 0 then ⌊q⌋
  else ⌊q⌋ + 1

/-- The unit in the last of the 53 places of a positive number. -/
def unitAt (q : Rat) : Rat :=
  (2 : Rat) ^ (Int.log 2 q - 52)

def roundDouble (q : Rat) : Rat :=
  roundHalfEven (q / unitAt q) * unitAt q

/-- The product of two doubles. -/
def mulDouble (x y : Rat) : Rat :=
  roundDouble (x * y)

/-- A cast to an integer type. -/
def truncate (q : Rat) : Int :=
  q.num.tdiv q.den

/-!
# Rounding to integers
-/

theorem roundHalfEven_le (q : Rat) : (roundHalfEven q : Rat) ≤ q + 1 / 2 := by
  have hfloor := Int.floor_le q
  unfold roundHalfEven
  split_ifs with hlow hhigh heven
  · linarith
  · push_cast
    linarith
  · linarith
  · push_cast
    linarith

theorem roundHalfEven_nonneg {q : Rat} (h : 0 ≤ q) : 0 ≤ roundHalfEven q := by
  have hfloor := Int.floor_nonneg.mpr h
  unfold roundHalfEven
  split_ifs <;> omega

theorem roundHalfEven_intCast (n : Int) : roundHalfEven n = n := by
  unfold roundHalfEven
  rw [if_pos (by rw [Int.floor_intCast, sub_self]; norm_num), Int.floor_intCast]

/-!
# Rounding to doubles
-/

theorem unitAt_pos (q : Rat) : 0 < unitAt q :=
  zpow_pos (by norm_num) _

/-- A positive number has at least 53 places. -/
theorem unitAt_le {q : Rat} (h : 0 < q) : unitAt q * 2 ^ 52 ≤ q := by
  have hlog := Int.zpow_log_le_self (b := 2) (by norm_num) h
  unfold unitAt
  rw [← zpow_natCast, ← zpow_add₀ (by norm_num)]
  simpa using hlog

theorem roundDouble_zero : roundDouble 0 = 0 := by
  unfold roundDouble
  rw [zero_div, show (0 : Rat) = ((0 : Int) : Rat) from rfl, roundHalfEven_intCast]
  simp

theorem roundDouble_nonneg {q : Rat} (h : 0 ≤ q) : 0 ≤ roundDouble q := by
  have hint := roundHalfEven_nonneg (div_nonneg h (unitAt_pos q).le)
  unfold roundDouble
  exact mul_nonneg (by exact_mod_cast hint) (unitAt_pos q).le

/-- Rounding adds half of a unit in the last place at most. -/
theorem roundDouble_le {q : Rat} (h : 0 ≤ q) : roundDouble q ≤ q * (1 + 1 / 2 ^ 53) := by
  rcases h.eq_or_lt with hzero | hpos
  · rw [← hzero, roundDouble_zero]
    simp
  · have hunit := unitAt_pos q
    have hle := unitAt_le hpos
    unfold roundDouble
    calc roundHalfEven (q / unitAt q) * unitAt q
        ≤ (q / unitAt q + 1 / 2) * unitAt q :=
          mul_le_mul_of_nonneg_right (roundHalfEven_le _) hunit.le
      _ = q + unitAt q / 2 := by
          field_simp
      _ ≤ q * (1 + 1 / 2 ^ 53) := by
          norm_num at hle ⊢
          linarith

/-- Integers which need no more than 53 places are doubles. -/
theorem roundDouble_of_exact {n : Nat} (hbound : n < 2 ^ 64) (hdvd : 2 ^ 11 ∣ n) :
    roundDouble n = n := by
  have hquot : exists m : Int, (n : Rat) / unitAt n = m := by
    unfold unitAt
    rw [Int.log_natCast]
    have hlog : Nat.log 2 n < 64 := by
      rcases Nat.eq_zero_or_pos n with rfl | hpos
      · simp
      · exact Nat.log_lt_of_lt_pow hpos.ne' hbound
    by_cases hsmall : Nat.log 2 n ≤ 52
    · refine ⟨n * 2 ^ (52 - Nat.log 2 n), ?_⟩
      rw [div_eq_mul_inv, ← zpow_neg]
      push_cast
      rw [← zpow_natCast]
      congr 2
      omega
    · have hdvd' : 2 ^ (Nat.log 2 n - 52) ∣ n :=
        (Nat.pow_dvd_pow 2 (by omega)).trans hdvd
      rcases hdvd' with ⟨m, hm⟩
      refine ⟨m, ?_⟩
      have hexp : ((Nat.log 2 n : Int) - 52) = ((Nat.log 2 n - 52 : Nat) : Int) := by omega
      rw [hexp, zpow_natCast]
      have hcast : (n : Rat) = 2 ^ (Nat.log 2 n - 52) * m := by exact_mod_cast hm
      generalize Nat.log 2 n - 52 = e at hcast
      rw [hcast]
      field_simp
      simp
  rcases hquot with ⟨m, hm⟩
  have hunit := unitAt_pos n
  unfold roundDouble
  rw [hm, roundHalfEven_intCast, ← hm]
  field_simp

/-!
# Rounding keeps order
-/

theorem roundHalfEven_bounds (q : Rat) :
    ⌊q⌋ ≤ roundHalfEven q ∧ roundHalfEven q ≤ ⌊q⌋ + 1 := by
  unfold roundHalfEven
  split_ifs <;> omega

theorem roundHalfEven_mono {p q : Rat} (h : p ≤ q) : roundHalfEven p ≤ roundHalfEven q := by
  by_cases hfloor : ⌊p⌋ < ⌊q⌋
  · have hp := (roundHalfEven_bounds p).2
    have hq := (roundHalfEven_bounds q).1
    omega
  · have hsame : ⌊p⌋ = ⌊q⌋ := Int.le_antisymm (Int.floor_le_floor h) (not_lt.mp hfloor)
    have hpart : p - ⌊p⌋ ≤ q - ⌊q⌋ := by
      rw [hsame]
      exact sub_le_sub_right h _
    unfold roundHalfEven
    rw [hsame] at hpart ⊢
    -- Up to one half both are at the floor or decided by its parity.
    split_ifs with hplow hqlow hqhigh heven hphigh hqlow hqhigh heven <;>
      first
        | omega
        | linarith

/-- Rounding does not cross a multiple of the unit. -/
theorem roundDouble_le_mul {q : Rat} {n : Int} (h : q ≤ n * unitAt q) :
    roundDouble q ≤ n * unitAt q := by
  have hmono := roundHalfEven_mono ((div_le_iff₀ (unitAt_pos q)).mpr h)
  rw [roundHalfEven_intCast] at hmono
  exact mul_le_mul_of_nonneg_right (by exact_mod_cast hmono) (unitAt_pos q).le

theorem mul_le_roundDouble {q : Rat} {n : Int} (h : n * unitAt q ≤ q) :
    n * unitAt q ≤ roundDouble q := by
  have hmono := roundHalfEven_mono ((le_div_iff₀ (unitAt_pos q)).mpr h)
  rw [roundHalfEven_intCast] at hmono
  exact mul_le_mul_of_nonneg_right (by exact_mod_cast hmono) (unitAt_pos q).le

theorem pow_mul_unitAt (q : Rat) (n : Nat) :
    ((2 ^ n : Int) : Rat) * unitAt q = (2 : Rat) ^ (Int.log 2 q + ((n : Int) - 52)) := by
  unfold unitAt
  rw [Int.cast_pow, Int.cast_ofNat, ← zpow_natCast, ← zpow_add₀ (by norm_num)]
  congr 1
  ring

/-- The greatest double below the next power of two, or that power. -/
theorem roundDouble_le_zpow (q : Rat) : roundDouble q ≤ (2 : Rat) ^ (Int.log 2 q + 1) := by
  have hpower := pow_mul_unitAt q 53
  have hlt := Int.lt_zpow_succ_log_self (b := 2) (by norm_num) q
  change _ = (2 : Rat) ^ (Int.log 2 q + 1) at hpower
  rw [← hpower]
  apply roundDouble_le_mul
  rw [hpower]
  exact_mod_cast hlt.le

theorem zpow_le_roundDouble {q : Rat} (h : 0 < q) :
    (2 : Rat) ^ Int.log 2 q ≤ roundDouble q := by
  have hpower := pow_mul_unitAt q 52
  have hle := Int.zpow_log_le_self (b := 2) (by norm_num) h
  change _ = (2 : Rat) ^ (Int.log 2 q + 0) at hpower
  rw [add_zero] at hpower
  rw [← hpower]
  apply mul_le_roundDouble
  rw [hpower]
  exact_mod_cast hle

theorem roundDouble_mono {p q : Rat} (hp : 0 ≤ p) (h : p ≤ q) :
    roundDouble p ≤ roundDouble q := by
  rcases hp.eq_or_lt with hzero | hpos
  · rw [← hzero, roundDouble_zero]
    exact roundDouble_nonneg (hp.trans h)
  · have hlog := Int.log_mono_right (b := 2) hpos h
    rcases hlog.eq_or_lt with hsame | hless
    · have hunit : unitAt p = unitAt q := by
        unfold unitAt
        rw [hsame]
      unfold roundDouble
      rw [hunit]
      apply mul_le_mul_of_nonneg_right _ (unitAt_pos q).le
      exact_mod_cast roundHalfEven_mono (div_le_div_of_nonneg_right h (unitAt_pos q).le)
    · -- A power of two lies between the two, and rounding does not cross it.
      calc roundDouble p ≤ (2 : Rat) ^ (Int.log 2 p + 1) := roundDouble_le_zpow p
        _ ≤ (2 : Rat) ^ Int.log 2 q := zpow_le_zpow_right₀ (by norm_num) hless
        _ ≤ roundDouble q := zpow_le_roundDouble (hpos.trans_le h)

/-!
# Casts
-/

theorem truncate_eq_floor {q : Rat} (h : 0 ≤ q) : truncate q = ⌊q⌋ := by
  unfold truncate
  rw [Int.tdiv_eq_ediv_of_nonneg (Rat.num_nonneg.mpr h)]
  exact Rat.floor_def'.symm

theorem truncate_mono {p q : Rat} (hp : 0 ≤ p) (h : p ≤ q) : truncate p ≤ truncate q := by
  rw [truncate_eq_floor hp, truncate_eq_floor (hp.trans h)]
  exact Int.floor_le_floor h

theorem truncate_nonneg {q : Rat} (h : 0 ≤ q) : 0 ≤ truncate q :=
  Int.tdiv_nonneg (Rat.num_nonneg.mpr h) (Int.natCast_nonneg _)

theorem truncate_le {q : Rat} (h : 0 ≤ q) : (truncate q : Rat) ≤ q := by
  rw [truncate_eq_floor h]
  exact Int.floor_le q

end Foundation
end Hbcur
