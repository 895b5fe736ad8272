import Hbcur.Pow.BaseUint
import Hbcur.Stake.Kernel
import Hbcur.Validation.Context

/-!
# Stakes and targets

`stakeTargetHit` of `kernel.cpp` on the words of `uint256.h`.  Its product is cut off at 256
bits, and its comparison is the one over the natural numbers as long as the product fits.
-/

namespace Hbcur
namespace Stake

open Hbcur.Pow

/-!
# On machine words
-/

/-- `stakeTargetHit`, with nothing where `operator/=` would throw. -/
def wordsTargetHit (hashProofOfStake : BaseUint) (nValueIn : Int)
    (bnTargetPerCoinDay : BaseUint) : Option Bool :=
  match (BaseUint.ofUint64 (nValueIn % 2 ^ 64).toNat).div (BaseUint.ofUint64 100) with
  | none => none
  | some bnCoinDayWeight =>
      some (decide (hashProofOfStake.compareTo (bnCoinDayWeight.mul bnTargetPerCoinDay) =
        Ordering.lt))

theorem wordsTargetHit_eq (hashProofOfStake : BaseUint) (nValueIn : Int)
    (bnTargetPerCoinDay : BaseUint) :
    wordsTargetHit hashProofOfStake nValueIn bnTargetPerCoinDay =
      some (decide (hashProofOfStake.value < stakeTarget nValueIn bnTargetPerCoinDay.value)) := by
  have hhundred : (BaseUint.ofUint64 100).value = 100 := BaseUint.value_ofUint64 (by decide)
  have hvalue : (BaseUint.ofUint64 (nValueIn % 2 ^ 64).toNat).value = (nValueIn % 2 ^ 64).toNat :=
    BaseUint.value_ofUint64 (by omega)
  rcases BaseUint.div_eq_some (a := BaseUint.ofUint64 (nValueIn % 2 ^ 64).toNat)
    (b := BaseUint.ofUint64 100) (by rw [hhundred]; decide) with ⟨weight, hdiv, hweight⟩
  unfold wordsTargetHit stakeTarget
  rw [hdiv]
  simp only [Option.some.injEq, decide_eq_decide]
  rw [BaseUint.compareTo_eq_lt, BaseUint.value_mul, hweight, hvalue, hhundred]

/-- On words the function is the one which `CheckStakeKernelHash` uses. -/
theorem wordsTargetHit_eq_stakeTargetHit (hashProofOfStake : BaseUint) (nValueIn : Int)
    (bnTargetPerCoinDay : BaseUint) :
    wordsTargetHit hashProofOfStake nValueIn bnTargetPerCoinDay =
      some (stakeTargetHit (BitVec.ofNat 256 hashProofOfStake.value) nValueIn
        bnTargetPerCoinDay.value) := by
  rw [wordsTargetHit_eq, stakeTargetHit, BitVec.toNat_ofNat,
    Nat.mod_eq_of_lt hashProofOfStake.value_lt]

/-!
# Compact targets
-/

/-- What a compact target stands for, without a limit of its size. -/
def compactExpansion (nCompact : BitVec 32) : Nat :=
  nCompact.toNat % 2 ^ 23 * 256 ^ (nCompact.toNat / 2 ^ 24) / 256 ^ 3

theorem compactExpansion_lt_of_size {nSize nWord : Nat} (hword : nWord < 2 ^ 23)
    (hsize : nSize ≤ 34) (hone : nWord ≤ 0xff ∨ nSize ≤ 33) (htwo : nWord ≤ 0xffff ∨ nSize ≤ 32) :
    nWord * 2 ^ (8 * (nSize - 3)) < 2 ^ 256 := by
  have hcase : nSize ≤ 32 ∨ nSize = 33 ∨ nSize = 34 := by omega
  rcases hcase with h | rfl | rfl
  · calc nWord * 2 ^ (8 * (nSize - 3)) < 2 ^ 23 * 2 ^ (8 * (nSize - 3)) :=
          Nat.mul_lt_mul_of_pos_right hword (Nat.two_pow_pos _)
      _ ≤ 2 ^ 23 * 2 ^ 232 := Nat.mul_le_mul_left _ (Nat.pow_le_pow_right Nat.two_pos (by omega))
      _ < 2 ^ 256 := by decide
  · omega
  · omega

/-- A target which does not overflow is read as what it stands for. -/
theorem value_setCompact_of_noOverflow {nCompact : BitVec 32}
    (hoverflow : (BlockIndex.setCompact nCompact.toNat).fOverflow = false) :
    (BaseUint.setCompact nCompact).value = compactExpansion nCompact := by
  rw [BaseUint.value_setCompact]
  unfold BlockIndex.setCompact at hoverflow ⊢
  unfold compactExpansion
  simp only at hoverflow ⊢
  have hword : nCompact.toNat % 2 ^ 23 < 2 ^ 23 := Nat.mod_lt _ (Nat.two_pow_pos 23)
  split_ifs at hoverflow ⊢ with hsize
  · have hpow : (256 : Nat) ^ 3 =
        256 ^ (nCompact.toNat / 2 ^ 24) * 2 ^ (8 * (3 - nCompact.toNat / 2 ^ 24)) := by
      rw [show (256 : Nat) = 2 ^ 8 by decide, ← Nat.pow_mul, ← Nat.pow_mul, ← Nat.pow_add]
      congr 1
      omega
    rw [hpow, Nat.shiftRight_eq_div_pow, Nat.mul_comm (_ % 2 ^ 23),
      Nat.mul_div_mul_left _ _ (Nat.pow_pos (by decide))]
  · have hpow : (256 : Nat) ^ (nCompact.toNat / 2 ^ 24) =
        2 ^ (8 * (nCompact.toNat / 2 ^ 24 - 3)) * 256 ^ 3 := by
      rw [show (256 : Nat) = 2 ^ 8 by decide, ← Nat.pow_mul, ← Nat.pow_mul, ← Nat.pow_add]
      congr 1
      omega
    rw [hpow, ← Nat.mul_assoc, Nat.mul_div_cancel _ (Nat.pow_pos (by decide)),
      Nat.shiftLeft_eq]
    apply Nat.mod_eq_of_lt
    rcases Nat.eq_zero_or_pos (nCompact.toNat % 2 ^ 23) with hzero | hpos
    · rw [hzero, Nat.zero_mul]
      exact Nat.two_pow_pos 256
    · simp only [Bool.and_eq_false_iff, Bool.or_eq_false_iff, decide_eq_false_iff_not] at hoverflow
      apply compactExpansion_lt_of_size hword <;> omega

/-!
# When the product fits
-/

/-- The multiples of a number stay in order below a modulus only as long as they fit. -/
theorem mul_lt_of_mod_mono {modulus t : Nat} (ht : t < modulus) :
    forall w : Nat,
      (forall a b, a ≤ b -> b ≤ w -> a * t % modulus ≤ b * t % modulus) -> w * t < modulus := by
  intro w
  induction w with
  | zero =>
      intro _
      omega
  | succ w ih =>
      intro hmono
      have hprev : w * t < modulus := by
        apply ih
        intro a b hab hb
        exact hmono a b hab (Nat.le_succ_of_le hb)
      have hlast := hmono w (w + 1) (Nat.le_succ w) (Nat.le_refl _)
      rw [Nat.mod_eq_of_lt hprev, Nat.succ_mul] at hlast
      rw [Nat.succ_mul]
      by_contra hge
      -- the product has just passed the modulus, so it is back below the target
      rw [Nat.mod_eq_sub_mod (by omega), Nat.mod_eq_of_lt (by omega)] at hlast
      omega

theorem mod_lt_iff_of_lt {modulus n : Nat} (hmodulus : 0 < modulus) :
    (forall m, m < modulus -> (m < n % modulus <-> m < n)) <-> n < modulus := by
  constructor
  · intro h
    have hlt := Nat.mod_lt n hmodulus
    have hself := h (n % modulus) hlt
    have hle : n ≤ n % modulus := by
      by_contra hgt
      exact Nat.lt_irrefl _ (hself.mpr (by omega))
    omega
  · intro h m _
    rw [Nat.mod_eq_of_lt h]

/-- The comparison for one value, over the natural numbers. -/
def HitsNaturally (nBits : BitVec 32) (nValueIn : Int) : Prop :=
  forall hashProofOfStake : BaseUint,
    wordsTargetHit hashProofOfStake nValueIn (BaseUint.setCompact nBits) = some true <->
      hashProofOfStake.value < nValueIn.toNat / 100 * compactExpansion nBits

/-- A larger output hits what a smaller one hits. -/
def HitsMonotone (params : CChainParams) (nBits : BitVec 32) : Prop :=
  forall (hashProofOfStake : BaseUint) (v v' : Int),
    params.moneyRange v = true -> params.moneyRange v' = true -> v ≤ v' ->
    wordsTargetHit hashProofOfStake v (BaseUint.setCompact nBits) = some true ->
    wordsTargetHit hashProofOfStake v' (BaseUint.setCompact nBits) = some true

section Fits

variable {params : CChainParams} {nBits : BitVec 32}

theorem hits_iff {nValueIn : Int} (hrange : params.moneyRange nValueIn = true)
    (hoverflow : (BlockIndex.setCompact nBits.toNat).fOverflow = false)
    (hashProofOfStake : BaseUint) :
    wordsTargetHit hashProofOfStake nValueIn (BaseUint.setCompact nBits) = some true <->
      hashProofOfStake.value < nValueIn.toNat / 100 * compactExpansion nBits % 2 ^ 256 := by
  have hbounds := CChainParams.moneyRange_iff.mp hrange
  have hmax := params.maxMoneyOut_lt
  have hvalue : (nValueIn % 2 ^ 64).toNat = nValueIn.toNat := by omega
  rw [wordsTargetHit_eq, stakeTarget, value_setCompact_of_noOverflow hoverflow, hvalue,
    Option.some.injEq, decide_eq_true_eq]

theorem compactExpansion_lt (hoverflow : (BlockIndex.setCompact nBits.toNat).fOverflow = false) :
    compactExpansion nBits < 2 ^ 256 := by
  rw [← value_setCompact_of_noOverflow hoverflow]
  exact (BaseUint.setCompact nBits).value_lt

theorem hitsNaturally_iff {nValueIn : Int} (hrange : params.moneyRange nValueIn = true)
    (hoverflow : (BlockIndex.setCompact nBits.toNat).fOverflow = false) :
    HitsNaturally nBits nValueIn <->
      nValueIn.toNat / 100 * compactExpansion nBits < 2 ^ 256 := by
  rw [← mod_lt_iff_of_lt (Nat.two_pow_pos 256)]
  constructor
  · intro h m hm
    have hhash := h (BaseUint.ofNat m)
    rw [hits_iff hrange hoverflow, BaseUint.value_ofNat hm] at hhash
    exact hhash
  · intro h hash
    rw [hits_iff hrange hoverflow]
    exact h hash.value hash.value_lt

theorem hitsMonotone_iff
    (hoverflow : (BlockIndex.setCompact nBits.toNat).fOverflow = false) :
    HitsMonotone params nBits <->
      params.nMaxMoneyOut.toNat / 100 * compactExpansion nBits < 2 ^ 256 := by
  have hmax := params.maxMoneyOut_nonneg
  constructor
  · intro hmono
    apply mul_lt_of_mod_mono (compactExpansion_lt hoverflow)
    intro a b hab hb
    -- the outputs whose weights these are
    have ha : params.moneyRange (100 * a : Nat) = true := by
      apply CChainParams.moneyRange_iff.mpr
      omega
    have hb' : params.moneyRange (100 * b : Nat) = true := by
      apply CChainParams.moneyRange_iff.mpr
      omega
    have hweight : forall n : Nat, ((100 * n : Nat) : Int).toNat / 100 = n := by
      intro n
      omega
    by_contra hlt
    have hmod := Nat.mod_lt (b * compactExpansion nBits) (Nat.two_pow_pos 256)
    have hhit := hmono (BaseUint.ofNat (b * compactExpansion nBits % 2 ^ 256)) (100 * a : Nat)
      (100 * b : Nat) ha hb' (by omega)
    rw [hits_iff ha hoverflow, hits_iff hb' hoverflow, hweight, hweight,
      BaseUint.value_ofNat hmod] at hhit
    exact Nat.lt_irrefl _ (hhit (by omega))
  · intro hfits hash v v' hv hv' hle
    have hbounds := CChainParams.moneyRange_iff.mp hv'
    have hweights : v.toNat / 100 ≤ v'.toNat / 100 := by omega
    have hweightMax : v'.toNat / 100 ≤ params.nMaxMoneyOut.toNat / 100 := by omega
    have hprod := Nat.mul_le_mul_right (compactExpansion nBits) hweights
    have hprodMax := Nat.mul_le_mul_right (compactExpansion nBits) hweightMax
    rw [hits_iff hv hoverflow, hits_iff hv' hoverflow, Nat.mod_eq_of_lt (by omega),
      Nat.mod_eq_of_lt (by omega)]
    intro hhit
    omega

/--
The comparison is the one over the natural numbers exactly for the outputs whose product with
the target fits, and larger outputs hit what smaller ones hit exactly if the product with the
largest amount fits.
-/
theorem targetHit_natural_iff_fits
    (hoverflow : (BlockIndex.setCompact nBits.toNat).fOverflow = false) :
    (forall nValueIn, params.moneyRange nValueIn = true ->
      (HitsNaturally nBits nValueIn <->
        nValueIn.toNat / 100 * compactExpansion nBits < 2 ^ 256)) ∧
    (HitsMonotone params nBits <->
      params.nMaxMoneyOut.toNat / 100 * compactExpansion nBits < 2 ^ 256) := by
  constructor
  · intro nValueIn hrange
    exact hitsNaturally_iff hrange hoverflow
  · exact hitsMonotone_iff hoverflow

end Fits

theorem targetHit_natural_at_main :
    (forall nValueIn, CChainParams.mainParams.moneyRange nValueIn = true ->
      (HitsNaturally 0x1b00ffff nValueIn <->
        nValueIn.toNat / 100 * compactExpansion 0x1b00ffff < 2 ^ 256)) ∧
    (HitsMonotone CChainParams.mainParams 0x1b00ffff <->
      CChainParams.mainParams.nMaxMoneyOut.toNat / 100 * compactExpansion 0x1b00ffff < 2 ^ 256) :=
  targetHit_natural_iff_fits (by decide)

/--
At the lowest difficulty which `DarkGravityWave` gives to proof-of-stake blocks, the product
with an output of 16.777473 coins is cut off: the hash is missed which a smaller output hits.
-/
theorem larger_output_misses :
    CChainParams.mainParams.moneyRange 1677747200 = true ∧
    CChainParams.mainParams.moneyRange 1677747300 = true ∧
    (BlockIndex.setCompact 0x1e00ffff).fNegative = false ∧
    (BlockIndex.setCompact 0x1e00ffff).fOverflow = false ∧
    wordsTargetHit (BaseUint.ofNat (2 ^ 236)) 1677747200 (BaseUint.setCompact 0x1e00ffff) =
      some true ∧
    wordsTargetHit (BaseUint.ofNat (2 ^ 236)) 1677747300 (BaseUint.setCompact 0x1e00ffff) =
      some false ∧
    (BaseUint.ofNat (2 ^ 236)).value < 1677747300 / 100 * compactExpansion 0x1e00ffff := by
  refine ⟨by decide, by decide, by decide, by decide, ?_, ?_, ?_⟩
  · rw [wordsTargetHit_eq]
    decide
  · rw [wordsTargetHit_eq]
    decide
  · decide

end Stake
end Hbcur
