import Hbcur.Pow.BaseUint

/-!
# What the compact form keeps

The exponent of `GetCompact` counts bytes, with one more where the highest byte would reach the
sign bit.  In terms of bits it is one formula, and the mantissa is what is left above it.
-/

namespace Hbcur
namespace Pow

/-!
# Truncated numbers
-/

/-- A number without its lowest bits. -/
def truncate (v k : Nat) : Nat := v / 2 ^ k * 2 ^ k

theorem truncate_le (v k : Nat) : truncate v k ≤ v := Nat.div_mul_le_self v (2 ^ k)

theorem truncate_zero (v : Nat) : truncate v 0 = v := by
  rw [truncate, Nat.pow_zero, Nat.div_one, Nat.mul_one]

theorem truncate_of_dvd {v k : Nat} (h : 2 ^ k ∣ v) : truncate v k = v := Nat.div_mul_cancel h

theorem truncate_div (v k : Nat) : truncate v k / 2 ^ k = v / 2 ^ k :=
  Nat.mul_div_cancel _ (Nat.two_pow_pos k)

theorem testBit_truncate (v : Nat) {k i : Nat} (h : k ≤ i) :
    (truncate v k).testBit i = v.testBit i := by
  rw [truncate, Nat.testBit_mul_two_pow, decide_eq_true h, Bool.true_and,
    Nat.testBit_div_two_pow, Nat.sub_add_cancel h]

theorem size_truncate {v k : Nat} (h : k < Nat.size v) :
    Nat.size (truncate v k) = Nat.size v := by
  have hhigh : 2 ^ (Nat.size v - 1) ≤ v := Nat.lt_size.mp (by omega)
  have hexp : Nat.size v - 1 - k + k = Nat.size v - 1 := by omega
  apply Nat.le_antisymm (Nat.size_le_size (truncate_le v k))
  have hkept : 2 ^ (Nat.size v - 1) ≤ truncate v k := by
    rw [truncate, ← hexp, Nat.pow_add]
    apply Nat.mul_le_mul_right
    rw [Nat.le_div_iff_mul_le (Nat.two_pow_pos k), ← Nat.pow_add, hexp]
    exact hhigh
  have hsize := Nat.lt_size.mpr hkept
  omega

/-!
# Exponent and mantissa
-/

def exponent (v : Nat) : Nat := Nat.size v / 8 + 1

def mantissa (v : Nat) : Nat :=
  if exponent v ≤ 3 then v * 2 ^ (8 * (3 - exponent v)) else v / 2 ^ (8 * (exponent v - 3))

/-- The number of bits which the mantissa leaves out. -/
def droppedBits (v : Nat) : Nat := 8 * (exponent v - 3)

theorem mantissa_lt (v : Nat) : mantissa v < 2 ^ 23 := by
  have hsize := Nat.lt_size_self v
  unfold mantissa
  split_ifs with hsmall
  · have hmul := Nat.mul_lt_mul_of_pos_right hsize (Nat.two_pow_pos (8 * (3 - exponent v)))
    rw [← Nat.pow_add] at hmul
    apply hmul.trans_le (Nat.pow_le_pow_right Nat.two_pos _)
    unfold exponent at hsmall ⊢
    omega
  · apply Nat.div_lt_of_lt_mul
    rw [← Nat.pow_add]
    apply hsize.trans_le (Nat.pow_le_pow_right Nat.two_pos _)
    unfold exponent at hsmall ⊢
    omega

/-- A highest byte which reaches the sign bit. -/
theorem byteSize_of_sign {v : Nat} (hv : 0 < v) (h : Nat.size v % 8 = 0) :
    exponent v = byteSize v + 1 ∧ 0 < byteSize v ∧ 2 ^ (8 * byteSize v - 1) ≤ v := by
  have hpos := Nat.size_pos.mpr hv
  have hbytes : byteSize v = Nat.size v / 8 := by
    unfold byteSize
    omega
  refine ⟨by rw [exponent, hbytes], by omega, Nat.lt_size.mp ?_⟩
  omega

theorem byteSize_of_no_sign {v : Nat} (h : Nat.size v % 8 ≠ 0) :
    exponent v = byteSize v ∧ 0 < byteSize v ∧ v < 2 ^ (8 * byteSize v - 1) := by
  have hbytes : byteSize v = Nat.size v / 8 + 1 := by
    unfold byteSize
    omega
  refine ⟨hbytes.symm, by omega, ?_⟩
  apply (Nat.lt_size_self v).trans_le (Nat.pow_le_pow_right Nat.two_pos _)
  omega

theorem leadingBytes_of_sign {v : Nat} (hv : 0 < v) (h : Nat.size v % 8 = 0) :
    2 ^ 23 ≤ leadingBytes v ∧ leadingBytes v / 2 ^ 8 = mantissa v := by
  rcases byteSize_of_sign hv h with ⟨hexponent, hbytes, hhigh⟩
  unfold leadingBytes mantissa
  rw [hexponent]
  by_cases hsmall : byteSize v ≤ 3
  · have hlead : 2 ^ 23 ≤ v * 2 ^ (8 * (3 - byteSize v)) := by
      have hexp : 23 = 8 * byteSize v - 1 + 8 * (3 - byteSize v) := by omega
      rw [hexp, Nat.pow_add]
      exact Nat.mul_le_mul_right _ hhigh
    rw [if_pos hsmall]
    refine ⟨hlead, ?_⟩
    split_ifs with htwo
    · have hexp : 8 * (3 - byteSize v) = 8 * (3 - (byteSize v + 1)) + 8 := by omega
      rw [hexp, Nat.pow_add, ← Nat.mul_assoc, Nat.mul_div_cancel _ (Nat.two_pow_pos 8)]
    · have hthree : byteSize v = 3 := by omega
      rw [hthree, Nat.sub_self, Nat.mul_zero, Nat.pow_zero, Nat.mul_one]
  · have hnext : ¬ byteSize v + 1 ≤ 3 := by omega
    rw [if_neg hsmall, if_neg hnext]
    constructor
    · rw [Nat.le_div_iff_mul_le (Nat.two_pow_pos _), ← Nat.pow_add]
      exact (Nat.pow_le_pow_right Nat.two_pos (by omega)).trans hhigh
    · have hexp : 8 * (byteSize v - 3) + 8 = 8 * (byteSize v + 1 - 3) := by omega
      rw [Nat.div_div_eq_div_mul, ← Nat.pow_add, hexp]

theorem leadingBytes_of_no_sign {v : Nat} (h : Nat.size v % 8 ≠ 0) :
    leadingBytes v = mantissa v := by
  unfold leadingBytes mantissa
  rw [(byteSize_of_no_sign h).1]

theorem compactOf_eq {v : Nat} (hv : 0 < v) :
    compactOf v = mantissa v + exponent v * 2 ^ 24 := by
  unfold compactOf
  by_cases hsign : Nat.size v % 8 = 0
  · rcases leadingBytes_of_sign hv hsign with ⟨hlead, hmantissa⟩
    rw [if_pos hlead, hmantissa, (byteSize_of_sign hv hsign).1]
  · have hmantissa := leadingBytes_of_no_sign hsign
    have hlow : ¬ 2 ^ 23 ≤ leadingBytes v := by
      rw [hmantissa]
      exact Nat.not_le.mpr (mantissa_lt v)
    rw [if_neg hlow, hmantissa, (byteSize_of_no_sign hsign).1]

theorem compactOf_zero : compactOf 0 = 0 := by decide

theorem exponent_le {v : Nat} (hv : v < 2 ^ 256) : exponent v ≤ 33 := by
  have hsize := Nat.size_le.mpr hv
  unfold exponent
  omega

/-- The largest exponent leaves two bytes. -/
theorem mantissa_le {v : Nat} (hv : v < 2 ^ 256) (h : 32 < exponent v) :
    mantissa v ≤ 0xffff := by
  have hexponent : exponent v = 33 := Nat.le_antisymm (exponent_le hv) h
  have hquot : v / 2 ^ (8 * (33 - 3)) < 2 ^ 16 := by
    apply Nat.div_lt_of_lt_mul
    rw [← Nat.pow_add]
    exact hv
  unfold mantissa
  rw [hexponent, if_neg (by decide)]
  omega

theorem compactOf_lt {v : Nat} (hv : v < 2 ^ 256) : compactOf v < 2 ^ 32 := by
  rcases Nat.eq_zero_or_pos v with rfl | hpos
  · rw [compactOf_zero]
    exact Nat.two_pow_pos 32
  · have hmantissa := mantissa_lt v
    have hexponent := exponent_le hv
    rw [compactOf_eq hpos]
    omega

/-!
# Decoding
-/

theorem bnTarget_compactOf {v : Nat} (hv : v < 2 ^ 256) :
    (BlockIndex.setCompact (compactOf v)).bnTarget = truncate v (droppedBits v) := by
  rcases Nat.eq_zero_or_pos v with rfl | hpos
  · decide
  · rw [compactOf_eq hpos, bnTarget_of_mantissa (mantissa_lt v), droppedBits]
    unfold mantissa
    split_ifs with hsmall
    · have hnone : exponent v - 3 = 0 := by omega
      rw [Nat.mul_div_cancel _ (Nat.two_pow_pos _), hnone, Nat.mul_zero, truncate_zero]
    · exact Nat.mod_eq_of_lt ((truncate_le v _).trans_lt hv)

theorem droppedBits_lt_size {v : Nat} (hv : 0 < v) : droppedBits v < Nat.size v := by
  have hsize := Nat.size_pos.mpr hv
  unfold droppedBits exponent
  omega

theorem truncate_droppedBits_pos {v : Nat} (hv : 0 < v) : 0 < truncate v (droppedBits v) := by
  apply Nat.size_pos.mp
  rw [size_truncate (droppedBits_lt_size hv)]
  exact Nat.size_pos.mpr hv

/-- The compact form loses the low bytes of a number, but never all of it. -/
theorem setCompact_compactOf {v : Nat} (hv : v < 2 ^ 256) :
    CutOff (BlockIndex.setCompact (compactOf v)).bnTarget v := by
  rw [bnTarget_compactOf hv]
  exact ⟨truncate_le v _, truncate_droppedBits_pos⟩

theorem fNegative_of_mantissa {m n : Nat} (hm : m < 2 ^ 23) :
    (BlockIndex.setCompact (m + n * 2 ^ 24)).fNegative = false := by
  have hbit : (m + n * 2 ^ 24).testBit 23 = false := by
    rw [Nat.testBit_eq_decide_div_mod_eq]
    apply decide_eq_false
    omega
  simp only [BlockIndex.setCompact]
  rw [hbit, Bool.and_false]

theorem fNegative_compactOf (v : Nat) :
    (BlockIndex.setCompact (compactOf v)).fNegative = false := by
  rcases Nat.eq_zero_or_pos v with rfl | hpos
  · decide
  · rw [compactOf_eq hpos]
    exact fNegative_of_mantissa (mantissa_lt v)

theorem fOverflow_of_mantissa {m n : Nat} (hm : m < 2 ^ 23) (hn : n ≤ 33)
    (htwo : 32 < n -> m ≤ 0xffff) :
    (BlockIndex.setCompact (m + n * 2 ^ 24)).fOverflow = false := by
  have hsize : (m + n * 2 ^ 24) / 2 ^ 24 = n := by omega
  have hword : (m + n * 2 ^ 24) % 2 ^ 23 = m := by omega
  have hfour : ¬ 34 < n := by omega
  have hthree : ¬ 33 < n := by omega
  simp only [BlockIndex.setCompact, hsize, hword, decide_eq_false hfour, decide_eq_false hthree,
    Bool.and_false, Bool.or_false, Bool.false_or]
  by_cases hlarge : 32 < n
  · have hsmall : ¬ n ≤ 3 := by omega
    have hlow : ¬ 0xffff < m := Nat.not_lt.mpr (htwo hlarge)
    rw [if_neg hsmall, decide_eq_false hlow, Bool.false_and, Bool.and_false]
  · rw [decide_eq_false hlarge, Bool.and_false, Bool.and_false]

theorem fOverflow_compactOf {v : Nat} (hv : v < 2 ^ 256) :
    (BlockIndex.setCompact (compactOf v)).fOverflow = false := by
  rcases Nat.eq_zero_or_pos v with rfl | hpos
  · decide
  · rw [compactOf_eq hpos]
    exact fOverflow_of_mantissa (mantissa_lt v) (exponent_le hv) (mantissa_le hv)

/-- The truncated number has the same compact form. -/
theorem compactOf_truncate (v : Nat) : compactOf (truncate v (droppedBits v)) = compactOf v := by
  rcases Nat.eq_zero_or_pos v with rfl | hpos
  · decide
  · have hsize := size_truncate (droppedBits_lt_size hpos)
    have hexponent : exponent (truncate v (droppedBits v)) = exponent v := by
      rw [exponent, exponent, hsize]
    have hmantissa : mantissa (truncate v (droppedBits v)) = mantissa v := by
      unfold mantissa
      rw [hexponent]
      split_ifs with hsmall
      · have hnone : droppedBits v = 0 := by
          unfold droppedBits
          omega
        rw [hnone, truncate_zero]
      · exact truncate_div v _
    rw [compactOf_eq hpos, compactOf_eq (truncate_droppedBits_pos hpos), hexponent, hmantissa]

/-!
# Encoding what was decoded
-/

/-- Without an overflow no bit of the mantissa is shifted out. -/
theorem bnTarget_of_no_overflow {nCompact : Nat}
    (h : (BlockIndex.setCompact nCompact).fOverflow = false)
    (hlarge : ¬ nCompact / 2 ^ 24 ≤ 3) :
    (BlockIndex.setCompact nCompact).bnTarget =
      nCompact % 2 ^ 23 * 2 ^ (8 * (nCompact / 2 ^ 24 - 3)) := by
  have hmantissa : nCompact % 2 ^ 23 < 2 ^ 23 := Nat.mod_lt _ (Nat.two_pow_pos 23)
  simp only [BlockIndex.setCompact, if_neg hlarge, Nat.shiftLeft_eq] at h ⊢
  apply Nat.mod_eq_of_lt
  generalize nCompact % 2 ^ 23 = m at h hmantissa ⊢
  generalize nCompact / 2 ^ 24 = n at h hlarge ⊢
  simp only [Bool.and_eq_false_iff, Bool.or_eq_false_iff, decide_eq_false_iff_not] at h
  -- The bytes of the mantissa decide how large the exponent may be.
  have hfits : forall b, m < 2 ^ b -> b + 8 * (n - 3) ≤ 256 ->
      m * 2 ^ (8 * (n - 3)) < 2 ^ 256 := by
    intro b hb hle
    have hmul := Nat.mul_lt_mul_of_pos_right hb (Nat.two_pow_pos (8 * (n - 3)))
    rw [← Nat.pow_add] at hmul
    exact hmul.trans_le (Nat.pow_le_pow_right Nat.two_pos hle)
  rcases h with hzero | ⟨⟨hfour, hthree⟩, htwo⟩
  · rw [not_not.mp hzero, Nat.zero_mul]
    exact Nat.two_pow_pos 256
  · by_cases hbyte : m ≤ 0xff
    · exact hfits 8 (by omega) (by omega)
    · by_cases hbytes : m ≤ 0xffff
      · exact hfits 16 (by omega) (by omega)
      · exact hfits 24 (by omega) (by omega)

theorem bnTarget_small {nCompact : Nat} (h : nCompact / 2 ^ 24 ≤ 3) :
    (BlockIndex.setCompact nCompact).bnTarget < 2 ^ 23 := by
  simp only [BlockIndex.setCompact, if_pos h, Nat.shiftRight_eq_div_pow]
  exact (Nat.div_le_self _ _).trans_lt (Nat.mod_lt _ (Nat.two_pow_pos 23))

/-- Only zeros are dropped from a decoded number. -/
theorem truncate_bnTarget {nCompact : Nat}
    (h : (BlockIndex.setCompact nCompact).fOverflow = false)
    (hne : (BlockIndex.setCompact nCompact).bnTarget ≠ 0) :
    truncate (BlockIndex.setCompact nCompact).bnTarget
        (droppedBits (BlockIndex.setCompact nCompact).bnTarget) =
      (BlockIndex.setCompact nCompact).bnTarget := by
  by_cases hsmall : nCompact / 2 ^ 24 ≤ 3
  · have hsize := Nat.size_le.mpr (bnTarget_small hsmall)
    have hnone : droppedBits (BlockIndex.setCompact nCompact).bnTarget = 0 := by
      unfold droppedBits exponent
      omega
    rw [hnone, truncate_zero]
  · have hvalue := bnTarget_of_no_overflow h hsmall
    have hsize : Nat.size (nCompact % 2 ^ 23) ≤ 23 :=
      Nat.size_le.mpr (Nat.mod_lt _ (Nat.two_pow_pos 23))
    rw [hvalue] at hne ⊢
    apply truncate_of_dvd
    apply Dvd.dvd.mul_left
    apply Nat.pow_dvd_pow
    rw [droppedBits, exponent, ← Nat.shiftLeft_eq,
      Nat.size_shiftLeft (Nat.ne_zero_of_mul_ne_zero_left hne)]
    omega

/-!
# Bytes
-/

def topByte (v : Nat) : Nat := v / 2 ^ (8 * (byteSize v - 1))

/-- A highest byte with its highest bit set leaves room for one byte below it. -/
def keptBytes (v : Nat) : Nat := if topByte v < 0x80 then 3 else 2

theorem droppedBits_eq (v : Nat) : droppedBits v = 8 * (byteSize v - keptBytes v) := by
  rcases Nat.eq_zero_or_pos v with rfl | hpos
  · decide
  · unfold droppedBits keptBytes
    by_cases hsign : Nat.size v % 8 = 0
    · rcases byteSize_of_sign hpos hsign with ⟨hexponent, hbytes, hhigh⟩
      have htop : ¬ topByte v < 0x80 := by
        apply Nat.not_lt.mpr
        rw [topByte, Nat.le_div_iff_mul_le (Nat.two_pow_pos _)]
        have hexp : 8 * byteSize v - 1 = 7 + 8 * (byteSize v - 1) := by omega
        rw [hexp, Nat.pow_add] at hhigh
        exact hhigh
      rw [if_neg htop, hexponent]
      omega
    · rcases byteSize_of_no_sign hsign with ⟨hexponent, hbytes, hlow⟩
      have htop : topByte v < 0x80 := by
        apply Nat.div_lt_of_lt_mul
        have hexp : 8 * byteSize v - 1 = 8 * (byteSize v - 1) + 7 := by omega
        rw [hexp, Nat.pow_add] at hlow
        exact hlow
      rw [if_pos htop, hexponent]

/-!
# Words
-/

namespace BaseUint

/-- The `uint32_t` which `GetCompact` returns. -/
def compact (t : BaseUint) : BitVec 32 := BitVec.ofNat 32 t.getCompact

theorem toNat_compact (t : BaseUint) : t.compact.toNat = compactOf t.value := by
  rw [compact, BitVec.toNat_ofNat, getCompact_eq, Nat.mod_eq_of_lt (compactOf_lt t.value_lt)]

theorem value_setCompact_compact (t : BaseUint) :
    (setCompact t.compact).value = truncate t.value (droppedBits t.value) := by
  rw [value_setCompact, toNat_compact, bnTarget_compactOf t.value_lt]

/-- The compact form of a target keeps its highest bytes, and itself. -/
structure KeepsHighest (t : BaseUint) : Prop where
  le : (setCompact t.compact).value ≤ t.value
  agree : forall i, 8 * (byteSize t.value - keptBytes t.value) ≤ i ->
    (setCompact t.compact).value.testBit i = t.value.testBit i
  notNegative : (BlockIndex.setCompact t.compact.toNat).fNegative = false
  notOverflow : (BlockIndex.setCompact t.compact.toNat).fOverflow = false
  again : (setCompact t.compact).compact = t.compact

theorem keepsHighest (t : BaseUint) : KeepsHighest t := by
  constructor
  · rw [value_setCompact_compact]
    exact truncate_le _ _
  · intro i hi
    rw [value_setCompact_compact]
    rw [← droppedBits_eq] at hi
    exact testBit_truncate _ hi
  · rw [toNat_compact]
    exact fNegative_compactOf _
  · rw [toNat_compact]
    exact fOverflow_compactOf t.value_lt
  · apply BitVec.eq_of_toNat_eq
    rw [toNat_compact, toNat_compact, value_setCompact_compact, compactOf_truncate]

theorem setCompact_compact_setCompact {nBits : BitVec 32}
    (hneg : (BlockIndex.setCompact nBits.toNat).fNegative = false)
    (hover : (BlockIndex.setCompact nBits.toNat).fOverflow = false)
    (hne : (setCompact nBits).value ≠ 0) :
    BlockIndex.setCompact (setCompact nBits).compact.toNat =
      BlockIndex.setCompact nBits.toNat := by
  have hkeeps := keepsHighest (setCompact nBits)
  have hvalue : (BlockIndex.setCompact (setCompact nBits).compact.toNat).bnTarget =
      (BlockIndex.setCompact nBits.toNat).bnTarget := by
    rw [value_setCompact] at hne
    rw [← value_setCompact, value_setCompact_compact, value_setCompact,
      truncate_bnTarget hover hne]
  have hnegative := hkeeps.notNegative.trans hneg.symm
  have hoverflow := hkeeps.notOverflow.trans hover.symm
  cases hleft : BlockIndex.setCompact (setCompact nBits).compact.toNat
  cases hright : BlockIndex.setCompact nBits.toNat
  rw [hleft, hright] at hvalue hnegative hoverflow
  cases hvalue
  cases hnegative
  cases hoverflow
  rfl

/-- Decoded compact forms keep the highest bytes, and decoded numbers keep their value. -/
theorem compact_round_trips :
    (forall t : BaseUint, KeepsHighest t) ∧
    forall nBits : BitVec 32, (BlockIndex.setCompact nBits.toNat).fNegative = false ->
      (BlockIndex.setCompact nBits.toNat).fOverflow = false -> (setCompact nBits).value ≠ 0 ->
      BlockIndex.setCompact (setCompact nBits).compact.toNat =
        BlockIndex.setCompact nBits.toNat := by
  constructor
  · exact keepsHighest
  · intro nBits hneg hover hne
    exact setCompact_compact_setCompact hneg hover hne

/-- The limit of the proof of work has the compact form `0x1e0fffff`. -/
theorem compact_round_trips_limit :
    KeepsHighest (ofUint64 0xfffff) ∧
      BlockIndex.setCompact (setCompact 0x1e0fffff#32).compact.toNat =
        BlockIndex.setCompact 0x1e0fffff :=
  ⟨compact_round_trips.1 (ofUint64 0xfffff),
    compact_round_trips.2 0x1e0fffff#32 (by decide) (by decide) (by decide +kernel)⟩

/-- The third byte is lost below a highest byte with its highest bit set. -/
theorem third_byte_lost :
    ¬ forall i, 8 * (byteSize (ofUint64 0x800001).value - 3) ≤ i ->
      (setCompact (ofUint64 0x800001).compact).value.testBit i =
        (ofUint64 0x800001).value.testBit i := by
  intro h
  have hbit := h 0 (by decide +kernel)
  revert hbit
  decide +kernel

end BaseUint
end Pow
end Hbcur
