import Hbcur.Foundation.Limbs
import Hbcur.BlockIndex.Tree

/-!
# 256-bit integers

`base_uint<256>` of `uint256.h` as its eight 32-bit words, and the compact form of
`uint256.cpp`.  The 64-bit intermediate results of its loops cannot overflow.
-/

namespace Hbcur
namespace Pow

open Foundation

/-!
# Words
-/

structure BaseUint where
  pn : List (BitVec 32)
  width : pn.length = 8

namespace BaseUint

def value (a : BaseUint) : Nat := Limbs.value a.pn

theorem value_lt (a : BaseUint) : a.value < 2 ^ 256 := by
  have h := Limbs.value_lt a.pn
  rw [a.width] at h
  exact h

/-- The constructor from `uint64_t`. -/
def ofUint64 (b : Nat) : BaseUint where
  pn := [BitVec.ofNat 32 b, BitVec.ofNat 32 (b >>> 32), 0, 0, 0, 0, 0, 0]
  width := rfl

theorem value_ofUint64 {b : Nat} (h : b < 2 ^ 64) : (ofUint64 b).value = b := by
  have hhigh : b / 2 ^ 32 < 2 ^ 32 := Nat.div_lt_of_lt_mul h
  simp only [value, ofUint64, Limbs.value_cons, Limbs.value_nil, BitVec.toNat_ofNat,
    Nat.shiftRight_eq_div_pow]
  rw [Nat.mod_eq_of_lt hhigh]
  simp only [BitVec.ofNat_eq_ofNat, BitVec.toNat_ofNat, Nat.zero_mod, Nat.mul_zero, Nat.add_zero]
  exact Nat.mod_add_div b (2 ^ 32)

def ofNat (n : Nat) : BaseUint where
  pn := Limbs.words 8 n
  width := Limbs.length_words 8 n

theorem value_ofNat {n : Nat} (h : n < 2 ^ 256) : (ofNat n).value = n := by
  rw [value, ofNat, Limbs.value_words]
  exact Nat.mod_eq_of_lt h

/-- `operator*=(uint32_t b32)` -/
def mulUint32 (a : BaseUint) (b32 : BitVec 32) : BaseUint where
  pn := Limbs.mulLoop b32.toNat 0 a.pn
  width := by rw [Limbs.length_mulLoop, a.width]

theorem value_mulUint32 (a : BaseUint) (b32 : BitVec 32) :
    (a.mulUint32 b32).value = (a.value * b32.toNat) % 2 ^ 256 := by
  have h := Limbs.value_mulLoop b32.toNat a.pn 0
  rw [a.width, Nat.zero_add, Nat.mul_comm] at h
  exact h

/-- `operator*=(const base_uint& b)` -/
def mul (a b : BaseUint) : BaseUint where
  pn := Limbs.mulWords a.pn b.pn (List.replicate 8 0#32)
  width := by rw [Limbs.length_mulWords, List.length_replicate]

theorem value_mul (a b : BaseUint) : (a.mul b).value = (a.value * b.value) % 2 ^ 256 := by
  have hlen : (List.replicate 8 0#32).length ≤ b.pn.length := by
    rw [b.width, List.length_replicate]
  have h := Limbs.value_mulWords a.pn b.pn (List.replicate 8 0#32) hlen
  rw [Limbs.value_replicate_zero, Nat.zero_add, List.length_replicate] at h
  exact h

def add (a b : BaseUint) : BaseUint where
  pn := Limbs.addLoop 0 a.pn b.pn
  width := by rw [Limbs.length_addLoop _ _ _ (b.width.trans a.width.symm), a.width]

theorem value_add (a b : BaseUint) : (a.add b).value = (a.value + b.value) % 2 ^ 256 := by
  have h := Limbs.value_addLoop a.pn 0 b.pn (b.width.trans a.width.symm)
  rw [a.width, Nat.zero_add] at h
  exact h

/-- `operator<<=` -/
def shl (a : BaseUint) (shift : Nat) : BaseUint where
  pn := Limbs.shlWords shift a.pn
  width := by rw [Limbs.length_shlWords, a.width]

theorem value_shl (a : BaseUint) (shift : Nat) :
    (a.shl shift).value = (a.value * 2 ^ shift) % 2 ^ 256 := by
  have h := Limbs.value_shlWords (by decide) shift a.pn
  rw [a.width] at h
  exact h

/-- `operator>>=` -/
def shr (a : BaseUint) (shift : Nat) : BaseUint where
  pn := Limbs.shrWords shift a.pn
  width := by rw [Limbs.length_shrWords, a.width]

theorem value_shr (a : BaseUint) (shift : Nat) : (a.shr shift).value = a.value / 2 ^ shift :=
  Limbs.value_shrWords (by decide) shift a.pn

/-- `operator/=`, which throws for the divisor zero. -/
def div (a b : BaseUint) : Option BaseUint :=
  match Limbs.divWords a.pn b.pn with
  | none => none
  | some pn => if hwidth : pn.length = 8 then some ⟨pn, hwidth⟩ else none

theorem div_eq_some {a b : BaseUint} (hb : b.value ≠ 0) :
    exists c, a.div b = some c ∧ c.value = a.value / b.value := by
  rcases Limbs.divWords_eq_some (by decide) (b.width.trans a.width.symm) hb with
    ⟨pn, hpn, hlen, hvalue⟩
  have hwidth : pn.length = 8 := hlen.trans a.width
  refine ⟨⟨pn, hwidth⟩, ?_, hvalue⟩
  unfold div
  split
  · rename_i hnone
    rw [hpn] at hnone
    cases hnone
  · rename_i pn' hpn'
    rw [hpn] at hpn'
    cases hpn'
    rw [dif_pos hwidth]

def compareTo (a b : BaseUint) : Ordering := Limbs.compareWords a.pn b.pn

theorem compareTo_eq (a b : BaseUint) : a.compareTo b = compare a.value b.value :=
  Limbs.compareWords_eq a.pn b.pn (b.width.trans a.width.symm)

theorem compareTo_eq_gt {a b : BaseUint} : a.compareTo b = Ordering.gt <-> b.value < a.value := by
  rw [compareTo_eq, Nat.compare_eq_gt]

theorem compareTo_eq_lt {a b : BaseUint} : a.compareTo b = Ordering.lt <-> a.value < b.value := by
  rw [compareTo_eq, Nat.compare_eq_lt]

def bits (a : BaseUint) : Nat := Limbs.bits a.pn

theorem bits_eq (a : BaseUint) : a.bits = Nat.size a.value := Limbs.bits_eq (by decide) a.pn

def getLow64 (a : BaseUint) : Nat :=
  (Limbs.wordAt a.pn 0).toNat ||| (Limbs.wordAt a.pn 1).toNat <<< 32

theorem getLow64_eq (a : BaseUint) : a.getLow64 = a.value % 2 ^ 64 := by
  apply Nat.eq_of_testBit_eq
  intro i
  have h0 := (Limbs.wordAt a.pn 0).isLt
  have h1 := (Limbs.wordAt a.pn 1).isLt
  rw [getLow64, Nat.testBit_or, Nat.testBit_shiftLeft, Nat.testBit_mod_two_pow, value,
    Limbs.testBit_value (by decide)]
  by_cases hlow : i < 32
  · have hge : ¬ 32 ≤ i := by omega
    have hlt : i < 64 := by omega
    rw [Nat.div_eq_of_lt hlow, Nat.mod_eq_of_lt hlow]
    simp [hge, hlt, BitVec.getLsbD]
  · have hzero : (Limbs.wordAt a.pn 0).toNat.testBit i = false :=
      Nat.testBit_lt_two_pow (h0.trans_le (Nat.pow_le_pow_right Nat.two_pos (by omega)))
    have hge : 32 ≤ i := by omega
    by_cases hmid : i < 64
    · have hdiv : i / 32 = 1 := by omega
      have hmod : i % 32 = i - 32 := by omega
      rw [hdiv, hmod, hzero]
      simp [hge, hmid, BitVec.getLsbD]
    · have hone : (Limbs.wordAt a.pn 1).toNat.testBit (i - 32) = false :=
        Nat.testBit_lt_two_pow (h1.trans_le (Nat.pow_le_pow_right Nat.two_pos (by omega)))
      rw [hzero, hone]
      simp [hmid]

/-- `~uint256(0)` -/
def allOnes : BaseUint where
  pn := List.replicate 8 (~~~0#32)
  width := rfl

theorem value_allOnes : allOnes.value = 2 ^ 256 - 1 := by decide

/-- Products and shifts are taken modulo 2 ^ 256, quotients are rounded down. -/
theorem operators_exact (a b : BaseUint) :
    (b.value ≠ 0 -> exists c, a.div b = some c ∧ c.value = a.value / b.value) ∧
      (a.mul b).value = (a.value * b.value) % 2 ^ 256 ∧
      (forall b32, (a.mulUint32 b32).value = (a.value * b32.toNat) % 2 ^ 256) ∧
      (forall shift, (a.shl shift).value = (a.value * 2 ^ shift) % 2 ^ 256) ∧
      forall shift, (a.shr shift).value = (a.value / 2 ^ shift) % 2 ^ 256 := by
  constructor
  · exact div_eq_some
  · constructor
    · exact value_mul a b
    · constructor
      · exact value_mulUint32 a
      · constructor
        · exact value_shl a
        · intro shift
          have hlt : a.value / 2 ^ shift < 2 ^ 256 := (Nat.div_le_self _ _).trans_lt a.value_lt
          rw [value_shr, Nat.mod_eq_of_lt hlt]

/-- The largest number, by 2 ^ 32 + 1 and shifted by a word and by the whole width. -/
theorem operators_exact_allOnes :
    (exists c, allOnes.div (ofUint64 4294967297) = some c ∧
      c.value = allOnes.value / (ofUint64 4294967297).value) ∧
      (allOnes.mul (ofUint64 4294967297)).value = 2 ^ 256 - 4294967297 ∧
      (allOnes.shl 32).value = 2 ^ 256 - 2 ^ 32 ∧ (allOnes.shl 256).value = 0 := by
  have hvalue : (ofUint64 4294967297).value = 4294967297 := value_ofUint64 (by decide)
  have h := operators_exact allOnes (ofUint64 4294967297)
  rw [hvalue, value_allOnes] at h
  rw [hvalue, value_allOnes]
  exact ⟨h.1 (by decide), h.2.1.trans (by decide), (h.2.2.2.1 32).trans (by decide),
    (h.2.2.2.1 256).trans (by decide)⟩

/-!
# The compact form
-/

def setCompact (nCompact : BitVec 32) : BaseUint :=
  let nSize := nCompact.toNat >>> 24
  let nWord := nCompact.toNat % 2 ^ 23
  if nSize ≤ 3 then ofUint64 (nWord >>> (8 * (3 - nSize)))
  else (ofUint64 nWord).shl (8 * (nSize - 3))

theorem value_setCompact (nCompact : BitVec 32) :
    (setCompact nCompact).value = (BlockIndex.setCompact nCompact.toNat).bnTarget := by
  have hword : nCompact.toNat % 2 ^ 23 < 2 ^ 64 :=
    (Nat.mod_lt _ (Nat.two_pow_pos 23)).trans (by decide)
  simp only [setCompact, BlockIndex.setCompact, Nat.shiftRight_eq_div_pow]
  split_ifs with hsize
  · exact value_ofUint64 ((Nat.div_le_self _ _).trans_lt hword)
  · rw [value_shl, value_ofUint64 hword, Nat.shiftLeft_eq]

/-- The mantissa of `GetCompact` before the test of its sign bit. -/
def compactMantissa (a : BaseUint) (nSize : Nat) : Nat :=
  if nSize ≤ 3 then (a.getLow64 <<< (8 * (3 - nSize))) % 2 ^ 32
  else (a.shr (8 * (nSize - 3))).getLow64 % 2 ^ 32

def getCompact (a : BaseUint) : Nat :=
  let nSize := (a.bits + 7) / 8
  let nCompact := a.compactMantissa nSize
  if nCompact.testBit 23 then (nCompact >>> 8) ||| ((nSize + 1) <<< 24)
  else nCompact ||| (nSize <<< 24)

end BaseUint

/-!
# The compact form of a number
-/

/-- The number of bytes of a number. -/
def byteSize (v : Nat) : Nat := (Nat.size v + 7) / 8

/-- The three highest bytes of a number. -/
def leadingBytes (v : Nat) : Nat :=
  if byteSize v ≤ 3 then v * 2 ^ (8 * (3 - byteSize v)) else v / 2 ^ (8 * (byteSize v - 3))

/-- Three bytes below the sign bit, and a number of bytes. -/
def compactOf (v : Nat) : Nat :=
  if 2 ^ 23 ≤ leadingBytes v then leadingBytes v / 2 ^ 8 + (byteSize v + 1) * 2 ^ 24
  else leadingBytes v + byteSize v * 2 ^ 24

theorem lt_of_byteSize (v : Nat) : v < 2 ^ (8 * byteSize v) := by
  have h := Nat.lt_size_self v
  refine h.trans_le (Nat.pow_le_pow_right Nat.two_pos ?_)
  unfold byteSize
  omega

theorem leadingBytes_lt (v : Nat) : leadingBytes v < 2 ^ 24 := by
  have h := lt_of_byteSize v
  unfold leadingBytes
  split_ifs with hsize
  · have hmul := Nat.mul_lt_mul_of_pos_right h (Nat.two_pow_pos (8 * (3 - byteSize v)))
    rw [← Nat.pow_add] at hmul
    have hexp : 8 * byteSize v + 8 * (3 - byteSize v) = 24 := by omega
    rw [hexp] at hmul
    exact hmul
  · apply Nat.div_lt_of_lt_mul
    rw [← Nat.pow_add]
    have hexp : 8 * (byteSize v - 3) + 24 = 8 * byteSize v := by omega
    rw [hexp]
    exact h

namespace BaseUint

theorem compactMantissa_eq (a : BaseUint) :
    a.compactMantissa (byteSize a.value) = leadingBytes a.value := by
  have hlead := leadingBytes_lt a.value
  have hlt := lt_of_byteSize a.value
  unfold leadingBytes at hlead ⊢
  unfold compactMantissa
  split_ifs at hlead ⊢ with hsize
  · have hlow : a.value < 2 ^ 64 :=
      hlt.trans_le (Nat.pow_le_pow_right Nat.two_pos (by omega))
    rw [getLow64_eq, Nat.mod_eq_of_lt hlow, Nat.shiftLeft_eq,
      Nat.mod_eq_of_lt (hlead.trans (by decide))]
  · rw [getLow64_eq, value_shr, Nat.mod_eq_of_lt (hlead.trans (by decide)),
      Nat.mod_eq_of_lt (hlead.trans (by decide))]

theorem getCompact_eq (a : BaseUint) : a.getCompact = compactOf a.value := by
  have hlead := leadingBytes_lt a.value
  have hsize : (a.bits + 7) / 8 = byteSize a.value := by rw [bits_eq, byteSize]
  have hbit : (leadingBytes a.value).testBit 23 = decide (2 ^ 23 ≤ leadingBytes a.value) := by
    rw [Nat.testBit_eq_decide_div_mod_eq]
    congr 1
    apply propext
    omega
  have hor : forall m n, m < 2 ^ 24 -> m ||| (n <<< 24) = m + n * 2 ^ 24 := by
    intro m n hm
    rw [Nat.shiftLeft_eq, Nat.or_comm, Nat.mul_comm,
      ← Nat.two_pow_add_eq_or_of_lt hm, Nat.add_comm]
  unfold getCompact compactOf
  simp only [hsize, compactMantissa_eq, hbit, decide_eq_true_eq]
  split_ifs with hsign
  · rw [Nat.shiftRight_eq_div_pow, hor _ _ ((Nat.div_le_self _ _).trans_lt hlead)]
  · exact hor _ _ hlead

end BaseUint

/-!
# Decoding a compact form
-/

theorem bnTarget_of_mantissa {m n : Nat} (hm : m < 2 ^ 23) :
    (BlockIndex.setCompact (m + n * 2 ^ 24)).bnTarget =
      if n ≤ 3 then m / 2 ^ (8 * (3 - n)) else (m * 2 ^ (8 * (n - 3))) % 2 ^ 256 := by
  have hsize : (m + n * 2 ^ 24) / 2 ^ 24 = n := by omega
  have hword : (m + n * 2 ^ 24) % 2 ^ 23 = m := by omega
  simp only [BlockIndex.setCompact, hsize, hword, Nat.shiftRight_eq_div_pow, Nat.shiftLeft_eq]
  split_ifs <;> rfl

/-- A number cut off below a bit, but not to zero. -/
def CutOff (u v : Nat) : Prop := u ≤ v ∧ (0 < v -> 0 < u)

end Pow
end Hbcur
