import Hbcur.Serialize.Bytes

/-!
# Bloom filters

`CBloomFilter` of `bloom.h` and `bloom.cpp`, and the hash function `MurmurHash3` of `hash.cpp`.
A filter is a set of bits; a key stands for some positions, and the flags `isFull` and `isEmpty`
answer without looking at the bits.
-/

namespace Hbcur
namespace Net

open Serialize

/-!
# The hash function
-/

def rotl32 (x r : UInt32) : UInt32 := (x <<< r) ||| (x >>> (32 - r))

/-- What both the body and the tail do with a word. -/
def mixWord (k1 : UInt32) : UInt32 := rotl32 (k1 * 0xcc9e2d51) 15 * 0x1b873593

/-- The words of four bytes, the least significant first; what is left is the tail. -/
def hashBody : List UInt8 -> UInt32 -> UInt32 × List UInt8
  | b0 :: b1 :: b2 :: b3 :: blocks, h1 =>
      let k1 := b0.toUInt32 ||| b1.toUInt32 <<< 8 ||| b2.toUInt32 <<< 16 ||| b3.toUInt32 <<< 24
      hashBody blocks (rotl32 (h1 ^^^ mixWord k1) 13 * 5 + 0xe6546b64)
  | tail, h1 => (h1, tail)

def hashTail (h1 : UInt32) : List UInt8 -> UInt32
  | [t0, t1, t2] => h1 ^^^ mixWord (t2.toUInt32 <<< 16 ^^^ t1.toUInt32 <<< 8 ^^^ t0.toUInt32)
  | [t0, t1] => h1 ^^^ mixWord (t1.toUInt32 <<< 8 ^^^ t0.toUInt32)
  | [t0] => h1 ^^^ mixWord t0.toUInt32
  | _ => h1

def finalization (h1 : UInt32) (size : Nat) : UInt32 :=
  let h1 := h1 ^^^ UInt32.ofNat size
  let h1 := (h1 ^^^ h1 >>> 16) * 0x85ebca6b
  let h1 := (h1 ^^^ h1 >>> 13) * 0xc2b2ae35
  h1 ^^^ h1 >>> 16

def murmurHash3 (nHashSeed : UInt32) (vDataToHash : List UInt8) : UInt32 :=
  let body := hashBody vDataToHash nHashSeed
  finalization (hashTail body.1 body.2) vDataToHash.length

/-!
# Filters

A modulus by zero and an access outside the bits give nothing.
-/

def MAX_BLOOM_FILTER_SIZE : Nat := 36000
def MAX_HASH_FUNCS : Nat := 50

structure CBloomFilter where
  vData : List UInt8
  isFull : Bool
  isEmpty : Bool
  nHashFuncs : UInt32
  nTweak : UInt32
  nFlags : UInt8
  deriving DecidableEq, Repr

namespace CBloomFilter

variable (filter : CBloomFilter)

def hash (nHashNum : Nat) (vDataToHash : List UInt8) : Option Nat :=
  if filter.vData.length * 8 = 0 then none
  else
    some ((murmurHash3 (UInt32.ofNat nHashNum * 0xFBA4C795 + filter.nTweak) vDataToHash).toNat %
      (filter.vData.length * 8))

/-- `vData[nIndex >> 3] |= (1 << (7 & nIndex))` -/
def setBit (nIndex : Nat) : Option CBloomFilter :=
  match filter.vData[nIndex >>> 3]? with
  | none => none
  | some byte =>
      some { filter with
        vData := filter.vData.set (nIndex >>> 3) (byte ||| 1 <<< UInt8.ofNat (7 &&& nIndex)) }

def insertLoop (vKey : List UInt8) : Nat -> Nat -> CBloomFilter -> Option CBloomFilter
  | 0, _, filter => some filter
  | rounds + 1, i, filter => do
      let nIndex ← filter.hash i vKey
      let filter ← filter.setBit nIndex
      insertLoop vKey rounds (i + 1) filter

def insert (vKey : List UInt8) : Option CBloomFilter :=
  if filter.isFull then some filter
  else do
    let filter ← insertLoop vKey filter.nHashFuncs.toNat 0 filter
    some { filter with isEmpty := false }

/-- `vData[nIndex >> 3] & (1 << (7 & nIndex))` -/
def checkBit (nIndex : Nat) : Option Bool :=
  match filter.vData[nIndex >>> 3]? with
  | none => none
  | some byte => some (byte &&& 1 <<< UInt8.ofNat (7 &&& nIndex) != 0)

def containsLoop (vKey : List UInt8) : Nat -> Nat -> Option Bool
  | 0, _ => some true
  | rounds + 1, i => do
      let nIndex ← filter.hash i vKey
      let set ← filter.checkBit nIndex
      if !set then some false else containsLoop vKey rounds (i + 1)

def contains (vKey : List UInt8) : Option Bool :=
  if filter.isFull then some true
  else if filter.isEmpty then some false
  else filter.containsLoop vKey filter.nHashFuncs.toNat 0

def isWithinSizeConstraints : Bool :=
  filter.vData.length ≤ MAX_BLOOM_FILTER_SIZE && filter.nHashFuncs.toNat ≤ MAX_HASH_FUNCS

def updateEmptyFull : CBloomFilter :=
  { filter with
    isFull := filter.vData.all (fun byte => byte == 0xff)
    isEmpty := filter.vData.all (fun byte => byte == 0) }

/-- The filter which a `filterload` message leaves, unless it is too large. -/
def filterLoad : Option CBloomFilter :=
  if !filter.isWithinSizeConstraints then none else some filter.updateEmptyFull

/-!
# The positions of a key
-/

def position (vKey : List UInt8) (i : Nat) : Nat :=
  (murmurHash3 (UInt32.ofNat i * 0xFBA4C795 + filter.nTweak) vKey).toNat %
    (filter.vData.length * 8)

/-- No position is computed in a filter without bits. -/
def HasBits : Prop := filter.isFull = false -> 0 < filter.vData.length

/-- A later state of a filter: the same positions, and every bit which was set. -/
structure Extends (later earlier : CBloomFilter) : Prop where
  length_eq : later.vData.length = earlier.vData.length
  isFull_eq : later.isFull = earlier.isFull
  isEmpty_imp : later.isEmpty = true -> earlier.isEmpty = true
  nHashFuncs_eq : later.nHashFuncs = earlier.nHashFuncs
  nTweak_eq : later.nTweak = earlier.nTweak
  nFlags_eq : later.nFlags = earlier.nFlags
  bits : forall n, bitAt earlier.vData n = true -> bitAt later.vData n = true

variable {filter} {later middle earlier : CBloomFilter} {vKey : List UInt8}

theorem Extends.refl : Extends filter filter :=
  ⟨rfl, rfl, id, rfl, rfl, rfl, fun _ => id⟩

theorem Extends.trans (h : Extends later middle) (h' : Extends middle earlier) :
    Extends later earlier where
  length_eq := h.length_eq.trans h'.length_eq
  isFull_eq := h.isFull_eq.trans h'.isFull_eq
  isEmpty_imp := h'.isEmpty_imp ∘ h.isEmpty_imp
  nHashFuncs_eq := h.nHashFuncs_eq.trans h'.nHashFuncs_eq
  nTweak_eq := h.nTweak_eq.trans h'.nTweak_eq
  nFlags_eq := h.nFlags_eq.trans h'.nFlags_eq
  bits n := h.bits n ∘ h'.bits n

theorem Extends.position_eq (h : Extends later earlier) (vKey : List UInt8) (i : Nat) :
    later.position vKey i = earlier.position vKey i := by
  unfold position
  rw [h.length_eq, h.nTweak_eq]

theorem Extends.hasBits (h : Extends later earlier) (hbits : earlier.HasBits) : later.HasBits := by
  unfold HasBits
  rw [h.length_eq, h.isFull_eq]
  exact hbits

theorem hasBits_updateEmptyFull : filter.updateEmptyFull.HasBits := by
  intro hfull
  apply List.length_pos_iff.mpr
  intro hnil
  change filter.vData.all (fun byte => byte == 0xff) = false at hfull
  change filter.vData = [] at hnil
  rw [hnil] at hfull
  cases hfull

section Positions

variable (hlength : 0 < filter.vData.length)
include hlength

variable (vKey) in
theorem position_lt (i : Nat) : filter.position vKey i < filter.vData.length * 8 :=
  Nat.mod_lt _ (Nat.mul_pos hlength (Nat.succ_pos 7))

theorem hash_eq (i : Nat) : filter.hash i vKey = some (filter.position vKey i) := by
  unfold hash
  rw [if_neg (by omega)]
  rfl

end Positions

theorem getElem?_shiftRight {n : Nat} (h : n < filter.vData.length * 8) :
    filter.vData[n >>> 3]? = some (filter.vData.getD (n / 8) 0) := by
  have hbyte : n / 8 < filter.vData.length := Nat.div_lt_of_lt_mul (by omega)
  rw [Nat.shiftRight_eq_div_pow, List.getD_eq_getElem?_getD, List.getElem?_eq_getElem hbyte]
  rfl

theorem and_seven (n : Nat) : 7 &&& n = n % 8 := by
  rw [Nat.and_comm]
  exact Nat.and_two_pow_sub_one_eq_mod n 3

theorem checkBit_eq {n : Nat} (h : n < filter.vData.length * 8) :
    filter.checkBit n = some (bitAt filter.vData n) := by
  unfold checkBit
  rw [getElem?_shiftRight h, and_seven]
  rfl

theorem setBit_eq {n : Nat} (h : n < filter.vData.length * 8) :
    exists later, filter.setBit n = some later ∧ Extends later filter ∧
      bitAt later.vData n = true := by
  have hbits := bitAt_set h true
  refine ⟨{ filter with
    vData := filter.vData.set (n / 8)
      (filter.vData.getD (n / 8) 0 ||| (true.toUInt8 <<< UInt8.ofNat (n % 8))) }, ?_, ?_, ?_⟩
  · unfold setBit
    rw [getElem?_shiftRight h, and_seven, Nat.shiftRight_eq_div_pow]
    rfl
  · refine ⟨List.length_set, rfl, id, rfl, rfl, rfl, ?_⟩
    intro m hm
    rw [hbits m, hm, Bool.true_or]
  · rw [hbits n, decide_eq_true rfl, Bool.true_and, Bool.or_true]

/-!
# Insertion and membership
-/

theorem insertLoop_spec (vKey : List UInt8) (rounds i : Nat) (hlength : 0 < filter.vData.length) :
    exists later, insertLoop vKey rounds i filter = some later ∧ Extends later filter ∧
      forall j, i ≤ j -> j < i + rounds ->
        bitAt later.vData (later.position vKey j) = true := by
  induction rounds generalizing i filter with
  | zero => exact ⟨filter, rfl, Extends.refl, fun j hle hlt => absurd hlt (Nat.not_lt.mpr hle)⟩
  | succ rounds ih =>
      rcases setBit_eq (position_lt vKey hlength i) with ⟨next, hset, hnext, hbit⟩
      rcases @ih next (i + 1) (hnext.length_eq.symm ▸ hlength) with
        ⟨later, hlater, hextends, hbits⟩
      refine ⟨later, ?_, hextends.trans hnext, ?_⟩
      · rw [insertLoop, hash_eq hlength]
        simp only [Option.bind_eq_bind, Option.bind_some, hset, hlater]
      · intro j hle hlt
        by_cases heq : j = i
        · rw [heq, hextends.position_eq, hnext.position_eq]
          exact hextends.bits _ hbit
        · exact hbits j (by omega) (by omega)

theorem containsLoop_eq (vKey : List UInt8) (rounds i : Nat) (hlength : 0 < filter.vData.length) :
    filter.containsLoop vKey rounds i =
      some ((List.range' i rounds).all fun j => bitAt filter.vData (filter.position vKey j)) := by
  induction rounds generalizing i with
  | zero => rfl
  | succ rounds ih =>
      rw [containsLoop, hash_eq hlength]
      simp only [Option.bind_eq_bind, Option.bind_some, checkBit_eq (position_lt vKey hlength i), ih,
        List.range'_succ, List.all_cons]
      cases bitAt filter.vData (filter.position vKey i) with
      | false => rfl
      | true => rfl

/-- Membership by the flags, and by the positions of the key where neither is set. -/
theorem contains_eq (h : filter.HasBits) (vKey : List UInt8) :
    filter.contains vKey = some (filter.isFull || !filter.isEmpty &&
      (List.range' 0 filter.nHashFuncs.toNat).all fun j =>
        bitAt filter.vData (filter.position vKey j)) := by
  unfold contains
  cases hfull : filter.isFull with
  | true => rfl
  | false =>
      cases hempty : filter.isEmpty with
      | true => rfl
      | false => exact containsLoop_eq vKey _ 0 (h hfull)

theorem contains_iff (h : filter.HasBits) (vKey : List UInt8) :
    filter.contains vKey = some true <->
      filter.isFull = true ∨ filter.isEmpty = false ∧
        forall j, j < filter.nHashFuncs.toNat ->
          bitAt filter.vData (filter.position vKey j) = true := by
  rw [contains_eq h, Option.some_inj, Bool.or_eq_true, Bool.and_eq_true, Bool.not_eq_true',
    List.all_eq_true]
  simp only [List.mem_range'_1, Nat.zero_le, true_and, Nat.zero_add]

/-- What a filter contains, its later states contain. -/
theorem Extends.contains (h : Extends later earlier) (hbits : earlier.HasBits)
    (hin : earlier.contains vKey = some true) : later.contains vKey = some true := by
  rw [contains_iff hbits] at hin
  rw [contains_iff (h.hasBits hbits), h.isFull_eq, h.nHashFuncs_eq]
  rcases hin with hfull | ⟨hempty, hall⟩
  · exact Or.inl hfull
  · refine Or.inr ⟨?_, ?_⟩
    · apply Bool.eq_false_iff.mpr
      intro hlater
      rw [h.isEmpty_imp hlater] at hempty
      cases hempty
    · intro j hj
      rw [h.position_eq]
      exact h.bits _ (hall j hj)

theorem insert_spec (h : filter.HasBits) (vKey : List UInt8) :
    exists later, filter.insert vKey = some later ∧ Extends later filter ∧
      later.contains vKey = some true := by
  unfold insert
  cases hfull : filter.isFull with
  | true =>
      refine ⟨filter, rfl, Extends.refl, ?_⟩
      unfold contains
      rw [if_pos hfull]
  | false =>
      rcases insertLoop_spec vKey filter.nHashFuncs.toNat 0 (h hfull) with
        ⟨later, hlater, hextends, hset⟩
      have hcleared : Extends { later with isEmpty := false } filter :=
        ⟨hextends.length_eq, hextends.isFull_eq, nofun, hextends.nHashFuncs_eq,
          hextends.nTweak_eq, hextends.nFlags_eq, hextends.bits⟩
      refine ⟨{ later with isEmpty := false }, ?_, hcleared, ?_⟩
      · simp only [Bool.false_eq_true, if_false, hlater]
        rfl
      · rw [contains_iff (hcleared.hasBits h)]
        refine Or.inr ⟨rfl, ?_⟩
        intro j hj
        rw [hcleared.nHashFuncs_eq] at hj
        exact hset j (Nat.zero_le j) (by omega)

end CBloomFilter

end Net
end Hbcur
