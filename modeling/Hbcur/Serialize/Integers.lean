import Mathlib.Tactic.Linarith
import Hbcur.Foundation.Codec

/-!
# Integers on disk

The two integer formats of `serialize.h` which the undo data uses: `VARINT`, a
base-128 format with continuation bits, and `CompactSize`, the length of a
vector.  Machine integers are integers; a reader wraps its accumulator to the
width of the type it reads.
-/

namespace Hbcur
namespace Serialize

open Foundation

def MAX_SIZE : Nat := 0x02000000

/-!
# Wrapping
-/

def wrapUInt32 (n : Int) : Int := n % 4294967296

def wrapUInt64 (n : Int) : Int := n % 18446744073709551616

def wrapInt32 (n : Int) : Int := Int.bmod n 4294967296

def wrapInt64 (n : Int) : Int := Int.bmod n 18446744073709551616

/-!
# Variable-length integers

The source collects the digits from the least significant one up and writes them
in opposite order.  The loop stops at the first value of at most 127, hence at
once for a negative one.
-/

def varIntDigits (n : Int) (continued : Bool) : List UInt8 :=
  if _h : n ≤ 0x7f then
    [UInt8.ofNat ((n % 128).toNat + if continued then 128 else 0)]
  else
    varIntDigits (n / 128 - 1) true ++
      [UInt8.ofNat ((n % 128).toNat + if continued then 128 else 0)]
termination_by n.toNat
decreasing_by omega

def writeVarInt (n : Int) : List UInt8 :=
  varIntDigits n false

def readVarIntFrom (wrap : Int -> Int) (n : Int) :
    List UInt8 -> Option (Int × List UInt8)
  | [] => none
  | chData :: rest =>
      if 128 ≤ chData.toNat then
        readVarIntFrom wrap (wrap (wrap (n * 128 + (chData.toNat % 128 : Nat)) + 1)) rest
      else some (wrap (n * 128 + (chData.toNat % 128 : Nat)), rest)

def readVarInt (wrap : Int -> Int) (bytes : List UInt8) : Option (Int × List UInt8) :=
  readVarIntFrom wrap 0 bytes

/-- Reading one digit which is followed by others. -/
theorem readVarIntFrom_continued (wrap : Int -> Int) (acc d : Int) (hd : 0 ≤ d)
    (hd' : d < 128) (rest : List UInt8) :
    readVarIntFrom wrap acc (UInt8.ofNat (d.toNat + 128) :: rest) =
      readVarIntFrom wrap (wrap (wrap (acc * 128 + d) + 1)) rest := by
  have hbyte : (UInt8.ofNat (d.toNat + 128)).toNat = d.toNat + 128 := by
    rw [UInt8.toNat_ofNat']
    omega
  have hdigit : (((d.toNat + 128) % 128 : Nat) : Int) = d := by omega
  simp only [readVarIntFrom, hbyte, hdigit]
  rw [if_pos (by omega)]

/-- Reading the last digit. -/
theorem readVarIntFrom_last (wrap : Int -> Int) (acc d : Int) (hd : 0 ≤ d)
    (hd' : d < 128) (rest : List UInt8) :
    readVarIntFrom wrap acc (UInt8.ofNat (d.toNat + 0) :: rest) =
      some (wrap (acc * 128 + d), rest) := by
  have hbyte : (UInt8.ofNat (d.toNat + 0)).toNat = d.toNat := by
    rw [UInt8.toNat_ofNat']
    omega
  have hdigit : ((d.toNat % 128 : Nat) : Int) = d := by omega
  simp only [readVarIntFrom, hbyte, hdigit]
  rw [if_neg (by omega)]

/-- Digits which are all followed by another one leave one more than their value. -/
theorem readVarIntFrom_digits {wrap : Int -> Int} {bound : Int}
    (hwrap : forall m, 0 ≤ m -> m < bound -> wrap m = m) :
    forall (fuel : Nat) (m : Int), m.toNat ≤ fuel -> 0 ≤ m -> m + 1 < bound ->
      forall rest, readVarIntFrom wrap 0 (varIntDigits m true ++ rest) =
        readVarIntFrom wrap (m + 1) rest := by
  intro fuel
  induction fuel with
  | zero =>
      intro m hfuel hm hbound rest
      have hzero : m = 0 := by omega
      subst hzero
      unfold varIntDigits
      rw [dif_pos (by omega)]
      have hone := readVarIntFrom_continued wrap 0 0 (by omega) (by omega) rest
      simp only [if_true, List.singleton_append]
      rw [show ((0 : Int) % 128) = 0 by omega, hone]
      rw [show (0 : Int) * 128 + 0 = 0 by omega, hwrap 0 (by omega) (by omega)]
      rw [hwrap (0 + 1) (by omega) (by omega)]
  | succ fuel ih =>
      intro m hfuel hm hbound rest
      have hmod : 0 ≤ m % 128 ∧ m % 128 < 128 := by omega
      unfold varIntDigits
      by_cases hsmall : m ≤ 0x7f
      · rw [dif_pos hsmall]
        simp only [if_true, List.singleton_append]
        rw [readVarIntFrom_continued wrap 0 (m % 128) hmod.1 hmod.2]
        rw [show (0 : Int) * 128 + m % 128 = m by omega]
        rw [hwrap m hm (by omega), hwrap (m + 1) (by omega) hbound]
      · rw [dif_neg hsmall]
        simp only [if_true, List.append_assoc, List.singleton_append]
        rw [ih (m / 128 - 1) (by omega) (by omega) (by omega)]
        rw [readVarIntFrom_continued wrap _ (m % 128) hmod.1 hmod.2]
        rw [show (m / 128 - 1 + 1) * 128 + m % 128 = m by omega]
        rw [hwrap m hm (by omega), hwrap (m + 1) (by omega) hbound]

theorem reads_writeVarInt {wrap : Int -> Int} {bound : Int}
    (hwrap : forall m, 0 ≤ m -> m < bound -> wrap m = m) {n : Int} (hn : 0 ≤ n)
    (hbound : n < bound) : Reads (readVarInt wrap) (writeVarInt n) n := by
  intro rest
  have hmod : 0 ≤ n % 128 ∧ n % 128 < 128 := by omega
  unfold readVarInt writeVarInt varIntDigits
  by_cases hsmall : n ≤ 0x7f
  · rw [dif_pos hsmall]
    simp only [Bool.false_eq_true, if_false, List.singleton_append]
    rw [readVarIntFrom_last wrap 0 (n % 128) hmod.1 hmod.2]
    rw [show (0 : Int) * 128 + n % 128 = n by omega, hwrap n hn hbound]
  · rw [dif_neg hsmall]
    simp only [Bool.false_eq_true, if_false, List.append_assoc, List.singleton_append]
    rw [readVarIntFrom_digits hwrap (n / 128 - 1).toNat (n / 128 - 1) (Nat.le_refl _)
      (by omega) (by omega)]
    rw [readVarIntFrom_last wrap _ (n % 128) hmod.1 hmod.2]
    rw [show (n / 128 - 1 + 1) * 128 + n % 128 = n by omega, hwrap n hn hbound]

/-- A negative number is written as one byte, which holds its last seven bits. -/
theorem reads_writeVarInt_neg {wrap : Int -> Int}
    (hwrap : forall m, 0 ≤ m -> m < 128 -> wrap m = m) {n : Int} (hn : n < 0) :
    Reads (readVarInt wrap) (writeVarInt n) (n % 128) := by
  intro rest
  have hmod : 0 ≤ n % 128 ∧ n % 128 < 128 := by omega
  unfold readVarInt writeVarInt varIntDigits
  rw [dif_pos (by omega)]
  simp only [Bool.false_eq_true, if_false, List.singleton_append]
  rw [readVarIntFrom_last wrap 0 (n % 128) hmod.1 hmod.2]
  rw [show (0 : Int) * 128 + n % 128 = n % 128 by omega, hwrap _ hmod.1 hmod.2]

theorem wrapUInt32_of_range (m : Int) (h0 : 0 ≤ m) (h : m < 4294967296) :
    wrapUInt32 m = m :=
  Int.emod_eq_of_lt h0 h

theorem wrapUInt64_of_range (m : Int) (h0 : 0 ≤ m) (h : m < 18446744073709551616) :
    wrapUInt64 m = m :=
  Int.emod_eq_of_lt h0 h

theorem wrapInt32_of_range (m : Int) (h0 : -2147483648 ≤ m) (h : m < 2147483648) :
    wrapInt32 m = m :=
  Int.bmod_eq_of_le (by omega) (by omega)

theorem wrapInt64_of_range (m : Int) (h0 : -9223372036854775808 ≤ m)
    (h : m < 9223372036854775808) : wrapInt64 m = m :=
  Int.bmod_eq_of_le (by omega) (by omega)

/-!
# Little-endian words
-/

def writeLE : Nat -> Nat -> List UInt8
  | 0, _ => []
  | width + 1, n => UInt8.ofNat (n % 256) :: writeLE width (n / 256)

def valueLE : List UInt8 -> Nat
  | [] => 0
  | byte :: rest => byte.toNat + 256 * valueLE rest

def readLE (width : Nat) (bytes : List UInt8) : Option (Nat × List UInt8) :=
  match readExactly width bytes with
  | none => none
  | some (word, rest) => some (valueLE word, rest)

@[simp] theorem length_writeLE (width n : Nat) : (writeLE width n).length = width := by
  induction width generalizing n with
  | zero => rfl
  | succ width ih => rw [writeLE, List.length_cons, ih]

theorem valueLE_writeLE (width n : Nat) (h : n < 256 ^ width) :
    valueLE (writeLE width n) = n := by
  induction width generalizing n with
  | zero =>
      have hzero : n = 0 := by simpa using h
      rw [hzero]
      rfl
  | succ width ih =>
      have hdiv : n / 256 < 256 ^ width := by
        rw [Nat.pow_succ] at h
        exact Nat.div_lt_of_lt_mul (by omega)
      have hbyte : (UInt8.ofNat (n % 256)).toNat = n % 256 := by
        rw [UInt8.toNat_ofNat']
        omega
      simp only [writeLE, valueLE, hbyte, ih (n / 256) hdiv]
      omega

theorem writeLE_valueLE (bytes : List UInt8) : writeLE bytes.length (valueLE bytes) = bytes := by
  induction bytes with
  | nil => rfl
  | cons byte rest ih =>
      have hlt := byte.toNat_lt
      have hlow : (byte.toNat + 256 * valueLE rest) % 256 = byte.toNat := by omega
      have hhigh : (byte.toNat + 256 * valueLE rest) / 256 = valueLE rest := by omega
      rw [List.length_cons, writeLE, valueLE, hlow, hhigh, ih, UInt8.ofNat_toNat]

theorem reads_writeLE {width n : Nat} (h : n < 256 ^ width) :
    Reads (readLE width) (writeLE width n) n := by
  intro rest
  have hread := reads_readExactly (writeLE width n) rest
  rw [length_writeLE] at hread
  simp only [readLE, hread, valueLE_writeLE width n h]

/-!
# Compact sizes

Reading refuses a size which fits a shorter form, and one above `MAX_SIZE`.
-/

def writeCompactSize (nSize : Nat) : List UInt8 :=
  if nSize < 253 then [UInt8.ofNat nSize]
  else if nSize ≤ 0xffff then 253 :: writeLE 2 nSize
  else if nSize ≤ 0xffffffff then 254 :: writeLE 4 nSize
  else 255 :: writeLE 8 nSize

theorem length_writeCompactSize (nSize : Nat) : (writeCompactSize nSize).length ≤ 9 := by
  unfold writeCompactSize
  split_ifs <;> simp

/-- The check at the end of each branch of `ReadCompactSize`. -/
def checkedSize (least : Nat) (found : Option (Nat × List UInt8)) :
    Option (Nat × List UInt8) :=
  match found with
  | none => none
  | some (nSizeRet, rest) =>
      if nSizeRet < least then none
      else if MAX_SIZE < nSizeRet then none
      else some (nSizeRet, rest)

def readCompactSize : List UInt8 -> Option (Nat × List UInt8)
  | [] => none
  | chSize :: rest =>
      if chSize.toNat < 253 then checkedSize 0 (some (chSize.toNat, rest))
      else if chSize.toNat = 253 then checkedSize 253 (readLE 2 rest)
      else if chSize.toNat = 254 then checkedSize 0x10000 (readLE 4 rest)
      else checkedSize 0x100000000 (readLE 8 rest)

theorem readCompactSize_two (rest : List UInt8) :
    readCompactSize (253 :: rest) = checkedSize 253 (readLE 2 rest) := by
  rw [readCompactSize, if_neg (by decide), if_pos (by decide)]

theorem readCompactSize_four (rest : List UInt8) :
    readCompactSize (254 :: rest) = checkedSize 0x10000 (readLE 4 rest) := by
  rw [readCompactSize, if_neg (by decide), if_neg (by decide), if_pos (by decide)]

theorem reads_writeCompactSize {nSize : Nat} (h : nSize ≤ MAX_SIZE) :
    Reads readCompactSize (writeCompactSize nSize) nSize := by
  intro rest
  have hmax : MAX_SIZE = 33554432 := rfl
  have hcheck : forall least rest', least ≤ nSize ->
      checkedSize least (some (nSize, rest')) = some (nSize, rest') := by
    intro least rest' hleast
    simp only [checkedSize, if_neg (Nat.not_lt.mpr hleast), if_neg (Nat.not_lt.mpr h)]
  unfold writeCompactSize
  by_cases h1 : nSize < 253
  · have hbyte : (UInt8.ofNat nSize).toNat = nSize := by
      rw [UInt8.toNat_ofNat']
      omega
    rw [if_pos h1]
    simp only [List.singleton_append, readCompactSize, hbyte, if_pos h1]
    exact hcheck 0 rest (Nat.zero_le _)
  · rw [if_neg h1]
    by_cases h2 : nSize ≤ 0xffff
    · rw [if_pos h2]
      have hread : readLE 2 (writeLE 2 nSize ++ rest) = some (nSize, rest) :=
        reads_writeLE (by omega) rest
      rw [List.cons_append, readCompactSize_two, hread]
      exact hcheck 253 rest (by omega)
    · rw [if_neg h2, if_pos (by omega)]
      have hread : readLE 4 (writeLE 4 nSize ++ rest) = some (nSize, rest) :=
        reads_writeLE (by omega) rest
      rw [List.cons_append, readCompactSize_four, hread]
      exact hcheck 0x10000 rest (by omega)

/-!
# Vectors
-/

section Vectors

variable {value : Type}

def writeVector (write : value -> List UInt8) (vs : List value) : List UInt8 :=
  writeCompactSize vs.length ++ vs.flatMap write

def readVector (read : List UInt8 -> Option (value × List UInt8)) (bytes : List UInt8) :
    Option (List value × List UInt8) :=
  match readCompactSize bytes with
  | none => none
  | some (nSize, rest) => readMany read nSize rest

theorem reads_writeVector {read : List UInt8 -> Option (value × List UInt8)}
    {write : value -> List UInt8} {normal : value -> value} {vs : List value}
    (hsize : vs.length ≤ MAX_SIZE)
    (h : forall v, v ∈ vs -> Reads read (write v) (normal v)) :
    Reads (readVector read) (writeVector write vs) (vs.map normal) := by
  intro rest
  have hlength := reads_writeCompactSize hsize (vs.flatMap write ++ rest)
  have hvalues := reads_readMany vs h rest
  simp only [readVector, writeVector, List.append_assoc, hlength, hvalues]

theorem forall_of_readVector {read : List UInt8 -> Option (value × List UInt8)}
    {good : value -> Prop}
    (hgood : forall bytes v rest, read bytes = some (v, rest) -> good v)
    {bytes : List UInt8} {vs : List value} {rest : List UInt8}
    (hread : readVector read bytes = some (vs, rest)) : forall v, v ∈ vs -> good v := by
  unfold readVector at hread
  cases hsize : readCompactSize bytes with
  | none =>
      rw [hsize] at hread
      cases hread
  | some found =>
      rcases found with ⟨nSize, bytes'⟩
      simp only [hsize] at hread
      exact forall_of_readMany hgood nSize bytes' vs rest hread

end Vectors

end Serialize
end Hbcur
