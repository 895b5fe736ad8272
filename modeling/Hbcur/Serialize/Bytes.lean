import Hbcur.Primitives.Transaction
import Hbcur.Serialize.Integers
import Mathlib.Data.List.Range
import Mathlib.Data.Nat.Bitwise

/-!
# Transactions on the wire

The serialization of `primitives/transaction.h`.  Machine integers are written as the words
which hold them; the rounds of an output are not written.
-/

namespace Hbcur

open Serialize

namespace Serialize

/-- A signed integer in two's complement. -/
def writeInt (width : Nat) (n : Int) : List UInt8 := writeLE width (n % 256 ^ width).toNat

def writeBytes (bytes : List UInt8) : List UInt8 := writeCompactSize bytes.length ++ bytes

end Serialize

def COutPoint.serialize (out : COutPoint) : List UInt8 :=
  writeLE 32 out.hash.toNat ++ writeLE 4 out.n

def CTxIn.serialize (txin : CTxIn) : List UInt8 :=
  txin.prevout.serialize ++ writeBytes txin.scriptSig ++ writeLE 4 txin.nSequence

def CTxOut.serialize (out : CTxOut) : List UInt8 :=
  writeInt 8 out.nValue ++ writeBytes out.scriptPubKey

def CTransaction.serialize (tx : CTransaction) : List UInt8 :=
  writeInt 4 tx.nVersion ++ writeVector CTxIn.serialize tx.vin ++
    writeVector CTxOut.serialize tx.vout ++ writeLE 4 tx.nLockTime

end Hbcur

/-!
# Hashes, byte strings and packed bits
-/

namespace Hbcur
namespace Serialize

open Foundation

/-!
# Hashes and byte strings
-/

def writeUInt256 (hash : UInt256) : List UInt8 := writeLE 32 hash.toNat

def readUInt256 (bytes : List UInt8) : Option (UInt256 × List UInt8) :=
  match readLE 32 bytes with
  | none => none
  | some (n, rest) => some (BitVec.ofNat 256 n, rest)

theorem reads_writeUInt256 (hash : UInt256) : Reads readUInt256 (writeUInt256 hash) hash := by
  intro rest
  have hlt : hash.toNat < 256 ^ 32 := hash.isLt
  have hread := reads_writeLE hlt rest
  simp only [readUInt256, writeUInt256, hread, BitVec.ofNat_toNat, BitVec.setWidth_eq]

/-- A machine word of the given number of bytes. -/
def writeWord (width : Nat) (word : BitVec (8 * width)) : List UInt8 := writeLE width word.toNat

def readWord (width : Nat) (bytes : List UInt8) : Option (BitVec (8 * width) × List UInt8) :=
  match readLE width bytes with
  | none => none
  | some (n, rest) => some (BitVec.ofNat (8 * width) n, rest)

theorem reads_writeWord (width : Nat) (word : BitVec (8 * width)) :
    Reads (readWord width) (writeWord width word) word := by
  intro rest
  have hlt : word.toNat < 256 ^ width := by
    rw [show 256 = 2 ^ 8 from rfl, ← Nat.pow_mul]
    exact word.isLt
  have hread := reads_writeLE hlt rest
  simp only [readWord, writeWord, hread, BitVec.ofNat_toNat, BitVec.setWidth_eq]

def readInt32 (bytes : List UInt8) : Option (Int × List UInt8) :=
  match readLE 4 bytes with
  | none => none
  | some (n, rest) => some (wrapInt32 n, rest)

theorem reads_writeInt32 {n : Int} (h0 : 0 ≤ n) (h : n < 2147483648) :
    Reads readInt32 (writeInt 4 n) n := by
  intro rest
  have hmod : (n % 256 ^ 4).toNat = n.toNat := by omega
  have hlt : n.toNat < 256 ^ 4 := by omega
  have hread := reads_writeLE hlt rest
  have hwrap : wrapInt32 (n.toNat : Int) = n := by
    rw [Int.toNat_of_nonneg h0]
    exact wrapInt32_of_range n (by omega) h
  simp only [readInt32, writeInt, hmod, hread, hwrap]

/-- `VARINT` of an `unsigned int`. -/
def writeVarUInt32 (word : BitVec 32) : List UInt8 := writeVarInt word.toNat

def readVarUInt32 (bytes : List UInt8) : Option (BitVec 32 × List UInt8) :=
  match readVarInt wrapUInt32 bytes with
  | none => none
  | some (n, rest) => some (BitVec.ofNat 32 n.toNat, rest)

theorem reads_writeVarUInt32 (word : BitVec 32) :
    Reads readVarUInt32 (writeVarUInt32 word) word := by
  intro rest
  have hlt := word.isLt
  have hread : readVarInt wrapUInt32 (writeVarInt word.toNat ++ rest) =
      some ((word.toNat : Int), rest) :=
    reads_writeVarInt wrapUInt32_of_range (Int.natCast_nonneg _) (by omega) rest
  simp only [readVarUInt32, writeVarUInt32, hread, Int.toNat_natCast, BitVec.ofNat_toNat,
    BitVec.setWidth_eq]

/-- `VARINT` of an `int` which is not negative. -/
theorem reads_writeVarInt32 {n : Int} (h0 : 0 ≤ n) (h : n < 2147483648) :
    Reads (readVarInt wrapInt32) (writeVarInt n) n :=
  reads_writeVarInt (fun m hm hlt => wrapInt32_of_range m (by omega) hlt) h0 h

def readBytes (bytes : List UInt8) : Option (List UInt8 × List UInt8) :=
  match readCompactSize bytes with
  | none => none
  | some (nSize, rest) => readExactly nSize rest

theorem reads_writeBytes {bytes : List UInt8} (h : bytes.length ≤ MAX_SIZE) :
    Reads readBytes (writeBytes bytes) bytes := by
  intro rest
  have hsize := reads_writeCompactSize h (bytes ++ rest)
  have hbytes := reads_readExactly bytes rest
  simp only [readBytes, writeBytes, List.append_assoc, hsize, hbytes]

/-!
# Packed bits

Flag bits travel as bytes, the least significant bit of a byte first.  Reading gives a multiple of
eight bits, so the bits written are a prefix of the bits read.
-/

/-- `(vBytes[p / 8] & (1 << (p % 8))) != 0` -/
def bitAt (vBytes : List UInt8) (p : Nat) : Bool :=
  vBytes.getD (p / 8) 0 &&& (1 <<< UInt8.ofNat (p % 8)) != 0

def unpackBits (vBytes : List UInt8) : List Bool :=
  (List.range (vBytes.length * 8)).map (bitAt vBytes)

/-- `vBytes[p / 8] |= vBits[p] << (p % 8)` for the bits from position `p` on. -/
def packLoop : List Bool -> Nat -> List UInt8 -> List UInt8
  | [], _, vBytes => vBytes
  | bit :: vBits, p, vBytes =>
      packLoop vBits (p + 1) (vBytes.set (p / 8)
        (vBytes.getD (p / 8) 0 ||| (bit.toUInt8 <<< UInt8.ofNat (p % 8))))

def packBits (vBits : List Bool) : List UInt8 :=
  packLoop vBits 0 (List.replicate ((vBits.length + 7) / 8) 0)

theorem toNat_shiftLeft (bit : Bool) {i : Nat} (h : i < 8) :
    (bit.toUInt8 <<< UInt8.ofNat i).toNat = if bit then 2 ^ i else 0 := by
  have hall : forall (bit : Bool) (i : Fin 8),
      (bit.toUInt8 <<< UInt8.ofNat i.val).toNat = if bit then 2 ^ i.val else 0 := by decide
  exact hall bit ⟨i, h⟩

theorem bitAt_eq_testBit (vBytes : List UInt8) (p : Nat) :
    bitAt vBytes p = (vBytes.getD (p / 8) 0).toNat.testBit (p % 8) := by
  have hshift := toNat_shiftLeft true (Nat.mod_lt p (Nat.succ_pos 7))
  rw [if_pos rfl] at hshift
  have hand : (vBytes.getD (p / 8) 0 &&& (1 <<< UInt8.ofNat (p % 8))).toNat =
      ((vBytes.getD (p / 8) 0).toNat.testBit (p % 8)).toNat * 2 ^ (p % 8) := by
    rw [UInt8.toNat_and, ← Nat.and_two_pow]
    exact congrArg _ hshift
  have hpow := Nat.two_pow_pos (p % 8)
  unfold bitAt
  cases htest : (vBytes.getD (p / 8) 0).toNat.testBit (p % 8) with
  | false =>
      rw [htest, Bool.toNat_false, Nat.zero_mul] at hand
      rw [bne_eq_false_iff_eq, ← UInt8.toNat_inj]
      exact hand
  | true =>
      rw [htest, Bool.toNat_true, Nat.one_mul] at hand
      rw [bne_iff_ne]
      intro hzero
      rw [hzero] at hand
      exact absurd hand.symm (Nat.ne_of_gt hpow)

@[simp]
theorem length_packLoop (vBits : List Bool) (p : Nat) (vBytes : List UInt8) :
    (packLoop vBits p vBytes).length = vBytes.length := by
  induction vBits generalizing p vBytes with
  | nil => rfl
  | cons bit vBits ih => rw [packLoop, ih, List.length_set]

/-- Setting one bit leaves the others. -/
theorem bitAt_set {vBytes : List UInt8} {p : Nat} (h : p < vBytes.length * 8) (bit : Bool)
    (q : Nat) :
    bitAt (vBytes.set (p / 8) (vBytes.getD (p / 8) 0 ||| (bit.toUInt8 <<< UInt8.ofNat (p % 8)))) q =
      (bitAt vBytes q || (decide (q = p) && bit)) := by
  have hbyte : p / 8 < vBytes.length := Nat.div_lt_of_lt_mul (by omega)
  rw [bitAt_eq_testBit, bitAt_eq_testBit]
  by_cases hsame : q / 8 = p / 8
  · have hget : (vBytes.set (p / 8) (vBytes.getD (p / 8) 0 |||
        (bit.toUInt8 <<< UInt8.ofNat (p % 8)))).getD (q / 8) 0 =
        vBytes.getD (p / 8) 0 ||| (bit.toUInt8 <<< UInt8.ofNat (p % 8)) := by
      rw [hsame]
      simp [hbyte]
    have hmod : (decide (q = p)) = decide (p % 8 = q % 8) := by
      apply decide_eq_decide.mpr
      constructor
      · intro heq
        rw [heq]
      · intro heq
        omega
    rw [hget, hsame, UInt8.toNat_or, Nat.testBit_or, hmod,
      toNat_shiftLeft bit (Nat.mod_lt p (Nat.succ_pos 7))]
    cases bit with
    | false => simp
    | true => simp [Nat.testBit_two_pow]
  · have hne : q ≠ p := by
      intro heq
      rw [heq] at hsame
      exact hsame rfl
    have hother : (vBytes.set (p / 8) (vBytes.getD (p / 8) 0 |||
        (bit.toUInt8 <<< UInt8.ofNat (p % 8)))).getD (q / 8) 0 = vBytes.getD (q / 8) 0 := by
      simp [List.getElem?_set_ne (Ne.symm hsame)]
    rw [hother]
    simp [hne]

theorem bitAt_packLoop :
    forall (vBits : List Bool) (p : Nat) (vBytes : List UInt8) (q : Nat),
      p + vBits.length ≤ vBytes.length * 8 ->
      bitAt (packLoop vBits p vBytes) q =
        (bitAt vBytes q || (decide (p ≤ q) && vBits.getD (q - p) false)) := by
  intro vBits
  induction vBits with
  | nil =>
      intro p vBytes q hfit
      simp [packLoop]
  | cons bit vBits ih =>
      intro p vBytes q hfit
      rw [List.length_cons] at hfit
      rw [packLoop, ih _ _ _ (by rw [List.length_set]; omega), bitAt_set (by omega), Bool.or_assoc]
      congr 1
      rcases Nat.lt_trichotomy q p with hlt | heq | hgt
      · have h1 : ¬ p ≤ q := by omega
        have h2 : ¬ p + 1 ≤ q := by omega
        simp [h1, h2, Nat.ne_of_lt hlt]
      · rw [heq]
        simp
      · have h1 : p ≤ q := by omega
        have h2 : p + 1 ≤ q := by omega
        have hindex : q - p = q - (p + 1) + 1 := by omega
        rw [hindex, List.getD_cons_succ]
        simp [h1, h2, Nat.ne_of_gt hgt]

theorem length_packBits (vBits : List Bool) : (packBits vBits).length = (vBits.length + 7) / 8 := by
  rw [packBits, length_packLoop, List.length_replicate]

theorem length_unpackBits (vBytes : List UInt8) : (unpackBits vBytes).length = vBytes.length * 8 := by
  rw [unpackBits, List.length_map, List.length_range]

theorem prefix_unpackBits (vBits : List Bool) : vBits <+: unpackBits (packBits vBits) := by
  have hfit : vBits.length ≤ (vBits.length + 7) / 8 * 8 := by omega
  have hlength : (packBits vBits).length * 8 = (vBits.length + 7) / 8 * 8 := by
    rw [length_packBits]
  rw [List.prefix_iff_eq_take]
  apply List.ext_getElem
  · rw [List.length_take, length_unpackBits, hlength]
    omega
  · intro p hp hp'
    have hzero : bitAt (List.replicate ((vBits.length + 7) / 8) 0) p = false := by
      have hbyte : (List.replicate ((vBits.length + 7) / 8) (0 : UInt8)).getD (p / 8) 0 = 0 := by
        rw [List.getD_eq_getElem?_getD, List.getElem?_replicate]
        split <;> rfl
      rw [bitAt_eq_testBit, hbyte]
      exact Nat.zero_testBit _
    have hbit := bitAt_packLoop vBits 0 (List.replicate ((vBits.length + 7) / 8) 0) p
      (by rw [List.length_replicate]; omega)
    simp only [List.getElem_take, unpackBits, List.getElem_map, List.getElem_range, packBits, hbit,
      hzero]
    simp [hp]

end Serialize
end Hbcur
