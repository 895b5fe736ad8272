import Mathlib.Data.Int.Basic
import Mathlib.Data.List.Basic

/-!
# Transactions

The transaction types of `primitives/transaction.h`.  Amounts (`CAmount`) are
integers, scripts are byte strings, and the identifier of a transaction is the
cached `hash` member of the source class.
-/

namespace Hbcur

abbrev UInt256 := BitVec 256

abbrev CScript := List UInt8

def COIN : Int := 100000000

/-!
# Scripts

Only the opcodes which the coins code inspects directly.
-/

namespace CScript

def OP_RETURN : UInt8 := 0x6a

def isUnspendable (script : CScript) : Bool :=
  match script with
  | [] => false
  | opcode :: _ => opcode == OP_RETURN

end CScript

/-!
# Outpoints, inputs and outputs
-/

structure COutPoint where
  hash : UInt256
  n : Nat
  deriving DecidableEq, Repr

namespace COutPoint

/-- The largest `uint32_t`, which marks a null outpoint and a final input. -/
def maxUInt32 : Nat := 0xffffffff

def isNull (out : COutPoint) : Bool :=
  out.hash == 0 && out.n == maxUInt32

end COutPoint

structure CTxIn where
  prevout : COutPoint
  scriptSig : CScript
  nSequence : Nat
  deriving DecidableEq, Repr

namespace CTxIn

def isFinal (txin : CTxIn) : Bool :=
  txin.nSequence == COutPoint.maxUInt32

end CTxIn

structure CTxOut where
  nValue : Int
  scriptPubKey : CScript
  nRounds : Int
  deriving DecidableEq, Repr

namespace CTxOut

/-- The value left behind by `SetNull`, also the default constructor. -/
def null : CTxOut :=
  { nValue := -1, scriptPubKey := [], nRounds := -10 }

/-- The two-argument constructor. -/
def make (nValue : Int) (scriptPubKey : CScript) : CTxOut :=
  { nValue := nValue, scriptPubKey := scriptPubKey, nRounds := -10 }

def isNull (out : CTxOut) : Bool :=
  out.nValue == -1

def isEmpty (out : CTxOut) : Bool :=
  out.nValue == 0 && out.scriptPubKey.isEmpty

@[simp] theorem scriptPubKey_make (nValue : Int) (scriptPubKey : CScript) :
    (make nValue scriptPubKey).scriptPubKey = scriptPubKey := rfl

@[simp] theorem isNull_null : null.isNull = true := rfl

theorem isNull_iff (out : CTxOut) : out.isNull = true <-> out.nValue = -1 := by
  simp [isNull]

theorem isNull_eq_false_of_nonneg {out : CTxOut} (h : 0 ≤ out.nValue) :
    out.isNull = false := by
  rw [Bool.eq_false_iff]
  intro hnull
  have hvalue := (isNull_iff out).mp hnull
  omega

end CTxOut

/-!
# Transactions
-/

structure CTransaction where
  hash : UInt256
  nVersion : Int
  vin : List CTxIn
  vout : List CTxOut
  nLockTime : Nat
  deriving DecidableEq, Repr

namespace CTransaction

def isCoinBase (tx : CTransaction) : Bool :=
  match tx.vin with
  | [txin] => txin.prevout.isNull
  | _ => false

/-- A coinstake is marked with an empty first output. -/
def isCoinStake (tx : CTransaction) : Bool :=
  match tx.vin, tx.vout with
  | txin :: _, out :: _ :: _ => !txin.prevout.isNull && out.isEmpty
  | _, _ => false

def prevouts (tx : CTransaction) : List COutPoint :=
  tx.vin.map CTxIn.prevout

end CTransaction

/-- A transaction which is being put together and has no identifier yet. -/
structure CMutableTransaction where
  nVersion : Int := 1
  vin : List CTxIn := []
  vout : List CTxOut := []
  nLockTime : Nat := 0
  deriving DecidableEq, Repr

/-- The conversion computes the identifier. -/
def CMutableTransaction.toTransaction (getHash : CMutableTransaction -> UInt256)
    (tx : CMutableTransaction) : CTransaction :=
  { hash := getHash tx
    nVersion := tx.nVersion
    vin := tx.vin
    vout := tx.vout
    nLockTime := tx.nLockTime }

end Hbcur

/-!
# Blocks

The block types of `primitives/block.h`.  As for transactions, the hash of a
header is a member.  The null hash stands for no block throughout the source, so
hashes of blocks are non-null by type.
-/

namespace Hbcur

abbrev BlockHash := { hash : UInt256 // hash ≠ 0 }

structure CBlock where
  hash : BlockHash
  nVersion : Int
  hashPrevBlock : UInt256
  hashMerkleRoot : UInt256
  nTime : Nat
  nBits : Nat
  nNonce : Nat
  vtx : List CTransaction
  vchBlockSig : List UInt8
  deriving DecidableEq

namespace CBlock

def getBlockTime (block : CBlock) : Int :=
  block.nTime

def isProofOfStake (block : CBlock) : Bool :=
  match block.vtx with
  | _ :: second :: _ => second.isCoinStake
  | _ => false

def isProofOfWork (block : CBlock) : Bool :=
  !block.isProofOfStake

/-- The coinbase comes first and is the only one. -/
def CoinBaseFirst (block : CBlock) : Prop :=
  match block.vtx with
  | [] => False
  | first :: rest => first.isCoinBase = true ∧ forall tx, tx ∈ rest -> tx.isCoinBase = false

end CBlock

/-!
# The index entry of a block being connected

The part of a `CBlockIndex` and of its predecessor which connecting and
disconnecting a block reads.  The entry has no hash of its own when a block is
only being assembled.
-/

structure PrevIndex where
  hash : BlockHash
  nHeight : Int
  nMoneySupply : Int
  deriving DecidableEq

structure PIndex where
  phashBlock : Option BlockHash
  nHeight : Int
  nTime : Nat
  pprev : Option PrevIndex
  deriving DecidableEq

end Hbcur
