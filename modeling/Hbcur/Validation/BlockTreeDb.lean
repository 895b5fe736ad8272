import Hbcur.Foundation.Containers
import Hbcur.Validation.Rejection
import Hbcur.Validation.AcceptBlock

/-!
# The block tree database

The records of `CBlockTreeDB` which hold the entries of the block index, how
`LoadBlockIndexGuts` reads them back, and what checking a template does to them.
-/

namespace Hbcur

open Foundation Serialize

/-!
# Records
-/

/-- The members of `CDiskBlockIndex` which are written. -/
structure CDiskBlockIndex where
  nHeight : Int := 0
  nStatus : Nat := 0
  nTx : Nat := 0
  nFile : Int := 0
  nDataPos : Nat := 0
  nUndoPos : Nat := 0
  nMint : Int := 0
  nMoneySupply : Int := 0
  nFlags : Nat := 0
  nStakeModifier : BitVec 64 := 0
  prevoutStake : COutPoint := { hash := 0, n := COutPoint.maxUInt32 }
  nStakeTime : Nat := 0
  nVersion : Int := 0
  hashPrev : UInt256 := 0
  hashNext : UInt256 := 0
  hashMerkleRoot : UInt256 := 0
  nTime : Nat := 0
  nBits : Nat := 0
  nNonce : Nat := 0
  deriving DecidableEq, Repr

/-- The header over which the hash of a block is taken. -/
structure CBlockHeader where
  nVersion : Int
  hashPrevBlock : UInt256
  hashMerkleRoot : UInt256
  nTime : Nat
  nBits : Nat
  nNonce : Nat
  deriving DecidableEq, Repr

def CDiskBlockIndex.header (r : CDiskBlockIndex) : CBlockHeader :=
  { nVersion := r.nVersion
    hashPrevBlock := r.hashPrev
    hashMerkleRoot := r.hashMerkleRoot
    nTime := r.nTime
    nBits := r.nBits
    nNonce := r.nNonce }

/-!
# The database

Keys are compared as the bytes in which they are stored.
-/

def keyOrder (hash : UInt256) : Nat :=
  (writeLE 32 hash.toNat).foldl (fun n byte => 256 * n + byte.toNat) 0

abbrev IndexRecords := List (UInt256 × CDiskBlockIndex)

structure BlockTreeDb where
  records : IndexRecords
  ordered : Ordered keyOrder records

namespace BlockTreeDb

/-- `WriteBlockIndex`, under the hash which the record itself gives. -/
def writeBlockIndex (getHash : CBlockHeader -> BlockHash) (db : BlockTreeDb)
    (r : CDiskBlockIndex) : BlockTreeDb where
  records := insertRecord keyOrder (getHash r.header).val r db.records
  ordered := ordered_insertRecord db.records db.ordered

end BlockTreeDb

/-!
# Loading the index
-/

/-- `CheckProofOfWork` of `pow.cpp`, with two parameters of the network. -/
def checkProofOfWork (fSkipProofOfWorkCheck : Bool) (bnProofOfWorkLimit : Nat)
    (hash : BlockHash) (nBits : Nat) : Bool :=
  let target := BlockIndex.setCompact nBits
  fSkipProofOfWorkCheck ||
    (!(target.fNegative || decide (target.bnTarget = 0) || target.fOverflow ||
        decide (target.bnTarget > bnProofOfWorkLimit)) &&
      !decide (hash.val.toNat > target.bnTarget))

/-- `mapBlockIndex` while it is loaded, where links are still hashes. -/
abbrev LoadedIndex := UInt256 -> Option CDiskBlockIndex

def insertBlockIndex (map : LoadedIndex) (hash : UInt256) : LoadedIndex :=
  if hash = 0 then map
  else
    match map hash with
    | some _ => map
    | none => Function.update map hash (some {})

section Load

variable (getHash : CBlockHeader -> BlockHash) (node : NodeState)

def loadRecord (map : LoadedIndex) (r : CDiskBlockIndex) : Option LoadedIndex :=
  let hash := getHash r.header
  let inserted := insertBlockIndex
    (insertBlockIndex (insertBlockIndex map hash.val) r.hashPrev) r.hashNext
  if r.nHeight ≤ node.params.nLastPOWBlock ∧ node.checkProofOfWork hash r.nBits = false then none
  else some (Function.update inserted hash.val (some r))

/-- The result of loading is nothing where the source returns false. -/
def loadBlockIndexGuts (db : BlockTreeDb) : Option LoadedIndex :=
  db.records.foldlM (fun map entry => loadRecord getHash node map entry.2) (fun _ => none)

end Load

/-!
# Checking a template
-/

section Template

variable {state : Type} [CoinsState state]

section Results

variable {getHash : CBlockHeader -> BlockHash} {node : NodeState} {vstate : CValidationState}
  {v : state} {block : CBlock} {prevEntry : IndexEntry} {prev : PrevIndex}
  {fCheckPOW fCheckMerkleRoot : Bool} {db : BlockTreeDb}

end Results

end Template

namespace TemplateExample

open SupplyExample

/-- The subsidy is paid out; the nonce has not been searched for yet. -/
def template : CBlock :=
  { blockOf [coinBase [pay 1]] with nBits := 0x1e0fffff }

def tipRecord : CDiskBlockIndex where
  nHeight := 1
  nStatus := 13
  nTx := 1
  nMint := 1 * COIN
  nMoneySupply := 900000001 * COIN
  nVersion := 3
  hashMerkleRoot := 0x77
  nTime := 1619651540
  nBits := 0x1e0fffff
  nNonce := 48213

/-- The mined header has a low hash, the header of the template has not. -/
def getHash (header : CBlockHeader) : BlockHash :=
  if header.nNonce = 48213 then prevHash
  else ⟨0x9c4e05d7a1f8b36245e9c07d8832fb1647ad50c9ee716238b4cf01a95d3e7b82, by decide⟩

def db : BlockTreeDb where
  records := [(prevHash.val, tipRecord)]
  ordered := List.pairwise_singleton _ _

end TemplateExample

end Hbcur
