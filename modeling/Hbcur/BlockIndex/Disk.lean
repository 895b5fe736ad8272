import Hbcur.Foundation.Run
import Hbcur.Serialize.Bytes
import Hbcur.Stake.Modifier
import Hbcur.Validation.BlockTreeDb

/-!
# The block index on disk

The entries of the block index as `AddToBlockIndex`, `ReceivedBlockTransactions` and `ConnectBlock`
fill them in, the serialization of `CDiskBlockIndex` in `chain.h`, and `LoadBlockIndexGuts` over
the bytes which `WriteBlockIndex` has stored.  A link to another entry is its hash.
-/

namespace Hbcur
namespace BlockIndex
namespace Disk

open Foundation Serialize

/-!
# Entries
-/

def BLOCK_VALID_TREE : BitVec 32 := 2

def BLOCK_VALID_TRANSACTIONS : BitVec 32 := 3

def BLOCK_VALID_SCRIPTS : BitVec 32 := 5

def BLOCK_VALID_MASK : BitVec 32 := 7

def BLOCK_HAVE_DATA : BitVec 32 := 8

def BLOCK_HAVE_UNDO : BitVec 32 := 16

def BLOCK_FAILED_MASK : BitVec 32 := 96

def BLOCK_PROOF_OF_STAKE : BitVec 32 := 1

def BLOCK_STAKE_ENTROPY : BitVec 32 := 2

def BLOCK_STAKE_MODIFIER : BitVec 32 := 4

def nullOutPoint : COutPoint := { hash := 0, n := COutPoint.maxUInt32 }

/-- The members which are written or which the stake modifier checksum reads. -/
structure CBlockIndex where
  nHeight : Int := 0
  nFile : Int := 0
  nDataPos : BitVec 32 := 0
  nUndoPos : BitVec 32 := 0
  nTx : BitVec 32 := 0
  nStatus : BitVec 32 := 0
  nFlags : BitVec 32 := 0
  nStakeModifier : BitVec 64 := 0
  prevoutStake : COutPoint := nullOutPoint
  nStakeTime : BitVec 32 := 0
  hashProofOfStake : UInt256 := 0
  nMint : BitVec 64 := 0
  nMoneySupply : BitVec 64 := 0
  nVersion : BitVec 32 := 0
  hashMerkleRoot : UInt256 := 0
  nTime : BitVec 32 := 0
  nBits : BitVec 32 := 0
  nNonce : BitVec 32 := 0
  deriving DecidableEq

/-- An entry with its links. -/
structure Entry extends CBlockIndex where
  pprev : Option UInt256 := none
  pnext : Option UInt256 := none
  deriving DecidableEq

structure CDiskBlockIndex extends CBlockIndex where
  hashPrev : UInt256 := 0
  hashNext : UInt256 := 0
  deriving DecidableEq

namespace CBlockIndex

def haveData (e : CBlockIndex) : Bool := e.nStatus &&& BLOCK_HAVE_DATA != 0

def haveUndo (e : CBlockIndex) : Bool := e.nStatus &&& BLOCK_HAVE_UNDO != 0

def isProofOfStake (e : CBlockIndex) : Bool := e.nFlags &&& BLOCK_PROOF_OF_STAKE != 0

def isValid (e : CBlockIndex) (nUpTo : BitVec 32) : Bool :=
  e.nStatus &&& BLOCK_FAILED_MASK == 0 && decide (nUpTo ≤ e.nStatus &&& BLOCK_VALID_MASK)

def raiseValidity (e : CBlockIndex) (nUpTo : BitVec 32) : CBlockIndex :=
  if e.nStatus &&& BLOCK_FAILED_MASK != 0 then e
  else if e.nStatus &&& BLOCK_VALID_MASK < nUpTo then
    { e with nStatus := e.nStatus &&& ~~~BLOCK_VALID_MASK ||| nUpTo }
  else e

end CBlockIndex

/-!
# Building the index
-/

/-- What the index reads of a block. -/
structure Block where
  nVersion : BitVec 32
  hashPrevBlock : UInt256
  hashMerkleRoot : UInt256
  nTime : BitVec 32
  nBits : BitVec 32
  nNonce : BitVec 32
  fProofOfStake : Bool
  /-- The first prevout of the second transaction. -/
  prevoutStake : COutPoint
  prevout_range : prevoutStake.n < 4294967296
  vtxSize : BitVec 32

def headerOf (e : CBlockIndex) (hashPrevBlock : UInt256) : CBlockHeader where
  nVersion := e.nVersion.toInt
  hashPrevBlock := hashPrevBlock
  hashMerkleRoot := e.hashMerkleRoot
  nTime := e.nTime.toNat
  nBits := e.nBits.toNat
  nNonce := e.nNonce.toNat

/-- The constructor from a block. -/
def CBlockIndex.ofBlock (block : Block) : CBlockIndex where
  nVersion := block.nVersion
  hashMerkleRoot := block.hashMerkleRoot
  nTime := block.nTime
  nBits := block.nBits
  nNonce := block.nNonce
  nFlags := if block.fProofOfStake then BLOCK_PROOF_OF_STAKE else 0
  prevoutStake := if block.fProofOfStake then block.prevoutStake else nullOutPoint
  nStakeTime := if block.fProofOfStake then block.nTime else 0

def Block.header (block : Block) : CBlockHeader :=
  headerOf (CBlockIndex.ofBlock block) block.hashPrevBlock

/-- `mapBlockIndex` -/
abbrev BlockMap := StdMap UInt256 Entry

section Build

variable (getHash : CBlockHeader -> BlockHash)

/-- The stake members of an entry after `prev`; `next` is the result of
`ComputeNextStakeModifier`. -/
def CBlockIndex.place (e : CBlockIndex) (hash : UInt256) (prev : Entry)
    (mapProofOfStake : StdMap UInt256 UInt256) (next : Stake.NextModifier) : CBlockIndex :=
  { e with
    nHeight := prev.nHeight + 1
    nFlags := (e.nFlags ||| (if hash.getLsbD 0 then BLOCK_STAKE_ENTROPY else 0)) |||
      (if next.fGeneratedStakeModifier then BLOCK_STAKE_MODIFIER else 0)
    hashProofOfStake :=
      if e.isProofOfStake then (mapProofOfStake.lookup hash).getD 0 else e.hashProofOfStake
    nStakeModifier := next.nStakeModifier }

def addToBlockIndex (map : BlockMap) (mapProofOfStake : StdMap UInt256 UInt256)
    (next : Stake.NextModifier) (block : Block) : BlockMap :=
  let hash := (getHash block.header).val
  match map.lookup hash with
  | some _ => map
  | none =>
      let pindexNew := CBlockIndex.ofBlock block
      match map.lookup block.hashPrevBlock with
      | none =>
          map.insert hash { toCBlockIndex := pindexNew.raiseValidity BLOCK_VALID_TREE }
      | some prev =>
          (map.insert block.hashPrevBlock { prev with pnext := some hash }).insert hash
            { toCBlockIndex :=
                (pindexNew.place hash prev mapProofOfStake next).raiseValidity BLOCK_VALID_TREE
              pprev := some block.hashPrevBlock }

structure CDiskBlockPos where
  nFile : Int
  nPos : BitVec 32
  deriving DecidableEq

def CBlockIndex.received (e : CBlockIndex) (block : Block) (pos : CDiskBlockPos) : CBlockIndex :=
  CBlockIndex.raiseValidity
    { e with
      nFlags := if block.fProofOfStake then e.nFlags ||| BLOCK_PROOF_OF_STAKE else e.nFlags
      nTx := block.vtxSize
      nFile := pos.nFile
      nDataPos := pos.nPos
      nUndoPos := 0
      nStatus := e.nStatus ||| BLOCK_HAVE_DATA } BLOCK_VALID_TRANSACTIONS

def receivedBlockTransactions (map : BlockMap) (hash : UInt256) (block : Block)
    (pos : CDiskBlockPos) : BlockMap :=
  StdMap.modify map hash fun e => { e with toCBlockIndex := e.received block pos }

/-- The end of `ConnectBlock`, if it gets to the undo data. -/
def CBlockIndex.undoWritten (e : CBlockIndex) (nPos : BitVec 32) : CBlockIndex :=
  if !e.haveUndo || !e.isValid BLOCK_VALID_SCRIPTS then
    CBlockIndex.raiseValidity
      (if !e.haveUndo then { e with nUndoPos := nPos, nStatus := e.nStatus ||| BLOCK_HAVE_UNDO }
        else e) BLOCK_VALID_SCRIPTS
  else e

/-- The supply after a block, and the undo data if the block turns out valid. -/
def CBlockIndex.connected (e : CBlockIndex) (nMoneySupplyPrev nValueOut nValueIn : BitVec 64)
    (undo : Option (BitVec 32)) : CBlockIndex :=
  let e' : CBlockIndex :=
    { e with
      nMoneySupply := nMoneySupplyPrev + nValueOut - nValueIn
      nMint := nMoneySupplyPrev + nValueOut - nValueIn - nMoneySupplyPrev }
  match undo with
  | none => e'
  | some nPos => e'.undoWritten nPos

def connectBlock (map : BlockMap) (hash : UInt256) (nValueOut nValueIn : BitVec 64)
    (undo : Option (BitVec 32)) : BlockMap :=
  match map.lookup hash with
  | none => map
  | some e =>
      let nMoneySupplyPrev :=
        match e.pprev with
        | none => 0
        | some prev => ((map.lookup prev).map fun p => p.nMoneySupply).getD 0
      map.insert hash
        { e with toCBlockIndex := e.connected nMoneySupplyPrev nValueOut nValueIn undo }

end Build

/-- The steps by which an entry comes about and changes. -/
inductive Action where
  | add (mapProofOfStake : StdMap UInt256 UInt256) (next : Stake.NextModifier) (block : Block)
  | received (hash : UInt256) (block : Block) (pos : CDiskBlockPos)
  | connect (hash : UInt256) (nValueOut nValueIn : BitVec 64) (undo : Option (BitVec 32))

def step (getHash : CBlockHeader -> BlockHash) (map : BlockMap) : Action -> BlockMap
  | Action.add mapProofOfStake next block => addToBlockIndex getHash map mapProofOfStake next block
  | Action.received hash block pos => receivedBlockTransactions map hash block pos
  | Action.connect hash nValueOut nValueIn undo => connectBlock map hash nValueOut nValueIn undo

/-- A block other than the genesis block is added after its parent only, and heights and file
numbers are in the range of an `int`. -/
def Admitted (map : BlockMap) : Action -> Prop
  | Action.add _ _ block =>
      match map.lookup block.hashPrevBlock with
      | none => block.hashPrevBlock = 0
      | some prev => prev.nHeight + 1 < 2147483648
  | Action.received _ _ pos => 0 ≤ pos.nFile ∧ pos.nFile < 2147483648
  | Action.connect _ _ _ _ => True

/-- The indexes which these steps build. -/
def Built (getHash : CBlockHeader -> BlockHash) (map : BlockMap) : Prop :=
  Reachable (fun m a m' => step getHash m a = m') Admitted (∅ : BlockMap) map

/-!
# Serialization
-/

def CLIENT_VERSION : Int := 3020300

def readOutPoint : List UInt8 -> Option (COutPoint × List UInt8) :=
  readThen readUInt256 fun hash => readThen (readLE 4) fun n => readDone { hash, n }

namespace CDiskBlockIndex

def ofEntry (e : Entry) : CDiskBlockIndex :=
  { e.toCBlockIndex with hashPrev := e.pprev.getD 0 }

def header (r : CDiskBlockIndex) : CBlockHeader := headerOf r.toCBlockIndex r.hashPrev

def serialize (r : CDiskBlockIndex) : List UInt8 :=
  writeVarInt CLIENT_VERSION ++ (writeVarInt r.nHeight ++ (writeVarUInt32 r.nStatus ++
    (writeVarUInt32 r.nTx ++
    ((if r.haveData || r.haveUndo then writeVarInt r.nFile else []) ++
    ((if r.haveData then writeVarUInt32 r.nDataPos else []) ++
    ((if r.haveUndo then writeVarUInt32 r.nUndoPos else []) ++
    (writeWord 8 r.nMint ++ (writeWord 8 r.nMoneySupply ++ (writeWord 4 r.nFlags ++
    (writeWord 8 r.nStakeModifier ++
    ((if r.isProofOfStake then r.prevoutStake.serialize else []) ++
    ((if r.isProofOfStake then writeWord 4 r.nStakeTime else []) ++
    (writeWord 4 r.nVersion ++ (writeUInt256 r.hashPrev ++ (writeUInt256 r.hashNext ++
    (writeUInt256 r.hashMerkleRoot ++ (writeWord 4 r.nTime ++ (writeWord 4 r.nBits ++
    (writeWord 4 r.nNonce ++ [])))))))))))))))))))

/-- What is not read keeps the value of a new entry. -/
def unserialize : List UInt8 -> Option (CDiskBlockIndex × List UInt8) :=
  readThen (readVarInt wrapInt32) fun _ =>
  readThen (readVarInt wrapInt32) fun nHeight =>
  readThen readVarUInt32 fun nStatus =>
  readThen readVarUInt32 fun nTx =>
  let haveData := CBlockIndex.haveData { nStatus }
  let haveUndo := CBlockIndex.haveUndo { nStatus }
  readThen (readIf (haveData || haveUndo) (readVarInt wrapInt32) 0) fun nFile =>
  readThen (readIf haveData readVarUInt32 0) fun nDataPos =>
  readThen (readIf haveUndo readVarUInt32 0) fun nUndoPos =>
  readThen (readWord 8) fun nMint =>
  readThen (readWord 8) fun nMoneySupply =>
  readThen (readWord 4) fun nFlags =>
  readThen (readWord 8) fun nStakeModifier =>
  let isProofOfStake := CBlockIndex.isProofOfStake { nFlags }
  readThen (readIf isProofOfStake readOutPoint nullOutPoint) fun prevoutStake =>
  readThen (readIf isProofOfStake (readWord 4) 0) fun nStakeTime =>
  readThen (readWord 4) fun nVersion =>
  readThen readUInt256 fun hashPrev =>
  readThen readUInt256 fun hashNext =>
  readThen readUInt256 fun hashMerkleRoot =>
  readThen (readWord 4) fun nTime =>
  readThen (readWord 4) fun nBits =>
  readThen (readWord 4) fun nNonce =>
  readDone
    { nHeight, nStatus, nTx, nFile, nDataPos, nUndoPos, nMint, nMoneySupply, nFlags,
      nStakeModifier, prevoutStake, nStakeTime, nVersion, hashPrev, hashNext, hashMerkleRoot,
      nTime, nBits, nNonce }

end CDiskBlockIndex

/-!
# The database
-/

/-- The records with key `b`, in the order of their keys. -/
structure DiskDb where
  records : List (UInt256 × List UInt8)
  ordered : Ordered keyOrder records

namespace DiskDb

def empty : DiskDb := ⟨[], List.Pairwise.nil⟩

def writeBlockIndex (getHash : CBlockHeader -> BlockHash) (db : DiskDb) (e : Entry) : DiskDb where
  records :=
    insertRecord keyOrder (getHash (CDiskBlockIndex.ofEntry e).header).val
      (CDiskBlockIndex.ofEntry e).serialize db.records
  ordered := ordered_insertRecord db.records db.ordered

end DiskDb

/-- Every entry is written. -/
def writeAll (getHash : CBlockHeader -> BlockHash) (map : BlockMap) : DiskDb :=
  map.entries.foldl (fun db entry => db.writeBlockIndex getHash entry.2) DiskDb.empty

/-- `mapBlockIndex` while it is loaded. -/
abbrev LoadedMap := UInt256 -> Option Entry

/-- The map with an entry for the hash, and the link to it. -/
def insertBlockIndex (map : LoadedMap) (hash : UInt256) : LoadedMap × Option UInt256 :=
  if hash = 0 then (map, none)
  else
    match map hash with
    | some _ => (map, some hash)
    | none => (Function.update map hash (some {}), some hash)

section Load

variable (getHash : CBlockHeader -> BlockHash) (nLastPOWBlock : Int)
  (checkProofOfWork : BlockHash -> Nat -> Bool)

def loadRecord (map : LoadedMap) (bytes : List UInt8) : Option LoadedMap :=
  match CDiskBlockIndex.unserialize bytes with
  | none => none
  | some (diskindex, _) =>
      let hash := getHash diskindex.header
      let (map, _) := insertBlockIndex map hash.val
      let (map, pprev) := insertBlockIndex map diskindex.hashPrev
      let (map, pnext) := insertBlockIndex map diskindex.hashNext
      let pindexNew : Entry := { toCBlockIndex := diskindex.toCBlockIndex, pprev, pnext }
      if pindexNew.nHeight ≤ nLastPOWBlock ∧ checkProofOfWork hash pindexNew.nBits.toNat = false then
        none
      else some (Function.update map hash.val (some pindexNew))

/-- The result is nothing where the source returns false. -/
def loadBlockIndexGuts (db : DiskDb) : Option LoadedMap :=
  db.records.foldlM
    (fun map record => loadRecord getHash nLastPOWBlock checkProofOfWork map record.2)
    (fun _ => none)

end Load

/-!
# The stake modifier checksum
-/

/-- The checksum of an entry, from the one of its predecessor. -/
def getStakeModifierChecksum (hashBytes : List UInt8 -> UInt256) (prevChecksum : Option (BitVec 32))
    (e : CBlockIndex) : BitVec 32 :=
  let ss := (match prevChecksum with
    | none => []
    | some checksum => writeWord 4 checksum) ++
      writeWord 4 e.nFlags ++ writeUInt256 e.hashProofOfStake ++ writeWord 8 e.nStakeModifier
  (hashBytes ss >>> 224).setWidth 32

/-- The checksums recomputed along a chain, which is listed from its last entry down. -/
def checksumAlong (hashBytes : List UInt8 -> UInt256) : List CBlockIndex -> Option (BitVec 32)
  | [] => none
  | e :: rest => some (getStakeModifierChecksum hashBytes (checksumAlong hashBytes rest) e)

/-- The entries from a link down to the first one. -/
inductive Chain (map : LoadedMap) : Option UInt256 -> List CBlockIndex -> Prop where
  | nil : Chain map none []
  | cons {hash : UInt256} {e : Entry} {rest : List CBlockIndex} :
      map hash = some e -> Chain map e.pprev rest -> Chain map (some hash) (e.toCBlockIndex :: rest)

end Disk
end BlockIndex
end Hbcur
