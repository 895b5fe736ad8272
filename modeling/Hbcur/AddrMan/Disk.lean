import Hbcur.AddrMan.Check
import Hbcur.Foundation.Run

/-!
# The address manager on disk

`Serialize`, `Unserialize` and `Clear` of `CAddrMan`, for a stream with `SER_DISK`.  What is read
from a stream does not depend on the object it is read into, so that the members of the stream are
read first.  An end of the stream, which throws, and a failed assertion are both `none`.
-/

namespace Hbcur
namespace AddrMan

open Foundation Serialize Net

/-!
# Entries
-/

/-- An element of `mapInfo`. -/
abbrev Entry := Sigma fun _ : Int => CAddrInfo

/-- The serialized members of a `CAddrInfo`. -/
structure Record where
  addr : CAddress
  source : CNetAddr
  nLastSuccess : BitVec 64
  nAttempts : BitVec 32
  deriving DecidableEq

namespace Record

def write (nVersion : BitVec 32) (record : Record) : List UInt8 :=
  record.addr.write nVersion ++ (record.source.write ++
    (writeWord 8 record.nLastSuccess ++ (writeWord 4 record.nAttempts ++ [])))

def read : List UInt8 -> Option (Record × List UInt8) :=
  readThen CAddress.read fun addr =>
    readThen CNetAddr.read fun source =>
      readThen (readWord 8) fun nLastSuccess =>
        readThen (readWord 4) fun nAttempts =>
          readDone { addr, source, nLastSuccess, nAttempts }

/-- The record without what is in memory only. -/
def onDisk (record : Record) : Record :=
  { record with addr := { record.addr with nLastTry := 0 } }

theorem reads_write (nVersion : BitVec 32) (record : Record) :
    Reads Record.read (record.write nVersion) record.onDisk :=
  reads_readThen (CAddress.reads_write nVersion record.addr)
    (reads_readThen (CNetAddr.reads_write record.source)
      (reads_readThen (reads_writeWord 8 record.nLastSuccess)
        (reads_readThen (reads_writeWord 4 record.nAttempts) (reads_readDone _))))

end Record

namespace CAddrInfo

def record (info : CAddrInfo) : Record where
  addr := info.toCAddress
  source := info.source
  nLastSuccess := info.nLastSuccess
  nAttempts := info.nAttempts

/-- `s >> info` leaves the members which are not serialized. -/
def load (info : CAddrInfo) (record : Record) : CAddrInfo :=
  { info with
    toCAddress := record.addr
    source := record.source
    nLastSuccess := record.nLastSuccess
    nAttempts := record.nAttempts }

end CAddrInfo

/-!
# Writing
-/

/-- `ADDRMAN_NEW_BUCKET_COUNT ^ (1 << 30)` -/
def bucketCountMask : BitVec 32 := 1 <<< 30

namespace CAddrMan

variable (s : CAddrMan)

/-- The first loop: new entries are numbered and written. -/
def writeFresh (nVersion : BitVec 32) (acc : StdMap Int Int × Int × List UInt8)
    (e : Entry) : Option (StdMap Int Int × Int × List UInt8) :=
  match acc with
  | (mapUnkIds, nIds, out) =>
      if e.2.nRefCount ≠ 0 then
        if nIds ≠ s.nNew then
          some (mapUnkIds.insert e.1 nIds, nIds + 1, out ++ e.2.record.write nVersion)
        else none
      else some (mapUnkIds.insert e.1 nIds, nIds, out)

/-- The second loop: tried entries are written. -/
def writeTried (nVersion : BitVec 32) (acc : Int × List UInt8)
    (e : Entry) : Option (Int × List UInt8) :=
  match acc with
  | (nIds, out) =>
      if e.2.fInTried then
        if nIds ≠ s.nTried then some (nIds + 1, out ++ e.2.record.write nVersion)
        else none
      else some (nIds, out)

/-- The ids in a bucket of the new table. -/
def bucketIds (bucket : Fin ADDRMAN_NEW_BUCKET_COUNT) : List Int :=
  ((buckets ADDRMAN_BUCKET_SIZE).map fun i => s.vvNew (bucket, i)).filter (· ≠ -1)

/-- The number of references and the indexes. -/
def writeBucket (indexes : List Int) : List UInt8 :=
  writeInt 4 indexes.length ++ indexes.flatMap (writeInt 4)

/-- `Serialize` with the version of the stream. -/
def serialize (nVersion : BitVec 32) : Option (List UInt8) := do
  let (mapUnkIds, _, fresh) ←
    (StdMap.inOrder s.mapInfo).foldlM (s.writeFresh nVersion) (∅, 0, [])
  let (_, tried) ← (StdMap.inOrder s.mapInfo).foldlM (s.writeTried nVersion) (0, [])
  some (writeWord 1 1 ++ (writeWord 1 32 ++ (writeUInt256 s.nKey ++ (writeInt 4 s.nNew ++
    (writeInt 4 s.nTried ++
      (writeWord 4 (BitVec.ofNat 32 ADDRMAN_NEW_BUCKET_COUNT ^^^ bucketCountMask) ++
        (fresh ++ (tried ++ (buckets ADDRMAN_NEW_BUCKET_COUNT).flatMap fun bucket =>
          writeBucket ((s.bucketIds bucket).map fun n => (mapUnkIds.lookup n).getD 0)))))))))

end CAddrMan

/-!
# Reading
-/

/-- The members of the stream. -/
structure Peers where
  nVersion : BitVec 8
  nKey : UInt256
  nNew : Int
  nTried : Int
  nUBuckets : Int
  fresh : List Record
  tried : List Record
  bucketIndexes : List (List Int)
  deriving DecidableEq

namespace Peers

def readBucket : List UInt8 -> Option (List Int × List UInt8) :=
  readThen readInt32 fun nSize => readMany readInt32 nSize.toNat

def readAfterKeySize (nVersion : BitVec 8) : List UInt8 -> Option (Peers × List UInt8) :=
  readThen readUInt256 fun nKey =>
    readThen readInt32 fun nNew =>
      readThen readInt32 fun nTried =>
        readThen (readWord 4) fun stored =>
          let nUBuckets := (if nVersion ≠ 0 then stored ^^^ bucketCountMask else stored).toInt
          readThen (readMany Record.read nNew.toNat) fun fresh =>
            readThen (readMany Record.read nTried.toNat) fun tried =>
              readThen (readMany readBucket nUBuckets.toNat) fun bucketIndexes =>
                readDone { nVersion, nKey, nNew, nTried, nUBuckets, fresh, tried, bucketIndexes }

def read : List UInt8 -> Option (Peers × List UInt8) :=
  readThen (readWord 1) fun nVersion =>
    readThen (readWord 1) fun nKeySize =>
      -- "Incorrect keysize in addrman deserialization"
      if nKeySize ≠ 32 then fun _ => none else readAfterKeySize nVersion

/-- The positions in the new table can be used. -/
def usable (peers : Peers) : Bool :=
  peers.nVersion = 1 ∧ peers.nUBuckets = ADDRMAN_NEW_BUCKET_COUNT

end Peers

namespace CAddrMan

variable (s : CAddrMan) (Hash : List UInt8 -> UInt256)

/-- `Clear`, with the key that it draws. -/
def clear (nKey : UInt256) : CAddrMan :=
  { s with
    vRandom := []
    nKey := nKey
    vvNew := fun _ => -1
    vvTried := fun _ => -1
    nIdCount := 0
    nTried := 0
    nNew := 0 }

/-- Read an entry of the new table into `mapInfo[n]`. -/
def loadFresh (usable : Bool) (item : Record × Nat) : CAddrMan :=
  let n : Int := item.2
  let info := { (s.info n).load item.1 with nRandomPos := s.vRandom.length }
  let s' := { s.setInfo n info with
    mapAddr := s.mapAddr.insert info.toCNetAddr n
    vRandom := s.vRandom ++ [n] }
  if usable then s'
  else if s'.vvNew (s'.newSlot Hash info info.source) = -1 then
    s'.addReference n (s'.newSlot Hash info info.source)
  else s'

/-- Enter an entry of the tried table, or count it as lost. -/
def loadTried (acc : CAddrMan × Nat) (record : Record) : CAddrMan × Nat :=
  match acc with
  | (s, nLost) =>
      let info := CAddrInfo.init.load record
      let slot := s.triedSlot Hash info
      if s.vvTried slot = -1 then
        ({ s with
            vRandom := s.vRandom ++ [s.nIdCount]
            mapInfo := s.mapInfo.insert s.nIdCount
              { info with nRandomPos := s.vRandom.length, fInTried := true }
            mapAddr := s.mapAddr.insert info.toCNetAddr s.nIdCount
            vvTried := Function.update s.vvTried slot s.nIdCount
            nIdCount := s.nIdCount + 1 }, nLost)
      else (s, nLost + 1)

/-- Give an entry a reference from a bucket. -/
def loadIndex (usable : Bool) (bucket : Nat) (nIndex : Int) : CAddrMan :=
  if 0 ≤ nIndex ∧ nIndex < s.nNew then
    if h : usable = true ∧ bucket < ADDRMAN_NEW_BUCKET_COUNT then
      let slot := s.slotIn Hash (s.info nIndex) ⟨bucket, h.2⟩
      if s.vvNew slot = -1 ∧ (s.info nIndex).nRefCount < ADDRMAN_NEW_BUCKETS_PER_ADDRESS then
        s.addReference nIndex slot
      else s
    else s
  else s

def loadBucket (usable : Bool) (item : List Int × Nat) : CAddrMan :=
  item.1.foldl (fun s nIndex => s.loadIndex Hash usable item.2 nIndex) s

/-- Delete an entry which is neither tried nor referred to. -/
def pruneEntry (nId : Int) : Option CAddrMan :=
  match s.mapInfo.lookup nId with
  | none => some s
  | some info =>
      if info.fInTried = false ∧ info.nRefCount = 0 then s.delete nId else some s

def prune : Option CAddrMan :=
  ((StdMap.inOrder s.mapInfo).map Sigma.fst).foldlM pruneEntry s

/-- What `Unserialize` builds before it prunes. -/
def rebuild (peers : Peers) (nKeyDrawn : UInt256) : CAddrMan :=
  let s0 : CAddrMan := { s.clear nKeyDrawn with
    nKey := peers.nKey, nNew := peers.nNew, nTried := peers.nTried }
  let s1 : CAddrMan :=
    peers.fresh.zipIdx.foldl (fun s item => s.loadFresh Hash peers.usable item) s0
  let acc : CAddrMan × Nat := peers.tried.foldl (loadTried Hash) ({ s1 with nIdCount := s1.nNew }, 0)
  let s2 : CAddrMan := { acc.1 with nTried := acc.1.nTried - acc.2 }
  peers.bucketIndexes.zipIdx.foldl (fun s item => s.loadBucket Hash peers.usable item) s2

/-- `Unserialize` -/
def unserialize (bytes : List UInt8) (nKeyDrawn : UInt256) : Option CAddrMan := do
  let (peers, _) ← Peers.read bytes
  (s.rebuild Hash peers nKeyDrawn).prune

end CAddrMan

end AddrMan
end Hbcur
