import Hbcur.Foundation.StdMap
import Hbcur.Net.Address

/-!
# The address manager

`CAddrInfo` and `CAddrMan` of `addrman.h` and `addrman.cpp`: two tables of buckets, a map of entries,
a map of addresses and a vector in random order.  A failed assertion is `none`.  Random draws and
the adjusted time are arguments.
-/

namespace Hbcur
namespace AddrMan

open Foundation Serialize Net

def ADDRMAN_TRIED_BUCKET_COUNT : Nat := 256

def ADDRMAN_NEW_BUCKET_COUNT : Nat := 1024

def ADDRMAN_BUCKET_SIZE : Nat := 64

def ADDRMAN_TRIED_BUCKETS_PER_GROUP : Nat := 8

def ADDRMAN_NEW_BUCKETS_PER_SOURCE_GROUP : Nat := 64

def ADDRMAN_NEW_BUCKETS_PER_ADDRESS : Int := 8

def ADDRMAN_HORIZON_DAYS : Int := 30

def ADDRMAN_RETRIES : Int := 3

def ADDRMAN_MAX_FAILURES : Int := 10

def ADDRMAN_MIN_FAIL_DAYS : Int := 7

def ADDRMAN_GETADDR_MAX_PCT : Nat := 23

def ADDRMAN_GETADDR_MAX : Nat := 2500

instance : NeZero ADDRMAN_TRIED_BUCKET_COUNT := ⟨by decide⟩

instance : NeZero ADDRMAN_NEW_BUCKET_COUNT := ⟨by decide⟩

instance : NeZero ADDRMAN_BUCKET_SIZE := ⟨by decide⟩

/-- `GetRandInt`, from the 64 bits which it draws. -/
def getRandInt (nMax nRand : Nat) : Nat := nRand % nMax

/-!
# Entries
-/

structure CAddrInfo extends CAddress where
  source : CNetAddr
  nLastSuccess : BitVec 64
  nAttempts : BitVec 32
  /-- References from the new table, in memory only. -/
  nRefCount : Int
  /-- In memory only. -/
  fInTried : Bool
  /-- The position in `vRandom`. -/
  nRandomPos : Int
  deriving DecidableEq

namespace CAddrInfo

def ofAddress (addr : CAddress) (addrSource : CNetAddr) : CAddrInfo where
  toCService := addr.toCService
  nServices := addr.nServices
  nTime := addr.nTime
  nLastTry := 0
  source := addrSource
  nLastSuccess := 0
  nAttempts := 0
  nRefCount := 0
  fInTried := false
  nRandomPos := -1

/-- The constructor without arguments. -/
def init : CAddrInfo := ofAddress (CAddress.init ⟨CNetAddr.init, 0⟩) CNetAddr.init

section Buckets

variable (Hash : List UInt8 -> UInt256) (nKey : UInt256) (info : CAddrInfo)

def getLow64 (hash : UInt256) : Nat := hash.toNat % 18446744073709551616

def getTriedBucket : Fin ADDRMAN_TRIED_BUCKET_COUNT :=
  let hash1 := getLow64 (Hash (writeUInt256 nKey ++ writeBytes info.getKey))
  let hash2 := getLow64 (Hash (writeUInt256 nKey ++ writeBytes info.getGroup ++
    writeLE 8 (hash1 % ADDRMAN_TRIED_BUCKETS_PER_GROUP)))
  Fin.ofNat ADDRMAN_TRIED_BUCKET_COUNT hash2

def getNewBucket (src : CNetAddr) : Fin ADDRMAN_NEW_BUCKET_COUNT :=
  let hash1 := getLow64 (Hash (writeUInt256 nKey ++ writeBytes info.getGroup ++
    writeBytes src.getGroup))
  let hash2 := getLow64 (Hash (writeUInt256 nKey ++ writeBytes src.getGroup ++
    writeLE 8 (hash1 % ADDRMAN_NEW_BUCKETS_PER_SOURCE_GROUP)))
  Fin.ofNat ADDRMAN_NEW_BUCKET_COUNT hash2

/-- The key is hashed after `'N'` or `'K'` and the number of the bucket. -/
def getBucketPosition (fNew : Bool) (nBucket : Nat) : Fin ADDRMAN_BUCKET_SIZE :=
  Fin.ofNat ADDRMAN_BUCKET_SIZE (getLow64 (Hash (writeUInt256 nKey ++
    [if fNew then 0x4E else 0x4B] ++ writeLE 4 nBucket ++ writeBytes info.getKey)))

end Buckets

def isTerrible (info : CAddrInfo) (nNow : Int) : Bool :=
  -- never remove things tried in the last minute
  if info.nLastTry ≠ 0 ∧ info.nLastTry.toInt ≥ nNow - 60 then false
  else if (info.nTime.toNat : Int) > nNow + 10 * 60 then true
  else if info.nTime = 0 ∨ nNow - info.nTime.toNat > ADDRMAN_HORIZON_DAYS * 24 * 60 * 60 then true
  else if info.nLastSuccess = 0 ∧ info.nAttempts.toInt ≥ ADDRMAN_RETRIES then true
  else if nNow - info.nLastSuccess.toInt > ADDRMAN_MIN_FAIL_DAYS * 24 * 60 * 60 ∧
      info.nAttempts.toInt ≥ ADDRMAN_MAX_FAILURES then true
  else false

end CAddrInfo

/-!
# The manager
-/

abbrev TriedSlot := Fin ADDRMAN_TRIED_BUCKET_COUNT × Fin ADDRMAN_BUCKET_SIZE

abbrev NewSlot := Fin ADDRMAN_NEW_BUCKET_COUNT × Fin ADDRMAN_BUCKET_SIZE

/-- `for (int bucket = 0; bucket < count; bucket++)` -/
@[irreducible]
def buckets (count : Nat) : List (Fin count) := List.finRange count

structure CAddrMan where
  nKey : UInt256
  nIdCount : Int
  mapInfo : StdMap Int CAddrInfo
  mapAddr : StdMap CNetAddr Int
  vRandom : List Int
  nTried : Int
  /-- An empty slot is -1, here and in `vvNew`. -/
  vvTried : TriedSlot -> Int
  nNew : Int
  vvNew : NewSlot -> Int

namespace CAddrMan

/-- The constructor, with the key that `Clear` draws. -/
def new (nKey : UInt256) : CAddrMan where
  nKey := nKey
  nIdCount := 0
  mapInfo := ∅
  mapAddr := ∅
  vRandom := []
  nTried := 0
  vvTried := fun _ => -1
  nNew := 0
  vvNew := fun _ => -1

variable (s : CAddrMan)

/-- `mapInfo[nId]` -/
def info (nId : Int) : CAddrInfo := (s.mapInfo.lookup nId).getD CAddrInfo.init

def setInfo (nId : Int) (info : CAddrInfo) : CAddrMan :=
  { s with mapInfo := s.mapInfo.insert nId info }

def find (addr : CNetAddr) : Option (Int × CAddrInfo) :=
  match s.mapAddr.lookup addr with
  | none => none
  | some nId =>
      match s.mapInfo.lookup nId with
      | none => none
      | some info => some (nId, info)

/-- The new id is `nIdCount`. -/
def create (addr : CAddress) (addrSource : CNetAddr) : CAddrMan :=
  { s with
    nIdCount := s.nIdCount + 1
    mapInfo := s.mapInfo.insert s.nIdCount
      { CAddrInfo.ofAddress addr addrSource with nRandomPos := s.vRandom.length }
    mapAddr := s.mapAddr.insert addr.toCNetAddr s.nIdCount
    vRandom := s.vRandom ++ [s.nIdCount] }

/-- The two ids change places. -/
def exchange (nRndPos1 nRndPos2 : Int) (nId1 nId2 : Int) : CAddrMan :=
  let s1 := s.setInfo nId1 { s.info nId1 with nRandomPos := nRndPos2 }
  let s2 := s1.setInfo nId2 { s1.info nId2 with nRandomPos := nRndPos1 }
  { s2 with vRandom := (s2.vRandom.set nRndPos1.toNat nId2).set nRndPos2.toNat nId1 }

def swapRandom (nRndPos1 nRndPos2 : Int) : Option CAddrMan :=
  if nRndPos1 = nRndPos2 then some s
  else do
    guard (0 ≤ nRndPos1 ∧ nRndPos1 < s.vRandom.length ∧ 0 ≤ nRndPos2 ∧ nRndPos2 < s.vRandom.length)
    let nId1 ← s.vRandom[nRndPos1.toNat]?
    let nId2 ← s.vRandom[nRndPos2.toNat]?
    guard (StdMap.contains s.mapInfo nId1)
    guard (StdMap.contains s.mapInfo nId2)
    some (s.exchange nRndPos1 nRndPos2 nId1 nId2)

def delete (nId : Int) : Option CAddrMan := do
  let info ← s.mapInfo.lookup nId
  guard (info.fInTried = false)
  guard (info.nRefCount = 0)
  let s' ← s.swapRandom info.nRandomPos (s.vRandom.length - 1)
  some { s' with
    vRandom := s'.vRandom.dropLast
    mapAddr := s'.mapAddr.erase info.toCNetAddr
    mapInfo := s'.mapInfo.erase nId
    nNew := s'.nNew - 1 }

/-- A reference is taken from an entry and its slot emptied. -/
def dropReference (nId : Int) (slot : NewSlot) : CAddrMan :=
  { s.setInfo nId { s.info nId with nRefCount := (s.info nId).nRefCount - 1 } with
    vvNew := Function.update s.vvNew slot (-1) }

/-- A slot is made to refer to an entry. -/
def addReference (nId : Int) (slot : NewSlot) : CAddrMan :=
  { s.setInfo nId { s.info nId with nRefCount := (s.info nId).nRefCount + 1 } with
    vvNew := Function.update s.vvNew slot nId }

def clearNew (slot : NewSlot) : Option CAddrMan :=
  if s.vvNew slot = -1 then some s
  else do
    let nIdDelete := s.vvNew slot
    guard ((s.info nIdDelete).nRefCount > 0)
    let s' := s.dropReference nIdDelete slot
    if (s'.info nIdDelete).nRefCount = 0 then s'.delete nIdDelete else some s'

section Buckets

variable (Hash : List UInt8 -> UInt256)

/-- The slot of an entry in a bucket of the new table. -/
def slotIn (info : CAddrInfo) (bucket : Fin ADDRMAN_NEW_BUCKET_COUNT) : NewSlot :=
  (bucket, info.getBucketPosition Hash s.nKey true bucket)

/-- The slot in the bucket for a source. -/
def newSlot (info : CAddrInfo) (src : CNetAddr) : NewSlot :=
  s.slotIn Hash info (info.getNewBucket Hash s.nKey src)

def triedSlot (info : CAddrInfo) : TriedSlot :=
  (info.getTriedBucket Hash s.nKey,
    info.getBucketPosition Hash s.nKey false (info.getTriedBucket Hash s.nKey))

/-- One round of the loop which removes an entry from the new buckets. -/
def clearBucket (nId : Int) (bucket : Fin ADDRMAN_NEW_BUCKET_COUNT) : CAddrMan :=
  let slot := s.slotIn Hash (s.info nId) bucket
  if s.vvNew slot = nId then s.dropReference nId slot else s

def clearBuckets (nId : Int) : CAddrMan :=
  (buckets ADDRMAN_NEW_BUCKET_COUNT).foldl (fun s bucket => s.clearBucket Hash nId bucket) s

/-- The item in a slot leaves the tried set. -/
def removeTried (slot : TriedSlot) : CAddrMan :=
  { s.setInfo (s.vvTried slot) { s.info (s.vvTried slot) with fInTried := false } with
    vvTried := Function.update s.vvTried slot (-1)
    nTried := s.nTried - 1 }

/-- An item which was tried enters the new set again. -/
def enterNew (nId : Int) (slot : NewSlot) : CAddrMan :=
  { s.setInfo nId { s.info nId with nRefCount := 1 } with
    vvNew := Function.update s.vvNew slot nId
    nNew := s.nNew + 1 }

def enterTried (nId : Int) (slot : TriedSlot) : CAddrMan :=
  { s.setInfo nId { s.info nId with fInTried := true } with
    vvTried := Function.update s.vvTried slot nId
    nTried := s.nTried + 1 }

/-- The tried entry of a slot moves back to the new table. -/
def evict (slot : TriedSlot) : Option CAddrMan := do
  let nIdEvict := s.vvTried slot
  guard (StdMap.contains s.mapInfo nIdEvict)
  let s1 := s.removeTried slot
  let uslot := s1.newSlot Hash (s1.info nIdEvict) (s1.info nIdEvict).source
  let s2 ← s1.clearNew uslot
  guard (s2.vvNew uslot = -1)
  some (s2.enterNew nIdEvict uslot)

/-- First make space to add it. -/
def makeSpace (slot : TriedSlot) : Option CAddrMan :=
  if s.vvTried slot ≠ -1 then s.evict Hash slot else some s

/-- The part of `MakeTried` after the loop. -/
def moveToTried (nId : Int) : Option CAddrMan := do
  guard ((s.info nId).nRefCount = 0)
  let slot := s.triedSlot Hash (s.info nId)
  let s' ← s.makeSpace Hash slot
  guard (s'.vvTried slot = -1)
  some (s'.enterTried nId slot)

def makeTried (nId : Int) : Option CAddrMan :=
  let s' : CAddrMan := s.clearBuckets Hash nId
  moveToTried { s' with nNew := s'.nNew - 1 } Hash nId

/-!
# Operations
-/

/-- Whether some new bucket refers to an entry, looked for from a random bucket on. -/
def inSomeBucket (nId : Int) (nRnd : Nat) : Bool :=
  (List.range ADDRMAN_NEW_BUCKET_COUNT).any fun n =>
    s.vvNew (s.slotIn Hash (s.info nId) (Fin.ofNat ADDRMAN_NEW_BUCKET_COUNT (n + nRnd))) == nId

/-- `Good_` -/
def good (addr : CService) (nTime : BitVec 64) (nRand : Nat) : Option CAddrMan :=
  match s.find addr.toCNetAddr with
  | none => some s
  | some (nId, info) =>
      if info.toCService ≠ addr then some s
      else
        let s1 := s.setInfo nId
          { info with nLastSuccess := nTime, nLastTry := nTime, nAttempts := 0 }
        if info.fInTried then some s1
        else if s1.inSomeBucket Hash nId (getRandInt ADDRMAN_NEW_BUCKET_COUNT nRand) then
          s1.makeTried Hash nId
        else some s1

/-- What `Add_` notes of an address it knows. -/
def refreshed (info : CAddrInfo) (addr : CAddress) (nTimePenalty nNow : Int) : CAddrInfo :=
  let fCurrentlyOnline := decide (nNow - addr.nTime.toNat < 24 * 60 * 60)
  let nUpdateInterval : Int := if fCurrentlyOnline then 60 * 60 else 24 * 60 * 60
  let update : Bool := addr.nTime ≠ 0 ∧
    (info.nTime = 0 ∨ (info.nTime.toNat : Int) < addr.nTime.toNat - nUpdateInterval - nTimePenalty)
  { info with
    nTime := if update then BitVec.ofInt 32 (max 0 (addr.nTime.toNat - nTimePenalty))
      else info.nTime
    nServices := info.nServices ||| addr.nServices }

/-- The end of `Add_`: a place in the new table. -/
def place (nId : Int) (source : CNetAddr) (nNow : Int) : Option CAddrMan :=
  let slot := s.newSlot Hash (s.info nId) source
  if s.vvNew slot = nId then some s
  else
    let infoExisting := s.info (s.vvNew slot)
    let fInsert := s.vvNew slot = -1 ∨ infoExisting.isTerrible nNow = true ∨
      (infoExisting.nRefCount > 1 ∧ (s.info nId).nRefCount = 0)
    if fInsert then do
      let s' ← s.clearNew slot
      some (s'.addReference nId slot)
    else if (s.info nId).nRefCount = 0 then s.delete nId
    else some s

/-- A known address gets no further reference: there is no new information, it has been tried, it
has enough references, or the stochastic test says so. -/
def keepsReferences (info : CAddrInfo) (addr : CAddress) (nRand : Nat) : Bool :=
  let nFactor := 2 ^ info.nRefCount.toNat
  if addr.nTime = 0 ∨ (info.nTime ≠ 0 ∧ addr.nTime ≤ info.nTime) then true
  else if info.fInTried then true
  else if info.nRefCount = ADDRMAN_NEW_BUCKETS_PER_ADDRESS then true
  else decide (nFactor > 1 ∧ getRandInt nFactor nRand ≠ 0)

/-- `Create` for `Add_`. -/
def createNew (addr : CAddress) (source : CNetAddr) (nTimePenalty : Int) : CAddrMan :=
  let s' := s.create addr source
  let info := s'.info s.nIdCount
  { s'.setInfo s.nIdCount
      { info with nTime := BitVec.ofInt 32 (max 0 (info.nTime.toNat - nTimePenalty)) } with
    nNew := s'.nNew + 1 }

/-- `Add_`; the adjusted time is read twice. -/
def add (addr : CAddress) (source : CNetAddr) (nTimePenalty nNow nLater : Int) (nRand : Nat) :
    Option (Bool × CAddrMan) :=
  if addr.isRoutable = false then some (false, s)
  else
    match s.find addr.toCNetAddr with
    | some (nId, info) =>
        let info' := refreshed info addr nTimePenalty nNow
        let s' := s.setInfo nId info'
        if keepsReferences info' addr nRand then some (false, s')
        else (s'.place Hash nId source nLater).map fun s'' => (false, s'')
    | none =>
        ((s.createNew addr source nTimePenalty).place Hash s.nIdCount source nLater).map
          fun s' => (true, s')

/-- `Attempt_` -/
def attempt (addr : CService) (nTime : BitVec 64) : CAddrMan :=
  match s.find addr.toCNetAddr with
  | none => s
  | some (nId, info) =>
      if info.toCService ≠ addr then s
      else s.setInfo nId { info with nLastTry := nTime, nAttempts := info.nAttempts + 1 }

/-- `Connected_` -/
def connected (addr : CService) (nTime : BitVec 64) : CAddrMan :=
  match s.find addr.toCNetAddr with
  | none => s
  | some (nId, info) =>
      if info.toCService ≠ addr then s
      else if nTime.toInt - info.nTime.toNat > 20 * 60 then
        s.setInfo nId { info with nTime := nTime.setWidth 32 }
      else s

/-- The loop of `GetAddr_` from position `n` on. -/
def getAddrLoop (nNodes : Nat) (nRand : Nat -> Nat) (nNow : Nat -> Int) :
    Nat -> Nat -> List CAddress -> CAddrMan -> Option (List CAddress × CAddrMan)
  | 0, _, vAddr, s => some (vAddr, s)
  | left + 1, n, vAddr, s =>
      if vAddr.length ≥ nNodes then some (vAddr, s)
      else do
        let nRndPos := getRandInt (s.vRandom.length - n) (nRand n) + n
        let s' ← s.swapRandom n nRndPos
        let nId ← s'.vRandom[n]?
        let ai ← s'.mapInfo.lookup nId
        getAddrLoop nNodes nRand nNow left (n + 1)
          (if ai.isTerrible (nNow n) then vAddr else vAddr ++ [ai.toCAddress]) s'

/-- `GetAddr_` -/
def getAddr (nRand : Nat -> Nat) (nNow : Nat -> Int) : Option (List CAddress × CAddrMan) :=
  let nNodes := min ADDRMAN_GETADDR_MAX (ADDRMAN_GETADDR_MAX_PCT * s.vRandom.length / 100)
  getAddrLoop nNodes nRand nNow s.vRandom.length 0 [] s

end Buckets

end CAddrMan

/-- A time after 1970. -/
structure Time where
  val : BitVec 64
  positive : 0 < val.toInt
  deriving DecidableEq

inductive Op where
  | add (addr : CAddress) (source : CNetAddr) (nTimePenalty nNow nLater : Int) (nRand : Nat)
  | good (addr : CService) (nTime : Time) (nRand : Nat)
  | attempt (addr : CService) (nTime : Time)
  | connected (addr : CService) (nTime : Time)
  | getAddr (nRand : Nat -> Nat) (nNow : Nat -> Int)

def step (Hash : List UInt8 -> UInt256) (s : CAddrMan) : Op -> Option CAddrMan
  | Op.add addr source nTimePenalty nNow nLater nRand =>
      (s.add Hash addr source nTimePenalty nNow nLater nRand).map Prod.snd
  | Op.good addr nTime nRand => s.good Hash addr nTime.val nRand
  | Op.attempt addr nTime => some (s.attempt addr nTime.val)
  | Op.connected addr nTime => some (s.connected addr nTime.val)
  | Op.getAddr nRand nNow => (s.getAddr nRand nNow).map Prod.snd

/-!
# Assertions
-/

/-- An assertion which holds. -/
theorem guard_bind {result : Type} {cond : Prop} [Decidable cond] (h : cond)
    (next : Unit -> Option result) : (guard cond >>= next) = next () := by
  rw [guard, if_pos h]
  rfl

theorem some_bind {result result' : Type} (r : result) (next : result -> Option result') :
    (some r >>= next) = next r := rfl

end AddrMan
end Hbcur
