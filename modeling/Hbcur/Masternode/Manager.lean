import Hbcur.Foundation.Run
import Hbcur.Foundation.StdMap
import Hbcur.Net.Address

/-!
# The list of masternodes

The functions of `masternode.cpp` and `masternodeman.cpp` which add masternodes to the list,
change or check them and remove them.  What they ask of the clock, the chain and the memory pool
is an input of each call, as are the locks they may fail to get.
-/

namespace Hbcur
namespace Manager

open Foundation Net Serialize

def MASTERNODE_MIN_CONFIRMATIONS : Int := 15
def MASTERNODE_MIN_MNP_SECONDS : Int := 10 * 60
def MASTERNODE_MIN_MNB_SECONDS : Int := 5 * 60
def MASTERNODE_EXPIRATION_SECONDS : Int := 120 * 60
def MASTERNODE_REMOVAL_SECONDS : Int := 130 * 60
def MASTERNODE_SYNC_THRESHOLD : Int := 2

/-!
# Masternodes, broadcasts and pings
-/

structure CMasternodePing where
  vin : CTxIn
  blockHash : UInt256
  sigTime : Int
  vchSig : List UInt8

/-- The default constructor. -/
def CMasternodePing.init : CMasternodePing where
  vin := ⟨⟨0, COutPoint.maxUInt32⟩, [], COutPoint.maxUInt32⟩
  blockHash := 0
  sigTime := 0
  vchSig := []

/-- `operator==`, which does not look at the time. -/
def CMasternodePing.equals (a b : CMasternodePing) : Bool :=
  a.vin == b.vin && a.blockHash == b.blockHash

inductive MasternodeState where
  | MASTERNODE_PRE_ENABLED
  | MASTERNODE_ENABLED
  | MASTERNODE_EXPIRED
  | MASTERNODE_OUTPOINT_SPENT
  | MASTERNODE_REMOVE
  | MASTERNODE_WATCHDOG_EXPIRED
  | MASTERNODE_POSE_BAN
  | MASTERNODE_VIN_SPENT
  | MASTERNODE_POS_ERROR
  deriving DecidableEq

open MasternodeState

structure CMasternodeBroadcast where
  vin : CTxIn
  addr : CService
  pubKeyCollateralAddress : List UInt8
  pubKeyMasternode : List UInt8
  sig : List UInt8
  sigTime : Int
  protocolVersion : Int
  lastPing : CMasternodePing

structure CMasternode extends CMasternodeBroadcast where
  activeState : MasternodeState
  unitTest : Bool

def CMasternode.ofBroadcast (mnb : CMasternodeBroadcast) : CMasternode where
  toCMasternodeBroadcast := mnb
  activeState := MASTERNODE_ENABLED
  unitTest := false

/-- The hashes under which broadcasts and pings are known. -/
structure Hashes where
  hashBroadcast : Int -> List UInt8 -> UInt256
  hashPing : CTxIn -> Int -> UInt256

def CMasternodeBroadcast.getHash (hashes : Hashes) (mnb : CMasternodeBroadcast) : UInt256 :=
  hashes.hashBroadcast mnb.sigTime mnb.pubKeyCollateralAddress

def CMasternodePing.getHash (hashes : Hashes) (mnp : CMasternodePing) : UInt256 :=
  hashes.hashPing mnp.vin mnp.sigTime

/-- What a call finds in the rest of the node. -/
structure ManagerEnv where
  fShutdownRequested : Bool
  getTime : Int
  getAdjustedTime : Int
  /-- The masternode at a position was checked less than `MASTERNODE_CHECK_SECONDS` ago. -/
  fCheckedLately : Nat -> Bool
  /-- `Check` gets `cs_main` for the masternode at a position. -/
  fLockMain : Nat -> Bool
  acceptableInputs : CTxIn -> Bool
  nMinPaymentsProto : Int
  verifyMessage : List UInt8 -> List UInt8 -> String -> Bool
  addrToString : CService -> String
  vinToString : CTxIn -> String
  hashToString : UInt256 -> String
  keyToString : List UInt8 -> String
  /-- The size of `GetScriptForDestination` of the identifier of a key. -/
  scriptSize : List UInt8 -> Nat
  fMainNet : Bool
  /-- The heights of the blocks in `mapBlockIndex`. -/
  blockHeight : UInt256 -> Option Int
  nChainHeight : Int
  getInputAge : CTxIn -> Int
  /-- The time of the block which gives an input its confirmations, if its own block is known. -/
  confirmationTime : CTxIn -> Option Int
  fMasterNode : Bool
  activeVin : CTxIn
  activePubKey : List UInt8
  /-- `CheckInputsAndAdd` gets `cs_main`. -/
  fLockInputs : Bool
  /-- The `nDoS` which `AcceptableInputs` leaves behind. -/
  nInputsDoS : Int
  /-- What the end of `mapSeenMasternodeBroadcast` hashes to if it is taken for an entry. -/
  hashAtEnd : UInt256

namespace CMasternode

def isEnabled (mn : CMasternode) : Bool := decide (mn.activeState = MASTERNODE_ENABLED)

def isPingedWithin (mn : CMasternode) (seconds now : Int) : Bool :=
  if mn.lastPing.equals CMasternodePing.init then false
  else decide (wrapInt64 (now - mn.lastPing.sigTime) < seconds)

def isBroadcastedWithin (mn : CMasternode) (seconds getAdjustedTime : Int) : Bool :=
  decide (wrapInt64 (getAdjustedTime - mn.sigTime) < seconds)

/-- `Check` of the masternode at position `i`. -/
def check (env : ManagerEnv) (i : Nat) (forceCheck : Bool) (mn : CMasternode) : CMasternode :=
  if env.fShutdownRequested then mn
  else if !forceCheck && env.fCheckedLately i then mn
  else if mn.activeState = MASTERNODE_VIN_SPENT then mn
  else if !mn.isPingedWithin MASTERNODE_REMOVAL_SECONDS env.getAdjustedTime then
    { mn with activeState := MASTERNODE_REMOVE }
  else if !mn.isPingedWithin MASTERNODE_EXPIRATION_SECONDS env.getAdjustedTime then
    { mn with activeState := MASTERNODE_EXPIRED }
  else if !mn.unitTest && !env.fLockMain i then mn
  else if !mn.unitTest && !env.acceptableInputs mn.vin then
    { mn with activeState := MASTERNODE_VIN_SPENT }
  else { mn with activeState := MASTERNODE_ENABLED }

end CMasternode

/-!
# The manager
-/

structure CMasternodeMan where
  vMasternodes : List CMasternode
  mapSeenMasternodeBroadcast : StdMap UInt256 CMasternodeBroadcast
  mapSeenMasternodePing : StdMap UInt256 CMasternodePing
  mAskedUsForMasternodeList : StdMap CNetAddr Int
  mWeAskedForMasternodeList : StdMap CNetAddr Int
  mWeAskedForMasternodeListEntry : StdMap COutPoint Int
  /-- `masternodeSync.mapSeenSyncMNB` -/
  mapSeenSyncMNB : StdMap UInt256 Int

/-- What a check of a broadcast or of a ping answers. -/
structure Checked where
  ok : Bool
  nDos : Int := 0
  man : CMasternodeMan

namespace CMasternodeMan

/-- The position of the masternode which `Find` points to, or the size of the list. -/
def findIdx (s : CMasternodeMan) (vin : CTxIn) : Nat :=
  s.vMasternodes.findIdx fun mn => mn.vin.prevout == vin.prevout

def find (s : CMasternodeMan) (vin : CTxIn) : Option CMasternode :=
  s.vMasternodes.find? fun mn => mn.vin.prevout == vin.prevout

/-- Change the masternode which `Find` points to. -/
def modify (s : CMasternodeMan) (vin : CTxIn) (f : CMasternode -> CMasternode) :
    CMasternodeMan :=
  { s with vMasternodes := s.vMasternodes.modify (s.findIdx vin) f }

def add (s : CMasternodeMan) (mn : CMasternode) : Bool × CMasternodeMan :=
  if !mn.isEnabled then (false, s)
  else
    match s.find mn.vin with
    | none => (true, { s with vMasternodes := s.vMasternodes ++ [mn] })
    | some _ => (false, s)

/-- The first masternode with the same input, signature script included. -/
def remove (s : CMasternodeMan) (vin : CTxIn) : CMasternodeMan :=
  { s with vMasternodes := s.vMasternodes.eraseP fun mn => mn.vin == vin }

def check (env : ManagerEnv) (s : CMasternodeMan) : CMasternodeMan :=
  { s with vMasternodes := s.vMasternodes.mapIdx fun i mn => mn.check env i false }

/-- `masternodeSync.AddedMasternodeList` -/
def addedMasternodeList (s : CMasternodeMan) (hash : UInt256) : CMasternodeMan :=
  if StdMap.contains s.mapSeenMasternodeBroadcast hash then
    let nSeen := (s.mapSeenSyncMNB.lookup hash).getD 0
    { s with
      mapSeenSyncMNB :=
        s.mapSeenSyncMNB.insert hash
          (if nSeen < MASTERNODE_SYNC_THRESHOLD then nSeen + 1 else nSeen) }
  else { s with mapSeenSyncMNB := StdMap.insertNew s.mapSeenSyncMNB hash 1 }

/-- Let a broadcast be checked again later. -/
def forgetBroadcast (s : CMasternodeMan) (hash : UInt256) : CMasternodeMan :=
  { s with
    mapSeenMasternodeBroadcast := s.mapSeenMasternodeBroadcast.erase hash
    mapSeenSyncMNB := s.mapSeenSyncMNB.erase hash }

def seenPing (hashes : Hashes) (s : CMasternodeMan) (mnp : CMasternodePing) : CMasternodeMan :=
  { s with
    mapSeenMasternodePing :=
      StdMap.insertNew s.mapSeenMasternodePing (mnp.getHash hashes) mnp }

def seenBroadcast (hashes : Hashes) (s : CMasternodeMan) (mnb : CMasternodeBroadcast) :
    CMasternodeMan :=
  { s with
    mapSeenMasternodeBroadcast :=
      StdMap.insertNew s.mapSeenMasternodeBroadcast (mnb.getHash hashes) mnb }

end CMasternodeMan

/-!
# Pings
-/

namespace CMasternodePing

def strMessage (env : ManagerEnv) (mnp : CMasternodePing) : String :=
  env.vinToString mnp.vin ++ env.hashToString mnp.blockHash ++ toString mnp.sigTime

/-- Store a ping with its masternode and with the broadcast under the same hash. -/
def store (hashes : Hashes) (s : CMasternodeMan) (pmn : CMasternode) (mnp : CMasternodePing) :
    CMasternodeMan :=
  { s.modify mnp.vin fun mn => { mn with lastPing := mnp } with
    mapSeenMasternodeBroadcast :=
      StdMap.modify s.mapSeenMasternodeBroadcast (pmn.getHash hashes) fun mnb =>
        { mnb with lastPing := mnp } }

def checkAndUpdate (hashes : Hashes) (env : ManagerEnv) (s : CMasternodeMan)
    (mnp : CMasternodePing) (fRequireEnabled : Bool) : Checked :=
  if mnp.sigTime > env.getAdjustedTime + 60 * 60 then ⟨false, 1, s⟩
  else if mnp.sigTime ≤ env.getAdjustedTime - 60 * 60 then ⟨false, 1, s⟩
  else
    match s.find mnp.vin with
    | none => ⟨false, 0, s⟩
    | some pmn =>
        if pmn.protocolVersion < env.nMinPaymentsProto then ⟨false, 0, s⟩
        else if fRequireEnabled && !pmn.isEnabled then ⟨false, 0, s⟩
        else if pmn.isPingedWithin (MASTERNODE_MIN_MNP_SECONDS - 60) mnp.sigTime then
          ⟨false, 0, s⟩
        else if !env.verifyMessage pmn.pubKeyMasternode mnp.vchSig (mnp.strMessage env) then
          ⟨false, 33, s⟩
        else
          match env.blockHeight mnp.blockHash with
          | none => ⟨false, 0, s⟩
          | some nHeight =>
              if nHeight < env.nChainHeight - 24 then ⟨false, 0, s⟩
              else
                let s' := (store hashes s pmn mnp).modify mnp.vin fun mn =>
                  mn.check env (s.findIdx mnp.vin) true
                ⟨(s'.find mnp.vin).any CMasternode.isEnabled, 0, s'⟩

end CMasternodePing

/-!
# Broadcasts
-/

namespace CMasternodeBroadcast

def strMessage (env : ManagerEnv) (mnb : CMasternodeBroadcast) : String :=
  env.addrToString mnb.addr ++ toString mnb.sigTime ++
    env.keyToString mnb.pubKeyCollateralAddress ++ env.keyToString mnb.pubKeyMasternode ++
      toString mnb.protocolVersion

/-- `UpdateFromNewBroadcast` of the masternode with the input of the broadcast. -/
def update (hashes : Hashes) (env : ManagerEnv) (s : CMasternodeMan) (pmn : CMasternode)
    (mnb : CMasternodeBroadcast) : Bool × CMasternodeMan :=
  if mnb.sigTime > pmn.sigTime then
    let s' := s.modify mnb.vin fun mn =>
      { mn with
        pubKeyMasternode := mnb.pubKeyMasternode
        pubKeyCollateralAddress := mnb.pubKeyCollateralAddress
        sigTime := mnb.sigTime
        sig := mnb.sig
        protocolVersion := mnb.protocolVersion
        addr := mnb.addr }
    let checked : Checked :=
      if mnb.lastPing.equals CMasternodePing.init then ⟨true, 0, s'⟩
      else mnb.lastPing.checkAndUpdate hashes env s' false
    if checked.ok then
      (true, (checked.man.modify mnb.vin fun mn => { mn with lastPing := mnb.lastPing }).seenPing
        hashes mnb.lastPing)
    else (true, checked.man)
  else (false, s)

/-- `CheckAndUpdate` from the search of the list on. -/
def updateKnown (hashes : Hashes) (env : ManagerEnv) (s : CMasternodeMan)
    (mnb : CMasternodeBroadcast) : Checked :=
  match s.find mnb.vin with
  | none => ⟨true, 0, s⟩
  | some pmn =>
      if pmn.sigTime > mnb.sigTime then ⟨false, 0, s⟩
      else if !pmn.isEnabled then ⟨true, 0, s⟩
      else if pmn.pubKeyCollateralAddress = mnb.pubKeyCollateralAddress ∧
          !pmn.isBroadcastedWithin MASTERNODE_MIN_MNB_SECONDS env.getAdjustedTime then
        let updated := mnb.update hashes env s pmn
        let s' :=
          if updated.1 then
            updated.2.modify mnb.vin fun mn => mn.check env (updated.2.findIdx mnb.vin) false
          else updated.2
        ⟨true, 0, s'.addedMasternodeList (mnb.getHash hashes)⟩
      else ⟨true, 0, s⟩

def checkAndUpdate (hashes : Hashes) (env : ManagerEnv) (s : CMasternodeMan)
    (mnb : CMasternodeBroadcast) : Checked :=
  if mnb.sigTime > env.getAdjustedTime + 60 * 60 then ⟨false, 1, s⟩
  else if mnb.protocolVersion < env.nMinPaymentsProto then ⟨false, 0, s⟩
  else if env.scriptSize mnb.pubKeyCollateralAddress ≠ 25 then ⟨false, 100, s⟩
  else if env.scriptSize mnb.pubKeyMasternode ≠ 25 then ⟨false, 100, s⟩
  else if mnb.vin.scriptSig ≠ [] then ⟨false, 0, s⟩
  else if !env.verifyMessage mnb.pubKeyCollateralAddress mnb.sig (mnb.strMessage env) then
    ⟨false, 100, s⟩
  else if env.fMainNet then
    if mnb.addr.port ≠ 25676 then ⟨false, 0, s⟩ else mnb.updateKnown hashes env s
  else if mnb.addr.port = 25676 then ⟨false, 0, s⟩
  else mnb.updateKnown hashes env s

/-- `CheckInputsAndAdd` after an old entry was removed. -/
def addChecked (hashes : Hashes) (env : ManagerEnv) (s : CMasternodeMan)
    (mnb : CMasternodeBroadcast) : Checked :=
  if !env.fLockInputs then ⟨false, 0, s.forgetBroadcast (mnb.getHash hashes)⟩
  else if !env.acceptableInputs mnb.vin then ⟨false, env.nInputsDoS, s⟩
  else if env.getInputAge mnb.vin < MASTERNODE_MIN_CONFIRMATIONS then
    ⟨false, 0, s.forgetBroadcast (mnb.getHash hashes)⟩
  else if (env.confirmationTime mnb.vin).any fun nTime => decide (nTime > mnb.sigTime) then
    ⟨false, 0, s⟩
  else ⟨true, 0, (s.add (CMasternode.ofBroadcast mnb)).2⟩

def checkInputsAndAdd (hashes : Hashes) (env : ManagerEnv) (s : CMasternodeMan)
    (mnb : CMasternodeBroadcast) : Checked :=
  if env.fMasterNode ∧ mnb.vin.prevout = env.activeVin.prevout ∧
      mnb.pubKeyMasternode = env.activePubKey then
    ⟨true, 0, s⟩
  else
    match s.find mnb.vin with
    | none => mnb.addChecked hashes env s
    | some pmn =>
        if pmn.isEnabled then ⟨true, 0, s⟩
        else mnb.addChecked hashes env (s.remove pmn.vin)

end CMasternodeBroadcast

namespace CMasternodeMan

def updateMasternodeList (hashes : Hashes) (env : ManagerEnv) (s : CMasternodeMan)
    (mnb : CMasternodeBroadcast) : CMasternodeMan :=
  let s' := (s.seenPing hashes mnb.lastPing).seenBroadcast hashes mnb
  match s'.find mnb.vin with
  | none =>
      let added := s'.add (CMasternode.ofBroadcast mnb)
      if added.1 then added.2.addedMasternodeList (mnb.getHash hashes) else added.2
  | some pmn =>
      let updated := mnb.update hashes env s' pmn
      if updated.1 then updated.2.addedMasternodeList (mnb.getHash hashes) else updated.2

/-- A `mnb` message; the last argument is `IsVinAssociatedWithPubkey`. -/
def processBroadcast (hashes : Hashes) (env : ManagerEnv) (s : CMasternodeMan)
    (mnb : CMasternodeBroadcast) (fAssociated : Bool) : CMasternodeMan :=
  if StdMap.contains s.mapSeenMasternodeBroadcast (mnb.getHash hashes) then
    s.addedMasternodeList (mnb.getHash hashes)
  else
    let checked := mnb.checkAndUpdate hashes env (s.seenBroadcast hashes mnb)
    if !checked.ok then checked.man
    else if !fAssociated then checked.man
    else
      let added := mnb.checkInputsAndAdd hashes env checked.man
      if added.ok then added.man.addedMasternodeList (mnb.getHash hashes) else added.man

/-!
# Removing
-/

/-- Inactive or outdated. -/
def shouldRemove (env : ManagerEnv) (forceExpiredRemoval : Bool) (mn : CMasternode) : Bool :=
  decide (mn.activeState = MASTERNODE_REMOVE) || decide (mn.activeState = MASTERNODE_VIN_SPENT) ||
    (forceExpiredRemoval && decide (mn.activeState = MASTERNODE_EXPIRED)) ||
      decide (mn.protocolVersion < env.nMinPaymentsProto)

/-- Erase all of the broadcasts seen from this input, and allow to ask for it again. -/
def forgetMasternode (s : CMasternodeMan) (mn : CMasternode) : CMasternodeMan :=
  let hashes := StdMap.keysWhere s.mapSeenMasternodeBroadcast fun _ mnb => mnb.vin == mn.vin
  { s with
    mapSeenMasternodeBroadcast := StdMap.eraseAll s.mapSeenMasternodeBroadcast hashes
    mapSeenSyncMNB := StdMap.eraseAll s.mapSeenSyncMNB hashes
    mWeAskedForMasternodeListEntry :=
      s.mWeAskedForMasternodeListEntry.erase mn.vin.prevout }

def removeMasternodes (env : ManagerEnv) (forceExpiredRemoval : Bool) (s : CMasternodeMan) :
    CMasternodeMan :=
  { (s.vMasternodes.filter (shouldRemove env forceExpiredRemoval)).foldl forgetMasternode s with
    vMasternodes := s.vMasternodes.filter fun mn => !shouldRemove env forceExpiredRemoval mn }

/-- The last ping of a broadcast is too old. -/
def isOld (env : ManagerEnv) (mnb : CMasternodeBroadcast) : Bool :=
  decide (mnb.lastPing.sigTime < env.getTime - MASTERNODE_REMOVAL_SECONDS * 2)

/--
The loop over `mapSeenMasternodeBroadcast`: after an entry is erased, the iterator is at the next
one or at the end when the hash is taken.  The result says whether it was ever at the end.
-/
def expireBroadcasts (hashes : Hashes) (env : ManagerEnv) :
    List (Sigma fun _ : UInt256 => CMasternodeBroadcast) -> CMasternodeMan -> Bool × CMasternodeMan
  | [], s => (false, s)
  | e :: rest, s =>
      if isOld env e.2 then
        let erased := { s with
          mapSeenMasternodeBroadcast := s.mapSeenMasternodeBroadcast.erase e.1 }
        match rest with
        | [] => (true, { erased with mapSeenSyncMNB := erased.mapSeenSyncMNB.erase env.hashAtEnd })
        | next :: _ =>
            expireBroadcasts hashes env rest
              { erased with
                mapSeenSyncMNB := erased.mapSeenSyncMNB.erase (next.2.getHash hashes) }
      else expireBroadcasts hashes env rest s

/-- The loops over the maps of times. -/
def expireRequests (env : ManagerEnv) (s : CMasternodeMan) : CMasternodeMan :=
  { s with
    mAskedUsForMasternodeList :=
      StdMap.eraseWhere s.mAskedUsForMasternodeList fun _ t => decide (t < env.getTime)
    mWeAskedForMasternodeList :=
      StdMap.eraseWhere s.mWeAskedForMasternodeList fun _ t => decide (t < env.getTime)
    mWeAskedForMasternodeListEntry :=
      StdMap.eraseWhere s.mWeAskedForMasternodeListEntry fun _ t => decide (t < env.getTime) }

def expirePings (env : ManagerEnv) (s : CMasternodeMan) : CMasternodeMan :=
  { s with
    mapSeenMasternodePing :=
      StdMap.eraseWhere s.mapSeenMasternodePing fun _ mnp =>
        decide (mnp.sigTime < env.getTime - MASTERNODE_REMOVAL_SECONDS * 2) }

/-- The result says whether the end of a map was dereferenced. -/
def checkAndRemove (hashes : Hashes) (env : ManagerEnv) (forceExpiredRemoval : Bool)
    (s : CMasternodeMan) : Bool × CMasternodeMan :=
  let s' := ((s.check env).removeMasternodes env forceExpiredRemoval).expireRequests env
  let expired := expireBroadcasts hashes env (StdMap.inOrder s'.mapSeenMasternodeBroadcast) s'
  (expired.1, expired.2.expirePings env)

end CMasternodeMan

/-!
# Calls
-/

inductive ManagerCall where
  | add (mn : CMasternode)
  | remove (vin : CTxIn)
  | updateMasternodeList (env : ManagerEnv) (mnb : CMasternodeBroadcast)
  | checkAndUpdate (env : ManagerEnv) (mnb : CMasternodeBroadcast)
  | checkInputsAndAdd (env : ManagerEnv) (mnb : CMasternodeBroadcast)
  | processBroadcast (env : ManagerEnv) (mnb : CMasternodeBroadcast) (fAssociated : Bool)
  | checkPing (env : ManagerEnv) (mnp : CMasternodePing) (fRequireEnabled : Bool)
  | checkAndRemove (env : ManagerEnv) (forceExpiredRemoval : Bool)

def ManagerCall.run (hashes : Hashes) (s : CMasternodeMan) : ManagerCall -> CMasternodeMan
  | add mn => (s.add mn).2
  | remove vin => s.remove vin
  | updateMasternodeList env mnb => s.updateMasternodeList hashes env mnb
  | checkAndUpdate env mnb => (mnb.checkAndUpdate hashes env s).man
  | checkInputsAndAdd env mnb => (mnb.checkInputsAndAdd hashes env s).man
  | processBroadcast env mnb fAssociated => s.processBroadcast hashes env mnb fAssociated
  | checkPing env mnp fRequireEnabled => (mnp.checkAndUpdate hashes env s fRequireEnabled).man
  | checkAndRemove env forceExpiredRemoval => (s.checkAndRemove hashes env forceExpiredRemoval).2

def CMasternodeMan.init : CMasternodeMan where
  vMasternodes := []
  mapSeenMasternodeBroadcast := ∅
  mapSeenMasternodePing := ∅
  mAskedUsForMasternodeList := ∅
  mWeAskedForMasternodeList := ∅
  mWeAskedForMasternodeListEntry := ∅
  mapSeenSyncMNB := ∅

/-!
# What the calls keep

A property which survives the few ways in which the list and the broadcasts seen are changed
survives all calls.
-/

open Manager.CMasternodeMan

structure Kept (hashes : Hashes) (P : CMasternodeMan -> Prop) : Prop where
  /-- Only the list and the broadcasts seen matter. -/
  congr : forall {s s' : CMasternodeMan}, s'.vMasternodes = s.vMasternodes ->
    s'.mapSeenMasternodeBroadcast = s.mapSeenMasternodeBroadcast -> P s -> P s'
  inPlace : forall {s : CMasternodeMan} {vMasternodes : List CMasternode},
    (vMasternodes.map fun mn => mn.vin) = (s.vMasternodes.map fun mn => mn.vin) -> P s ->
      P { s with vMasternodes := vMasternodes }
  sublist : forall {s : CMasternodeMan} {vMasternodes : List CMasternode},
    vMasternodes.Sublist s.vMasternodes -> P s -> P { s with vMasternodes := vMasternodes }
  append : forall {s : CMasternodeMan} {mn : CMasternode}, s.find mn.vin = none -> P s ->
    P { s with vMasternodes := s.vMasternodes ++ [mn] }
  seen : forall {s : CMasternodeMan} (mnb : CMasternodeBroadcast), P s ->
    P (s.seenBroadcast hashes mnb)
  stored : forall {s : CMasternodeMan} (hash : UInt256) (mnp : CMasternodePing), P s ->
    P { s with
      mapSeenMasternodeBroadcast :=
        StdMap.modify s.mapSeenMasternodeBroadcast hash fun mnb => { mnb with lastPing := mnp } }
  erased : forall {s : CMasternodeMan} (hash : UInt256), P s ->
    P { s with mapSeenMasternodeBroadcast := s.mapSeenMasternodeBroadcast.erase hash }

theorem CMasternode.vin_check (env : ManagerEnv) (i : Nat) (forceCheck : Bool) (mn : CMasternode) :
    (mn.check env i forceCheck).vin = mn.vin := by
  unfold CMasternode.check
  split_ifs <;> rfl

namespace Kept

variable {hashes : Hashes} {P : CMasternodeMan -> Prop} {s : CMasternodeMan} {env : ManagerEnv}
  (hP : Kept hashes P)

include hP

/-- A masternode which is changed in place keeps its input. -/
theorem modify (h : P s) (vin : CTxIn) {f : CMasternode -> CMasternode}
    (hf : forall mn, (f mn).vin = mn.vin) : P (s.modify vin f) :=
  hP.inPlace (map_modify_of_same _ f hf s.vMasternodes _) h

theorem modify_check (h : P s) (vin : CTxIn) (i : Nat) (forceCheck : Bool) :
    P (s.modify vin fun mn => mn.check env i forceCheck) :=
  hP.modify h vin (CMasternode.vin_check env i forceCheck)

theorem check (h : P s) : P (s.check env) := by
  refine hP.inPlace ?_ h
  apply List.ext_getElem
  · simp only [List.length_map, List.length_mapIdx]
  · intro i _ _
    simp only [List.getElem_map, List.getElem_mapIdx, CMasternode.vin_check]

theorem add (h : P s) (mn : CMasternode) : P (s.add mn).2 := by
  unfold CMasternodeMan.add
  split
  · exact h
  · cases hfind : s.find mn.vin with
    | some pmn => exact h
    | none => exact hP.append hfind h

theorem remove (h : P s) (vin : CTxIn) : P (s.remove vin) :=
  hP.sublist List.eraseP_sublist h

theorem addedMasternodeList (h : P s) (hash : UInt256) : P (s.addedMasternodeList hash) := by
  unfold CMasternodeMan.addedMasternodeList
  split
  · exact hP.congr (s := s) rfl rfl h
  · exact hP.congr (s := s) rfl rfl h

theorem forgetBroadcast (h : P s) (hash : UInt256) : P (s.forgetBroadcast hash) := by
  have herased := hP.erased hash h
  refine hP.congr ?_ ?_ herased <;> rfl

theorem seenPing (h : P s) (mnp : CMasternodePing) : P (s.seenPing hashes mnp) :=
  hP.congr (s := s) rfl rfl h

theorem checkPing (h : P s) (mnp : CMasternodePing) (fRequireEnabled : Bool) :
    P (mnp.checkAndUpdate hashes env s fRequireEnabled).man := by
  unfold CMasternodePing.checkAndUpdate
  split_ifs
  · exact h
  · exact h
  · cases s.find mnp.vin with
    | none => exact h
    | some pmn =>
        have hstored : P (CMasternodePing.store hashes s pmn mnp) :=
          hP.stored _ mnp (hP.modify h mnp.vin fun _ => rfl)
        dsimp only
        split_ifs
        · exact h
        · exact h
        · exact h
        · exact h
        · cases env.blockHeight mnp.blockHash with
          | none => exact h
          | some nHeight =>
              dsimp only
              split_ifs
              · exact h
              · exact hP.modify_check hstored mnp.vin _ true

theorem update (h : P s) (pmn : CMasternode) (mnb : CMasternodeBroadcast) :
    P (mnb.update hashes env s pmn).2 := by
  have hping : forall {s : CMasternodeMan}, P s ->
      P (s.modify mnb.vin fun mn => { mn with lastPing := mnb.lastPing }) :=
    fun h => hP.modify h mnb.vin fun _ => rfl
  have hkeys : P (s.modify mnb.vin fun mn =>
      { mn with
        pubKeyMasternode := mnb.pubKeyMasternode
        pubKeyCollateralAddress := mnb.pubKeyCollateralAddress
        sigTime := mnb.sigTime
        sig := mnb.sig
        protocolVersion := mnb.protocolVersion
        addr := mnb.addr }) := hP.modify h mnb.vin fun _ => rfl
  unfold CMasternodeBroadcast.update
  dsimp only
  split_ifs
  · exact hP.seenPing (hping hkeys) mnb.lastPing
  · exact hkeys
  · exact hP.seenPing (hping (hP.checkPing hkeys mnb.lastPing false)) mnb.lastPing
  · exact hP.checkPing hkeys mnb.lastPing false
  · exact h

theorem updateKnown (h : P s) (mnb : CMasternodeBroadcast) :
    P (mnb.updateKnown hashes env s).man := by
  unfold CMasternodeBroadcast.updateKnown
  cases s.find mnb.vin with
  | none => exact h
  | some pmn =>
      have hupdate : P (mnb.update hashes env s pmn).2 := hP.update h pmn mnb
      dsimp only
      split_ifs
      · exact h
      · exact h
      · exact hP.addedMasternodeList (hP.modify_check hupdate mnb.vin _ false) _
      · exact hP.addedMasternodeList hupdate _
      · exact h

theorem checkAndUpdate (h : P s) (mnb : CMasternodeBroadcast) :
    P (mnb.checkAndUpdate hashes env s).man := by
  have hknown : P (mnb.updateKnown hashes env s).man := hP.updateKnown h mnb
  unfold CMasternodeBroadcast.checkAndUpdate
  split_ifs <;> first | exact h | exact hknown

theorem addChecked (h : P s) (mnb : CMasternodeBroadcast) :
    P (mnb.addChecked hashes env s).man := by
  unfold CMasternodeBroadcast.addChecked
  split_ifs
  · exact hP.forgetBroadcast h _
  · exact h
  · exact hP.forgetBroadcast h _
  · exact h
  · exact hP.add h _

theorem checkInputsAndAdd (h : P s) (mnb : CMasternodeBroadcast) :
    P (mnb.checkInputsAndAdd hashes env s).man := by
  unfold CMasternodeBroadcast.checkInputsAndAdd
  split_ifs
  · exact h
  · cases s.find mnb.vin with
    | none => exact hP.addChecked h mnb
    | some pmn =>
        dsimp only
        split_ifs
        · exact h
        · exact hP.addChecked (hP.remove h pmn.vin) mnb

theorem updateMasternodeList (h : P s) (mnb : CMasternodeBroadcast) :
    P (s.updateMasternodeList hashes env mnb) := by
  have hseen : P ((s.seenPing hashes mnb.lastPing).seenBroadcast hashes mnb) :=
    hP.seen mnb (hP.seenPing h mnb.lastPing)
  unfold CMasternodeMan.updateMasternodeList
  dsimp only
  cases ((s.seenPing hashes mnb.lastPing).seenBroadcast hashes mnb).find mnb.vin with
  | none =>
      have hadd := hP.add hseen (CMasternode.ofBroadcast mnb)
      dsimp only
      split_ifs
      · exact hP.addedMasternodeList hadd _
      · exact hadd
  | some pmn =>
      dsimp only
      split_ifs
      · exact hP.addedMasternodeList (hP.update hseen pmn mnb) _
      · exact hP.update hseen pmn mnb

theorem processBroadcast (h : P s) (mnb : CMasternodeBroadcast) (fAssociated : Bool) :
    P (s.processBroadcast hashes env mnb fAssociated) := by
  have hchecked : P (mnb.checkAndUpdate hashes env (s.seenBroadcast hashes mnb)).man :=
    hP.checkAndUpdate (hP.seen mnb h) mnb
  unfold CMasternodeMan.processBroadcast
  dsimp only
  split_ifs
  · exact hP.addedMasternodeList h _
  · exact hchecked
  · exact hchecked
  · exact hP.addedMasternodeList (hP.checkInputsAndAdd hchecked mnb) _
  · exact hP.checkInputsAndAdd hchecked mnb

theorem forgetMasternode (h : P s) (mn : CMasternode) : P (s.forgetMasternode mn) := by
  have hall : forall (keys : List UInt256) (s : CMasternodeMan), P s ->
      P { s with
        mapSeenMasternodeBroadcast := StdMap.eraseAll s.mapSeenMasternodeBroadcast keys } := by
    intro keys
    induction keys with
    | nil => exact fun s h => h
    | cons k keys ih => exact fun s h => ih _ (hP.erased k h)
  have herased := hall
    (StdMap.keysWhere s.mapSeenMasternodeBroadcast fun _ mnb => mnb.vin == mn.vin) s h
  refine hP.congr ?_ ?_ herased <;> rfl

theorem removeMasternodes (h : P s) (forceExpiredRemoval : Bool) :
    P (s.removeMasternodes env forceExpiredRemoval) := by
  have hall : forall (mns : List CMasternode) (s : CMasternodeMan), P s ->
      P (mns.foldl CMasternodeMan.forgetMasternode s) ∧
        (mns.foldl CMasternodeMan.forgetMasternode s).vMasternodes = s.vMasternodes := by
    intro mns
    induction mns with
    | nil => exact fun s h => ⟨h, rfl⟩
    | cons mn mns ih => exact fun s h => ih _ (hP.forgetMasternode h mn)
  have hforgot := hall (s.vMasternodes.filter (shouldRemove env forceExpiredRemoval)) s h
  refine hP.sublist ?_ hforgot.1
  rw [hforgot.2]
  exact List.filter_sublist

theorem expireBroadcasts (l : List (Sigma fun _ : UInt256 => CMasternodeBroadcast)) (h : P s) :
    P (CMasternodeMan.expireBroadcasts hashes env l s).2 := by
  induction l generalizing s with
  | nil => exact h
  | cons e rest ih =>
      have herased := hP.erased e.1 h
      unfold CMasternodeMan.expireBroadcasts
      split
      · cases rest with
        | nil => refine hP.congr ?_ ?_ herased <;> rfl
        | cons next rest =>
            have hnext : P
                { s with
                  mapSeenMasternodeBroadcast := s.mapSeenMasternodeBroadcast.erase e.1
                  mapSeenSyncMNB := s.mapSeenSyncMNB.erase (next.2.getHash hashes) } := by
              refine hP.congr ?_ ?_ herased <;> rfl
            exact ih hnext
      · exact ih h

theorem checkAndRemove (h : P s) (forceExpiredRemoval : Bool) :
    P (s.checkAndRemove hashes env forceExpiredRemoval).2 := by
  have hchecked : P (s.check env) := hP.check h
  have hremoved : P ((s.check env).removeMasternodes env forceExpiredRemoval) :=
    hP.removeMasternodes hchecked forceExpiredRemoval
  have hrequests :
      P (((s.check env).removeMasternodes env forceExpiredRemoval).expireRequests env) := by
    refine hP.congr ?_ ?_ hremoved <;> rfl
  have hexpired := @expireBroadcasts hashes P _ env hP
    (StdMap.inOrder (((s.check env).removeMasternodes env
      forceExpiredRemoval).expireRequests env).mapSeenMasternodeBroadcast) hrequests
  refine hP.congr ?_ ?_ hexpired <;> rfl

theorem run (h : P s) (call : ManagerCall) : P (call.run hashes s) := by
  cases call with
  | add mn => exact hP.add h mn
  | remove vin => exact hP.remove h vin
  | updateMasternodeList env mnb => exact hP.updateMasternodeList h mnb
  | checkAndUpdate env mnb => exact hP.checkAndUpdate h mnb
  | checkInputsAndAdd env mnb => exact hP.checkInputsAndAdd h mnb
  | processBroadcast env mnb fAssociated => exact hP.processBroadcast h mnb fAssociated
  | checkPing env mnp fRequireEnabled => exact hP.checkPing h mnp fRequireEnabled
  | checkAndRemove env forceExpiredRemoval => exact hP.checkAndRemove h forceExpiredRemoval

/-- It holds all along a run. -/
theorem statesSatisfy (h : P s) (calls : List ManagerCall) :
    StatesSatisfy (fun s (call : ManagerCall) => call.run hashes s) P s calls :=
  statesSatisfy_of_invariant (fun _ call h => hP.run h call) calls s h

end Kept

/-!
# The outpoints of the list
-/

namespace CMasternodeMan

variable {s : CMasternodeMan}

/-- The collateral outpoints, in the order of the list. -/
def prevouts (s : CMasternodeMan) : List COutPoint := s.vMasternodes.map fun mn => mn.vin.prevout

/-- No two masternodes have the same collateral. -/
def Distinct (s : CMasternodeMan) : Prop := s.prevouts.Nodup

theorem notMem_prevouts_of_find {vin : CTxIn} (h : s.find vin = none) :
    vin.prevout ∉ s.prevouts := by
  intro hmem
  rcases List.mem_map.mp hmem with ⟨mn, hmn, heq⟩
  have hne := List.find?_eq_none.mp h mn hmn
  rw [heq, beq_self_eq_true] at hne
  exact hne rfl

/-- `Add` looks for the outpoint first, and nothing else puts one into the list. -/
theorem kept_distinct (hashes : Hashes) : Kept hashes Distinct where
  congr := by
    intro s s' hlist _ h
    unfold Distinct prevouts
    rw [hlist]
    exact h
  inPlace := by
    intro s vMasternodes hvin h
    have heq := congrArg (List.map CTxIn.prevout) hvin
    rw [List.map_map, List.map_map] at heq
    change (vMasternodes.map (CTxIn.prevout ∘ fun mn => mn.vin)).Nodup
    rw [heq]
    exact h
  sublist := fun hsub h => List.Nodup.sublist (hsub.map _) h
  append := by
    intro s mn hfind h
    change (List.map _ (s.vMasternodes ++ [mn])).Nodup
    rw [List.map_append, List.map_singleton, ← List.concat_eq_append]
    exact List.Nodup.concat (notMem_prevouts_of_find hfind) h
  seen := fun _ h => h
  stored := fun _ _ h => h
  erased := fun _ h => h

/-- Whatever calls are made, no two entries ever have the same collateral. -/
theorem masternodes_distinct (hashes : Hashes) (calls : List ManagerCall) :
    StatesSatisfy (fun s (call : ManagerCall) => call.run hashes s) Distinct
      CMasternodeMan.init calls :=
  (kept_distinct hashes).statesSatisfy (s := CMasternodeMan.init) List.nodup_nil calls

end CMasternodeMan

/-!
# A node for examples
-/

namespace ManagerExample

/-- Broadcasts hash to their times. -/
def hashes : Hashes where
  hashBroadcast := fun sigTime _ => BitVec.ofInt 256 sigTime
  hashPing := fun _ sigTime => BitVec.ofInt 256 sigTime

def env : ManagerEnv where
  fShutdownRequested := false
  getTime := 100000
  getAdjustedTime := 100000
  fCheckedLately := fun _ => false
  fLockMain := fun _ => true
  acceptableInputs := fun _ => true
  nMinPaymentsProto := 0
  verifyMessage := fun _ _ _ => true
  addrToString := fun _ => ""
  vinToString := fun _ => ""
  hashToString := fun _ => ""
  keyToString := fun _ => ""
  scriptSize := fun _ => 25
  fMainNet := true
  blockHeight := fun _ => none
  nChainHeight := 1000
  getInputAge := fun _ => 100
  confirmationTime := fun _ => none
  fMasterNode := false
  activeVin := CMasternodePing.init.vin
  activePubKey := []
  fLockInputs := true
  nInputsDoS := 0
  hashAtEnd := 0

def broadcast (sigTime pingTime : Int) : CMasternodeBroadcast where
  vin := CMasternodePing.init.vin
  addr := ⟨CNetAddr.init, 0⟩
  pubKeyCollateralAddress := []
  pubKeyMasternode := []
  sig := []
  sigTime := sigTime
  protocolVersion := 70000
  lastPing := { CMasternodePing.init with sigTime := pingTime }

end ManagerExample

end Manager
end Hbcur
