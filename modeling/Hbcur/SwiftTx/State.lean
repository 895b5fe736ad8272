import Hbcur.Foundation.StdMap
import Hbcur.Masternode.Rank
import Hbcur.Script.SigOps

/-!
# SwiftTX

The transaction locks of `swifttx.cpp`.  The maps of the source are the state; what a message
depends on besides (the clock, the chain, the memory pool, the masternode list, signatures) is
given with each message.
-/

namespace Hbcur

open Foundation Serialize

def SWIFTTX_SIGNATURES_REQUIRED : Int := 6
def SWIFTTX_SIGNATURES_TOTAL : Int := 10
def MIN_SWIFTTX_PROTO_VERSION : Int := 70103

namespace CScript

def OP_DUP : Nat := 0x76
def OP_EQUALVERIFY : Nat := 0x88

/-- What the loop of `IsNormalPaymentScript` accepts at a position. -/
def normalAt (i opcode : Nat) : Bool :=
  match i with
  | 0 => opcode == OP_DUP
  | 1 => opcode == OP_HASH160.toNat
  | 2 => true
  | 3 => opcode == OP_EQUALVERIFY
  | 4 => opcode == OP_CHECKSIG
  | _ => false

/-- The loop; where the reader fails, too much of the script is left for it to succeed. -/
def normalFrom : Nat -> Nat -> CScript -> Bool
  | _, _, [] => true
  | 0, _, _ => false
  | rounds + 1, i, pc =>
      match getOp pc with
      | none => false
      | some (opcode, _, pc') => normalAt i opcode && normalFrom rounds (i + 1) pc'

def isNormalPaymentScript (script : CScript) : Bool :=
  script.length == 25 && normalFrom script.length 0 script

end CScript

/-!
# Votes and locks
-/

structure CConsensusVote where
  vinMasternode : CTxIn
  txHash : UInt256
  nBlockHeight : Int
  vchMasterNodeSignature : List UInt8
  deriving DecidableEq, Repr

/-- The key under which a vote is remembered. -/
def CConsensusVote.getHash (vote : CConsensusVote) : UInt256 :=
  vote.vinMasternode.prevout.hash + BitVec.ofNat 256 vote.vinMasternode.prevout.n + vote.txHash

structure CTransactionLock where
  nBlockHeight : Int
  txHash : UInt256
  vecConsensusVotes : List CConsensusVote := []
  nExpiration : Int
  nTimeout : Int
  deriving DecidableEq, Repr

namespace CTransactionLock

def addSignature (lock : CTransactionLock) (vote : CConsensusVote) : CTransactionLock :=
  { lock with vecConsensusVotes := lock.vecConsensusVotes ++ [vote] }

/-- The votes for the height of the lock. -/
def countedVotes (lock : CTransactionLock) : List CConsensusVote :=
  lock.vecConsensusVotes.filter fun vote => vote.nBlockHeight == lock.nBlockHeight

def countSignatures (lock : CTransactionLock) : Int :=
  if lock.nBlockHeight = 0 then -1 else lock.countedVotes.length

def isComplete (lock : CTransactionLock) : Bool :=
  decide (lock.countSignatures ≥ SWIFTTX_SIGNATURES_REQUIRED)

end CTransactionLock

/-!
# The state and its surroundings
-/

structure SwiftTx where
  mapTxLockReq : StdMap UInt256 CTransaction := ∅
  mapTxLockReqRejected : StdMap UInt256 CTransaction := ∅
  mapTxLockVote : StdMap UInt256 CConsensusVote := ∅
  mapTxLocks : StdMap UInt256 CTransactionLock := ∅
  mapLockedInputs : StdMap COutPoint UInt256 := ∅
  mapUnknownVotes : StdMap UInt256 Int := ∅

/-- What a node knows at the time of a message. -/
structure SwiftEnv where
  fLiteMode : Bool
  /-- `SPORK_2_SWIFTTX` -/
  sporkActive : Bool
  /-- `SPORK_5_MAX_VALUE` -/
  nMaxValue : Int
  isBlockchainSynced : Bool
  time : Int
  tipHeight : Int
  getTransaction : UInt256 -> Option CTransaction
  getInputAge : CTxIn -> Int
  acceptToMemoryPool : CTransaction -> Bool
  mnodeman : CMasternodeMan
  fMasterNode : Bool
  activeMasternode : CTxIn
  /-- The signature under the text of a hash and a height, by the key of the node. -/
  signMessage : UInt256 -> Int -> Option (List UInt8)
  verifyMessage : List UInt8 -> List UInt8 -> UInt256 -> Int -> Bool

namespace SwiftEnv

/-- A synced node whose chain has a hundred blocks and none of the transactions asked for. -/
def synced (mnodeman : CMasternodeMan) (time : Int) (accepts : Bool) : SwiftEnv where
  fLiteMode := false
  sporkActive := true
  nMaxValue := 1000
  isBlockchainSynced := true
  time := time
  tipHeight := 100
  getTransaction := fun _ => none
  getInputAge := fun _ => 10
  acceptToMemoryPool := fun _ => accepts
  mnodeman := mnodeman
  fMasterNode := false
  activeMasternode := { prevout := { hash := 0, n := 0 }, scriptSig := [], nSequence := 0 }
  signMessage := fun _ _ => none
  verifyMessage := fun _ signature _ _ => !signature.isEmpty

/-- Whether messages are looked at. -/
def processes (env : SwiftEnv) : Bool :=
  !env.fLiteMode && env.sporkActive && env.isBlockchainSynced

def signatureValid (env : SwiftEnv) (vote : CConsensusVote) : Bool :=
  match env.mnodeman.find vote.vinMasternode with
  | none => false
  | some mn =>
      env.verifyMessage mn.pubKeyMasternode vote.vchMasterNodeSignature vote.txHash
        vote.nBlockHeight

def rank (env : SwiftEnv) (vin : CTxIn) (nBlockHeight : Int) : Int :=
  env.mnodeman.getMasternodeRank vin nBlockHeight MIN_SWIFTTX_PROTO_VERSION

/-- Whether a masternode is ranked among those which vote on a lock. -/
def votes (env : SwiftEnv) (vin : CTxIn) (nBlockHeight : Int) : Bool :=
  !(env.rank vin nBlockHeight == -1) &&
    !decide (env.rank vin nBlockHeight > SWIFTTX_SIGNATURES_TOTAL)

/-- The tests of `ProcessConsensusVote` before it records a vote. -/
def voteValid (env : SwiftEnv) (vote : CConsensusVote) : Bool :=
  env.votes vote.vinMasternode vote.nBlockHeight && env.signatureValid vote

/-!
# Requests
-/

/-- The value which an input of a transaction brings in, if the transaction before is known. -/
def inputValue (env : SwiftEnv) (txin : CTxIn) : Option Int :=
  (env.getTransaction txin.prevout.hash).map fun tx2 =>
    match tx2.vout[txin.prevout.n]? with
    | some out => out.nValue
    | none => 0

def isIXTXValid (env : SwiftEnv) (txCollateral : CTransaction) : Bool :=
  let nValueOut := (txCollateral.vout.map CTxOut.nValue).sum
  let found := txCollateral.vin.map (inputValue env)
  if txCollateral.vout.isEmpty || decide (txCollateral.nLockTime ≠ 0) then false
  else if nValueOut > env.nMaxValue * COIN then false
  else if found.any Option.isNone then true
  else !decide ((found.map fun value => value.getD 0).sum - nValueOut < COIN / 100)

/-- The inputs' age from which the height of a lock is computed; nothing if one is too young. -/
def lockAge (env : SwiftEnv) (tx : CTransaction) : Option Int :=
  if tx.vin.any fun txin => decide (env.getInputAge txin < 5) then none
  else some ((tx.vin.head?.map env.getInputAge).getD 0)

def newLock (env : SwiftEnv) (nBlockHeight : Int) (txHash : UInt256) : CTransactionLock :=
  { nBlockHeight := nBlockHeight
    txHash := txHash
    nExpiration := wrapInt32 (env.time + 60 * 60)
    nTimeout := wrapInt32 (env.time + 60 * 5) }

end SwiftEnv

namespace SwiftTx

/-- The height of the lock, zero if there is none for the inputs. -/
def createNewLock (env : SwiftEnv) (s : SwiftTx) (tx : CTransaction) : Int × SwiftTx :=
  match env.lockAge tx with
  | none => (0, s)
  | some nTxAge =>
      let nBlockHeight := env.tipHeight - nTxAge + 4
      (nBlockHeight,
        { s with
          mapTxLocks :=
            match s.mapTxLocks.lookup tx.hash with
            | none => s.mapTxLocks.insert tx.hash (env.newLock nBlockHeight tx.hash)
            | some lock =>
                s.mapTxLocks.insert tx.hash { lock with nBlockHeight := nBlockHeight } })

/-- The vote which the node itself casts, if it is to vote. -/
def ownVote (env : SwiftEnv) (tx : CTransaction) (nBlockHeight : Int) :
    Option CConsensusVote :=
  if env.fMasterNode && env.votes env.activeMasternode nBlockHeight then
    match env.signMessage tx.hash nBlockHeight with
    | none => none
    | some signature =>
        let vote : CConsensusVote :=
          { vinMasternode := env.activeMasternode
            txHash := tx.hash
            nBlockHeight := nBlockHeight
            vchMasterNodeSignature := signature }
        if env.signatureValid vote then some vote else none
  else none

def doConsensusVote (env : SwiftEnv) (s : SwiftTx) (tx : CTransaction) (nBlockHeight : Int) :
    SwiftTx :=
  match ownVote env tx nBlockHeight with
  | none => s
  | some vote => { s with mapTxLockVote := s.mapTxLockVote.insert vote.getHash vote }

/-- The transaction for which an input of another one is locked already. -/
def conflictingLock (s : SwiftTx) (tx : CTransaction) : Option UInt256 :=
  tx.vin.findSome? fun txin =>
    match s.mapLockedInputs.lookup txin.prevout with
    | none => none
    | some txid => if txid = tx.hash then none else some txid

/-- Locks which conflict expire at once. -/
def checkForConflictingLocks (env : SwiftEnv) (s : SwiftTx) (tx : CTransaction) :
    Bool × SwiftTx :=
  match s.conflictingLock tx with
  | none => (false, s)
  | some txid =>
      let expire := fun lock : CTransactionLock =>
        { lock with nExpiration := wrapInt32 env.time }
      (true,
        { s with
          mapTxLocks :=
            StdMap.modify (StdMap.modify s.mapTxLocks tx.hash expire) txid expire })

def lockInputs (s : SwiftTx) (tx : CTransaction) (txid : UInt256) : SwiftTx :=
  { s with mapLockedInputs := StdMap.insertAllNew s.mapLockedInputs tx.prevouts txid }

/-- Whether an `ix` message comes to the creation of a lock. -/
def isRequest (env : SwiftEnv) (s : SwiftTx) (tx : CTransaction) : Bool :=
  env.processes &&
    !(StdMap.contains s.mapTxLockReq tx.hash ||
      StdMap.contains s.mapTxLockReqRejected tx.hash) &&
    env.isIXTXValid tx &&
    tx.vout.all fun out =>
      CScript.isNormalPaymentScript out.scriptPubKey ||
        CScript.isUnspendable out.scriptPubKey

/-- A request which the memory pool takes. -/
def acceptRequest (env : SwiftEnv) (s : SwiftTx) (tx : CTransaction) : SwiftTx :=
  let created := s.createNewLock env tx
  let s' := doConsensusVote env created.2 tx created.1
  { s' with mapTxLockReq := StdMap.insertNew s'.mapTxLockReq tx.hash tx }

/-- A completed lock of a rejected request, unless it conflicts with another one. -/
def resolveRejected (env : SwiftEnv) (s : SwiftTx) (tx : CTransaction) : SwiftTx :=
  match s.mapTxLocks.lookup tx.hash with
  | none => s
  | some lock =>
      if lock.isComplete then
        match s.checkForConflictingLocks env tx with
        | (true, s') => s'
        | (false, s') =>
            { s' with mapTxLockReq := StdMap.insertNew s'.mapTxLockReq tx.hash tx }
      else s

def rejectRequest (env : SwiftEnv) (s : SwiftTx) (tx : CTransaction) : SwiftTx :=
  let s' := (s.createNewLock env tx).2
  let s'' :=
    { s' with
      mapTxLockReqRejected := StdMap.insertNew s'.mapTxLockReqRejected tx.hash tx }
  resolveRejected env (s''.lockInputs tx tx.hash) tx

def processIx (env : SwiftEnv) (s : SwiftTx) (tx : CTransaction) : SwiftTx :=
  if s.isRequest env tx then
    if env.acceptToMemoryPool tx then s.acceptRequest env tx else s.rejectRequest env tx
  else s

/-- A masternode by the number of its collateral. -/
def masternodeAt (n : Nat) : CMasternode :=
  { vin := { prevout := { hash := 5, n := n }, scriptSig := [], nSequence := 0 }
    protocolVersion := MIN_SWIFTTX_PROTO_VERSION
    sigTime := 0
    isEnabled := true
    pubKeyCollateralAddress := []
    pubKeyMasternode := [] }

/-- The vote of a masternode, with a signature or without one. -/
def voteOf (n : Nat) (txHash : UInt256) (nBlockHeight : Int) (signed : Bool) :
    CConsensusVote :=
  { vinMasternode := (masternodeAt n).vin
    txHash := txHash
    nBlockHeight := nBlockHeight
    vchMasterNodeSignature := if signed then [1] else [] }

/-- A node that knows some masternodes, at some time. -/
def nodeWith (masternodes : Nat) (time : Int) (accepts : Bool) : SwiftEnv :=
  SwiftEnv.synced
    (CMasternodeMan.ofMasternodes ((List.range masternodes).map masternodeAt) 100) time accepts

/-- A request for a small transaction. -/
def smallRequest : CTransaction :=
  { hash := 7
    nVersion := 1
    vin := [{ prevout := { hash := 3, n := 0 }, scriptSig := [], nSequence := 0 }]
    vout := [{ nValue := 0, scriptPubKey := [CScript.OP_RETURN], nRounds := -10 }]
    nLockTime := 0 }

/-!
# Votes
-/

/-- The lock of a vote, with the vote added to it. -/
def recordVote (env : SwiftEnv) (s : SwiftTx) (vote : CConsensusVote) :
    CTransactionLock × SwiftTx :=
  let lock := ((s.mapTxLocks.lookup vote.txHash).getD (env.newLock 0 vote.txHash)).addSignature
    vote
  (lock, { s with mapTxLocks := s.mapTxLocks.insert vote.txHash lock })

/-- The default constructor of a transaction. -/
def emptyTransaction : CTransaction :=
  { hash := 0, nVersion := 1, vin := [], vout := [], nLockTime := 0 }

/-- `mapTxLockReq[txid]`, which puts an empty transaction where there is none. -/
def lockReqAt (s : SwiftTx) (txid : UInt256) : CTransaction × SwiftTx :=
  match s.mapTxLockReq.lookup txid with
  | some tx => (tx, s)
  | none =>
      (emptyTransaction, { s with mapTxLockReq := s.mapTxLockReq.insert txid emptyTransaction })

/-- What follows on a vote that finds the lock complete. -/
def completeLock (env : SwiftEnv) (s : SwiftTx) (txid : UInt256) : SwiftTx :=
  let found := s.lockReqAt txid
  match found.2.checkForConflictingLocks env found.1 with
  | (true, s') => s'
  | (false, s') =>
      if StdMap.contains s'.mapTxLockReq txid then s'.lockInputs found.1 txid else s'

def processConsensusVote (env : SwiftEnv) (s : SwiftTx) (vote : CConsensusVote) :
    Bool × SwiftTx :=
  if env.voteValid vote then
    let recorded := s.recordVote env vote
    (true,
      if recorded.1.isComplete then recorded.2.completeLock env vote.txHash else recorded.2)
  else (false, s)

def getAverageVoteTime (s : SwiftTx) : Int :=
  ((s.mapUnknownVotes.entries.map Sigma.snd).sum).tdiv s.mapUnknownVotes.entries.length

/-- The limit on votes for unknown transactions. -/
def limitUnknown (env : SwiftEnv) (s : SwiftTx) (vote : CConsensusVote) : SwiftTx :=
  if StdMap.contains s.mapTxLockReq vote.txHash ||
      StdMap.contains s.mapTxLockReqRejected vote.txHash then s
  else
    let hash := vote.vinMasternode.prevout.hash
    let s' :=
      { s with
        mapUnknownVotes := StdMap.insertNew s.mapUnknownVotes hash (env.time + 60 * 10) }
    let last := (s'.mapUnknownVotes.lookup hash).getD 0
    if last > env.time ∧ last - s'.getAverageVoteTime > 60 * 10 then s'
    else { s' with mapUnknownVotes := s'.mapUnknownVotes.insert hash (env.time + 60 * 10) }

def processTxlvote (env : SwiftEnv) (s : SwiftTx) (vote : CConsensusVote) : SwiftTx :=
  if env.processes && !StdMap.contains s.mapTxLockVote vote.getHash then
    let seen := { s with mapTxLockVote := s.mapTxLockVote.insert vote.getHash vote }
    match seen.processConsensusVote env vote with
    | (true, s') => s'.limitUnknown env vote
    | (false, s') => s'
  else s

/-!
# Expiry
-/

/-- The request of an expired lock goes with everything that it has brought in. -/
def forgetRequest (s : SwiftTx) (lock : CTransactionLock) : SwiftTx :=
  match s.mapTxLockReq.lookup lock.txHash with
  | none => s
  | some tx =>
      { s with
        mapLockedInputs := StdMap.eraseAll s.mapLockedInputs tx.prevouts
        mapTxLockReq := s.mapTxLockReq.erase lock.txHash
        mapTxLockReqRejected := s.mapTxLockReqRejected.erase lock.txHash
        mapTxLockVote := StdMap.eraseAll s.mapTxLockVote
          (lock.vecConsensusVotes.map CConsensusVote.getHash) }

/-- One round of the loop over the locks. -/
def cleanLock (env : SwiftEnv) (s : SwiftTx) (txid : UInt256) (lock : CTransactionLock) :
    SwiftTx :=
  if env.time > lock.nExpiration then
    let s' := s.forgetRequest lock
    { s' with mapTxLocks := s'.mapTxLocks.erase txid }
  else s

def cleanTransactionLocksList (env : SwiftEnv) (s : SwiftTx) : SwiftTx :=
  s.mapTxLocks.entries.foldl (fun s entry => s.cleanLock env entry.1 entry.2) s

end SwiftTx

/-!
# Steps
-/

/-- The messages, and blocks, which leave the locks alone. -/
inductive SwiftMessage where
  | ix (tx : CTransaction)
  | txlvote (vote : CConsensusVote)
  | block

inductive SwiftEvent where
  | message (m : SwiftMessage)
  | clean

namespace SwiftTx

def receive (env : SwiftEnv) (s : SwiftTx) : SwiftMessage -> SwiftTx
  | SwiftMessage.ix tx => s.processIx env tx
  | SwiftMessage.txlvote vote => s.processTxlvote env vote
  | SwiftMessage.block => s

def step (env : SwiftEnv) (s : SwiftTx) : SwiftEvent -> SwiftTx
  | SwiftEvent.message m => s.receive env m
  | SwiftEvent.clean => s.cleanTransactionLocksList env

end SwiftTx

end Hbcur
