import Hbcur.Foundation.Run
import Hbcur.SwiftTx.State

/-!
# What a message does to the locks

For each map of the state, what an `ix` or a `txlvote` message leaves in it.  The times of a
lock are set aside where only its votes matter.
-/

namespace Hbcur

open Foundation

/-!
# Locks without their times
-/

namespace CTransactionLock

/-- What a lock says besides when it ends. -/
def untimed (lock : CTransactionLock) : CTransactionLock :=
  { lock with nExpiration := 0, nTimeout := 0 }

@[simp] theorem untimed_vecConsensusVotes (lock : CTransactionLock) :
    lock.untimed.vecConsensusVotes = lock.vecConsensusVotes := rfl

@[simp] theorem untimed_nBlockHeight (lock : CTransactionLock) :
    lock.untimed.nBlockHeight = lock.nBlockHeight := rfl

@[simp] theorem untimed_txHash (lock : CTransactionLock) :
    lock.untimed.txHash = lock.txHash := rfl

@[simp] theorem untimed_countedVotes (lock : CTransactionLock) :
    lock.untimed.countedVotes = lock.countedVotes := rfl

@[simp] theorem untimed_countSignatures (lock : CTransactionLock) :
    lock.untimed.countSignatures = lock.countSignatures := rfl

@[simp] theorem untimed_isComplete (lock : CTransactionLock) :
    lock.untimed.isComplete = lock.isComplete := rfl

end CTransactionLock

namespace SwiftTx

/-- The lock of a transaction without its times. -/
def lockAt (s : SwiftTx) (txid : UInt256) : Option CTransactionLock :=
  (s.mapTxLocks.lookup txid).map CTransactionLock.untimed

theorem lockAt_eq_some {s : SwiftTx} {txid : UInt256} {lock : CTransactionLock}
    (h : s.lockAt txid = some lock) :
    exists full, s.mapTxLocks.lookup txid = some full ∧ full.untimed = lock := by
  unfold lockAt at h
  exact Option.map_eq_some_iff.mp h

theorem lockAt_of_lookup {s : SwiftTx} {txid : UInt256} {lock : CTransactionLock}
    (h : s.mapTxLocks.lookup txid = some lock) : s.lockAt txid = some lock.untimed := by
  unfold lockAt
  rw [h]
  rfl

/-!
# Conflicting locks
-/

section Conflict

variable (env : SwiftEnv) (s : SwiftTx) (tx : CTransaction)

theorem lockAt_modify_expiration {locks : StdMap UInt256 CTransactionLock}
    (txid other : UInt256) (n : Int) :
    ((StdMap.modify locks other fun lock => { lock with nExpiration := n }).lookup
        txid).map CTransactionLock.untimed =
      (locks.lookup txid).map CTransactionLock.untimed := by
  rw [StdMap.lookup_modify]
  split_ifs with h
  · cases locks.lookup txid <;> rfl
  · rfl

/-- Only times change, and those only if there is a conflict. -/
theorem checkForConflictingLocks_spec :
    exists locks, s.checkForConflictingLocks env tx =
        ((s.conflictingLock tx).isSome, { s with mapTxLocks := locks }) ∧
      forall txid, (locks.lookup txid).map CTransactionLock.untimed = s.lockAt txid := by
  unfold checkForConflictingLocks
  cases s.conflictingLock tx with
  | none => exact ⟨s.mapTxLocks, rfl, fun _ => rfl⟩
  | some other =>
      refine ⟨_, rfl, ?_⟩
      intro txid
      rw [lockAt_modify_expiration, lockAt_modify_expiration]
      rfl

end Conflict

/-!
# Requests
-/

section Request

variable (env : SwiftEnv) (s : SwiftTx) (tx : CTransaction)

/-- The height which `CreateNewLock` returns. -/
def lockHeight : Int :=
  match env.lockAge tx with
  | none => 0
  | some nTxAge => env.tipHeight - nTxAge + 4

/-- The lock which `CreateNewLock` leaves for a transaction. -/
theorem createNewLock_spec :
    exists locks, s.createNewLock env tx = (lockHeight env tx, { s with mapTxLocks := locks }) ∧
      forall txid, (locks.lookup txid).map CTransactionLock.untimed =
        if txid = tx.hash ∧ env.lockAge tx ≠ none then
          some
            { ((s.lockAt tx.hash).getD (env.newLock 0 tx.hash).untimed) with
              nBlockHeight := lockHeight env tx }
        else s.lockAt txid := by
  unfold createNewLock lockHeight
  cases env.lockAge tx with
  | none =>
      refine ⟨s.mapTxLocks, rfl, ?_⟩
      intro txid
      rw [if_neg (fun h => h.2 rfl)]
      rfl
  | some nTxAge =>
      refine ⟨_, rfl, ?_⟩
      intro txid
      simp only [ne_eq, reduceCtorEq, not_false_eq_true, and_true]
      unfold lockAt
      cases hlock : s.mapTxLocks.lookup tx.hash with
      | none =>
          simp only
          rw [StdMap.lookup_insert_eq]
          split_ifs with h
          · rfl
          · rfl
      | some lock =>
          simp only
          rw [StdMap.lookup_insert_eq]
          split_ifs with h
          · rfl
          · rfl

/-- An accepted request is known afterwards, and the node may have voted. -/
theorem acceptRequest_spec :
    s.acceptRequest env tx =
      { s with
        mapTxLocks := (s.createNewLock env tx).2.mapTxLocks
        mapTxLockVote :=
          match ownVote env tx (lockHeight env tx) with
          | none => s.mapTxLockVote
          | some vote => s.mapTxLockVote.insert vote.getHash vote
        mapTxLockReq := StdMap.insertNew s.mapTxLockReq tx.hash tx } := by
  rcases createNewLock_spec env s tx with ⟨locks, heq, _⟩
  unfold acceptRequest doConsensusVote
  rw [heq]
  simp only
  cases ownVote env tx (lockHeight env tx) <;> rfl

/-- Whether a rejected request is recorded as known after all. -/
def resolves : Bool :=
  match (s.createNewLock env tx).2.mapTxLocks.lookup tx.hash with
  | none => false
  | some lock =>
      lock.isComplete && ((s.lockInputs tx tx.hash).conflictingLock tx).isNone

theorem rejectRequest_spec :
    exists locks, s.rejectRequest env tx =
        { s with
          mapTxLocks := locks
          mapTxLockReqRejected := StdMap.insertNew s.mapTxLockReqRejected tx.hash tx
          mapLockedInputs := StdMap.insertAllNew s.mapLockedInputs tx.prevouts tx.hash
          mapTxLockReq :=
            if s.resolves env tx then StdMap.insertNew s.mapTxLockReq tx.hash tx
            else s.mapTxLockReq } ∧
      forall txid, (locks.lookup txid).map CTransactionLock.untimed =
        (s.createNewLock env tx).2.lockAt txid := by
  rcases createNewLock_spec env s tx with ⟨locks, heq, _⟩
  unfold rejectRequest resolveRejected resolves
  rw [heq]
  simp only [lockInputs]
  cases hlock : locks.lookup tx.hash with
  | none => exact ⟨locks, rfl, fun _ => rfl⟩
  | some lock =>
      by_cases hcomplete : lock.isComplete = true
      · simp only [hcomplete, if_true, Bool.true_and]
        rcases checkForConflictingLocks_spec env
          { s with
            mapTxLocks := locks
            mapTxLockReqRejected := StdMap.insertNew s.mapTxLockReqRejected tx.hash tx
            mapLockedInputs := StdMap.insertAllNew s.mapLockedInputs tx.prevouts tx.hash }
          tx with ⟨locks', hconflict, hlocks⟩
        rw [hconflict]
        refine ⟨locks', ?_, hlocks⟩
        have hsame : conflictingLock
            { s with
              mapTxLocks := locks
              mapTxLockReqRejected := StdMap.insertNew s.mapTxLockReqRejected tx.hash tx
              mapLockedInputs := StdMap.insertAllNew s.mapLockedInputs tx.prevouts tx.hash }
            tx =
          conflictingLock
            { s with
              mapLockedInputs := StdMap.insertAllNew s.mapLockedInputs tx.prevouts tx.hash }
            tx := rfl
        rw [hsame]
        cases conflictingLock
          { s with
            mapLockedInputs := StdMap.insertAllNew s.mapLockedInputs tx.prevouts tx.hash }
          tx with
        | none => rfl
        | some other => rfl
      · simp only [Bool.not_eq_true] at hcomplete
        simp only [hcomplete, Bool.false_eq_true, if_false, Bool.false_and]
        exact ⟨locks, rfl, fun _ => rfl⟩

theorem processIx_of_not_request (h : s.isRequest env tx = false) : s.processIx env tx = s := by
  unfold processIx
  rw [if_neg (by rw [h]; exact Bool.false_ne_true)]

theorem processIx_of_accepted (h : s.isRequest env tx = true)
    (haccept : env.acceptToMemoryPool tx = true) :
    s.processIx env tx = s.acceptRequest env tx := by
  unfold processIx
  rw [if_pos h, if_pos haccept]

theorem processIx_of_rejected (h : s.isRequest env tx = true)
    (haccept : env.acceptToMemoryPool tx = false) :
    s.processIx env tx = s.rejectRequest env tx := by
  unfold processIx
  rw [if_pos h, if_neg (by rw [haccept]; exact Bool.false_ne_true)]

theorem unknown_of_isRequest (h : s.isRequest env tx = true) :
    s.mapTxLockReq.lookup tx.hash = none ∧ s.mapTxLockReqRejected.lookup tx.hash = none := by
  unfold isRequest at h
  simp only [Bool.and_eq_true, Bool.not_eq_true', Bool.or_eq_false_iff] at h
  rcases h with ⟨⟨⟨_, hreq, hrejected⟩, _⟩, _⟩
  exact ⟨(StdMap.contains_eq_false_iff _ _).mp hreq,
    (StdMap.contains_eq_false_iff _ _).mp hrejected⟩

end Request

/-!
# Votes
-/

section Vote

variable (env : SwiftEnv) (s : SwiftTx) (vote : CConsensusVote)

/-- The lock of a vote after the vote has been added. -/
def lockWith : CTransactionLock :=
  (s.recordVote env vote).1

theorem lockWith_untimed :
    (s.lockWith env vote).untimed =
      ((s.lockAt vote.txHash).getD (env.newLock 0 vote.txHash).untimed).addSignature vote := by
  unfold lockWith recordVote lockAt
  cases s.mapTxLocks.lookup vote.txHash <;> rfl

/-- The inputs which a vote locks. -/
def votedInputs : List COutPoint :=
  match s.mapTxLockReq.lookup vote.txHash with
  | none => []
  | some tx =>
      if (s.lockWith env vote).isComplete && (s.conflictingLock tx).isNone then tx.prevouts
      else []

theorem limitUnknown_spec :
    exists unknown, s.limitUnknown env vote = { s with mapUnknownVotes := unknown } := by
  unfold limitUnknown
  split
  · exact ⟨s.mapUnknownVotes, rfl⟩
  · simp only
    split
    · exact ⟨_, rfl⟩
    · exact ⟨_, rfl⟩

/-- A complete lock puts an entry under the vote's hash where there is none. -/
def reqWith : StdMap UInt256 CTransaction :=
  if (s.lockWith env vote).isComplete then
    StdMap.insertNew s.mapTxLockReq vote.txHash emptyTransaction
  else s.mapTxLockReq

theorem conflictingLock_emptyTransaction : s.conflictingLock emptyTransaction = none := rfl

/-- What a counted vote does. -/
theorem processConsensusVote_spec (hvalid : env.voteValid vote = true) :
    exists locks, s.processConsensusVote env vote =
        (true, { s with
          mapTxLocks := locks
          mapTxLockReq := s.reqWith env vote
          mapLockedInputs :=
            StdMap.insertAllNew s.mapLockedInputs (s.votedInputs env vote) vote.txHash }) ∧
      forall txid, (locks.lookup txid).map CTransactionLock.untimed =
        if txid = vote.txHash then some (s.lockWith env vote).untimed else s.lockAt txid := by
  have hrecorded : forall txid, ((s.mapTxLocks.insert vote.txHash
      (s.lockWith env vote)).lookup txid).map CTransactionLock.untimed =
        if txid = vote.txHash then some (s.lockWith env vote).untimed else s.lockAt txid := by
    intro txid
    rw [StdMap.lookup_insert_eq]
    split_ifs with h
    · rfl
    · rfl
  unfold processConsensusVote
  rw [if_pos hvalid]
  unfold reqWith votedInputs
  change exists locks, (true, if (s.lockWith env vote).isComplete then completeLock env
      { s with mapTxLocks := s.mapTxLocks.insert vote.txHash (s.lockWith env vote) } vote.txHash
    else { s with mapTxLocks := s.mapTxLocks.insert vote.txHash (s.lockWith env vote) }) =
      _ ∧ _
  cases hcomplete : (s.lockWith env vote).isComplete with
  | false =>
      refine ⟨_, ?_, hrecorded⟩
      cases s.mapTxLockReq.lookup vote.txHash <;> rfl
  | true =>
      simp only [if_true, Bool.true_and]
      unfold completeLock lockReqAt
      cases hreq : s.mapTxLockReq.lookup vote.txHash with
      | none =>
          have hnew := (StdMap.contains_eq_false_iff _ _).mpr hreq
          simp only
          rcases checkForConflictingLocks_spec env
            { s with
              mapTxLocks := s.mapTxLocks.insert vote.txHash (s.lockWith env vote)
              mapTxLockReq := s.mapTxLockReq.insert vote.txHash emptyTransaction }
            emptyTransaction with ⟨locks, heq, hlocks⟩
          rw [heq, conflictingLock_emptyTransaction]
          refine ⟨locks, ?_, fun txid => (hlocks txid).trans (hrecorded txid)⟩
          simp only [Option.isSome_none, StdMap.contains_insert, decide_true, Bool.true_or,
            if_true]
          unfold StdMap.insertNew
          rw [hnew]
          rfl
      | some tx =>
          have hold : StdMap.contains s.mapTxLockReq vote.txHash = true :=
            (StdMap.contains_iff _ _).mpr ⟨tx, hreq⟩
          simp only
          rcases checkForConflictingLocks_spec env
            { s with mapTxLocks := s.mapTxLocks.insert vote.txHash (s.lockWith env vote) }
            tx with ⟨locks, heq, hlocks⟩
          rw [heq]
          refine ⟨locks, ?_, fun txid => (hlocks txid).trans (hrecorded txid)⟩
          have hsame : conflictingLock
              { s with mapTxLocks := s.mapTxLocks.insert vote.txHash (s.lockWith env vote) }
              tx = s.conflictingLock tx := rfl
          rw [hsame]
          unfold StdMap.insertNew
          cases s.conflictingLock tx with
          | none =>
              simp only [Option.isSome_none, Option.isNone_none, if_true, hold]
              rfl
          | some other =>
              simp only [Option.isSome_some, Option.isNone_some, hold, if_true]
              rfl

/-- Whether a vote message is looked at. -/
def isNewVote : Bool :=
  env.processes && !StdMap.contains s.mapTxLockVote vote.getHash

/-- The state in which a new vote is remembered. -/
def seenWith : SwiftTx :=
  { s with mapTxLockVote := s.mapTxLockVote.insert vote.getHash vote }

theorem processTxlvote_of_old (h : s.isNewVote env vote = false) :
    s.processTxlvote env vote = s := by
  unfold isNewVote at h
  unfold processTxlvote
  rw [if_neg (by rw [h]; exact Bool.false_ne_true)]

theorem processTxlvote_of_invalid (h : s.isNewVote env vote = true)
    (hvalid : env.voteValid vote = false) :
    s.processTxlvote env vote = s.seenWith vote := by
  unfold isNewVote at h
  unfold processTxlvote processConsensusVote
  rw [if_pos h]
  simp only
  rw [if_neg (by rw [hvalid]; exact Bool.false_ne_true)]
  rfl

/-- A new valid vote: every map but the rejected requests may change. -/
theorem processTxlvote_of_valid (h : s.isNewVote env vote = true)
    (hvalid : env.voteValid vote = true) :
    exists locks unknown, s.processTxlvote env vote =
        { s with
          mapTxLockVote := s.mapTxLockVote.insert vote.getHash vote
          mapTxLocks := locks
          mapTxLockReq := s.reqWith env vote
          mapLockedInputs :=
            StdMap.insertAllNew s.mapLockedInputs (s.votedInputs env vote) vote.txHash
          mapUnknownVotes := unknown } ∧
      forall txid, (locks.lookup txid).map CTransactionLock.untimed =
        if txid = vote.txHash then some (s.lockWith env vote).untimed else s.lockAt txid := by
  unfold isNewVote at h
  unfold processTxlvote
  rw [if_pos h]
  simp only
  rcases processConsensusVote_spec env (s.seenWith vote) vote hvalid with ⟨locks, heq, hlocks⟩
  unfold seenWith at heq
  rw [heq]
  simp only
  rcases limitUnknown_spec env
    { s with
      mapTxLockVote := s.mapTxLockVote.insert vote.getHash vote
      mapTxLocks := locks
      mapTxLockReq := (s.seenWith vote).reqWith env vote
      mapLockedInputs :=
        StdMap.insertAllNew s.mapLockedInputs ((s.seenWith vote).votedInputs env vote)
          vote.txHash } vote with ⟨unknown, hlimit⟩
  exact ⟨locks, unknown, hlimit, hlocks⟩

end Vote

/-!
# Map by map
-/

section Maps

variable (env : SwiftEnv) (s : SwiftTx)

theorem mapLockedInputs_processIx (tx : CTransaction) :
    (s.processIx env tx).mapLockedInputs =
      if s.isRequest env tx = true ∧ env.acceptToMemoryPool tx = false then
        StdMap.insertAllNew s.mapLockedInputs tx.prevouts tx.hash
      else s.mapLockedInputs := by
  cases hreq : s.isRequest env tx with
  | false =>
      rw [processIx_of_not_request env s tx hreq]
      simp
  | true =>
      cases haccept : env.acceptToMemoryPool tx with
      | true =>
          rw [processIx_of_accepted env s tx hreq haccept, acceptRequest_spec]
          simp
      | false =>
          rcases rejectRequest_spec env s tx with ⟨locks, heq, _⟩
          rw [processIx_of_rejected env s tx hreq haccept, heq]
          simp

theorem mapTxLockReq_processIx (tx : CTransaction) :
    (s.processIx env tx).mapTxLockReq =
      if s.isRequest env tx = true ∧
          (env.acceptToMemoryPool tx = true ∨ s.resolves env tx = true) then
        StdMap.insertNew s.mapTxLockReq tx.hash tx
      else s.mapTxLockReq := by
  cases hreq : s.isRequest env tx with
  | false =>
      rw [processIx_of_not_request env s tx hreq]
      simp
  | true =>
      cases haccept : env.acceptToMemoryPool tx with
      | true =>
          rw [processIx_of_accepted env s tx hreq haccept, acceptRequest_spec]
          simp
      | false =>
          rcases rejectRequest_spec env s tx with ⟨locks, heq, _⟩
          rw [processIx_of_rejected env s tx hreq haccept, heq]
          simp

theorem mapTxLockReqRejected_processIx (tx : CTransaction) :
    (s.processIx env tx).mapTxLockReqRejected =
      if s.isRequest env tx = true ∧ env.acceptToMemoryPool tx = false then
        StdMap.insertNew s.mapTxLockReqRejected tx.hash tx
      else s.mapTxLockReqRejected := by
  cases hreq : s.isRequest env tx with
  | false =>
      rw [processIx_of_not_request env s tx hreq]
      simp
  | true =>
      cases haccept : env.acceptToMemoryPool tx with
      | true =>
          rw [processIx_of_accepted env s tx hreq haccept, acceptRequest_spec]
          simp
      | false =>
          rcases rejectRequest_spec env s tx with ⟨locks, heq, _⟩
          rw [processIx_of_rejected env s tx hreq haccept, heq]
          simp

theorem mapLockedInputs_processTxlvote (vote : CConsensusVote) :
    (s.processTxlvote env vote).mapLockedInputs =
      if s.isNewVote env vote = true ∧ env.voteValid vote = true then
        StdMap.insertAllNew s.mapLockedInputs (s.votedInputs env vote) vote.txHash
      else s.mapLockedInputs := by
  cases hnew : s.isNewVote env vote with
  | false =>
      rw [processTxlvote_of_old env s vote hnew]
      simp
  | true =>
      cases hvalid : env.voteValid vote with
      | false =>
          rw [processTxlvote_of_invalid env s vote hnew hvalid]
          simp [seenWith]
      | true =>
          rcases processTxlvote_of_valid env s vote hnew hvalid with ⟨locks, unknown, heq, _⟩
          rw [heq]
          simp

theorem mapTxLockReq_processTxlvote (vote : CConsensusVote) :
    (s.processTxlvote env vote).mapTxLockReq =
      if s.isNewVote env vote = true ∧ env.voteValid vote = true then s.reqWith env vote
      else s.mapTxLockReq := by
  cases hnew : s.isNewVote env vote with
  | false =>
      rw [processTxlvote_of_old env s vote hnew]
      simp
  | true =>
      cases hvalid : env.voteValid vote with
      | false =>
          rw [processTxlvote_of_invalid env s vote hnew hvalid]
          simp [seenWith]
      | true =>
          rcases processTxlvote_of_valid env s vote hnew hvalid with ⟨locks, unknown, heq, _⟩
          rw [heq]
          simp

theorem mapTxLockReqRejected_processTxlvote (vote : CConsensusVote) :
    (s.processTxlvote env vote).mapTxLockReqRejected = s.mapTxLockReqRejected := by
  cases hnew : s.isNewVote env vote with
  | false => rw [processTxlvote_of_old env s vote hnew]
  | true =>
      cases hvalid : env.voteValid vote with
      | false =>
          rw [processTxlvote_of_invalid env s vote hnew hvalid]
          rfl
      | true =>
          rcases processTxlvote_of_valid env s vote hnew hvalid with ⟨locks, unknown, heq, _⟩
          rw [heq]

end Maps

end SwiftTx

end Hbcur
