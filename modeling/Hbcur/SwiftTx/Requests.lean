import Hbcur.SwiftTx.Expiry

/-!
# Votes after other votes

Whether a vote that would be counted still is after others have come in.  The others leave the
height of its lock alone, but each is remembered before it is looked at.
-/

namespace Hbcur

open Foundation

namespace SwiftTx

/-- Delivered now, the vote raises the count of its lock. -/
def Counts (s : SwiftTx) (env : SwiftEnv) (vote : CConsensusVote) : Prop :=
  exists lock lock', s.mapTxLocks.lookup vote.txHash = some lock ∧
    (s.processTxlvote env vote).mapTxLocks.lookup vote.txHash = some lock' ∧
    lock'.countSignatures = lock.countSignatures + 1

/-- The height of the lock of a transaction. -/
def heightAt (s : SwiftTx) (txid : UInt256) : Option Int :=
  (s.lockAt txid).map CTransactionLock.nBlockHeight

theorem countSignatures_addSignature (lock : CTransactionLock) (vote : CConsensusVote) :
    (lock.addSignature vote).countSignatures = lock.countSignatures + 1 <->
      lock.nBlockHeight = vote.nBlockHeight ∧ lock.nBlockHeight ≠ 0 := by
  unfold CTransactionLock.countSignatures CTransactionLock.countedVotes
    CTransactionLock.addSignature
  simp only [List.filter_append, List.length_append]
  split_ifs with hzero
  · simp [hzero]
  · by_cases hheight : vote.nBlockHeight = lock.nBlockHeight
    · simp [hheight, hzero]
    · have hne : lock.nBlockHeight ≠ vote.nBlockHeight := fun h => hheight h.symm
      simp [hheight, hne]

theorem counts_iff (s : SwiftTx) (env : SwiftEnv) (vote : CConsensusVote) :
    s.Counts env vote <->
      s.isNewVote env vote = true ∧ env.voteValid vote = true ∧
        s.heightAt vote.txHash = some vote.nBlockHeight ∧ vote.nBlockHeight ≠ 0 := by
  have hlock := lockAt_processTxlvote env s vote.txHash vote
  constructor
  · rintro ⟨lock, lock', hbefore, hafter, hcount⟩
    rw [lockAt_of_lookup hbefore, lockAt_of_lookup hafter] at hlock
    split_ifs at hlock with hcase
    · rw [lockWith_untimed, lockAt_of_lookup hbefore, Option.some.injEq] at hlock
      have hraised : (lock.untimed.addSignature vote).countSignatures =
          lock.untimed.countSignatures + 1 := by
        rw [← CTransactionLock.untimed_countSignatures lock', hlock] at hcount
        exact hcount
      rcases (countSignatures_addSignature lock.untimed vote).mp hraised with ⟨hheight, hzero⟩
      refine ⟨hcase.1, hcase.2.1, ?_, hheight ▸ hzero⟩
      unfold heightAt
      rw [lockAt_of_lookup hbefore, Option.map_some, hheight]
    · rw [Option.some.injEq] at hlock
      rw [← CTransactionLock.untimed_countSignatures lock', hlock,
        CTransactionLock.untimed_countSignatures] at hcount
      omega
  · rintro ⟨hnew, hvalid, hheight, hzero⟩
    unfold heightAt at hheight
    rcases Option.map_eq_some_iff.mp hheight with ⟨untimed, hbefore, hheight⟩
    rcases lockAt_eq_some hbefore with ⟨lock, hlookup, rfl⟩
    rw [if_pos ⟨hnew, hvalid, rfl⟩, lockWith_untimed, hbefore] at hlock
    rcases lockAt_eq_some hlock with ⟨lock', hlookup', heq⟩
    refine ⟨lock, lock', hlookup, hlookup', ?_⟩
    rw [← CTransactionLock.untimed_countSignatures lock', heq]
    refine (countSignatures_addSignature lock.untimed vote).mpr ⟨hheight, ?_⟩
    rw [hheight]
    exact hzero

/-!
# Other votes
-/

/-- Votes coming in one after another. -/
def receiveVotes (s : SwiftTx) (ws : List (SwiftEnv × CConsensusVote)) : SwiftTx :=
  ws.foldl (fun s w => s.processTxlvote w.1 w.2) s

theorem heightAt_processTxlvote {env : SwiftEnv} {s : SwiftTx} {vote : CConsensusVote}
    {txid : UInt256} {nBlockHeight : Int} (h : s.heightAt txid = some nBlockHeight) :
    (s.processTxlvote env vote).heightAt txid = some nBlockHeight := by
  unfold heightAt at h ⊢
  rw [lockAt_processTxlvote]
  split_ifs with hcase
  · rcases Option.map_eq_some_iff.mp h with ⟨lock, hlock, rfl⟩
    rw [Option.map_some, lockWith_untimed, ← hcase.2.2, hlock]
    rfl
  · exact h

theorem heightAt_receiveVotes {s : SwiftTx} {txid : UInt256} {nBlockHeight : Int}
    (ws : List (SwiftEnv × CConsensusVote)) (h : s.heightAt txid = some nBlockHeight) :
    (s.receiveVotes ws).heightAt txid = some nBlockHeight := by
  unfold receiveVotes
  induction ws generalizing s with
  | nil => exact h
  | cons w ws ih => exact ih (heightAt_processTxlvote h)

/-- What is remembered after some votes: what was, and the votes that have been processed. -/
theorem seen_receiveVotes (s : SwiftTx) (ws : List (SwiftEnv × CConsensusVote))
    (key : UInt256) :
    StdMap.contains (s.receiveVotes ws).mapTxLockVote key = false <->
      StdMap.contains s.mapTxLockVote key = false ∧
        forall w, w ∈ ws -> w.1.processes = true -> w.2.getHash ≠ key := by
  unfold receiveVotes
  induction ws generalizing s with
  | nil => simp
  | cons w ws ih =>
      rw [List.foldl_cons, ih, seen_processTxlvote, List.forall_mem_cons, Bool.or_eq_false_iff,
        and_assoc]
      refine and_congr_right fun _ => and_congr_left fun _ => ?_
      cases w.1.processes with
      | false => simp
      | true => simp [eq_comm]

/-- A vote that would be counted is counted afterwards unless its key has come in. -/
theorem counts_after_votes_iff (s : SwiftTx) (env : SwiftEnv) (vote : CConsensusVote)
    (hcounts : s.Counts env vote) (ws : List (SwiftEnv × CConsensusVote)) :
    (s.receiveVotes ws).Counts env vote <->
      forall w, w ∈ ws -> w.1.processes = true -> w.2.getHash ≠ vote.getHash := by
  rcases (counts_iff s env vote).mp hcounts with ⟨hnew, hvalid, hheight, hzero⟩
  unfold isNewVote at hnew
  simp only [Bool.and_eq_true, Bool.not_eq_true'] at hnew
  rw [counts_iff]
  unfold isNewVote
  simp only [Bool.and_eq_true, Bool.not_eq_true', hnew.1, hvalid,
    heightAt_receiveVotes ws hheight, seen_receiveVotes, hnew.2, true_and, ne_eq, hzero,
    not_false_eq_true, and_true]

theorem counts_after_other_vote :
    ((({} : SwiftTx).processIx (nodeWith 6 0 true) smallRequest).receiveVotes
      [(nodeWith 6 0 true, voteOf 1 7 94 true)]).Counts (nodeWith 6 0 true)
        (voteOf 0 7 94 true) := by
  refine (counts_after_votes_iff _ _ _ ?_ _).mpr ?_
  · rw [counts_iff]
    decide +kernel
  · decide

/-- A vote that is not valid, or of another masternode or for another transaction. -/
def Unrelated (vote : CConsensusVote) (w : SwiftEnv × CConsensusVote) : Prop :=
  w.1.voteValid w.2 = false ∨
    ¬ (w.2.vinMasternode.prevout = vote.vinMasternode.prevout ∧ w.2.txHash = vote.txHash)

theorem forgery_suppresses_vote :
    ¬ forall (s : SwiftTx) (env : SwiftEnv) (vote : CConsensusVote)
      (ws : List (SwiftEnv × CConsensusVote)), s.Counts env vote ->
        (forall w, w ∈ ws -> Unrelated vote w) -> (s.receiveVotes ws).Counts env vote := by
  intro h
  have hcounts := h (({} : SwiftTx).processIx (nodeWith 6 0 true) smallRequest)
    (nodeWith 6 0 true) (voteOf 0 7 94 true) [(nodeWith 6 0 true, voteOf 0 7 94 false)]
    ((counts_iff _ _ _).mpr (by decide +kernel)) ?_
  · exact absurd (((counts_iff _ _ _).mp hcounts).1) (by decide +kernel)
  · intro w hmem
    rw [List.mem_singleton.mp hmem]
    exact Or.inl (by decide +kernel)

end SwiftTx

end Hbcur

/-!
# Known requests

What is recorded as a request is one, unless a vote has completed the lock of a transaction
that no accepted request has announced.
-/

namespace Hbcur

open Foundation

namespace SwiftTx

theorem lookup_req_processIx_cases {env : SwiftEnv} {s : SwiftTx} {tx tx' : CTransaction}
    {txid : UInt256} (h : (s.processIx env tx).mapTxLockReq.lookup txid = some tx') :
    s.mapTxLockReq.lookup txid = some tx' ∨
      s.isRequest env tx = true ∧ txid = tx.hash ∧ tx' = tx := by
  rw [mapTxLockReq_processIx] at h
  split_ifs at h with hcase
  · rw [StdMap.lookup_insertNew] at h
    split_ifs at h with hnew
    · cases h
      exact Or.inr ⟨hcase.1, hnew.1, rfl⟩
    · exact Or.inl h
  · exact Or.inl h

end SwiftTx

namespace SwiftHistory

end SwiftHistory

end Hbcur
