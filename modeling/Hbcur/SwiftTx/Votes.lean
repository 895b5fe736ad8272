import Hbcur.SwiftTx.Cleaning

/-!
# The votes of the locks

What each step leaves of the locks' votes and heights, and what holds of the votes after any
steps: every vote in a lock is remembered, so that no masternode is in a lock twice.
-/

namespace Hbcur

open Foundation

namespace SwiftTx

/-!
# Locks after a message
-/

section Message

variable (env : SwiftEnv) (s : SwiftTx) (txid : UInt256)

theorem lockAt_processIx (tx : CTransaction) :
    (s.processIx env tx).lockAt txid =
      if s.isRequest env tx = true ∧ txid = tx.hash ∧ env.lockAge tx ≠ none then
        some
          { ((s.lockAt tx.hash).getD (env.newLock 0 tx.hash).untimed) with
            nBlockHeight := lockHeight env tx }
      else s.lockAt txid := by
  cases hreq : s.isRequest env tx with
  | false =>
      rw [processIx_of_not_request env s tx hreq]
      simp
  | true =>
      rcases createNewLock_spec env s tx with ⟨locks, heq, hlocks⟩
      simp only [true_and]
      rw [← hlocks]
      cases haccept : env.acceptToMemoryPool tx with
      | true =>
          rw [processIx_of_accepted env s tx hreq haccept, acceptRequest_spec, heq]
          rfl
      | false =>
          rcases rejectRequest_spec env s tx with ⟨locks', heq', hlocks'⟩
          rw [processIx_of_rejected env s tx hreq haccept, heq']
          apply (hlocks' txid).trans
          rw [heq]
          rfl

theorem lockAt_processTxlvote (vote : CConsensusVote) :
    (s.processTxlvote env vote).lockAt txid =
      if s.isNewVote env vote = true ∧ env.voteValid vote = true ∧ txid = vote.txHash then
        some (s.lockWith env vote).untimed
      else s.lockAt txid := by
  cases hnew : s.isNewVote env vote with
  | false =>
      rw [processTxlvote_of_old env s vote hnew]
      simp
  | true =>
      cases hvalid : env.voteValid vote with
      | false =>
          rw [processTxlvote_of_invalid env s vote hnew hvalid]
          simp [lockAt, seenWith]
      | true =>
          rcases processTxlvote_of_valid env s vote hnew hvalid with ⟨locks, unknown, heq, hlocks⟩
          rw [heq]
          simp only [true_and]
          exact hlocks txid

/-- What is remembered stays so; an own vote may join. -/
theorem seen_processIx (tx : CTransaction) {key : UInt256}
    (h : StdMap.contains s.mapTxLockVote key = true) :
    StdMap.contains (s.processIx env tx).mapTxLockVote key = true := by
  cases hreq : s.isRequest env tx with
  | false =>
      rw [processIx_of_not_request env s tx hreq]
      exact h
  | true =>
      cases haccept : env.acceptToMemoryPool tx with
      | true =>
          rw [processIx_of_accepted env s tx hreq haccept, acceptRequest_spec]
          simp only
          cases ownVote env tx (lockHeight env tx) with
          | none => exact h
          | some vote => simp [h]
      | false =>
          rcases rejectRequest_spec env s tx with ⟨locks, heq, _⟩
          rw [processIx_of_rejected env s tx hreq haccept, heq]
          exact h

theorem seen_processTxlvote (vote : CConsensusVote) (key : UInt256) :
    StdMap.contains (s.processTxlvote env vote).mapTxLockVote key =
      (StdMap.contains s.mapTxLockVote key || (env.processes && decide (key = vote.getHash))) := by
  cases hnew : s.isNewVote env vote with
  | false =>
      rw [processTxlvote_of_old env s vote hnew]
      unfold isNewVote at hnew
      by_cases hkey : key = vote.getHash
      · subst hkey
        cases hp : env.processes with
        | false => simp
        | true =>
            rw [hp, Bool.true_and, Bool.not_eq_false'] at hnew
            simp [hnew]
      · simp [hkey]
  | true =>
      have hp : env.processes = true := by
        unfold isNewVote at hnew
        exact (Bool.and_eq_true_iff.mp hnew).1
      rw [hp, Bool.true_and, Bool.or_comm]
      cases hvalid : env.voteValid vote with
      | false =>
          rw [processTxlvote_of_invalid env s vote hnew hvalid]
          exact StdMap.contains_insert _ _ _ _
      | true =>
          rcases processTxlvote_of_valid env s vote hnew hvalid with ⟨locks, unknown, heq, _⟩
          rw [heq]
          exact StdMap.contains_insert _ _ _ _

end Message

/-!
# Votes after a step
-/

/-- The votes in the lock of a transaction. -/
def votesAt (s : SwiftTx) (txid : UInt256) : List CConsensusVote :=
  match s.lockAt txid with
  | none => []
  | some lock => lock.vecConsensusVotes

theorem votesAt_of_lockAt {s : SwiftTx} {txid : UInt256} {lock : CTransactionLock}
    (h : s.lockAt txid = some lock) : s.votesAt txid = lock.vecConsensusVotes := by
  unfold votesAt
  rw [h]

theorem votesAt_of_lookup {s : SwiftTx} {txid : UInt256} {lock : CTransactionLock}
    (h : s.mapTxLocks.lookup txid = some lock) : s.votesAt txid = lock.vecConsensusVotes := by
  rw [votesAt_of_lockAt (lockAt_of_lookup h)]
  rfl

theorem lockWith_votes (env : SwiftEnv) (s : SwiftTx) (vote : CConsensusVote) :
    (s.lockWith env vote).untimed.vecConsensusVotes = s.votesAt vote.txHash ++ [vote] := by
  rw [lockWith_untimed]
  unfold votesAt
  cases s.lockAt vote.txHash <;> rfl

theorem votesAt_processIx (env : SwiftEnv) (s : SwiftTx) (tx : CTransaction) (txid : UInt256) :
    (s.processIx env tx).votesAt txid = s.votesAt txid := by
  unfold votesAt
  rw [lockAt_processIx]
  split_ifs with h
  · rw [h.2.1]
    cases s.lockAt tx.hash <;> rfl
  · rfl

theorem votesAt_processTxlvote (env : SwiftEnv) (s : SwiftTx) (vote : CConsensusVote)
    (txid : UInt256) :
    (s.processTxlvote env vote).votesAt txid =
      if s.isNewVote env vote = true ∧ env.voteValid vote = true ∧ txid = vote.txHash then
        s.votesAt txid ++ [vote]
      else s.votesAt txid := by
  split_ifs with h
  · have hlock : (s.processTxlvote env vote).lockAt txid = some (s.lockWith env vote).untimed := by
      rw [lockAt_processTxlvote, if_pos h]
    rw [votesAt_of_lockAt hlock, lockWith_votes, h.2.2]
  · unfold votesAt
    rw [lockAt_processTxlvote, if_neg h]

theorem mem_votesAt_processTxlvote {env : SwiftEnv} {s : SwiftTx}
    {vote vote' : CConsensusVote} {txid : UInt256}
    (hmem : vote' ∈ (s.processTxlvote env vote).votesAt txid) :
    vote' ∈ s.votesAt txid ∨
      s.isNewVote env vote = true ∧ env.voteValid vote = true ∧ txid = vote.txHash ∧
        vote' = vote := by
  rw [votesAt_processTxlvote] at hmem
  split_ifs at hmem with hcase
  · rcases List.mem_append.mp hmem with hold | hadd
    · exact Or.inl hold
    · exact Or.inr ⟨hcase.1, hcase.2.1, hcase.2.2, List.mem_singleton.mp hadd⟩
  · exact Or.inl hmem

theorem mem_votesAt_cleaned (env : SwiftEnv) {s : SwiftTx} (hkeyed : s.LocksKeyed)
    (txid : UInt256) :
    (s.cleanTransactionLocksList env).votesAt txid = [] ∨
      (s.cleanTransactionLocksList env).votesAt txid = s.votesAt txid ∧
        ¬ LockExpired env s txid := by
  cases hlock : (s.cleanTransactionLocksList env).mapTxLocks.lookup txid with
  | none =>
      left
      unfold votesAt lockAt
      rw [hlock]
      rfl
  | some lock =>
      right
      rcases (lookup_cleaned_locks env hkeyed txid lock).mp hlock with ⟨hold, hlive⟩
      exact ⟨(votesAt_of_lookup hlock).trans (votesAt_of_lookup hold).symm, hlive⟩

/-!
# What holds of the votes
-/

structure VotesSound (s : SwiftTx) : Prop where
  keyed : s.LocksKeyed
  txHash : forall txid vote, vote ∈ s.votesAt txid -> vote.txHash = txid
  seen : forall txid vote, vote ∈ s.votesAt txid ->
    StdMap.contains s.mapTxLockVote vote.getHash = true
  nodup : forall txid, ((s.votesAt txid).map CConsensusVote.getHash).Nodup
  disjoint : forall txid txid' vote vote', vote ∈ s.votesAt txid -> vote' ∈ s.votesAt txid' ->
    vote.getHash = vote'.getHash -> txid = txid'

theorem locksKeyed_iff (s : SwiftTx) :
    s.LocksKeyed <-> forall txid lock, s.lockAt txid = some lock -> lock.txHash = txid := by
  constructor
  · intro h txid lock hlock
    rcases lockAt_eq_some hlock with ⟨full, hfull, rfl⟩
    exact h txid full hfull
  · intro h txid lock hlock
    exact h txid lock.untimed (lockAt_of_lookup hlock)

namespace VotesSound

variable {env : SwiftEnv} {s : SwiftTx} (h : VotesSound s)

include h

theorem processIx (tx : CTransaction) : VotesSound (s.processIx env tx) := by
  constructor
  · rw [locksKeyed_iff]
    intro txid lock hlock
    rw [lockAt_processIx] at hlock
    split_ifs at hlock with hcase
    · cases hlock
      rw [hcase.2.1]
      cases hold : s.lockAt tx.hash with
      | none => rfl
      | some old => exact (locksKeyed_iff s).mp h.keyed tx.hash old hold
    · exact (locksKeyed_iff s).mp h.keyed txid lock hlock
  · intro txid vote
    rw [votesAt_processIx]
    exact h.txHash txid vote
  · intro txid vote
    rw [votesAt_processIx]
    exact fun hmem => seen_processIx env s tx (h.seen txid vote hmem)
  · intro txid
    rw [votesAt_processIx]
    exact h.nodup txid
  · intro txid txid' vote vote'
    rw [votesAt_processIx, votesAt_processIx]
    exact h.disjoint txid txid' vote vote'

/-- A vote which is not new is in no lock. -/
theorem not_mem_of_new {vote vote' : CConsensusVote} {txid : UInt256}
    (hnew : s.isNewVote env vote = true) (hmem : vote' ∈ s.votesAt txid) :
    vote'.getHash ≠ vote.getHash := by
  intro heq
  have hseen := h.seen txid vote' hmem
  rw [heq] at hseen
  unfold isNewVote at hnew
  rw [hseen] at hnew
  simp at hnew

theorem processTxlvote (vote : CConsensusVote) : VotesSound (s.processTxlvote env vote) := by
  constructor
  · rw [locksKeyed_iff]
    intro txid lock hlock
    rw [lockAt_processTxlvote] at hlock
    split_ifs at hlock with hcase
    · cases hlock
      rw [lockWith_untimed, hcase.2.2]
      cases hold : s.lockAt vote.txHash with
      | none => rfl
      | some old => exact (locksKeyed_iff s).mp h.keyed vote.txHash old hold
    · exact (locksKeyed_iff s).mp h.keyed txid lock hlock
  · intro txid vote' hmem
    rcases mem_votesAt_processTxlvote hmem with hold | ⟨_, _, htxid, rfl⟩
    · exact h.txHash txid vote' hold
    · exact htxid.symm
  · intro txid vote' hmem
    rw [seen_processTxlvote]
    rcases mem_votesAt_processTxlvote hmem with hold | ⟨hnew, _, _, rfl⟩
    · rw [h.seen txid vote' hold, Bool.true_or]
    · unfold isNewVote at hnew
      rw [(Bool.and_eq_true_iff.mp hnew).1]
      simp
  · intro txid
    rw [votesAt_processTxlvote]
    split_ifs with hcase
    · rw [List.map_append, List.nodup_append]
      refine ⟨h.nodup txid, List.nodup_singleton _, ?_⟩
      intro key hkey key' hkey' heq
      rcases List.mem_map.mp hkey with ⟨vote', hmem, rfl⟩
      rw [List.map_singleton, List.mem_singleton] at hkey'
      exact h.not_mem_of_new hcase.1 hmem (heq.trans hkey')
    · exact h.nodup txid
  · intro txid txid' v v' hv hv' heq
    rcases mem_votesAt_processTxlvote hv with hold | ⟨hnew, _, htxid, rfl⟩
    · rcases mem_votesAt_processTxlvote hv' with hold' | ⟨hnew', _, _, rfl⟩
      · exact h.disjoint txid txid' v v' hold hold' heq
      · exact absurd heq (h.not_mem_of_new hnew' hold)
    · rcases mem_votesAt_processTxlvote hv' with hold' | ⟨_, _, htxid', rfl⟩
      · exact absurd heq.symm (h.not_mem_of_new hnew hold')
      · exact htxid.trans htxid'.symm

theorem cleanTransactionLocksList : VotesSound (s.cleanTransactionLocksList env) := by
  have hmem : forall txid vote, vote ∈ (s.cleanTransactionLocksList env).votesAt txid ->
      vote ∈ s.votesAt txid ∧ ¬ LockExpired env s txid := by
    intro txid vote hin
    rcases mem_votesAt_cleaned env h.keyed txid with hnil | ⟨hsame, hlive⟩
    · rw [hnil] at hin
      cases hin
    · exact ⟨hsame ▸ hin, hlive⟩
  constructor
  · intro txid lock hlock
    exact h.keyed txid lock ((lookup_cleaned_locks env h.keyed txid lock).mp hlock).1
  · intro txid vote hin
    exact h.txHash txid vote (hmem txid vote hin).1
  · intro txid vote hin
    rcases hmem txid vote hin with ⟨hold, hlive⟩
    rcases (StdMap.contains_iff _ _).mp (h.seen txid vote hold) with ⟨seen, hseen⟩
    refine (StdMap.contains_iff _ _).mpr ⟨seen, ?_⟩
    refine (lookup_cleaned_voted env h.keyed vote.getHash seen).mpr ⟨hseen, ?_⟩
    -- a vote that is forgotten belongs to an expired lock, and to no other one
    rintro ⟨txid', lock, hlock, hexp, _, hkey⟩
    rcases List.mem_map.mp hkey with ⟨vote', hvote', heq⟩
    rw [← votesAt_of_lookup hlock] at hvote'
    have hsame := h.disjoint txid' txid vote' vote hvote' hold heq
    subst hsame
    exact hlive ⟨lock, hlock, hexp⟩
  · intro txid
    rcases mem_votesAt_cleaned env h.keyed txid with hnil | ⟨hsame, _⟩
    · rw [hnil]
      exact List.nodup_nil
    · rw [hsame]
      exact h.nodup txid
  · intro txid txid' vote vote' hin hin'
    exact h.disjoint txid txid' vote vote' (hmem txid vote hin).1 (hmem txid' vote' hin').1

theorem step (env : SwiftEnv) (e : SwiftEvent) : VotesSound (s.step env e) := by
  cases e with
  | message m =>
      cases m with
      | ix tx => exact h.processIx tx
      | txlvote vote => exact h.processTxlvote vote
      | block => exact h
  | clean => exact h.cleanTransactionLocksList

/-- No masternode is in a lock twice. -/
theorem nodup_prevouts (txid : UInt256) :
    ((s.votesAt txid).map fun vote => vote.vinMasternode.prevout).Nodup := by
  have hkeys := h.nodup txid
  unfold List.Nodup at hkeys ⊢
  rw [List.pairwise_map] at hkeys ⊢
  apply hkeys.imp_of_mem
  intro vote vote' hmem hmem' hne heq
  apply hne
  unfold CConsensusVote.getHash
  rw [heq, h.txHash txid vote hmem, h.txHash txid vote' hmem']

end VotesSound

end SwiftTx

end Hbcur

/-!
# Runs with their messages

A run of the locks together with the requests and votes that have come in.
-/

namespace Hbcur

open Foundation

structure SwiftHistory where
  state : SwiftTx := {}
  /-- The transactions of the `ix` messages which came to the creation of a lock. -/
  requested : List CTransaction := []
  /-- The votes of the `txlvote` messages, each with what the node knew then. -/
  delivered : List (SwiftEnv × CConsensusVote) := []

namespace SwiftHistory

def next (h : SwiftHistory) : SwiftEnv × SwiftEvent -> SwiftHistory
  | (env, SwiftEvent.message (SwiftMessage.ix tx)) =>
      { h with
        state := h.state.processIx env tx
        requested := if h.state.isRequest env tx then tx :: h.requested else h.requested }
  | (env, SwiftEvent.message (SwiftMessage.txlvote vote)) =>
      { h with
        state := h.state.processTxlvote env vote
        delivered := (env, vote) :: h.delivered }
  | (_, SwiftEvent.message SwiftMessage.block) => h
  | (env, SwiftEvent.clean) => { h with state := h.state.cleanTransactionLocksList env }

/-- A message alone. -/
def receive (h : SwiftHistory) (o : SwiftEnv × SwiftMessage) : SwiftHistory :=
  h.next (o.1, SwiftEvent.message o.2)

theorem next_state (h : SwiftHistory) (o : SwiftEnv × SwiftEvent) :
    (h.next o).state = h.state.step o.1 o.2 := by
  rcases o with ⟨env, e⟩
  cases e with
  | message m => cases m <;> rfl
  | clean => rfl

/-- The votes in the locks have come in, and were valid. -/
structure Faithful (h : SwiftHistory) : Prop where
  sound : SwiftTx.VotesSound h.state
  delivered : forall txid vote, vote ∈ h.state.votesAt txid ->
    exists env, (env, vote) ∈ h.delivered ∧ env.voteValid vote = true

theorem Faithful.next {h : SwiftHistory} (hf : Faithful h) (o : SwiftEnv × SwiftEvent) :
    Faithful (h.next o) := by
  constructor
  · rw [next_state]
    exact hf.sound.step o.1 o.2
  · rcases o with ⟨env, e⟩
    cases e with
    | message m =>
        cases m with
        | ix tx =>
            intro txid vote hmem
            apply hf.delivered txid vote
            rw [← SwiftTx.votesAt_processIx env h.state tx]
            exact hmem
        | txlvote v =>
            intro txid vote hmem
            rcases SwiftTx.mem_votesAt_processTxlvote hmem with hold | ⟨_, hvalid, _, rfl⟩
            · rcases hf.delivered txid vote hold with ⟨env', hin, hvalid⟩
              exact ⟨env', List.mem_cons_of_mem _ hin, hvalid⟩
            · exact ⟨env, List.mem_cons_self, hvalid⟩
        | block => exact hf.delivered
    | clean =>
        intro txid vote hmem
        apply hf.delivered txid vote
        rcases SwiftTx.mem_votesAt_cleaned env hf.sound.keyed txid with hnil | ⟨hsame, _⟩
        · change vote ∈ (h.state.cleanTransactionLocksList env).votesAt txid at hmem
          rw [hnil] at hmem
          cases hmem
        · rw [← hsame]
          exact hmem

end SwiftHistory

end Hbcur
