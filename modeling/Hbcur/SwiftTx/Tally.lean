import Mathlib.Data.List.Dedup
import Hbcur.SwiftTx.Requests

/-!
# The tally of a lock

The votes counted in a lock against the valid votes that have been made or delivered since
the lock is there.
-/

namespace Hbcur

open Foundation

namespace SwiftTx

/-- The valid vote which a step makes or delivers. -/
def castBy (s : SwiftTx) : SwiftEnv × SwiftEvent -> Option CConsensusVote
  | (env, SwiftEvent.message (SwiftMessage.ix tx)) =>
      if s.isRequest env tx && env.acceptToMemoryPool tx then
        ownVote env tx (lockHeight env tx)
      else none
  | (env, SwiftEvent.message (SwiftMessage.txlvote vote)) =>
      if env.voteValid vote then some vote else none
  | (_, SwiftEvent.message SwiftMessage.block) => none
  | (_, SwiftEvent.clean) => none

/-- Whether a masternode's vote for a height is in the lock already. -/
def Recorded (s : SwiftTx) (vote : CConsensusVote) : Prop :=
  exists old, old ∈ s.votesAt vote.txHash ∧
    old.vinMasternode.prevout = vote.vinMasternode.prevout ∧
    old.nBlockHeight = vote.nBlockHeight

end SwiftTx

/-- The state with the valid votes for each transaction since its lock was made. -/
structure SwiftTally where
  state : SwiftTx := {}
  cast : UInt256 -> List CConsensusVote := fun _ => []

namespace SwiftTally

def next (h : SwiftTally) (o : SwiftEnv × SwiftEvent) : SwiftTally where
  state := h.state.step o.1 o.2
  cast := fun txid =>
    if ((h.state.step o.1 o.2).lockAt txid).isNone then []
    else h.cast txid ++ (h.state.castBy o).toList.filter fun vote => vote.txHash == txid

/-- The masternodes whose votes for a height have been cast. -/
def voters (h : SwiftTally) (txid : UInt256) (nBlockHeight : Int) : List COutPoint :=
  (((h.cast txid).filter fun vote => vote.nBlockHeight == nBlockHeight).map fun vote =>
    vote.vinMasternode.prevout).dedup

/-- The lock of a known request counts each masternode that has voted, once. -/
def Exact (h : SwiftTally) : Prop :=
  forall txid lock, StdMap.contains h.state.mapTxLockReq txid = true ->
    h.state.mapTxLocks.lookup txid = some lock ->
    lock.countSignatures = (h.voters txid lock.nBlockHeight).length

/-- A step's condition in the state before it. -/
def Tallied (h : SwiftTally) : SwiftEnv × SwiftEvent -> Prop
  | (env, SwiftEvent.message (SwiftMessage.ix tx)) =>
      h.state.isRequest env tx = true -> env.acceptToMemoryPool tx = true ->
        SwiftTx.lockHeight env tx ≠ 0 ∧
          forall vote, SwiftTx.ownVote env tx (SwiftTx.lockHeight env tx) = some vote ->
            h.state.Recorded vote
  | (env, SwiftEvent.message (SwiftMessage.txlvote vote)) =>
      env.voteValid vote = true ->
        h.state.isNewVote env vote = true ∨ h.state.lockAt vote.txHash = none ∨
          h.state.Recorded vote
  | _ => True

/-!
# What is kept
-/

/-- A vote of a masternode for a height is among others. -/
def VotedIn (votes : List CConsensusVote) (prevout : COutPoint) (nBlockHeight : Int) : Prop :=
  exists vote, vote ∈ votes ∧ vote.vinMasternode.prevout = prevout ∧
    vote.nBlockHeight = nBlockHeight

theorem votedIn_append (votes votes' : List CConsensusVote) (prevout : COutPoint)
    (nBlockHeight : Int) :
    VotedIn (votes ++ votes') prevout nBlockHeight <->
      VotedIn votes prevout nBlockHeight ∨ VotedIn votes' prevout nBlockHeight := by
  unfold VotedIn
  simp only [List.mem_append, or_and_right, exists_or]

theorem votedIn_singleton (vote : CConsensusVote) (prevout : COutPoint) (nBlockHeight : Int) :
    VotedIn [vote] prevout nBlockHeight <->
      vote.vinMasternode.prevout = prevout ∧ vote.nBlockHeight = nBlockHeight := by
  unfold VotedIn
  simp

theorem votedIn_cast (cast : Option CConsensusVote) (txid : UInt256) (prevout : COutPoint)
    (nBlockHeight : Int) :
    VotedIn (cast.toList.filter fun vote => vote.txHash == txid) prevout nBlockHeight <->
      exists vote, cast = some vote ∧ vote.txHash = txid ∧
        vote.vinMasternode.prevout = prevout ∧ vote.nBlockHeight = nBlockHeight := by
  unfold VotedIn
  simp only [List.mem_filter, Option.mem_toList, beq_iff_eq, and_assoc]

/-- The votes in the locks are those that have been cast, and known requests have heights. -/
structure Sound (h : SwiftTally) : Prop where
  sound : SwiftTx.VotesSound h.state
  same : forall txid prevout nBlockHeight,
    VotedIn (h.state.votesAt txid) prevout nBlockHeight <->
      VotedIn (h.cast txid) prevout nBlockHeight
  height : forall txid, StdMap.contains h.state.mapTxLockReq txid = true ->
    exists n, h.state.heightAt txid = some n ∧ n ≠ 0

/-- It is enough that a lock takes the votes cast for its transaction. -/
theorem same_next {h : SwiftTally} (o : SwiftEnv × SwiftEvent) (txid : UInt256)
    (prevout : COutPoint) (nBlockHeight : Int)
    (hlive : (h.state.step o.1 o.2).lockAt txid ≠ none ->
      (VotedIn ((h.state.step o.1 o.2).votesAt txid) prevout nBlockHeight <->
        VotedIn (h.cast txid) prevout nBlockHeight ∨
          exists vote, h.state.castBy o = some vote ∧ vote.txHash = txid ∧
            vote.vinMasternode.prevout = prevout ∧ vote.nBlockHeight = nBlockHeight)) :
    VotedIn ((h.next o).state.votesAt txid) prevout nBlockHeight <->
      VotedIn ((h.next o).cast txid) prevout nBlockHeight := by
  change VotedIn ((h.state.step o.1 o.2).votesAt txid) prevout nBlockHeight <->
    VotedIn (if ((h.state.step o.1 o.2).lockAt txid).isNone then [] else _) prevout nBlockHeight
  cases hlock : (h.state.step o.1 o.2).lockAt txid with
  | none =>
      unfold SwiftTx.votesAt
      rw [hlock]
      exact Iff.rfl
  | some lock =>
      apply (hlive (by rw [hlock]; exact Option.some_ne_none _)).trans
      rw [← votedIn_cast, ← votedIn_append]
      rfl

/-- The heights of the locks which stay. -/
theorem heightAt_cleaned {env : SwiftEnv} {s : SwiftTx} (hkeyed : s.LocksKeyed)
    {txid : UInt256} (hlive : ¬ SwiftTx.LockExpired env s txid) :
    (s.cleanTransactionLocksList env).heightAt txid = s.heightAt txid := by
  have hsame : (s.cleanTransactionLocksList env).mapTxLocks.lookup txid =
      s.mapTxLocks.lookup txid := by
    refine Option.ext fun lock => ?_
    rw [SwiftTx.lookup_cleaned_locks env hkeyed txid lock]
    exact and_iff_left hlive
  unfold SwiftTx.heightAt SwiftTx.lockAt
  rw [hsame]

theorem heightAt_ne_zero_of_complete {s : SwiftTx} {txid : UInt256} {lock : CTransactionLock}
    (hlock : s.lockAt txid = some lock) (hcomplete : lock.isComplete = true) :
    exists n, s.heightAt txid = some n ∧ n ≠ 0 := by
  refine ⟨lock.nBlockHeight, ?_, ?_⟩
  · unfold SwiftTx.heightAt
    rw [hlock]
    rfl
  · intro hzero
    unfold CTransactionLock.isComplete CTransactionLock.countSignatures at hcomplete
    rw [if_pos hzero] at hcomplete
    exact absurd (of_decide_eq_true hcomplete) (by decide)

/-!
# Steps
-/

section Step

variable {h : SwiftTally} (hs : Sound h) {env : SwiftEnv}

include hs

theorem Sound.next_ix (tx : CTransaction)
    (htallied : h.Tallied (env, SwiftEvent.message (SwiftMessage.ix tx))) :
    Sound (h.next (env, SwiftEvent.message (SwiftMessage.ix tx))) := by
  constructor
  · exact hs.sound.processIx tx
  · intro txid prevout nBlockHeight
    refine same_next _ txid prevout nBlockHeight fun _ => ?_
    change VotedIn ((h.state.processIx env tx).votesAt txid) prevout nBlockHeight <-> _
    rw [SwiftTx.votesAt_processIx, ← hs.same]
    refine (or_iff_left_of_imp ?_).symm
    -- an own vote has to be in the lock already
    rintro ⟨vote, hown, rfl, rfl, rfl⟩
    change (if h.state.isRequest env tx && env.acceptToMemoryPool tx then
      SwiftTx.ownVote env tx (SwiftTx.lockHeight env tx) else none) = some vote at hown
    split_ifs at hown with hcase
    rw [Bool.and_eq_true] at hcase
    exact (htallied hcase.1 hcase.2).2 vote hown
  · intro txid hreq
    change StdMap.contains (h.state.processIx env tx).mapTxLockReq txid = true at hreq
    change exists n, (h.state.processIx env tx).heightAt txid = some n ∧ n ≠ 0
    rcases (StdMap.contains_iff _ _).mp hreq with ⟨tx', hlookup⟩
    rcases SwiftTx.lookup_req_processIx_cases hlookup with hold | ⟨hrequest, rfl, rfl⟩
    · rcases hs.height txid ((StdMap.contains_iff _ _).mpr ⟨tx', hold⟩) with ⟨n, hn, hzero⟩
      refine ⟨n, ?_, hzero⟩
      unfold SwiftTx.heightAt
      rw [SwiftTx.lockAt_processIx_of_known (SwiftTx.known_of_req hold)]
      exact hn
    · cases haccept : env.acceptToMemoryPool tx' with
      | true =>
          have hheight := (htallied hrequest haccept).1
          have hage : env.lockAge tx' ≠ none := by
            intro hnone
            unfold SwiftTx.lockHeight at hheight
            rw [hnone] at hheight
            exact hheight rfl
          refine ⟨SwiftTx.lockHeight env tx', ?_, hheight⟩
          unfold SwiftTx.heightAt
          rw [SwiftTx.lockAt_processIx, if_pos ⟨hrequest, rfl, hage⟩]
          rfl
      | false =>
          have hresolves : h.state.resolves env tx' = true := by
            rw [SwiftTx.mapTxLockReq_processIx] at hlookup
            split_ifs at hlookup with hcase
            · rcases hcase.2 with hyes | hresolves
              · rw [haccept] at hyes
                cases hyes
              · exact hresolves
            · rw [(SwiftTx.unknown_of_isRequest env h.state tx' hrequest).1] at hlookup
              cases hlookup
          rcases SwiftTx.complete_of_resolves hrequest hresolves with ⟨lock, hlock, hcomplete⟩
          exact heightAt_ne_zero_of_complete hlock hcomplete

theorem Sound.next_txlvote (vote : CConsensusVote)
    (htallied : h.Tallied (env, SwiftEvent.message (SwiftMessage.txlvote vote))) :
    Sound (h.next (env, SwiftEvent.message (SwiftMessage.txlvote vote))) := by
  constructor
  · exact hs.sound.processTxlvote vote
  · intro txid prevout nBlockHeight
    refine same_next _ txid prevout nBlockHeight fun hlive => ?_
    change (h.state.processTxlvote env vote).lockAt txid ≠ none at hlive
    change VotedIn ((h.state.processTxlvote env vote).votesAt txid) prevout nBlockHeight <-> _
    have hcast : h.state.castBy (env, SwiftEvent.message (SwiftMessage.txlvote vote)) =
      if env.voteValid vote then some vote else none := rfl
    rw [SwiftTx.votesAt_processTxlvote, ← hs.same, hcast]
    cases hvalid : env.voteValid vote with
    | false => simp
    | true =>
        by_cases htxid : txid = vote.txHash
        · subst htxid
          simp only [true_and, and_true, if_true, Option.some.injEq, exists_eq_left']
          split_ifs with hnew
          · rw [votedIn_append, votedIn_singleton]
          · refine (or_iff_left_of_imp ?_).symm
            rintro ⟨rfl, rfl⟩
            rcases htallied hvalid with hnew' | hnone | hrecorded
            · exact absurd hnew' hnew
            · rw [SwiftTx.lockAt_processTxlvote, if_neg (fun hcase => hnew hcase.1)] at hlive
              exact absurd hnone hlive
            · exact hrecorded
        · simp [htxid, Ne.symm htxid]
  · intro txid hreq
    change StdMap.contains (h.state.processTxlvote env vote).mapTxLockReq txid = true at hreq
    change exists n, (h.state.processTxlvote env vote).heightAt txid = some n ∧ n ≠ 0
    rcases (StdMap.contains_iff _ _).mp hreq with ⟨tx, hlookup⟩
    by_cases hold : StdMap.contains h.state.mapTxLockReq txid = true
    · rcases hs.height txid hold with ⟨n, hn, hzero⟩
      exact ⟨n, SwiftTx.heightAt_processTxlvote hn, hzero⟩
    · rw [SwiftTx.mapTxLockReq_processTxlvote] at hreq
      split_ifs at hreq with hcounted
      · unfold SwiftTx.reqWith at hreq
        split_ifs at hreq with hcomplete
        · rw [StdMap.contains_insertNew, Bool.or_eq_true] at hreq
          have htxid := of_decide_eq_true (hreq.resolve_right hold)
          have hlock : (h.state.processTxlvote env vote).lockAt txid =
              some (h.state.lockWith env vote).untimed := by
            rw [SwiftTx.lockAt_processTxlvote, if_pos ⟨hcounted.1, hcounted.2, htxid⟩]
          exact heightAt_ne_zero_of_complete hlock hcomplete
        · exact absurd hreq hold
      · exact absurd hreq hold

theorem Sound.next_clean : Sound (h.next (env, SwiftEvent.clean)) := by
  constructor
  · exact hs.sound.cleanTransactionLocksList
  · intro txid prevout nBlockHeight
    refine same_next _ txid prevout nBlockHeight fun hlive => ?_
    change (h.state.cleanTransactionLocksList env).lockAt txid ≠ none at hlive
    change VotedIn ((h.state.cleanTransactionLocksList env).votesAt txid) prevout
      nBlockHeight <-> _
    rcases Option.ne_none_iff_exists'.mp hlive with ⟨lock, hlock⟩
    rcases SwiftTx.lockAt_eq_some hlock with ⟨full, hfull, _⟩
    have hold := (SwiftTx.lookup_cleaned_locks env hs.sound.keyed txid full).mp hfull
    rw [SwiftTx.votesAt_of_lookup hfull, ← SwiftTx.votesAt_of_lookup hold.1, hs.same]
    simp [SwiftTx.castBy]
  · intro txid hreq
    change StdMap.contains (h.state.cleanTransactionLocksList env).mapTxLockReq txid = true
      at hreq
    change exists n, (h.state.cleanTransactionLocksList env).heightAt txid = some n ∧ n ≠ 0
    rcases (StdMap.contains_iff _ _).mp hreq with ⟨tx, hlookup⟩
    rcases (SwiftTx.lookup_cleaned_req env hs.sound.keyed txid tx).mp hlookup with ⟨hold, hlive⟩
    rw [heightAt_cleaned hs.sound.keyed hlive]
    exact hs.height txid ((StdMap.contains_iff _ _).mpr ⟨tx, hold⟩)

end Step

theorem Sound.next {h : SwiftTally} (hs : Sound h) (o : SwiftEnv × SwiftEvent)
    (htallied : h.Tallied o) : Sound (h.next o) := by
  rcases o with ⟨env, e⟩
  cases e with
  | message m =>
      cases m with
      | ix tx => exact hs.next_ix tx htallied
      | txlvote vote => exact hs.next_txlvote vote htallied
      | block =>
          constructor
          · exact hs.sound
          · intro txid prevout nBlockHeight
            refine same_next _ txid prevout nBlockHeight fun _ => ?_
            change VotedIn (h.state.votesAt txid) prevout nBlockHeight <-> _
            rw [hs.same]
            simp [SwiftTx.castBy]
          · exact hs.height
  | clean => exact hs.next_clean

/-!
# Counting
-/

theorem Sound.exact {h : SwiftTally} (hs : Sound h) : h.Exact := by
  intro txid lock hreq hlock
  rcases hs.height txid hreq with ⟨n, hn, hzero⟩
  unfold SwiftTx.heightAt at hn
  rw [SwiftTx.lockAt_of_lookup hlock] at hn
  have hheight : lock.nBlockHeight ≠ 0 := by
    cases hn
    exact hzero
  have hnodup := hs.sound.nodup_prevouts txid
  rw [SwiftTx.votesAt_of_lookup hlock] at hnodup
  have hperm : (lock.countedVotes.map fun vote => vote.vinMasternode.prevout).Perm
      (h.voters txid lock.nBlockHeight) := by
    refine (List.perm_ext_iff_of_nodup (hnodup.sublist (List.filter_sublist.map _))
      (List.nodup_dedup _)).mpr ?_
    intro prevout
    have hsame := hs.same txid prevout lock.nBlockHeight
    rw [SwiftTx.votesAt_of_lookup hlock] at hsame
    unfold VotedIn at hsame
    simp only [List.mem_dedup, List.mem_map, List.mem_filter, beq_iff_eq]
    rw [show (exists a, (a ∈ lock.vecConsensusVotes ∧ a.nBlockHeight = lock.nBlockHeight) ∧
        a.vinMasternode.prevout = prevout) <-> exists vote, vote ∈ lock.vecConsensusVotes ∧
          vote.vinMasternode.prevout = prevout ∧ vote.nBlockHeight = lock.nBlockHeight from by
            simp only [and_assoc, and_comm, and_left_comm], hsame]
    simp only [and_assoc, and_comm, and_left_comm]
  unfold CTransactionLock.countSignatures
  rw [if_neg hheight, ← hperm.length_eq, List.length_map]

end SwiftTally

end Hbcur
