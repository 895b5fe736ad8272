import Hbcur.SwiftTx.Consensus

/-!
# What expires with a lock

An input is unlocked with the request that spends it, which need not be the one it is locked
for.
-/

namespace Hbcur

open Foundation

namespace SwiftTx

/-- Each input is locked for a known request which spends it and has a lock. -/
def LocksOwned (s : SwiftTx) : Prop :=
  forall out txid, s.mapLockedInputs.lookup out = some txid ->
    (exists tx, s.mapTxLockReq.lookup txid = some tx ∧ out ∈ tx.prevouts) ∧
      s.lockAt txid ≠ none

/-- A refused request locks nothing, or it is recorded as known. -/
def RefusedRequestKnown (env : SwiftEnv) (s : SwiftTx) (tx : CTransaction) : Prop :=
  s.isRequest env tx = true -> env.acceptToMemoryPool tx = false ->
    (forall out, out ∈ tx.prevouts -> StdMap.contains s.mapLockedInputs out = true) ∨
      s.resolves env tx = true

theorem lookup_insertNew_of_some {m : StdMap UInt256 CTransaction} {txid txid' : UInt256}
    {tx tx' : CTransaction} (h : m.lookup txid = some tx) :
    (StdMap.insertNew m txid' tx').lookup txid = some tx := by
  rw [StdMap.lookup_insertNew]
  split_ifs with hcase
  · rw [← hcase.1, StdMap.contains_eq_false_iff, h] at hcase
    cases hcase.2
  · exact h

theorem lookup_req_processIx {env : SwiftEnv} {s : SwiftTx} {tx tx' : CTransaction}
    {txid : UInt256} (h : s.mapTxLockReq.lookup txid = some tx') :
    (s.processIx env tx).mapTxLockReq.lookup txid = some tx' := by
  rw [mapTxLockReq_processIx]
  split_ifs
  · exact lookup_insertNew_of_some h
  · exact h

theorem lookup_req_processTxlvote {env : SwiftEnv} {s : SwiftTx} {vote : CConsensusVote}
    {tx' : CTransaction} {txid : UInt256} (h : s.mapTxLockReq.lookup txid = some tx') :
    (s.processTxlvote env vote).mapTxLockReq.lookup txid = some tx' := by
  rw [mapTxLockReq_processTxlvote]
  split_ifs
  · unfold reqWith
    split_ifs
    · exact lookup_insertNew_of_some h
    · exact h
  · exact h

theorem lockAt_processIx_ne_none {env : SwiftEnv} {s : SwiftTx} {tx : CTransaction}
    {txid : UInt256} (h : s.lockAt txid ≠ none) : (s.processIx env tx).lockAt txid ≠ none := by
  rw [lockAt_processIx]
  split_ifs
  · exact Option.some_ne_none _
  · exact h

theorem lockAt_processTxlvote_ne_none {env : SwiftEnv} {s : SwiftTx} {vote : CConsensusVote}
    {txid : UInt256} (h : s.lockAt txid ≠ none) :
    (s.processTxlvote env vote).lockAt txid ≠ none := by
  rw [lockAt_processTxlvote]
  split_ifs
  · exact Option.some_ne_none _
  · exact h

/-- A request that resolves its conflict has a complete lock. -/
theorem complete_of_resolves {env : SwiftEnv} {s : SwiftTx} {tx : CTransaction}
    (hreq : s.isRequest env tx = true) (h : s.resolves env tx = true) :
    exists lock, (s.processIx env tx).lockAt tx.hash = some lock ∧ lock.isComplete = true := by
  rcases createNewLock_spec env s tx with ⟨locks, heq, hlocks⟩
  have hsame : (s.processIx env tx).lockAt tx.hash =
      (s.createNewLock env tx).2.lockAt tx.hash := by
    rw [lockAt_processIx, heq]
    refine Eq.trans ?_ (hlocks tx.hash).symm
    simp only [hreq, true_and]
  rw [hsame]
  unfold resolves at h
  cases hlock : (s.createNewLock env tx).2.mapTxLocks.lookup tx.hash with
  | none =>
      rw [hlock] at h
      cases h
  | some lock =>
      rw [hlock] at h
      exact ⟨lock.untimed, lockAt_of_lookup hlock, (Bool.and_eq_true_iff.mp h).1⟩

theorem LocksOwned.processIx {env : SwiftEnv} {s : SwiftTx} {tx : CTransaction}
    (h : s.LocksOwned) (hknown : s.RefusedRequestKnown env tx) :
    LocksOwned (s.processIx env tx) := by
  intro out txid hout
  have hkeep : s.mapLockedInputs.lookup out = some txid ->
      (exists tx', (s.processIx env tx).mapTxLockReq.lookup txid = some tx' ∧
        out ∈ tx'.prevouts) ∧ (s.processIx env tx).lockAt txid ≠ none := by
    intro hold
    rcases h out txid hold with ⟨⟨tx', hreq, hin⟩, hlock⟩
    exact ⟨⟨tx', lookup_req_processIx hreq, hin⟩, lockAt_processIx_ne_none hlock⟩
  rw [mapLockedInputs_processIx] at hout
  split_ifs at hout with hcase
  · rcases lookup_insertAllNew_cases hout with hold | ⟨hfree, hin, rfl⟩
    · exact hkeep hold
    · rcases hknown hcase.1 hcase.2 with hlocked | hresolves
      · rw [hlocked out hin] at hfree
        cases hfree
      · rcases complete_of_resolves hcase.1 hresolves with ⟨lock, hlock, _⟩
        refine ⟨⟨tx, ?_, hin⟩, by rw [hlock]; exact Option.some_ne_none _⟩
        have hnew := (unknown_of_isRequest env s tx hcase.1).1
        rw [mapTxLockReq_processIx, if_pos ⟨hcase.1, Or.inr hresolves⟩, StdMap.lookup_insertNew,
          if_pos ⟨rfl, (StdMap.contains_eq_false_iff _ _).mpr hnew⟩]
  · exact hkeep hout

theorem LocksOwned.processTxlvote {env : SwiftEnv} {s : SwiftTx} (vote : CConsensusVote)
    (h : s.LocksOwned) : LocksOwned (s.processTxlvote env vote) := by
  intro out txid hout
  have hkeep : s.mapLockedInputs.lookup out = some txid ->
      (exists tx', (s.processTxlvote env vote).mapTxLockReq.lookup txid = some tx' ∧
        out ∈ tx'.prevouts) ∧ (s.processTxlvote env vote).lockAt txid ≠ none := by
    intro hold
    rcases h out txid hold with ⟨⟨tx', hreq, hin⟩, hlock⟩
    exact ⟨⟨tx', lookup_req_processTxlvote hreq, hin⟩, lockAt_processTxlvote_ne_none hlock⟩
  rw [mapLockedInputs_processTxlvote] at hout
  split_ifs at hout with hcase
  · rcases lookup_insertAllNew_cases hout with hold | ⟨_, hin, rfl⟩
    · exact hkeep hold
    · unfold votedInputs at hin
      cases hreq : s.mapTxLockReq.lookup vote.txHash with
      | none =>
          rw [hreq] at hin
          cases hin
      | some tx =>
          rw [hreq] at hin
          simp only at hin
          split_ifs at hin
          · refine ⟨⟨tx, lookup_req_processTxlvote hreq, hin⟩, ?_⟩
            rw [lockAt_processTxlvote, if_pos ⟨hcase.1, hcase.2, rfl⟩]
            exact Option.some_ne_none _
          · cases hin
  · exact hkeep hout

/-!
# Cleaning
-/

theorem LocksOwned.cleaned {env : SwiftEnv} {s : SwiftTx} (hkeyed : s.LocksKeyed)
    (h : s.LocksOwned) {out : COutPoint} {txid : UInt256}
    (hout : (s.cleanTransactionLocksList env).mapLockedInputs.lookup out = some txid) :
    s.mapLockedInputs.lookup out = some txid ∧ ¬ LockExpired env s txid := by
  rcases (lookup_cleaned_locked env hkeyed out txid).mp hout with ⟨hold, hkept⟩
  refine ⟨hold, fun hexp => hkept ?_⟩
  rcases h out txid hold with ⟨⟨tx, hreq, hin⟩, _⟩
  exact ⟨txid, tx, hexp, hreq, hin⟩

theorem LocksOwned.cleaned_lock {env : SwiftEnv} {s : SwiftTx} (hkeyed : s.LocksKeyed)
    (h : s.LocksOwned) {out : COutPoint} {txid : UInt256}
    (hout : (s.cleanTransactionLocksList env).mapLockedInputs.lookup out = some txid) :
    exists lock, (s.cleanTransactionLocksList env).mapTxLocks.lookup txid = some lock := by
  rcases h.cleaned hkeyed hout with ⟨hold, hlive⟩
  cases hlock : s.mapTxLocks.lookup txid with
  | none =>
      have hnone := (h out txid hold).2
      unfold lockAt at hnone
      rw [hlock] at hnone
      exact absurd rfl hnone
  | some lock => exact ⟨lock, (lookup_cleaned_locks env hkeyed txid lock).mpr ⟨hlock, hlive⟩⟩

theorem LocksOwned.cleanTransactionLocksList {env : SwiftEnv} {s : SwiftTx}
    (hkeyed : s.LocksKeyed) (h : s.LocksOwned) :
    LocksOwned (s.cleanTransactionLocksList env) := by
  intro out txid hout
  rcases h.cleaned hkeyed hout with ⟨hold, hlive⟩
  rcases h out txid hold with ⟨⟨tx, hreq, hin⟩, _⟩
  refine ⟨⟨tx, (lookup_cleaned_req env hkeyed txid tx).mpr ⟨hreq, hlive⟩, hin⟩, ?_⟩
  rcases h.cleaned_lock hkeyed hout with ⟨lock, hlock⟩
  rw [lockAt_of_lookup hlock]
  exact Option.some_ne_none _

end SwiftTx

end Hbcur
