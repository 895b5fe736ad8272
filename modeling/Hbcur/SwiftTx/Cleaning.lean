import Hbcur.SwiftTx.Effects

/-!
# What cleaning removes

The loop of `CleanTransactionLocksList` read off map by map: which entries it keeps depends on
the locks that have expired and on the requests known under their hashes.
-/

namespace Hbcur

open Foundation

abbrev LockEntry := Sigma fun _ : UInt256 => CTransactionLock

namespace SwiftTx

/-- An entry whose time is over. -/
def EntryExpired (env : SwiftEnv) (e : LockEntry) : Prop :=
  env.time > e.2.nExpiration

/-- The maps after a loop over some of the entries. -/
structure CleanedBy (env : SwiftEnv) (es : List LockEntry) (s s' : SwiftTx) : Prop where
  locks : forall txid lock, s'.mapTxLocks.lookup txid = some lock <->
    s.mapTxLocks.lookup txid = some lock ∧
      ¬ exists e, e ∈ es ∧ EntryExpired env e ∧ e.1 = txid
  req : forall txid tx, s'.mapTxLockReq.lookup txid = some tx <->
    s.mapTxLockReq.lookup txid = some tx ∧
      ¬ exists e, e ∈ es ∧ EntryExpired env e ∧ e.1 = txid
  rejected : forall txid tx, s'.mapTxLockReqRejected.lookup txid = some tx <->
    s.mapTxLockReqRejected.lookup txid = some tx ∧
      ¬ exists e, e ∈ es ∧ EntryExpired env e ∧ s.mapTxLockReq.lookup e.1 ≠ none ∧ e.1 = txid
  locked : forall out txid, s'.mapLockedInputs.lookup out = some txid <->
    s.mapLockedInputs.lookup out = some txid ∧
      ¬ exists e, e ∈ es ∧ EntryExpired env e ∧
        exists tx, s.mapTxLockReq.lookup e.1 = some tx ∧ out ∈ tx.prevouts
  voted : forall key vote, s'.mapTxLockVote.lookup key = some vote <->
    s.mapTxLockVote.lookup key = some vote ∧
      ¬ exists e, e ∈ es ∧ EntryExpired env e ∧ s.mapTxLockReq.lookup e.1 ≠ none ∧
        key ∈ e.2.vecConsensusVotes.map CConsensusVote.getHash

theorem cleanedBy_nil (env : SwiftEnv) (s : SwiftTx) : CleanedBy env [] s s := by
  constructor <;> simp

theorem cleanLock_of_live {env : SwiftEnv} {e : LockEntry} (h : ¬ EntryExpired env e)
    (s : SwiftTx) : s.cleanLock env e.1 e.2 = s := if_neg h

theorem cleanedBy_cons_live {env : SwiftEnv} {e : LockEntry} {es : List LockEntry}
    {s s' : SwiftTx} (hlive : ¬ EntryExpired env e) (h : CleanedBy env es s s') :
    CleanedBy env (e :: es) s s' := by
  have hskip : forall P : LockEntry -> Prop,
      (exists e', e' ∈ e :: es ∧ EntryExpired env e' ∧ P e') <->
        exists e', e' ∈ es ∧ EntryExpired env e' ∧ P e' := by
    intro P
    constructor
    · rintro ⟨e', hmem, hexp, hp⟩
      rcases List.mem_cons.mp hmem with rfl | hin
      · exact absurd hexp hlive
      · exact ⟨e', hin, hexp, hp⟩
    · rintro ⟨e', hin, hexp, hp⟩
      exact ⟨e', List.mem_cons_of_mem _ hin, hexp, hp⟩
  constructor
  · intro txid lock
    rw [hskip, h.locks]
  · intro txid tx
    rw [hskip, h.req]
  · intro txid tx
    rw [hskip, h.rejected]
  · intro out txid
    rw [hskip, h.locked]
  · intro key vote
    rw [hskip, h.voted]

/-!
# One expired lock
-/

section One

variable {env : SwiftEnv} {e : LockEntry} (hkey : e.2.txHash = e.1)
  (hexp : EntryExpired env e) (s : SwiftTx)

include hkey hexp

theorem cleanLock_of_expired : s.cleanLock env e.1 e.2 =
    match s.mapTxLockReq.lookup e.1 with
    | none => { s with mapTxLocks := s.mapTxLocks.erase e.1 }
    | some tx =>
        { s with
          mapTxLocks := s.mapTxLocks.erase e.1
          mapLockedInputs := StdMap.eraseAll s.mapLockedInputs tx.prevouts
          mapTxLockReq := s.mapTxLockReq.erase e.1
          mapTxLockReqRejected := s.mapTxLockReqRejected.erase e.1
          mapTxLockVote := StdMap.eraseAll s.mapTxLockVote
            (e.2.vecConsensusVotes.map CConsensusVote.getHash) } := by
  have hif : s.cleanLock env e.1 e.2 =
      { s.forgetRequest e.2 with mapTxLocks := (s.forgetRequest e.2).mapTxLocks.erase e.1 } :=
    if_pos hexp
  rw [hif]
  unfold forgetRequest
  rw [hkey]
  cases s.mapTxLockReq.lookup e.1 <;> rfl

theorem cleanLock_locks (txid : UInt256) :
    (s.cleanLock env e.1 e.2).mapTxLocks.lookup txid =
      if txid = e.1 then none else s.mapTxLocks.lookup txid := by
  rw [cleanLock_of_expired hkey hexp]
  cases s.mapTxLockReq.lookup e.1 <;> exact StdMap.lookup_erase_eq _ _ _

theorem cleanLock_req (txid : UInt256) :
    (s.cleanLock env e.1 e.2).mapTxLockReq.lookup txid =
      if txid = e.1 then none else s.mapTxLockReq.lookup txid := by
  rw [cleanLock_of_expired hkey hexp]
  cases hreq : s.mapTxLockReq.lookup e.1 with
  | none =>
      simp only
      split_ifs with h
      · rw [h, hreq]
      · rfl
  | some tx => exact StdMap.lookup_erase_eq _ _ _

theorem cleanLock_rejected (txid : UInt256) :
    (s.cleanLock env e.1 e.2).mapTxLockReqRejected.lookup txid =
      if txid = e.1 ∧ s.mapTxLockReq.lookup e.1 ≠ none then none
      else s.mapTxLockReqRejected.lookup txid := by
  rw [cleanLock_of_expired hkey hexp]
  cases hreq : s.mapTxLockReq.lookup e.1 with
  | none => simp
  | some tx => simp [StdMap.lookup_erase_eq]

theorem cleanLock_locked (out : COutPoint) :
    (s.cleanLock env e.1 e.2).mapLockedInputs.lookup out =
      match s.mapTxLockReq.lookup e.1 with
      | none => s.mapLockedInputs.lookup out
      | some tx => if out ∈ tx.prevouts then none else s.mapLockedInputs.lookup out := by
  rw [cleanLock_of_expired hkey hexp]
  cases s.mapTxLockReq.lookup e.1 with
  | none => rfl
  | some tx => exact StdMap.lookup_eraseAll _ _ _

theorem cleanLock_voted (key : UInt256) :
    (s.cleanLock env e.1 e.2).mapTxLockVote.lookup key =
      if s.mapTxLockReq.lookup e.1 ≠ none ∧
          key ∈ e.2.vecConsensusVotes.map CConsensusVote.getHash then none
      else s.mapTxLockVote.lookup key := by
  rw [cleanLock_of_expired hkey hexp]
  cases s.mapTxLockReq.lookup e.1 with
  | none => simp
  | some tx => simp [StdMap.lookup_eraseAll]

end One

/-!
# The loop
-/

theorem ite_none_eq_some_iff {value : Type} {c : Prop} [Decidable c] {x : Option value}
    {v : value} : (if c then none else x) = some v <-> x = some v ∧ ¬ c := by
  by_cases h : c <;> simp [h]

theorem cleanedBy_cons_expired {env : SwiftEnv} {e : LockEntry} {es : List LockEntry}
    {s s' : SwiftTx} (hkey : e.2.txHash = e.1) (hexp : EntryExpired env e)
    (hnew : e.1 ∉ es.map Sigma.fst) (h : CleanedBy env es (s.cleanLock env e.1 e.2) s') :
    CleanedBy env (e :: es) s s' := by
  have hother : forall e', e' ∈ es -> e'.1 ≠ e.1 := by
    intro e' hmem heq
    rw [← heq] at hnew
    exact hnew (List.mem_map_of_mem hmem)
  -- the requests of the other entries are still there
  have hreq : forall e', e' ∈ es ->
      (s.cleanLock env e.1 e.2).mapTxLockReq.lookup e'.1 = s.mapTxLockReq.lookup e'.1 := by
    intro e' hmem
    rw [cleanLock_req hkey hexp, if_neg (hother e' hmem)]
  have hsplit : forall P : LockEntry -> Prop,
      (exists e', e' ∈ e :: es ∧ EntryExpired env e' ∧ P e') <->
        P e ∨ exists e', e' ∈ es ∧ EntryExpired env e' ∧ P e' := by
    intro P
    constructor
    · rintro ⟨e', hmem, hexp', hp⟩
      rcases List.mem_cons.mp hmem with rfl | hin
      · exact Or.inl hp
      · exact Or.inr ⟨e', hin, hexp', hp⟩
    · rintro (hp | ⟨e', hin, hexp', hp⟩)
      · exact ⟨e, List.mem_cons_self, hexp, hp⟩
      · exact ⟨e', List.mem_cons_of_mem _ hin, hexp', hp⟩
  have hcongr : forall P P' : LockEntry -> Prop, (forall e', e' ∈ es -> (P e' <-> P' e')) ->
      ((exists e', e' ∈ es ∧ EntryExpired env e' ∧ P e') <->
        exists e', e' ∈ es ∧ EntryExpired env e' ∧ P' e') := by
    intro P P' hp
    constructor
    · rintro ⟨e', hin, hexp', hp'⟩
      exact ⟨e', hin, hexp', (hp e' hin).mp hp'⟩
    · rintro ⟨e', hin, hexp', hp'⟩
      exact ⟨e', hin, hexp', (hp e' hin).mpr hp'⟩
  constructor
  · intro txid lock
    rw [h.locks, cleanLock_locks hkey hexp, ite_none_eq_some_iff, hsplit, not_or, and_assoc,
      eq_comm (a := txid)]
  · intro txid tx
    rw [h.req, cleanLock_req hkey hexp, ite_none_eq_some_iff, hsplit, not_or, and_assoc,
      eq_comm (a := txid)]
  · intro txid tx
    rw [h.rejected, cleanLock_rejected hkey hexp, ite_none_eq_some_iff, hsplit, not_or,
      and_assoc]
    rw [hcongr _ (fun e' => s.mapTxLockReq.lookup e'.1 ≠ none ∧ e'.1 = txid)
      (fun e' hmem => by rw [hreq e' hmem])]
    rw [and_comm (a := txid = e.1), eq_comm (a := txid)]
  · intro out txid
    rw [h.locked, cleanLock_locked hkey hexp, hsplit, not_or]
    rw [hcongr _ (fun e' => exists tx, s.mapTxLockReq.lookup e'.1 = some tx ∧
      out ∈ tx.prevouts) (fun e' hmem => by rw [hreq e' hmem])]
    cases hlookup : s.mapTxLockReq.lookup e.1 with
    | none => simp
    | some tx => simp [and_assoc, and_left_comm]
  · intro key vote
    rw [h.voted, cleanLock_voted hkey hexp, ite_none_eq_some_iff, hsplit, not_or, and_assoc]
    rw [hcongr _ (fun e' => s.mapTxLockReq.lookup e'.1 ≠ none ∧
      key ∈ e'.2.vecConsensusVotes.map CConsensusVote.getHash)
      (fun e' hmem => by rw [hreq e' hmem])]

theorem cleanedBy_foldl (env : SwiftEnv) :
    forall (es : List LockEntry) (s : SwiftTx), (es.map Sigma.fst).Nodup ->
      (forall e, e ∈ es -> e.2.txHash = e.1) ->
      CleanedBy env es s (es.foldl (fun s e => s.cleanLock env e.1 e.2) s) := by
  intro es
  induction es with
  | nil => exact fun s _ _ => cleanedBy_nil env s
  | cons e es ih =>
      intro s hnodup hkeyed
      rw [List.map_cons, List.nodup_cons] at hnodup
      have hrest := ih (s.cleanLock env e.1 e.2) hnodup.2
        (fun e' hmem => hkeyed e' (List.mem_cons_of_mem _ hmem))
      rw [List.foldl_cons]
      by_cases hexp : EntryExpired env e
      · exact cleanedBy_cons_expired (hkeyed e List.mem_cons_self) hexp hnodup.1 hrest
      · rw [cleanLock_of_live hexp] at hrest ⊢
        exact cleanedBy_cons_live hexp hrest

/-- Every lock is kept under its own hash. -/
def LocksKeyed (s : SwiftTx) : Prop :=
  forall txid lock, s.mapTxLocks.lookup txid = some lock -> lock.txHash = txid

/-- Whether the lock of a transaction has expired. -/
def LockExpired (env : SwiftEnv) (s : SwiftTx) (txid : UInt256) : Prop :=
  exists lock, s.mapTxLocks.lookup txid = some lock ∧ env.time > lock.nExpiration

theorem mem_entries_iff (s : SwiftTx) (e : LockEntry) :
    e ∈ s.mapTxLocks.entries <-> s.mapTxLocks.lookup e.1 = some e.2 :=
  (AList.mem_lookup_iff).symm

theorem cleanTransactionLocksList_spec (env : SwiftEnv) (s : SwiftTx) (h : s.LocksKeyed) :
    CleanedBy env s.mapTxLocks.entries s (s.cleanTransactionLocksList env) := by
  refine cleanedBy_foldl env s.mapTxLocks.entries s ?_ ?_
  · exact s.mapTxLocks.nodupKeys
  · intro e hmem
    exact h e.1 e.2 ((s.mem_entries_iff e).mp hmem)

/-- An expired entry with a property is an expired lock with it. -/
theorem exists_expired_iff (env : SwiftEnv) (s : SwiftTx)
    (P : UInt256 -> CTransactionLock -> Prop) :
    (exists e, e ∈ s.mapTxLocks.entries ∧ EntryExpired env e ∧ P e.1 e.2) <->
      exists txid lock, s.mapTxLocks.lookup txid = some lock ∧
        env.time > lock.nExpiration ∧ P txid lock := by
  constructor
  · rintro ⟨e, hmem, hexp, hp⟩
    exact ⟨e.1, e.2, (s.mem_entries_iff e).mp hmem, hexp, hp⟩
  · rintro ⟨txid, lock, hlook, hexp, hp⟩
    exact ⟨⟨txid, lock⟩, (s.mem_entries_iff ⟨txid, lock⟩).mpr hlook, hexp, hp⟩

/-!
# After a call
-/

section Cleaned

variable (env : SwiftEnv) {s : SwiftTx} (h : s.LocksKeyed)

include h

theorem lookup_cleaned_locks (txid : UInt256) (lock : CTransactionLock) :
    (s.cleanTransactionLocksList env).mapTxLocks.lookup txid = some lock <->
      s.mapTxLocks.lookup txid = some lock ∧ ¬ LockExpired env s txid := by
  rw [(cleanTransactionLocksList_spec env s h).locks,
    exists_expired_iff env s fun txid' _ => txid' = txid]
  refine and_congr_right fun _ => not_congr ?_
  constructor
  · rintro ⟨_, lock', hlook, hexp, rfl⟩
    exact ⟨lock', hlook, hexp⟩
  · rintro ⟨lock', hlook, hexp⟩
    exact ⟨txid, lock', hlook, hexp, rfl⟩

theorem lookup_cleaned_req (txid : UInt256) (tx : CTransaction) :
    (s.cleanTransactionLocksList env).mapTxLockReq.lookup txid = some tx <->
      s.mapTxLockReq.lookup txid = some tx ∧ ¬ LockExpired env s txid := by
  rw [(cleanTransactionLocksList_spec env s h).req,
    exists_expired_iff env s fun txid' _ => txid' = txid]
  refine and_congr_right fun _ => not_congr ?_
  constructor
  · rintro ⟨_, lock', hlook, hexp, rfl⟩
    exact ⟨lock', hlook, hexp⟩
  · rintro ⟨lock', hlook, hexp⟩
    exact ⟨txid, lock', hlook, hexp, rfl⟩

/-- What is unlocked was spent by a known request whose lock has expired. -/
theorem lookup_cleaned_locked (out : COutPoint) (txid : UInt256) :
    (s.cleanTransactionLocksList env).mapLockedInputs.lookup out = some txid <->
      s.mapLockedInputs.lookup out = some txid ∧
        ¬ exists txid' tx, LockExpired env s txid' ∧
          s.mapTxLockReq.lookup txid' = some tx ∧ out ∈ tx.prevouts := by
  rw [(cleanTransactionLocksList_spec env s h).locked,
    exists_expired_iff env s fun txid' _ =>
      exists tx, s.mapTxLockReq.lookup txid' = some tx ∧ out ∈ tx.prevouts]
  refine and_congr_right fun _ => not_congr ?_
  constructor
  · rintro ⟨txid', lock', hlook, hexp, tx, hreq, hmem⟩
    exact ⟨txid', tx, ⟨lock', hlook, hexp⟩, hreq, hmem⟩
  · rintro ⟨txid', tx, ⟨lock', hlook, hexp⟩, hreq, hmem⟩
    exact ⟨txid', lock', hlook, hexp, tx, hreq, hmem⟩

theorem lookup_cleaned_voted (key : UInt256) (vote : CConsensusVote) :
    (s.cleanTransactionLocksList env).mapTxLockVote.lookup key = some vote <->
      s.mapTxLockVote.lookup key = some vote ∧
        ¬ exists txid lock, s.mapTxLocks.lookup txid = some lock ∧
          env.time > lock.nExpiration ∧ s.mapTxLockReq.lookup txid ≠ none ∧
          key ∈ lock.vecConsensusVotes.map CConsensusVote.getHash := by
  rw [(cleanTransactionLocksList_spec env s h).voted,
    exists_expired_iff env s fun txid lock =>
      s.mapTxLockReq.lookup txid ≠ none ∧
        key ∈ lock.vecConsensusVotes.map CConsensusVote.getHash]

end Cleaned

end SwiftTx

end Hbcur
