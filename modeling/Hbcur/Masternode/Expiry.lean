import Hbcur.Masternode.Manager

/-!
# Broadcasts which expire

`CheckAndRemove` erases a broadcast from two maps.  Where it does so for the age of the last ping,
the iterator has moved on before the hash for the second map is taken.
-/

namespace Hbcur
namespace Manager

open Foundation Manager.CMasternodeMan

/-- The broadcasts with their hashes, as an iterator goes through them. -/
abbrev SeenEntry : Type := Sigma fun _ : UInt256 => CMasternodeBroadcast

/-!
# Removed masternodes
-/

section Removed

/-- One of the masternodes has the input of the broadcast. -/
def hasInputOf (mns : List CMasternode) (mnb : CMasternodeBroadcast) : Bool :=
  mns.any fun mn => mnb.vin == mn.vin

variable {s : CMasternodeMan}

theorem lookup_seen_forgetMasternode (mn : CMasternode) (hash : UInt256) :
    (s.forgetMasternode mn).mapSeenMasternodeBroadcast.lookup hash =
      (s.mapSeenMasternodeBroadcast.lookup hash).filter fun mnb => !(mnb.vin == mn.vin) :=
  StdMap.lookup_eraseWhere _ _ _

theorem lookup_sync_forgetMasternode (mn : CMasternode) (hash : UInt256) :
    (s.forgetMasternode mn).mapSeenSyncMNB.lookup hash =
      if (s.mapSeenMasternodeBroadcast.lookup hash).any fun mnb => mnb.vin == mn.vin then none
      else s.mapSeenSyncMNB.lookup hash := by
  unfold forgetMasternode
  rw [StdMap.lookup_eraseAll]
  congr 1
  rw [StdMap.mem_keysWhere_iff, Option.any_eq_true]

theorem lookup_seen_forgetAll (mns : List CMasternode) (hash : UInt256) :
    (mns.foldl forgetMasternode s).mapSeenMasternodeBroadcast.lookup hash =
      (s.mapSeenMasternodeBroadcast.lookup hash).filter fun mnb => !hasInputOf mns mnb := by
  induction mns generalizing s with
  | nil =>
      cases h : s.mapSeenMasternodeBroadcast.lookup hash with
      | none => exact h
      | some mnb => exact h
  | cons mn mns ih =>
      rw [List.foldl_cons, ih, lookup_seen_forgetMasternode, Option.filter_filter]
      congr 1
      funext mnb
      rw [hasInputOf, hasInputOf, List.any_cons, Bool.not_or]

theorem lookup_sync_forgetAll (mns : List CMasternode) (hash : UInt256) :
    (mns.foldl forgetMasternode s).mapSeenSyncMNB.lookup hash =
      if (s.mapSeenMasternodeBroadcast.lookup hash).any (hasInputOf mns) then none
      else s.mapSeenSyncMNB.lookup hash := by
  induction mns generalizing s with
  | nil =>
      cases h : s.mapSeenMasternodeBroadcast.lookup hash <;> rfl
  | cons mn mns ih =>
      rw [List.foldl_cons, ih, lookup_seen_forgetMasternode, lookup_sync_forgetMasternode]
      cases h : s.mapSeenMasternodeBroadcast.lookup hash with
      | none => rfl
      | some mnb =>
          by_cases hvin : (mnb.vin == mn.vin) = true
          · simp [hasInputOf, hvin]
          · simp [hasInputOf, hvin]

end Removed

/-!
# The loop over the broadcasts
-/

section Expired

variable {hashes : Hashes} {env : ManagerEnv}

/-- The hashes of the broadcasts which come right after one that is too old. -/
def afterOld (hashes : Hashes) (env : ManagerEnv) : List SeenEntry -> List UInt256
  | [] => []
  | [_] => []
  | e :: next :: rest =>
      (if isOld env e.2 then [next.2.getHash hashes] else []) ++
        afterOld hashes env (next :: rest)

/-- The last entry is too old. -/
def endsOld (env : ManagerEnv) (l : List SeenEntry) : Bool :=
  l.getLast?.any fun e => isOld env e.2

theorem expireBroadcasts_fst (l : List SeenEntry) (s : CMasternodeMan) :
    (expireBroadcasts hashes env l s).1 = endsOld env l := by
  induction l generalizing s with
  | nil => rfl
  | cons e rest ih =>
      cases rest with
      | nil =>
          unfold expireBroadcasts endsOld
          rw [List.getLast?_singleton, Option.any_some]
          split
          · case isTrue hold => exact hold.symm
          · case isFalse hold => exact (Bool.eq_false_iff.mpr hold).symm
      | cons next rest =>
          have hlast : endsOld env (e :: next :: rest) = endsOld env (next :: rest) := by
            unfold endsOld
            rw [List.getLast?_cons_cons]
          rw [hlast]
          unfold expireBroadcasts
          split
          · exact ih _
          · exact ih _

/-- One turn of the loop. -/
theorem expireBroadcasts_cons (e next : SeenEntry) (rest : List SeenEntry) (s : CMasternodeMan) :
    expireBroadcasts hashes env (e :: next :: rest) s =
      expireBroadcasts hashes env (next :: rest)
        (if isOld env e.2 then
          { s with
            mapSeenMasternodeBroadcast := s.mapSeenMasternodeBroadcast.erase e.1
            mapSeenSyncMNB := s.mapSeenSyncMNB.erase (next.2.getHash hashes) }
        else s) := by
  rw [expireBroadcasts]
  split <;> rfl

theorem lookup_seen_expireBroadcasts (l : List SeenEntry) (s : CMasternodeMan)
    (hash : UInt256) :
    (expireBroadcasts hashes env l s).2.mapSeenMasternodeBroadcast.lookup hash =
      if l.any fun e => isOld env e.2 && hash == e.1 then none
      else s.mapSeenMasternodeBroadcast.lookup hash := by
  induction l generalizing s with
  | nil => rfl
  | cons e rest ih =>
      cases rest with
      | nil =>
          unfold expireBroadcasts
          rw [List.any_cons, List.any_nil, Bool.or_false]
          cases isOld env e.2 with
          | false => rfl
          | true =>
              simp only [if_true, StdMap.lookup_erase_eq, Bool.true_and, beq_iff_eq]
      | cons next rest =>
          rw [expireBroadcasts_cons, ih, List.any_cons (a := e)]
          cases isOld env e.2 with
          | false => rfl
          | true =>
              simp only [if_true, StdMap.lookup_erase_eq, Bool.true_and]
              by_cases hfirst : hash = e.1
              · rw [hfirst, beq_self_eq_true, Bool.true_or, if_pos rfl, if_pos rfl, ite_self]
              · rw [beq_false_of_ne hfirst, Bool.false_or, if_neg hfirst]

theorem lookup_sync_expireBroadcasts (l : List SeenEntry) (s : CMasternodeMan)
    (hend : endsOld env l = false) (hash : UInt256) :
    (expireBroadcasts hashes env l s).2.mapSeenSyncMNB.lookup hash =
      if hash ∈ afterOld hashes env l then none else s.mapSeenSyncMNB.lookup hash := by
  induction l generalizing s with
  | nil => rfl
  | cons e rest ih =>
      cases rest with
      | nil =>
          unfold endsOld at hend
          rw [List.getLast?_singleton, Option.any_some] at hend
          unfold expireBroadcasts
          rw [if_neg (by rw [hend]; exact Bool.false_ne_true)]
          rfl
      | cons next rest =>
          have hlast : endsOld env (next :: rest) = false := by
            unfold endsOld at hend ⊢
            rw [List.getLast?_cons_cons] at hend
            exact hend
          rw [expireBroadcasts_cons, ih _ hlast, afterOld]
          cases isOld env e.2 with
          | false => rfl
          | true =>
              simp only [if_true, StdMap.lookup_erase_eq, List.mem_append, List.mem_singleton]
              by_cases hnext : hash = next.2.getHash hashes
              · rw [if_pos hnext, if_pos (Or.inl hnext), ite_self]
              · simp only [hnext, false_or, if_false]

end Expired

/-!
# The whole call
-/

section Call

variable {hashes : Hashes} {env : ManagerEnv} {forceExpiredRemoval : Bool} {s : CMasternodeMan}

/-- The masternodes which are removed once all have been checked. -/
def removedMasternodes (env : ManagerEnv) (forceExpiredRemoval : Bool) (s : CMasternodeMan) :
    List CMasternode :=
  (s.check env).vMasternodes.filter (shouldRemove env forceExpiredRemoval)

/-- The broadcast is of a removed masternode, or its last ping is too old. -/
def expires (env : ManagerEnv) (forceExpiredRemoval : Bool) (s : CMasternodeMan)
    (mnb : CMasternodeBroadcast) : Bool :=
  hasInputOf (removedMasternodes env forceExpiredRemoval s) mnb || isOld env mnb

/-- The broadcasts which are not of a removed masternode, in the order of their hashes. -/
def remaining (env : ManagerEnv) (forceExpiredRemoval : Bool) (s : CMasternodeMan) :
    List SeenEntry :=
  (StdMap.inOrder s.mapSeenMasternodeBroadcast).filter fun e =>
    !hasInputOf (removedMasternodes env forceExpiredRemoval s) e.2

/--
The call forgets the broadcasts which expire, erases from the other map the hashes of the ones it
forgets and of no others, and takes no end of a map for an entry.
-/
structure ForgetsExactly (hashes : Hashes) (env : ManagerEnv) (forceExpiredRemoval : Bool)
    (s : CMasternodeMan) : Prop where
  safe : (s.checkAndRemove hashes env forceExpiredRemoval).1 = false
  removed : forall hash,
    (s.checkAndRemove hashes env forceExpiredRemoval).2.mapSeenMasternodeBroadcast.lookup hash =
      (s.mapSeenMasternodeBroadcast.lookup hash).filter fun mnb =>
        !expires env forceExpiredRemoval s mnb
  paired : forall hash,
    (s.checkAndRemove hashes env forceExpiredRemoval).2.mapSeenSyncMNB.lookup hash =
      if StdMap.contains s.mapSeenMasternodeBroadcast hash &&
          !StdMap.contains
            (s.checkAndRemove hashes env forceExpiredRemoval).2.mapSeenMasternodeBroadcast hash
      then none
      else s.mapSeenSyncMNB.lookup hash

/--
The last of the remaining broadcasts is not too old, and under a hash which is in the other map and
is not of a removed masternode there is a broadcast that is too old exactly if the hash comes after
one that is.
-/
def OldInPairs (hashes : Hashes) (env : ManagerEnv) (forceExpiredRemoval : Bool)
    (s : CMasternodeMan) : Prop :=
  endsOld env (remaining env forceExpiredRemoval s) = false ∧
    forall hash, StdMap.contains s.mapSeenSyncMNB hash = true ->
      ((s.mapSeenMasternodeBroadcast.lookup hash).any
        (hasInputOf (removedMasternodes env forceExpiredRemoval s))) = false ->
      (hash ∈ afterOld hashes env (remaining env forceExpiredRemoval s) <->
        (s.mapSeenMasternodeBroadcast.lookup hash).any (isOld env) = true)

theorem lookup_seen_removeMasternodes (hash : UInt256) :
    ((s.check env).removeMasternodes env forceExpiredRemoval).mapSeenMasternodeBroadcast.lookup
        hash =
      (s.mapSeenMasternodeBroadcast.lookup hash).filter fun mnb =>
        !hasInputOf (removedMasternodes env forceExpiredRemoval s) mnb :=
  lookup_seen_forgetAll (s := s.check env) _ hash

theorem lookup_sync_removeMasternodes (hash : UInt256) :
    ((s.check env).removeMasternodes env forceExpiredRemoval).mapSeenSyncMNB.lookup hash =
      if (s.mapSeenMasternodeBroadcast.lookup hash).any
          (hasInputOf (removedMasternodes env forceExpiredRemoval s)) then none
      else s.mapSeenSyncMNB.lookup hash :=
  lookup_sync_forgetAll (s := s.check env) _ hash

theorem inOrder_removeMasternodes :
    StdMap.inOrder
        ((s.check env).removeMasternodes env forceExpiredRemoval).mapSeenMasternodeBroadcast =
      remaining env forceExpiredRemoval s := by
  apply StdMap.inOrder_eq_filter
  intro k v
  rw [lookup_seen_removeMasternodes, Option.filter_eq_some_iff]

theorem mem_remaining_iff {e : SeenEntry} :
    e ∈ remaining env forceExpiredRemoval s <->
      s.mapSeenMasternodeBroadcast.lookup e.1 = some e.2 ∧
        hasInputOf (removedMasternodes env forceExpiredRemoval s) e.2 = false := by
  unfold remaining
  rw [List.mem_filter, Bool.not_eq_true']
  exact and_congr_left fun _ => StdMap.mem_inOrder_iff _ e.1 e.2

theorem fst_checkAndRemove :
    (s.checkAndRemove hashes env forceExpiredRemoval).1 =
      endsOld env (remaining env forceExpiredRemoval s) := by
  rw [← inOrder_removeMasternodes]
  exact expireBroadcasts_fst _ _

/-- Whether the loop erases a hash is up to the broadcast which is seen under it. -/
theorem any_remaining {hash : UInt256} {mnb : CMasternodeBroadcast}
    (h : s.mapSeenMasternodeBroadcast.lookup hash = some mnb)
    (hinput : hasInputOf (removedMasternodes env forceExpiredRemoval s) mnb = false) :
    ((remaining env forceExpiredRemoval s).any fun e => isOld env e.2 && hash == e.1) =
      isOld env mnb := by
  rw [Bool.eq_iff_iff, List.any_eq_true]
  constructor
  · rintro ⟨e, hmem, he⟩
    rw [Bool.and_eq_true, beq_iff_eq] at he
    have hlookup := (mem_remaining_iff.mp hmem).1
    rw [← he.2, h] at hlookup
    cases hlookup
    exact he.1
  · intro hold
    refine ⟨⟨hash, mnb⟩, mem_remaining_iff.mpr ⟨h, hinput⟩, ?_⟩
    rw [Bool.and_eq_true, beq_iff_eq]
    exact ⟨hold, rfl⟩

theorem lookup_seen_checkAndRemove (hash : UInt256) :
    (s.checkAndRemove hashes env forceExpiredRemoval).2.mapSeenMasternodeBroadcast.lookup hash =
      (s.mapSeenMasternodeBroadcast.lookup hash).filter fun mnb =>
        !expires env forceExpiredRemoval s mnb := by
  have hloop := @lookup_seen_expireBroadcasts hashes env (remaining env forceExpiredRemoval s)
    (((s.check env).removeMasternodes env forceExpiredRemoval).expireRequests env) hash
  rw [← inOrder_removeMasternodes] at hloop
  refine hloop.trans ?_
  have hbefore := @lookup_seen_removeMasternodes env forceExpiredRemoval s hash
  rw [inOrder_removeMasternodes]
  refine (congrArg (fun found => ite _ none found) hbefore).trans ?_
  cases h : s.mapSeenMasternodeBroadcast.lookup hash with
  | none => exact ite_self none
  | some mnb =>
      rw [Option.filter_some, Option.filter_some, expires]
      cases hinput : hasInputOf (removedMasternodes env forceExpiredRemoval s) mnb with
      | true => exact ite_self none
      | false =>
          rw [any_remaining h hinput]
          cases isOld env mnb <;> rfl

theorem lookup_sync_checkAndRemove
    (hend : endsOld env (remaining env forceExpiredRemoval s) = false) (hash : UInt256) :
    (s.checkAndRemove hashes env forceExpiredRemoval).2.mapSeenSyncMNB.lookup hash =
      if hash ∈ afterOld hashes env (remaining env forceExpiredRemoval s) then none
      else if (s.mapSeenMasternodeBroadcast.lookup hash).any
          (hasInputOf (removedMasternodes env forceExpiredRemoval s)) then none
      else s.mapSeenSyncMNB.lookup hash := by
  have hloop := @lookup_sync_expireBroadcasts hashes env (remaining env forceExpiredRemoval s)
    (((s.check env).removeMasternodes env forceExpiredRemoval).expireRequests env) hend hash
  have hbefore := @lookup_sync_removeMasternodes env forceExpiredRemoval s hash
  rw [← inOrder_removeMasternodes] at hloop ⊢
  exact hloop.trans (congrArg (fun found => ite _ none found) hbefore)

/-- A hash was seen and no longer is. -/
theorem forgotten_eq (hash : UInt256) :
    (StdMap.contains s.mapSeenMasternodeBroadcast hash &&
        !StdMap.contains
          (s.checkAndRemove hashes env forceExpiredRemoval).2.mapSeenMasternodeBroadcast hash) =
      (s.mapSeenMasternodeBroadcast.lookup hash).any (expires env forceExpiredRemoval s) := by
  unfold StdMap.contains
  rw [lookup_seen_checkAndRemove]
  cases s.mapSeenMasternodeBroadcast.lookup hash with
  | none => rfl
  | some mnb =>
      rw [Option.filter_some, Option.any_some]
      cases expires env forceExpiredRemoval s mnb <;> rfl

theorem any_expires (found : Option CMasternodeBroadcast) :
    found.any (expires env forceExpiredRemoval s) =
      (found.any (hasInputOf (removedMasternodes env forceExpiredRemoval s)) ||
        found.any (isOld env)) := by
  cases found <;> rfl

/-- For which broadcasts too old the second map is treated like the first. -/
theorem forgetsExactly_iff_oldInPairs (hashes : Hashes) (env : ManagerEnv)
    (forceExpiredRemoval : Bool) (s : CMasternodeMan) :
    ForgetsExactly hashes env forceExpiredRemoval s <->
      OldInPairs hashes env forceExpiredRemoval s := by
  constructor
  · intro h
    have hend := fst_checkAndRemove.symm.trans h.safe
    refine ⟨hend, fun hash hsync hinput => ?_⟩
    have hpaired := h.paired hash
    rcases (StdMap.contains_iff _ _).mp hsync with ⟨nSeen, hlookup⟩
    rw [forgotten_eq, any_expires, lookup_sync_checkAndRemove hend, hinput, hlookup,
      Bool.false_or, if_neg Bool.false_ne_true] at hpaired
    by_cases hafter : hash ∈ afterOld hashes env (remaining env forceExpiredRemoval s)
    · rw [if_pos hafter] at hpaired
      split at hpaired
      · case isTrue hold => exact iff_of_true hafter hold
      · cases hpaired
    · rw [if_neg hafter] at hpaired
      split at hpaired
      · cases hpaired
      · case isFalse hold => exact iff_of_false hafter hold
  · rintro ⟨hend, hpairs⟩
    refine ⟨fst_checkAndRemove.trans hend, lookup_seen_checkAndRemove, fun hash => ?_⟩
    rw [forgotten_eq, any_expires, lookup_sync_checkAndRemove hend]
    cases hinput : (s.mapSeenMasternodeBroadcast.lookup hash).any
        (hasInputOf (removedMasternodes env forceExpiredRemoval s)) with
    | true =>
        rw [Bool.true_or]
        exact ite_self none
    | false =>
        rw [Bool.false_or, if_neg Bool.false_ne_true]
        cases hsync : StdMap.contains s.mapSeenSyncMNB hash with
        | true => exact if_congr (hpairs hash hsync hinput) rfl rfl
        | false =>
            rw [(StdMap.contains_eq_false_iff _ _).mp hsync, ite_self, ite_self]

end Call

/-!
# An old broadcast before a fresh one
-/

namespace ExpiryExample

open ManagerExample

/-- Two broadcasts which are both in the other map; the first has not been pinged for long. -/
def state : CMasternodeMan where
  vMasternodes := []
  mapSeenMasternodeBroadcast :=
    (AList.insert 2 (broadcast 2 100000) ∅).insert 1 (broadcast 1 1)
  mapSeenMasternodePing := ∅
  mAskedUsForMasternodeList := ∅
  mWeAskedForMasternodeList := ∅
  mWeAskedForMasternodeListEntry := ∅
  mapSeenSyncMNB := (AList.insert 2 1 ∅).insert 1 1

theorem remaining_state :
    remaining env false state = [⟨1, broadcast 1 1⟩, ⟨2, broadcast 2 100000⟩] := by
  have hsorted : StdMap.inOrder state.mapSeenMasternodeBroadcast =
      [⟨1, broadcast 1 1⟩, ⟨2, broadcast 2 100000⟩] :=
    List.mergeSort_of_pairwise (by decide)
  unfold remaining
  rw [hsorted]
  rfl

/-- The hash of the fresh broadcast is erased in place of the other. -/
theorem not_forgetsExactly_state : ¬ ForgetsExactly hashes env false state := by
  intro h
  have hpaired := h.paired 2
  have hend : endsOld env (remaining env false state) = false := by
    rw [remaining_state]
    decide
  rw [forgotten_eq, lookup_sync_checkAndRemove hend, remaining_state] at hpaired
  revert hpaired
  decide

end ExpiryExample

end Manager
end Hbcur
