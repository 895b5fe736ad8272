import Hbcur.Masternode.SeenVotes

/-!
# Votes which come before their item

The votes which wait for an item are kept under the hash of the item, so there is room for one
of them.  Here votes of several masternodes come in before and after the item itself.
-/

namespace Hbcur

open Foundation

variable {choice item : Type}

/-- A vote as it is taken from a message. -/
def MasternodeVote.received (vote : MasternodeVote choice) : MasternodeVote choice :=
  { vote with fValid := true }

/-!
# One item of the book
-/

namespace Voted

def deliver (rules : VoteRules choice) (voted : Voted item choice)
    (o : Int × MasternodeVote choice) : Voted item choice :=
  { voted with mapVotes := Hbcur.deliver rules o.1 voted.mapVotes o.2 }

variable {rules : VoteRules choice}

theorem lookup_deliver_of_ne {voted : Voted item choice} {o : Int × MasternodeVote choice}
    {k : UInt256} (hne : k ≠ o.2.key rules) :
    (voted.deliver rules o).mapVotes.lookup k = voted.mapVotes.lookup k := by
  refine (lookup_deliver rules o.1 voted.mapVotes o.2 k).trans (if_neg ?_)
  exact fun h => hne h.1

/-- The first vote of a masternode is taken unless it is too far ahead. -/
theorem lookup_deliver_first {voted : Voted item choice} {o : Int × MasternodeVote choice}
    (hfirst : voted.mapVotes.lookup (o.2.key rules) = none) :
    (voted.deliver rules o).mapVotes.lookup (o.2.key rules) =
      if o.2.nTime ≤ o.1 + 60 * 60 then some o.2 else none := by
  apply (lookup_deliver rules o.1 voted.mapVotes o.2 _).trans
  simp [hfirst, refusal_eq_none_iff]

theorem lookup_foldl_deliver_of_notMem {k : UInt256} :
    forall (os : List (Int × MasternodeVote choice)) (voted : Voted item choice),
      (forall o, o ∈ os -> k ≠ o.2.key rules) ->
        (os.foldl (deliver rules) voted).mapVotes.lookup k = voted.mapVotes.lookup k := by
  intro os
  induction os with
  | nil => exact fun _ _ => rfl
  | cons o os ih =>
      intro voted hne
      rw [List.foldl_cons, ih _ fun o' hmem => hne o' (List.mem_cons_of_mem _ hmem)]
      exact lookup_deliver_of_ne (hne o List.mem_cons_self)

/-- Votes of different masternodes do not get in each other's way. -/
theorem lookup_foldl_deliver {o : Int × MasternodeVote choice} :
    forall (os : List (Int × MasternodeVote choice)) (voted : Voted item choice),
      (os.map fun o => o.2.key rules).Nodup -> o ∈ os ->
      voted.mapVotes.lookup (o.2.key rules) = none ->
        (os.foldl (deliver rules) voted).mapVotes.lookup (o.2.key rules) =
          if o.2.nTime ≤ o.1 + 60 * 60 then some o.2 else none := by
  intro os
  induction os with
  | nil => exact fun _ _ hmem _ => nomatch hmem
  | cons o' os ih =>
      intro voted hnodup hmem hfirst
      rw [List.map_cons, List.nodup_cons] at hnodup
      rw [List.foldl_cons]
      rcases List.mem_cons.mp hmem with heq | hrest
      · subst heq
        rw [lookup_foldl_deliver_of_notMem os, lookup_deliver_first hfirst]
        intro other hother heq
        rw [heq] at hnodup
        exact hnodup.1 (List.mem_map_of_mem hother)
      · apply ih _ hnodup.2 hrest
        rw [lookup_deliver_of_ne, hfirst]
        intro heq
        rw [← heq] at hnodup
        exact hnodup.1 (List.mem_map_of_mem hrest)

end Voted

namespace VoteBook

/-- What is counted on the item of a vote for the vote's masternode. -/
def counted (rules : VoteRules choice) (book : VoteBook item choice)
    (vote : MasternodeVote choice) : Option (MasternodeVote choice) :=
  (book.mapItems.lookup vote.nHash).bind fun voted => voted.mapVotes.lookup (vote.key rules)

/-- The votes which wait for an item. -/
def waiting (book : VoteBook item choice) (hash : UInt256) : List (MasternodeVote choice) :=
  (book.mapOrphanVotes.entries.map fun e => e.2).filter fun vote => vote.nHash = hash

section Items

variable (rules : VoteRules choice) (env : BudgetEnv)

theorem lookup_mapItems_update (book : VoteBook item choice) (fromPeer : Bool)
    (vote : MasternodeVote choice) (k : UInt256) :
    (book.update rules env fromPeer vote).2.mapItems.lookup k =
      if k = vote.nHash then
        (book.mapItems.lookup k).map fun voted => voted.deliver rules (env.now, vote)
      else book.mapItems.lookup k := by
  unfold update
  cases hitem : book.mapItems.lookup vote.nHash with
  | none =>
      have hsame : (if k = vote.nHash then
          (book.mapItems.lookup k).map fun voted => voted.deliver rules (env.now, vote)
          else book.mapItems.lookup k) = book.mapItems.lookup k := by
        split_ifs with hk
        · rw [hk, hitem]
          rfl
        · rfl
      rw [hsame]
      simp only
      split_ifs <;> rfl
  | some voted =>
      simp only
      unfold Voted.deliver Hbcur.deliver
      cases hadd : addOrUpdateVote rules env.now voted.mapVotes vote with
      | error err =>
          simp only
          split_ifs with hk
          · rw [hk, hitem, Option.map_some, hadd]
          · rfl
      | ok mapVotes =>
          simp only
          rw [StdMap.lookup_insert_eq]
          split_ifs with hk
          · rw [hk, hitem, Option.map_some, hadd]
          · rfl

/-- A vote for a missing item waits for it if the node is synced. -/
theorem update_missing {book : VoteBook item choice} {vote : MasternodeVote choice}
    (hmissing : book.mapItems.lookup vote.nHash = none) :
    book.update rules env true vote =
      (false,
        if env.isSynced then
          { book with mapOrphanVotes := book.mapOrphanVotes.insert vote.nHash vote }
        else book) := by
  unfold update
  rw [hmissing]
  simp only [Bool.true_and]
  split_ifs <;> rfl

theorem lookup_mapItems_checkOrphanVote (book : VoteBook item choice) (hash : UInt256)
    (vote : MasternodeVote choice) (k : UInt256) :
    (book.checkOrphanVote rules env hash vote).mapItems.lookup k =
      if k = vote.nHash then
        (book.mapItems.lookup k).map fun voted => voted.deliver rules (env.now, vote)
      else book.mapItems.lookup k := by
  rw [← lookup_mapItems_update rules env book false vote k]
  unfold checkOrphanVote
  cases book.update rules env false vote with
  | mk counted book' => cases counted <;> rfl

/-- All votes which wait for an item are delivered to it. -/
theorem lookup_mapItems_checkOrphanVotes (book : VoteBook item choice) (k : UInt256) :
    (book.checkOrphanVotes rules env).mapItems.lookup k =
      (book.mapItems.lookup k).map fun voted =>
        ((book.waiting k).map fun vote => (env.now, vote)).foldl (Voted.deliver rules) voted := by
  unfold checkOrphanVotes waiting
  generalize book.mapOrphanVotes.entries = es
  induction es generalizing book with
  | nil => exact Option.map_id'.symm
  | cons e es ih =>
      rw [List.foldl_cons, ih, lookup_mapItems_checkOrphanVote, List.map_cons, List.filter_cons]
      by_cases hk : e.2.nHash = k
      · rw [if_pos hk.symm, if_pos (decide_eq_true hk), Option.map_map]
        rfl
      · rw [if_neg (Ne.symm hk), if_neg (by simpa using hk)]

theorem mapSeenItems_update (book : VoteBook item choice) (fromPeer : Bool)
    (vote : MasternodeVote choice) :
    (book.update rules env fromPeer vote).2.mapSeenItems = book.mapSeenItems := by
  rcases update_cases rules env book fromPeer vote with heq | heq | ⟨voted, _, _, heq⟩ <;> rw [heq]

end Items

/-!
# Votes from peers
-/

/-- The book after a vote has come in, with the node in some state. -/
def takeVote (rules : VoteRules choice) (book : VoteBook item choice)
    (o : BudgetNode × MasternodeVote choice) : VoteBook item choice :=
  (book.receiveVote rules o.1.toBudgetEnv o.2).2

/--
Votes of different masternodes on one item, each of them signed validly and new to the node.
-/
structure Genuine (rules : VoteRules choice) (hash : UInt256) (book : VoteBook item choice)
    (os : List (BudgetNode × MasternodeVote choice)) : Prop where
  onItem : forall o, o ∈ os -> o.2.nHash = hash
  signed : forall o, o ∈ os -> o.2.signatureValid rules o.1.toBudgetEnv true = true
  unseen : forall o, o ∈ os -> ¬ book.HasSeen (o.2.getHash rules)
  masternodes : (os.map fun o => o.2.key rules).Nodup
  hashes : (os.map fun o => o.2.getHash rules).Nodup

section Take

variable {rules : VoteRules choice} {hash : UInt256} {book : VoteBook item choice}
  {o : BudgetNode × MasternodeVote choice} {os os' : List (BudgetNode × MasternodeVote choice)}

theorem looksAt_of_signed {env : BudgetEnv} {vote : MasternodeVote choice}
    (h : vote.signatureValid rules env true = true) : looksAt env vote = true := by
  unfold MasternodeVote.signatureValid at h
  unfold looksAt
  cases hfind : env.mnodeman.find vote.vin with
  | none => simp [hfind] at h
  | some pmn => rfl

theorem takeVote_eq (hunseen : ¬ book.HasSeen (o.2.getHash rules))
    (hsigned : o.2.signatureValid rules o.1.toBudgetEnv true = true) :
    book.takeVote rules o =
      (VoteBook.update rules o.1.toBudgetEnv true
        { book with
          mapSeenVotes := book.mapSeenVotes.insert (o.2.getHash rules) o.2.received }
        o.2.received).2 := by
  unfold takeVote
  rw [receiveVote_seen rules _ book (Bool.eq_false_iff.mpr hunseen) (looksAt_of_signed hsigned),
    if_pos hsigned]
  rfl

theorem Genuine.left (h : Genuine rules hash book (os ++ os')) : Genuine rules hash book os := by
  have hmasternodes := h.masternodes
  have hhashes := h.hashes
  rw [List.map_append] at hmasternodes hhashes
  exact ⟨fun o hmem => h.onItem o (List.mem_append_left _ hmem),
    fun o hmem => h.signed o (List.mem_append_left _ hmem),
    fun o hmem => h.unseen o (List.mem_append_left _ hmem),
    hmasternodes.of_append_left, hhashes.of_append_left⟩

/-- A vote leaves the votes after it new to the node. -/
theorem Genuine.tail (h : Genuine rules hash book (o :: os)) :
    Genuine rules hash (book.takeVote rules o) os := by
  have hmasternodes := h.masternodes
  have hhashes := h.hashes
  rw [List.map_cons, List.nodup_cons] at hmasternodes hhashes
  constructor
  · exact fun o' hmem => h.onItem o' (List.mem_cons_of_mem _ hmem)
  · exact fun o' hmem => h.signed o' (List.mem_cons_of_mem _ hmem)
  · intro o' hmem hseen
    rcases (hasSeen_receiveVote _ _ _ _ _).mp hseen with hbefore | ⟨heq, _⟩
    · exact h.unseen o' (List.mem_cons_of_mem _ hmem) hbefore
    · rw [← heq] at hhashes
      exact hhashes.1 (List.mem_map_of_mem hmem)
  · exact hmasternodes.2
  · exact hhashes.2

theorem Genuine.right (h : Genuine rules hash book (os ++ os')) :
    Genuine rules hash (os.foldl (takeVote rules) book) os' := by
  induction os generalizing book with
  | nil => exact h
  | cons o os ih => exact ih h.tail

/-- The votes as they are delivered, each with the time on the node's clock. -/
def onTime (os : List (BudgetNode × MasternodeVote choice)) :
    List (Int × MasternodeVote choice) :=
  os.map fun o => (o.1.now, o.2.received)

theorem lookup_mapItems_takeVotes (h : Genuine rules hash book os) :
    (os.foldl (takeVote rules) book).mapItems.lookup hash =
      (book.mapItems.lookup hash).map ((onTime os).foldl (Voted.deliver rules)) := by
  induction os generalizing book with
  | nil => exact Option.map_id'.symm
  | cons o os ih =>
      have hon := h.onItem o List.mem_cons_self
      rw [List.foldl_cons, ih h.tail, takeVote_eq (h.unseen o List.mem_cons_self)
        (h.signed o List.mem_cons_self), lookup_mapItems_update]
      change Option.map _ (if hash = o.2.nHash then _ else _) = _
      rw [if_pos hon.symm, Option.map_map]
      rfl

theorem mapSeenItems_takeVotes (h : Genuine rules hash book os) :
    (os.foldl (takeVote rules) book).mapSeenItems = book.mapSeenItems := by
  induction os generalizing book with
  | nil => rfl
  | cons o os ih =>
      rw [List.foldl_cons, ih h.tail, takeVote_eq (h.unseen o List.mem_cons_self)
        (h.signed o List.mem_cons_self), mapSeenItems_update]

end Take

/-!
# While the item is missing
-/

/-- No vote waits for the item under the hash of another one. -/
def WaitsUnderHash (book : VoteBook item choice) (hash : UInt256) : Prop :=
  forall e, e ∈ book.mapOrphanVotes.entries -> e.2.nHash = hash -> e.1 = hash

/-- What waits after a vote has come early. -/
def park (kept : List (MasternodeVote choice)) (o : BudgetNode × MasternodeVote choice) :
    List (MasternodeVote choice) :=
  if o.1.isSynced then [o.2.received] else kept

section Early

variable {rules : VoteRules choice} {hash : UInt256} {book : VoteBook item choice}
  {o : BudgetNode × MasternodeVote choice} {os : List (BudgetNode × MasternodeVote choice)}

theorem takeVote_early (h : Genuine rules hash book (o :: os))
    (hmissing : book.mapItems.lookup hash = none) (hunder : book.WaitsUnderHash hash) :
    (book.takeVote rules o).WaitsUnderHash hash ∧
      (book.takeVote rules o).waiting hash = park (book.waiting hash) o := by
  have hon : o.2.received.nHash = hash := h.onItem o List.mem_cons_self
  rw [takeVote_eq (h.unseen o List.mem_cons_self) (h.signed o List.mem_cons_self),
    update_missing rules _ (hon ▸ hmissing)]
  unfold park
  split_ifs with hsynced
  · unfold WaitsUnderHash waiting at *
    simp only
    rw [hon, AList.entries_insert]
    constructor
    · intro e hmem heq
      rcases List.mem_cons.mp hmem with hnew | hold
      · rw [hnew]
      · exact hunder e ((List.kerase_sublist hash _).subset hold) heq
    · rw [List.map_cons, List.filter_cons_of_pos (by simpa using hon)]
      refine congrArg (List.cons o.2.received) (List.filter_eq_nil_iff.mpr ?_)
      intro vote hmem heq
      rcases List.mem_map.mp hmem with ⟨e, hold, rfl⟩
      have hkey := hunder e ((List.kerase_sublist hash _).subset hold) (of_decide_eq_true heq)
      apply List.notMem_keys_kerase hash book.mapOrphanVotes.nodupKeys
      rw [← hkey]
      exact List.mem_keys_of_mem (hkey ▸ hold)
  · exact ⟨hunder, rfl⟩

theorem takeVotes_early (h : Genuine rules hash book os)
    (hmissing : book.mapItems.lookup hash = none) (hunder : book.WaitsUnderHash hash) :
    (os.foldl (takeVote rules) book).waiting hash = os.foldl park (book.waiting hash) := by
  induction os generalizing book with
  | nil => rfl
  | cons o os ih =>
      rcases takeVote_early h hmissing hunder with ⟨hunder', hwaiting⟩
      have hone : Genuine rules hash book [o] := Genuine.left h
      have hmissing' : (book.takeVote rules o).mapItems.lookup hash = none := by
        have hlookup := lookup_mapItems_takeVotes hone
        rw [hmissing] at hlookup
        exact hlookup
      rw [List.foldl_cons, List.foldl_cons, ih h.tail hmissing' hunder', hwaiting]

end Early

/-!
# The arrival of the item
-/

/-- The book after a valid item has come in. -/
def takeItem (rules : VoteRules choice) (env : BudgetEnv) (book : VoteBook item choice)
    (hash : UInt256) (broadcast : item) : VoteBook item choice :=
  (book.receiveItem hash Collateral.valid true broadcast).2.checkOrphanVotes rules env

/-- The book after an item and votes on it, some of which came before the item. -/
def takeAll (rules : VoteRules choice) (arrival : BudgetEnv) (hash : UInt256) (broadcast : item)
    (book : VoteBook item choice) (before after : List (BudgetNode × MasternodeVote choice)) :
    VoteBook item choice :=
  after.foldl (takeVote rules)
    ((before.foldl (takeVote rules) book).takeItem rules arrival hash broadcast)

/-- Neither the item nor any vote on it has come in. -/
structure New (book : VoteBook item choice) (hash : UInt256) : Prop where
  missing : book.mapItems.lookup hash = none
  unseen : StdMap.contains book.mapSeenItems hash = false
  noneWaits : forall e, e ∈ book.mapOrphanVotes.entries -> e.2.nHash ≠ hash

/-- Nothing but the last of the votes which came early is delivered with the item. -/
def deliveries (arrival : BudgetEnv) (before after : List (BudgetNode × MasternodeVote choice)) :
    List (Int × MasternodeVote choice) :=
  ((before.foldl park []).map fun vote => (arrival.now, vote)) ++ onTime after

/--
Votes which come after the item are in time, and of those which come before it there is at most
one, which is in time when the item arrives, at a node which is synced.
-/
def NoneDisplaced (arrival : BudgetEnv)
    (before after : List (BudgetNode × MasternodeVote choice)) : Prop :=
  (forall o, o ∈ before ->
    before = [o] ∧ o.1.isSynced = true ∧ o.2.nTime ≤ arrival.now + 60 * 60) ∧
  forall o, o ∈ after -> o.2.nTime ≤ o.1.now + 60 * 60

section Arrival

variable {rules : VoteRules choice} {arrival : BudgetEnv} {hash : UInt256} {broadcast : item}
  {book : VoteBook item choice} {before after : List (BudgetNode × MasternodeVote choice)}

theorem lookup_mapItems_takeItem (hmissing : book.mapItems.lookup hash = none)
    (hunseen : StdMap.contains book.mapSeenItems hash = false) :
    (book.takeItem rules arrival hash broadcast).mapItems.lookup hash =
      some (((book.waiting hash).map fun vote => (arrival.now, vote)).foldl
        (Voted.deliver rules) { item := broadcast }) := by
  have hitem : StdMap.contains book.mapItems hash = false :=
    (StdMap.contains_eq_false_iff _ _).mpr hmissing
  unfold takeItem receiveItem addItem
  simp only [hunseen, hitem, Bool.false_eq_true, if_false, if_true]
  rw [lookup_mapItems_checkOrphanVotes]
  simp only
  rw [AList.lookup_insert]
  rfl

theorem mapSeenVotes_takeItem :
    (book.takeItem rules arrival hash broadcast).mapSeenVotes = book.mapSeenVotes := by
  unfold takeItem
  rw [mapSeenVotes_checkOrphanVotes, mapSeenVotes_receiveItem]

theorem Genuine.takeItem (h : Genuine rules hash book after) :
    Genuine rules hash (book.takeItem rules arrival hash broadcast) after := by
  constructor
  · exact h.onItem
  · exact h.signed
  · intro o hmem hseen
    unfold HasSeen at hseen
    rw [mapSeenVotes_takeItem] at hseen
    exact h.unseen o hmem hseen
  · exact h.masternodes
  · exact h.hashes

/-- The votes on the item in the end. -/
theorem lookup_mapItems_takeAll (hnew : book.New hash)
    (h : Genuine rules hash book (before ++ after)) :
    (takeAll rules arrival hash broadcast book before after).mapItems.lookup hash =
      some ((deliveries arrival before after).foldl (Voted.deliver rules)
        { item := broadcast }) := by
  have hmissing : (before.foldl (takeVote rules) book).mapItems.lookup hash = none := by
    rw [lookup_mapItems_takeVotes h.left, hnew.missing]
    rfl
  have hunseen : StdMap.contains (before.foldl (takeVote rules) book).mapSeenItems hash =
      false := by
    rw [mapSeenItems_takeVotes h.left]
    exact hnew.unseen
  have hwaiting : book.waiting hash = [] := by
    unfold waiting
    rw [List.filter_eq_nil_iff]
    intro vote hmem heq
    rcases List.mem_map.mp hmem with ⟨e, hentry, rfl⟩
    exact hnew.noneWaits e hentry (of_decide_eq_true heq)
  have hunder : book.WaitsUnderHash hash :=
    fun e hentry heq => absurd heq (hnew.noneWaits e hentry)
  unfold takeAll deliveries
  rw [lookup_mapItems_takeVotes h.right.takeItem, lookup_mapItems_takeItem hmissing hunseen,
    takeVotes_early h.left hnew.missing hunder, hwaiting, List.foldl_append]
  rfl

theorem foldl_park_cases :
    forall (os : List (BudgetNode × MasternodeVote choice)) (kept : List (MasternodeVote choice)),
      os.foldl park kept = kept ∨ exists o, o ∈ os ∧ os.foldl park kept = [o.2.received] := by
  intro os
  induction os with
  | nil => exact fun kept => Or.inl rfl
  | cons o os ih =>
      intro kept
      rw [List.foldl_cons]
      rcases ih (park kept o) with heq | ⟨o', hmem, heq⟩
      · rw [heq]
        unfold park
        split_ifs
        · exact Or.inr ⟨o, List.mem_cons_self, rfl⟩
        · exact Or.inl rfl
      · exact Or.inr ⟨o', List.mem_cons_of_mem _ hmem, heq⟩

theorem keys_onTime (os : List (BudgetNode × MasternodeVote choice)) :
    (onTime os).map (fun o => o.2.key rules) = os.map fun o => o.2.key rules := by
  unfold onTime
  rw [List.map_map]
  rfl

/-- The votes which are delivered are by different masternodes. -/
theorem nodup_deliveries (h : Genuine rules hash book (before ++ after)) :
    ((deliveries arrival before after).map fun o => o.2.key rules).Nodup := by
  have hmasternodes := h.masternodes
  rw [List.map_append] at hmasternodes
  unfold deliveries
  rw [List.map_append, keys_onTime]
  rcases foldl_park_cases before [] with hnone | ⟨o, hmem, hone⟩
  · rw [hnone]
    exact hmasternodes.of_append_right
  · rw [hone]
    refine hmasternodes.sublist (List.Sublist.append_right ?_ _)
    exact List.singleton_sublist.mpr (List.mem_map_of_mem hmem)

theorem counted_takeAll (hnew : book.New hash) (h : Genuine rules hash book (before ++ after))
    {vote : MasternodeVote choice} (hon : vote.nHash = hash) :
    (takeAll rules arrival hash broadcast book before after).counted rules vote =
      ((deliveries arrival before after).foldl (Voted.deliver rules)
        ({ item := broadcast } : Voted item choice)).mapVotes.lookup (vote.key rules) := by
  unfold counted
  rw [hon, lookup_mapItems_takeAll hnew h]
  rfl

/-- A vote that is delivered is counted unless it is too far ahead. -/
theorem counted_delivered (hnew : book.New hash) (h : Genuine rules hash book (before ++ after))
    {vote : MasternodeVote choice} {now : Int} (hon : vote.nHash = hash)
    (hmem : (now, vote.received) ∈ deliveries arrival before after) :
    (takeAll rules arrival hash broadcast book before after).counted rules vote =
        some vote.received <-> vote.nTime ≤ now + 60 * 60 := by
  have hlookup := Voted.lookup_foldl_deliver _ ({ item := broadcast } : Voted item choice)
    (nodup_deliveries h) hmem (AList.lookup_empty _)
  rw [counted_takeAll hnew h hon]
  apply (Eq.congr_left hlookup).trans
  change (if vote.nTime ≤ now + 60 * 60 then some vote.received else none) = _ <-> _
  split_ifs with htime
  · exact iff_of_true rfl htime
  · exact iff_of_false (fun heq => nomatch heq) htime

theorem counted_late (hnew : book.New hash) (h : Genuine rules hash book (before ++ after))
    {o : BudgetNode × MasternodeVote choice} (hmem : o ∈ after) :
    (takeAll rules arrival hash broadcast book before after).counted rules o.2 =
        some o.2.received <-> o.2.nTime ≤ o.1.now + 60 * 60 := by
  apply counted_delivered hnew h (h.onItem o (List.mem_append_right _ hmem))
  exact List.mem_append_right _ (List.mem_map.mpr ⟨o, hmem, rfl⟩)

theorem counted_early (hnew : book.New hash) (h : Genuine rules hash book (before ++ after))
    {o : BudgetNode × MasternodeVote choice} (hmem : o ∈ before) :
    (takeAll rules arrival hash broadcast book before after).counted rules o.2 =
        some o.2.received <->
      before.foldl park [] = [o.2.received] ∧ o.2.nTime ≤ arrival.now + 60 * 60 := by
  have hon := h.onItem o (List.mem_append_left _ hmem)
  by_cases hkept : before.foldl park [] = [o.2.received]
  · rw [and_iff_right hkept]
    refine counted_delivered hnew h hon (List.mem_append_left _ ?_)
    rw [hkept]
    exact List.mem_cons_self
  · -- The vote has been displaced, and no other one is by the same masternode.
    refine iff_of_false ?_ fun hboth => hkept hboth.1
    have hmasternodes := h.masternodes
    rw [List.map_append, List.nodup_append'] at hmasternodes
    rw [counted_takeAll hnew h hon, Voted.lookup_foldl_deliver_of_notMem]
    · exact fun heq => nomatch heq
    · intro d hd heq
      rcases List.mem_append.mp hd with hwaits | hlate
      · rcases foldl_park_cases before [] with hnone | ⟨o', hmem', hone⟩
        · rw [hnone] at hwaits
          cases hwaits
        · rw [hone, List.map_singleton, List.mem_singleton] at hwaits
          subst hwaits
          have hsame : o = o' := List.inj_on_of_nodup_map hmasternodes.1 hmem hmem' heq
          exact hkept (hsame ▸ hone)
      · rcases List.mem_map.mp hlate with ⟨o', hmem', rfl⟩
        apply hmasternodes.2.2 (List.mem_map_of_mem hmem)
        change o.2.key rules = o'.2.key rules at heq
        rw [heq]
        exact List.mem_map_of_mem hmem'

theorem eq_singleton_of_forall_eq {α : Type _} {a : α} {l : List α} (hnodup : l.Nodup)
    (hmem : a ∈ l) (hsame : forall b, b ∈ l -> b = a) : l = [a] := by
  cases l with
  | nil => cases hmem
  | cons b rest =>
      cases rest with
      | nil => rw [hsame b List.mem_cons_self]
      | cons c rest =>
          have heq : b = c := (hsame b (by simp)).trans (hsame c (by simp)).symm
          rw [heq] at hnodup
          exact absurd List.mem_cons_self (List.nodup_cons.mp hnodup).1

/-- All votes are counted exactly if none has been displaced and all came in time. -/
theorem all_counted_iff (hnew : book.New hash) (h : Genuine rules hash book (before ++ after)) :
    (forall o, o ∈ before ++ after ->
        (takeAll rules arrival hash broadcast book before after).counted rules o.2 =
          some o.2.received) <->
      NoneDisplaced arrival before after := by
  unfold NoneDisplaced
  simp only [List.forall_mem_append]
  refine and_congr ?_ (forall_congr' fun o => imp_congr_right (counted_late hnew h))
  constructor
  · intro hall o hmem
    have hkept := fun o' hmem' => (counted_early hnew h hmem').mp (hall o' hmem')
    have hmasternodes := h.left.masternodes
    have hsame : forall o', o' ∈ before -> o' = o := by
      intro o' hmem'
      apply List.inj_on_of_nodup_map hmasternodes hmem' hmem
      have heq : o'.2.received = o.2.received :=
        List.singleton_inj.mp ((hkept o' hmem').1.symm.trans (hkept o hmem).1)
      exact congrArg (fun vote => vote.key rules) heq
    have hone : before = [o] :=
      eq_singleton_of_forall_eq hmasternodes.of_map hmem hsame
    have hsynced := (hkept o hmem).1
    refine ⟨hone, ?_, (hkept o hmem).2⟩
    rw [hone] at hsynced
    by_contra hunsynced
    unfold park at hsynced
    simp [hunsynced] at hsynced
  · intro hall o hmem
    rcases hall o hmem with ⟨hone, hsynced, htime⟩
    refine (counted_early hnew h hmem).mpr ⟨?_, htime⟩
    rw [hone]
    exact if_pos hsynced

end Arrival

end VoteBook

/-!
# Messages
-/

namespace BudgetBooks

variable {rules : BudgetRules}

/-- Votes on a proposal which come in one after the other. -/
theorem receive_mvotes {os : List (BudgetNode × CBudgetVote)}
    (hready : forall o, o ∈ os -> o.1.ready = true) (books : BudgetBooks) :
    (os.map fun o => (o.1, BudgetMessage.mvote o.2)).foldl (receive rules) books =
      { books with
        proposals := os.foldl (VoteBook.takeVote rules.proposalVotes) books.proposals } := by
  induction os generalizing books with
  | nil => rfl
  | cons o os ih =>
      rw [List.map_cons, List.foldl_cons, ih fun o' hmem => hready o' (List.mem_cons_of_mem _ hmem)]
      unfold receive
      rw [processMessage_mvote (hready o List.mem_cons_self)]
      rfl

theorem receive_fbvotes {os : List (BudgetNode × CFinalizedBudgetVote)}
    (hready : forall o, o ∈ os -> o.1.ready = true) (books : BudgetBooks) :
    (os.map fun o => (o.1, BudgetMessage.fbvote o.2)).foldl (receive rules) books =
      { books with
        finalized := os.foldl (VoteBook.takeVote rules.finalizedVotes) books.finalized } := by
  induction os generalizing books with
  | nil => rfl
  | cons o os ih =>
      rw [List.map_cons, List.foldl_cons, ih fun o' hmem => hready o' (List.mem_cons_of_mem _ hmem)]
      unfold receive
      rw [processMessage_fbvote (hready o List.mem_cons_self)]
      rfl

/-- Votes, an item which they are on, and more votes. -/
def interleaving (bring : MasternodeVote choice -> BudgetMessage) (arrival : BudgetNode)
    (message : BudgetMessage) (before after : List (BudgetNode × MasternodeVote choice)) :
    List (BudgetNode × BudgetMessage) :=
  (before.map fun o => (o.1, bring o.2)) ++
    (arrival, message) :: after.map fun o => (o.1, bring o.2)

/-- A new item, and valid votes on it by masternodes which the node knows. -/
structure Setting (rules : VoteRules choice) (hash : UInt256) (book : VoteBook item choice)
    (arrival : BudgetNode) (before after : List (BudgetNode × MasternodeVote choice)) :
    Prop where
  new : book.New hash
  genuine : VoteBook.Genuine rules hash book (before ++ after)
  ready : forall o, o ∈ before ++ after -> o.1.ready = true
  arrives : arrival.ready = true

section Interleavings

variable {books : BudgetBooks} {arrival : BudgetNode}

/-- Votes which wait are looked at when a new item which is valid comes in. -/
theorem reached_of_valid {book : VoteBook item choice} {hash : UInt256} (broadcast : item)
    (hunseen : StdMap.contains book.mapSeenItems hash = false) :
    (book.receiveItem hash Collateral.valid true broadcast).1 = true := by
  unfold VoteBook.receiveItem
  rw [hunseen]
  rfl

theorem processMessage_mprop (hready : arrival.ready = true)
    {proposal : CBudgetProposalBroadcast}
    (hcollateral : arrival.proposalCollateral proposal = Collateral.valid)
    (hvalid : arrival.proposalIsValid proposal = true)
    (hunseen : StdMap.contains books.proposals.mapSeenItems (rules.hashProposal proposal) =
      false) :
    (books.processMessage rules arrival (BudgetMessage.mprop proposal)).2.proposals =
      books.proposals.takeItem rules.proposalVotes arrival.toBudgetEnv
        (rules.hashProposal proposal) proposal := by
  unfold processMessage
  simp only [hready, hcollateral, hvalid, Bool.not_true, Bool.false_eq_true, if_false]
  rw [reached_of_valid proposal hunseen, if_pos rfl]
  rfl

theorem processMessage_fbs (hready : arrival.ready = true)
    {budget : CFinalizedBudgetBroadcast}
    (hcollateral : arrival.budgetCollateral budget = Collateral.valid)
    (hvalid : arrival.budgetIsValid budget = true)
    (hunseen : StdMap.contains books.finalized.mapSeenItems (rules.hashBudget budget) = false) :
    (books.processMessage rules arrival (BudgetMessage.fbs budget)).2.finalized =
      books.finalized.takeItem rules.finalizedVotes arrival.toBudgetEnv
        (rules.hashBudget budget) budget := by
  unfold processMessage
  simp only [hready, hcollateral, hvalid, Bool.not_true, Bool.false_eq_true, if_false]
  rw [reached_of_valid budget hunseen, if_pos rfl]
  rfl

theorem proposals_interleaving {proposal : CBudgetProposalBroadcast}
    {before after : List (BudgetNode × CBudgetVote)}
    (hcollateral : arrival.proposalCollateral proposal = Collateral.valid)
    (hvalid : arrival.proposalIsValid proposal = true)
    (h : Setting rules.proposalVotes (rules.hashProposal proposal) books.proposals arrival
      before after) :
    ((interleaving BudgetMessage.mvote arrival (BudgetMessage.mprop proposal) before
        after).foldl (receive rules) books).proposals =
      VoteBook.takeAll rules.proposalVotes arrival.toBudgetEnv (rules.hashProposal proposal)
        proposal books.proposals before after := by
  have hunseen := h.new.unseen
  rw [← VoteBook.mapSeenItems_takeVotes h.genuine.left] at hunseen
  unfold interleaving VoteBook.takeAll
  rw [List.foldl_append, List.foldl_cons,
    receive_mvotes fun o hmem => h.ready o (List.mem_append_left _ hmem),
    receive_mvotes fun o hmem => h.ready o (List.mem_append_right _ hmem)]
  apply congrArg (fun book => after.foldl _ book)
  exact processMessage_mprop h.arrives hcollateral hvalid hunseen

theorem finalized_interleaving {budget : CFinalizedBudgetBroadcast}
    {before after : List (BudgetNode × CFinalizedBudgetVote)}
    (hcollateral : arrival.budgetCollateral budget = Collateral.valid)
    (hvalid : arrival.budgetIsValid budget = true)
    (h : Setting rules.finalizedVotes (rules.hashBudget budget) books.finalized arrival
      before after) :
    ((interleaving BudgetMessage.fbvote arrival (BudgetMessage.fbs budget) before
        after).foldl (receive rules) books).finalized =
      VoteBook.takeAll rules.finalizedVotes arrival.toBudgetEnv (rules.hashBudget budget)
        budget books.finalized before after := by
  have hunseen := h.new.unseen
  rw [← VoteBook.mapSeenItems_takeVotes h.genuine.left] at hunseen
  unfold interleaving VoteBook.takeAll
  rw [List.foldl_append, List.foldl_cons,
    receive_fbvotes fun o hmem => h.ready o (List.mem_append_left _ hmem),
    receive_fbvotes fun o hmem => h.ready o (List.mem_append_right _ hmem)]
  apply congrArg (fun book => after.foldl _ book)
  exact processMessage_fbs h.arrives hcollateral hvalid hunseen

end Interleavings

/-- All votes on a proposal are counted after it has come in among them. -/
def AllOnProposal (rules : BudgetRules) (books : BudgetBooks) (arrival : BudgetNode)
    (proposal : CBudgetProposalBroadcast) (before after : List (BudgetNode × CBudgetVote)) :
    Prop :=
  forall o, o ∈ before ++ after ->
    ((interleaving BudgetMessage.mvote arrival (BudgetMessage.mprop proposal) before
      after).foldl (receive rules) books).proposals.counted rules.proposalVotes o.2 =
        some o.2.received

/-- All votes on a finalized budget are counted after it has come in among them. -/
def AllOnBudget (rules : BudgetRules) (books : BudgetBooks) (arrival : BudgetNode)
    (budget : CFinalizedBudgetBroadcast)
    (before after : List (BudgetNode × CFinalizedBudgetVote)) : Prop :=
  forall o, o ∈ before ++ after ->
    ((interleaving BudgetMessage.fbvote arrival (BudgetMessage.fbs budget) before
      after).foldl (receive rules) books).finalized.counted rules.finalizedVotes o.2 =
        some o.2.received

/--
Valid votes of different masternodes are all counted on their item, which comes in among them,
exactly if at most one of them comes before it, and none is too far ahead of the clock.
-/
theorem votes_counted_iff_none_displaced (rules : BudgetRules) (books : BudgetBooks)
    (arrival : BudgetNode) :
    (forall (proposal : CBudgetProposalBroadcast) (before after : List (BudgetNode × CBudgetVote)),
        arrival.proposalCollateral proposal = Collateral.valid ->
        arrival.proposalIsValid proposal = true ->
        Setting rules.proposalVotes (rules.hashProposal proposal) books.proposals arrival
          before after ->
        (AllOnProposal rules books arrival proposal before after <->
          VoteBook.NoneDisplaced arrival.toBudgetEnv before after)) ∧
      forall (budget : CFinalizedBudgetBroadcast)
        (before after : List (BudgetNode × CFinalizedBudgetVote)),
        arrival.budgetCollateral budget = Collateral.valid ->
        arrival.budgetIsValid budget = true ->
        Setting rules.finalizedVotes (rules.hashBudget budget) books.finalized arrival
          before after ->
        (AllOnBudget rules books arrival budget before after <->
          VoteBook.NoneDisplaced arrival.toBudgetEnv before after) := by
  constructor
  · intro proposal before after hcollateral hvalid h
    unfold AllOnProposal
    rw [proposals_interleaving hcollateral hvalid h]
    exact VoteBook.all_counted_iff h.new h.genuine
  · intro budget before after hcollateral hvalid h
    unfold AllOnBudget
    rw [finalized_interleaving hcollateral hvalid h]
    exact VoteBook.all_counted_iff h.new h.genuine

/-- Votes of two masternodes on the example's item, for a node which knows nothing yet. -/
theorem setting_example (nVote : choice)
    {before after : List (BudgetNode × MasternodeVote choice)}
    (hvotes : before ++ after =
      [(BudgetExample.node, BudgetExample.voteOf 1 nVote [1]),
        (BudgetExample.node, BudgetExample.voteOf 2 nVote [1])]) :
    Setting BudgetExample.voteRules 7 ({} : VoteBook item choice) BudgetExample.node
      before after := by
  constructor
  · exact ⟨rfl, rfl, fun e hmem => nomatch hmem⟩
  · rw [hvotes]
    constructor
    · simp [BudgetExample.voteOf]
    · intro o hmem
      rcases List.mem_pair.mp hmem with rfl | rfl <;> rfl
    · intro o _ hseen
      cases hseen
    · change ([1, 2] : List UInt256).Nodup
      decide
    · change ([1107, 2107] : List UInt256).Nodup
      decide
  · rw [hvotes]
    intro o hmem
    rcases List.mem_pair.mp hmem with rfl | rfl <;> rfl
  · rfl

/-- One vote comes before the item, the other one after it. -/
theorem one_early_vote_counted :
    AllOnProposal BudgetExample.rules {} BudgetExample.node BudgetExample.proposal
        [(BudgetExample.node, BudgetExample.voteOf 1 1 [1])]
        [(BudgetExample.node, BudgetExample.voteOf 2 1 [1])] ∧
      AllOnBudget BudgetExample.rules {} BudgetExample.node BudgetExample.budget
        [(BudgetExample.node, BudgetExample.voteOf 1 () [1])]
        [(BudgetExample.node, BudgetExample.voteOf 2 () [1])] := by
  constructor
  · refine ((votes_counted_iff_none_displaced BudgetExample.rules {} BudgetExample.node).1
      BudgetExample.proposal _ _ rfl rfl (setting_example 1 rfl)).mpr ?_
    exact ⟨by simp [BudgetExample.node, BudgetExample.nodeWith, BudgetExample.voteOf],
      by simp [BudgetExample.node, BudgetExample.nodeWith, BudgetExample.voteOf]⟩
  · refine ((votes_counted_iff_none_displaced BudgetExample.rules {} BudgetExample.node).2
      BudgetExample.budget _ _ rfl rfl (setting_example () rfl)).mpr ?_
    exact ⟨by simp [BudgetExample.node, BudgetExample.nodeWith, BudgetExample.voteOf],
      by simp [BudgetExample.node, BudgetExample.nodeWith, BudgetExample.voteOf]⟩

/-- Of two votes which come before their item, the first one is lost. -/
theorem first_early_vote_lost :
    ¬ (forall (rules : BudgetRules) (books : BudgetBooks) (arrival : BudgetNode)
          (proposal : CBudgetProposalBroadcast) (before after : List (BudgetNode × CBudgetVote)),
          arrival.proposalCollateral proposal = Collateral.valid ->
          arrival.proposalIsValid proposal = true ->
          Setting rules.proposalVotes (rules.hashProposal proposal) books.proposals arrival
            before after -> AllOnProposal rules books arrival proposal before after) ∧
      ¬ forall (rules : BudgetRules) (books : BudgetBooks) (arrival : BudgetNode)
          (budget : CFinalizedBudgetBroadcast)
          (before after : List (BudgetNode × CFinalizedBudgetVote)),
          arrival.budgetCollateral budget = Collateral.valid ->
          arrival.budgetIsValid budget = true ->
          Setting rules.finalizedVotes (rules.hashBudget budget) books.finalized arrival
            before after -> AllOnBudget rules books arrival budget before after := by
  constructor
  · intro h
    have hcounted := h BudgetExample.rules {} BudgetExample.node BudgetExample.proposal
      [(BudgetExample.node, BudgetExample.voteOf 1 1 [1]),
        (BudgetExample.node, BudgetExample.voteOf 2 1 [1])] [] rfl rfl (setting_example 1 rfl)
      (BudgetExample.node, BudgetExample.voteOf 1 1 [1]) List.mem_cons_self
    revert hcounted
    decide +kernel
  · intro h
    have hcounted := h BudgetExample.rules {} BudgetExample.node BudgetExample.budget
      [(BudgetExample.node, BudgetExample.voteOf 1 () [1]),
        (BudgetExample.node, BudgetExample.voteOf 2 () [1])] [] rfl rfl (setting_example () rfl)
      (BudgetExample.node, BudgetExample.voteOf 1 () [1]) List.mem_cons_self
    revert hcounted
    decide +kernel

end BudgetBooks

end Hbcur
