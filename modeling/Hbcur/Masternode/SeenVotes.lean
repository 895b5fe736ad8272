import Hbcur.Foundation.Run
import Hbcur.Masternode.BudgetVotes

/-!
# Votes which have been seen

A vote is entered into the map of seen votes, under a hash which leaves its signature out,
before the signature is checked.
-/

namespace Hbcur

open Foundation

variable {choice item : Type}

/-!
# Another map of seen votes
-/

namespace VoteBook

def withSeen (book : VoteBook item choice) (seen : StdMap UInt256 (MasternodeVote choice)) :
    VoteBook item choice :=
  { book with mapSeenVotes := seen }

section WithSeen

variable (rules : VoteRules choice) (env : BudgetEnv) (book : VoteBook item choice)
  (seen : StdMap UInt256 (MasternodeVote choice))

theorem update_withSeen (fromPeer : Bool) (vote : MasternodeVote choice) :
    (book.withSeen seen).update rules env fromPeer vote =
      ((book.update rules env fromPeer vote).1,
        (book.update rules env fromPeer vote).2.withSeen seen) := by
  have hitems : (book.withSeen seen).mapItems = book.mapItems := rfl
  unfold update
  rw [hitems]
  cases book.mapItems.lookup vote.nHash with
  | none =>
      simp only
      split_ifs <;> rfl
  | some voted =>
      simp only
      cases addOrUpdateVote rules env.now voted.mapVotes vote <;> rfl

theorem mapSeenVotes_update (fromPeer : Bool) (vote : MasternodeVote choice) :
    (book.update rules env fromPeer vote).2.mapSeenVotes = book.mapSeenVotes := by
  rcases update_cases rules env book fromPeer vote with heq | heq | ⟨voted, _, _, heq⟩ <;> rw [heq]

theorem checkOrphanVote_withSeen (hash : UInt256) (vote : MasternodeVote choice) :
    (book.withSeen seen).checkOrphanVote rules env hash vote =
      (book.checkOrphanVote rules env hash vote).withSeen seen := by
  unfold checkOrphanVote
  rw [update_withSeen]
  cases book.update rules env false vote with
  | mk counted book' => cases counted <;> rfl

theorem mapSeenVotes_checkOrphanVote (hash : UInt256) (vote : MasternodeVote choice) :
    (book.checkOrphanVote rules env hash vote).mapSeenVotes = book.mapSeenVotes := by
  have hupdate := mapSeenVotes_update rules env book false vote
  unfold checkOrphanVote
  cases hresult : book.update rules env false vote with
  | mk counted book' =>
      rw [hresult] at hupdate
      cases counted <;> exact hupdate

theorem checkOrphanVotes_withSeen :
    (book.withSeen seen).checkOrphanVotes rules env =
      (book.checkOrphanVotes rules env).withSeen seen := by
  unfold checkOrphanVotes
  change book.mapOrphanVotes.entries.foldl _ (book.withSeen seen) = _
  generalize book.mapOrphanVotes.entries = es
  induction es generalizing book with
  | nil => rfl
  | cons e es ih =>
      rw [List.foldl_cons, List.foldl_cons, checkOrphanVote_withSeen, ih]

theorem mapSeenVotes_checkOrphanVotes :
    (book.checkOrphanVotes rules env).mapSeenVotes = book.mapSeenVotes := by
  unfold checkOrphanVotes
  generalize book.mapOrphanVotes.entries = es
  induction es generalizing book with
  | nil => rfl
  | cons e es ih => rw [List.foldl_cons, ih, mapSeenVotes_checkOrphanVote]

theorem receiveItem_withSeen (hash : UInt256) (collateral : Collateral) (isValid : Bool)
    (broadcast : item) :
    (book.withSeen seen).receiveItem hash collateral isValid broadcast =
      ((book.receiveItem hash collateral isValid broadcast).1,
        (book.receiveItem hash collateral isValid broadcast).2.withSeen seen) := by
  unfold receiveItem addItem
  cases hseen : StdMap.contains book.mapSeenItems hash with
  | true => simp [withSeen, hseen]
  | false =>
      cases collateral with
      | invalid => simp [withSeen, hseen]
      | immature => simp [withSeen, hseen]
      | valid =>
          cases isValid <;> cases hitem : StdMap.contains book.mapItems hash <;>
            simp [withSeen, hseen, hitem]

theorem mapSeenVotes_receiveItem (hash : UInt256) (collateral : Collateral) (isValid : Bool)
    (broadcast : item) :
    (book.receiveItem hash collateral isValid broadcast).2.mapSeenVotes = book.mapSeenVotes := by
  unfold receiveItem addItem
  cases hseen : StdMap.contains book.mapSeenItems hash with
  | true => simp
  | false =>
      cases collateral with
      | invalid => simp
      | immature => simp
      | valid =>
          cases isValid <;> cases hitem : StdMap.contains book.mapItems hash <;> simp [hitem]

end WithSeen

/-!
# Books which differ in seen votes
-/

/-- The same books, but for the votes seen under some hashes. -/
def SeenApart (hashes : UInt256 -> Prop) (book book' : VoteBook item choice) : Prop :=
  exists seen, book' = book.withSeen seen ∧
    forall k, ¬ hashes k -> seen.lookup k = book.mapSeenVotes.lookup k

/-- A vote has been seen under a hash. -/
def HasSeen (book : VoteBook item choice) (hash : UInt256) : Prop :=
  StdMap.contains book.mapSeenVotes hash = true

namespace SeenApart

variable {hashes : UInt256 -> Prop} {book book' : VoteBook item choice}

theorem refl (book : VoteBook item choice) : SeenApart hashes book book :=
  ⟨book.mapSeenVotes, rfl, fun _ _ => rfl⟩

variable (h : SeenApart hashes book book')
include h

theorem hasSeen_iff {hash : UInt256} (hhash : ¬ hashes hash) :
    book'.HasSeen hash <-> book.HasSeen hash := by
  rcases h with ⟨seen, rfl, hseen⟩
  unfold HasSeen StdMap.contains withSeen
  simp only
  rw [hseen hash hhash]

theorem insert (hash : UInt256) (vote : MasternodeVote choice) :
    SeenApart hashes { book with mapSeenVotes := book.mapSeenVotes.insert hash vote }
      { book' with mapSeenVotes := book'.mapSeenVotes.insert hash vote } := by
  rcases h with ⟨seen, rfl, hseen⟩
  refine ⟨seen.insert hash vote, rfl, fun k hk => ?_⟩
  simp only
  rw [StdMap.lookup_insert_eq, StdMap.lookup_insert_eq, hseen k hk]

theorem update (rules : VoteRules choice) (env : BudgetEnv) (fromPeer : Bool)
    (vote : MasternodeVote choice) :
    (book'.update rules env fromPeer vote).1 = (book.update rules env fromPeer vote).1 ∧
      SeenApart hashes (book.update rules env fromPeer vote).2
        (book'.update rules env fromPeer vote).2 := by
  rcases h with ⟨seen, rfl, hseen⟩
  rw [update_withSeen]
  refine ⟨rfl, seen, rfl, fun k hk => ?_⟩
  rw [mapSeenVotes_update, hseen k hk]

theorem checkOrphanVotes (rules : VoteRules choice) (env : BudgetEnv) :
    SeenApart hashes (book.checkOrphanVotes rules env) (book'.checkOrphanVotes rules env) := by
  rcases h with ⟨seen, rfl, hseen⟩
  rw [checkOrphanVotes_withSeen]
  refine ⟨seen, rfl, fun k hk => ?_⟩
  rw [mapSeenVotes_checkOrphanVotes, hseen k hk]

theorem receiveItem (hash : UInt256) (collateral : Collateral) (isValid : Bool)
    (broadcast : item) :
    (book'.receiveItem hash collateral isValid broadcast).1 =
        (book.receiveItem hash collateral isValid broadcast).1 ∧
      SeenApart hashes (book.receiveItem hash collateral isValid broadcast).2
        (book'.receiveItem hash collateral isValid broadcast).2 := by
  rcases h with ⟨seen, rfl, hseen⟩
  rw [receiveItem_withSeen]
  refine ⟨rfl, seen, rfl, fun k hk => ?_⟩
  rw [mapSeenVotes_receiveItem, hseen k hk]

/-- A vote which both have seen or both have not. -/
theorem receiveVote (rules : VoteRules choice) (env : BudgetEnv) {vote : MasternodeVote choice}
    (hsame : looksAt env vote = true ->
      (book'.HasSeen (vote.getHash rules) <-> book.HasSeen (vote.getHash rules))) :
    (book'.receiveVote rules env vote).1 = (book.receiveVote rules env vote).1 ∧
      SeenApart hashes (book.receiveVote rules env vote).2
        (book'.receiveVote rules env vote).2 := by
  cases hknown : looksAt env vote with
  | false =>
      rw [receiveVote_ignored rules env book (Or.inr hknown),
        receiveVote_ignored rules env book' (Or.inr hknown)]
      exact ⟨rfl, h⟩
  | true =>
      have hsame := hsame hknown
      cases hnew : StdMap.contains book.mapSeenVotes (vote.getHash rules) with
      | true =>
          rw [receiveVote_ignored rules env book (Or.inl hnew),
            receiveVote_ignored rules env book' (Or.inl (hsame.mpr hnew))]
          exact ⟨rfl, h⟩
      | false =>
          have hnew' : StdMap.contains book'.mapSeenVotes (vote.getHash rules) = false := by
            rw [Bool.eq_false_iff]
            intro hseen
            exact Bool.false_ne_true (hnew.symm.trans (hsame.mp hseen))
          rw [receiveVote_seen rules env book hnew hknown,
            receiveVote_seen rules env book' hnew' hknown]
          split_ifs
          · exact (h.insert _ _).update rules env true _
          · exact ⟨rfl, h.insert _ _⟩

/-- A vote with a wrong signature does nothing but be seen. -/
theorem receiveForged (rules : VoteRules choice) (env : BudgetEnv) {vote : MasternodeVote choice}
    (hhash : hashes (vote.getHash rules)) (hsig : vote.signatureValid rules env true = false) :
    SeenApart hashes book (book'.receiveVote rules env vote).2 := by
  cases hknown : looksAt env vote with
  | false =>
      rw [receiveVote_ignored rules env book' (Or.inr hknown)]
      exact h
  | true =>
      cases hnew : StdMap.contains book'.mapSeenVotes (vote.getHash rules) with
      | true =>
          rw [receiveVote_ignored rules env book' (Or.inl hnew)]
          exact h
      | false =>
          rw [receiveVote_seen rules env book' hnew hknown, hsig, if_neg Bool.false_ne_true]
          rcases h with ⟨seen, rfl, hseen⟩
          refine ⟨_, rfl, fun k hk => ?_⟩
          have hne : k ≠ vote.getHash rules := fun heq => hk (heq ▸ hhash)
          rw [StdMap.lookup_insert_eq, if_neg hne]
          exact hseen k hk

/-- A vote which is counted by one of them is counted by the other unless it has seen it. -/
theorem counts_iff (rules : VoteRules choice) (env : BudgetEnv) {vote : MasternodeVote choice}
    (hcounts : (book.receiveVote rules env vote).1 = true) :
    (book'.receiveVote rules env vote).1 = true <-> ¬ book'.HasSeen (vote.getHash rules) := by
  constructor
  · intro hcounts' hseen
    rw [receiveVote_ignored rules env book' (Or.inl hseen)] at hcounts'
    cases hcounts'
  · intro hunseen
    have hnew : ¬ book.HasSeen (vote.getHash rules) := by
      intro hseen
      rw [receiveVote_ignored rules env book (Or.inl hseen)] at hcounts
      cases hcounts
    rw [(h.receiveVote rules env fun _ => iff_of_false hunseen hnew).1]
    exact hcounts

end SeenApart

/-- Which hashes have been seen after a vote has come in. -/
theorem hasSeen_receiveVote (rules : VoteRules choice) (env : BudgetEnv)
    (book : VoteBook item choice) (vote : MasternodeVote choice) (hash : UInt256) :
    (book.receiveVote rules env vote).2.HasSeen hash <->
      book.HasSeen hash ∨ hash = vote.getHash rules ∧ looksAt env vote = true := by
  cases hknown : looksAt env vote with
  | false =>
      rw [receiveVote_ignored rules env book (Or.inr hknown)]
      simp
  | true =>
      cases hnew : StdMap.contains book.mapSeenVotes (vote.getHash rules) with
      | true =>
          rw [receiveVote_ignored rules env book (Or.inl hnew)]
          refine (or_iff_left_of_imp ?_).symm
          intro heq
          rw [heq.1]
          exact hnew
      | false =>
          have hinserted : forall k, StdMap.contains (book.mapSeenVotes.insert
              (vote.getHash rules) { vote with fValid := true }) k = true <->
                book.HasSeen k ∨ k = vote.getHash rules := by
            intro k
            rw [StdMap.contains_insert, Bool.or_eq_true, decide_eq_true_iff]
            exact or_comm
          rw [receiveVote_seen rules env book hnew hknown, and_iff_left rfl, ← hinserted]
          unfold HasSeen
          split_ifs
          · rw [mapSeenVotes_update]
          · rfl

end VoteBook

/-!
# Copies of a vote
-/

/-- The same vote with another signature, which is wrong. -/
def forgedCopy [DecidableEq choice] (rules : VoteRules choice) (env : BudgetEnv)
    (vote copy : MasternodeVote choice) : Bool :=
  decide (copy.vin = vote.vin ∧ copy.nHash = vote.nHash ∧ copy.nVote = vote.nVote ∧
    copy.nTime = vote.nTime ∧ copy.vchSig ≠ vote.vchSig) &&
    !copy.signatureValid rules env true

section Copies

variable [DecidableEq choice] {rules : VoteRules choice} {env : BudgetEnv}
  {vote copy : MasternodeVote choice} (h : forgedCopy rules env vote copy = true)
include h

theorem getHash_forgedCopy : copy.getHash rules = vote.getHash rules := by
  unfold forgedCopy at h
  simp only [Bool.and_eq_true, decide_eq_true_iff] at h
  rcases h with ⟨⟨hvin, hhash, hvote, htime, _⟩, _⟩
  unfold MasternodeVote.getHash
  rw [hvin, hhash, hvote, htime]

theorem signatureValid_forgedCopy : copy.signatureValid rules env true = false := by
  unfold forgedCopy at h
  rw [Bool.and_eq_true, Bool.not_eq_true'] at h
  exact h.2

theorem looksAt_forgedCopy : VoteBook.looksAt env copy = VoteBook.looksAt env vote := by
  unfold forgedCopy at h
  simp only [Bool.and_eq_true, decide_eq_true_iff] at h
  unfold VoteBook.looksAt
  rw [h.1.1]

end Copies

namespace BudgetBooks

/-- The same books, but for votes on proposals and on finalized budgets seen under hashes. -/
structure Apart (proposals finalized : UInt256 -> Prop) (books books' : BudgetBooks) : Prop where
  proposals : VoteBook.SeenApart proposals books.proposals books'.proposals
  finalized : VoteBook.SeenApart finalized books.finalized books'.finalized

variable {rules : BudgetRules} {node : BudgetNode} {books books' : BudgetBooks}
  {hashes hashes' : UInt256 -> Prop}

theorem processMessage_of_not_ready (h : node.ready = false) (message : BudgetMessage) :
    books.processMessage rules node message = (false, books) := by
  unfold processMessage
  rw [h]
  rfl

theorem processMessage_mvote (h : node.ready = true) (vote : CBudgetVote) :
    books.processMessage rules node (BudgetMessage.mvote vote) =
      ((books.proposals.receiveVote rules.proposalVotes node.toBudgetEnv vote).1,
        { books with
          proposals :=
            (books.proposals.receiveVote rules.proposalVotes node.toBudgetEnv vote).2 }) := by
  unfold processMessage
  rw [h]
  rfl

theorem processMessage_fbvote (h : node.ready = true) (vote : CFinalizedBudgetVote) :
    books.processMessage rules node (BudgetMessage.fbvote vote) =
      ((books.finalized.receiveVote rules.finalizedVotes node.toBudgetEnv vote).1,
        { books with
          finalized :=
            (books.finalized.receiveVote rules.finalizedVotes node.toBudgetEnv vote).2 }) := by
  unfold processMessage
  rw [h]
  rfl

/-- A message which does not bring a vote with one of the hashes. -/
theorem Apart.processMessage (h : Apart hashes hashes' books books') (message : BudgetMessage)
    (hmvote : forall vote, message = BudgetMessage.mvote vote -> node.ready = true ->
      VoteBook.looksAt node.toBudgetEnv vote = true ->
        ¬ hashes (vote.getHash rules.proposalVotes))
    (hfbvote : forall vote, message = BudgetMessage.fbvote vote -> node.ready = true ->
      VoteBook.looksAt node.toBudgetEnv vote = true ->
        ¬ hashes' (vote.getHash rules.finalizedVotes)) :
    Apart hashes hashes' (books.processMessage rules node message).2
      (books'.processMessage rules node message).2 := by
  cases hready : node.ready with
  | false =>
      rw [processMessage_of_not_ready hready, processMessage_of_not_ready hready]
      exact h
  | true =>
      cases message with
      | mprop proposal =>
          have hitem := h.proposals.receiveItem (rules.hashProposal proposal)
            (node.proposalCollateral proposal) (node.proposalIsValid proposal) proposal
          unfold BudgetBooks.processMessage
          rw [hready]
          simp only [Bool.not_true, Bool.false_eq_true, if_false]
          rw [hitem.1]
          split_ifs
          · exact ⟨hitem.2.checkOrphanVotes _ _, h.finalized.checkOrphanVotes _ _⟩
          · exact ⟨hitem.2, h.finalized⟩
      | mvote vote =>
          rw [processMessage_mvote hready, processMessage_mvote hready]
          refine ⟨(h.proposals.receiveVote _ _ fun hknown => ?_).2, h.finalized⟩
          exact h.proposals.hasSeen_iff (hmvote vote rfl hready hknown)
      | fbs budget =>
          have hitem := h.finalized.receiveItem (rules.hashBudget budget)
            (node.budgetCollateral budget) (node.budgetIsValid budget) budget
          unfold BudgetBooks.processMessage
          rw [hready]
          simp only [Bool.not_true, Bool.false_eq_true, if_false]
          rw [hitem.1]
          split_ifs
          · exact ⟨h.proposals.checkOrphanVotes _ _, hitem.2.checkOrphanVotes _ _⟩
          · exact ⟨h.proposals, hitem.2⟩
      | fbvote vote =>
          rw [processMessage_fbvote hready, processMessage_fbvote hready]
          refine ⟨h.proposals, (h.finalized.receiveVote _ _ fun hknown => ?_).2⟩
          exact h.finalized.hasSeen_iff (hfbvote vote rfl hready hknown)

/-- An item brings no votes. -/
theorem mapSeenVotes_mprop (proposal : CBudgetProposalBroadcast) :
    (books.processMessage rules node (BudgetMessage.mprop proposal)).2.proposals.mapSeenVotes =
        books.proposals.mapSeenVotes ∧
      (books.processMessage rules node (BudgetMessage.mprop proposal)).2.finalized.mapSeenVotes =
        books.finalized.mapSeenVotes := by
  have hitem := VoteBook.mapSeenVotes_receiveItem books.proposals (rules.hashProposal proposal)
    (node.proposalCollateral proposal) (node.proposalIsValid proposal) proposal
  unfold BudgetBooks.processMessage BudgetBooks.checkOrphanVotes
  split_ifs
  · exact ⟨rfl, rfl⟩
  · simp only
    split_ifs
    · rw [VoteBook.mapSeenVotes_checkOrphanVotes, VoteBook.mapSeenVotes_checkOrphanVotes, hitem]
      exact ⟨rfl, rfl⟩
    · exact ⟨hitem, rfl⟩

theorem mapSeenVotes_fbs (budget : CFinalizedBudgetBroadcast) :
    (books.processMessage rules node (BudgetMessage.fbs budget)).2.proposals.mapSeenVotes =
        books.proposals.mapSeenVotes ∧
      (books.processMessage rules node (BudgetMessage.fbs budget)).2.finalized.mapSeenVotes =
        books.finalized.mapSeenVotes := by
  have hitem := VoteBook.mapSeenVotes_receiveItem books.finalized (rules.hashBudget budget)
    (node.budgetCollateral budget) (node.budgetIsValid budget) budget
  unfold BudgetBooks.processMessage BudgetBooks.checkOrphanVotes
  split_ifs
  · exact ⟨rfl, rfl⟩
  · simp only
    split_ifs
    · rw [VoteBook.mapSeenVotes_checkOrphanVotes, VoteBook.mapSeenVotes_checkOrphanVotes, hitem]
      exact ⟨rfl, rfl⟩
    · exact ⟨rfl, hitem⟩

/-- Which votes on proposals have been seen after a message. -/
theorem hasSeen_proposals (message : BudgetMessage) (hash : UInt256) :
    (books.processMessage rules node message).2.proposals.HasSeen hash <->
      books.proposals.HasSeen hash ∨ exists vote, message = BudgetMessage.mvote vote ∧
        node.ready = true ∧ hash = vote.getHash rules.proposalVotes ∧
          VoteBook.looksAt node.toBudgetEnv vote = true := by
  unfold VoteBook.HasSeen
  cases message with
  | mprop proposal =>
      rw [(mapSeenVotes_mprop proposal).1]
      simp
  | fbs budget =>
      rw [(mapSeenVotes_fbs budget).1]
      simp
  | mvote vote =>
      simp only [BudgetMessage.mvote.injEq, exists_eq_left']
      cases hready : node.ready with
      | false =>
          rw [processMessage_of_not_ready hready]
          simp
      | true =>
          rw [processMessage_mvote hready, and_iff_right rfl]
          exact VoteBook.hasSeen_receiveVote _ _ _ vote hash
  | fbvote vote =>
      have hsame : (books.processMessage rules node (BudgetMessage.fbvote vote)).2.proposals =
          books.proposals := by
        unfold BudgetBooks.processMessage
        split_ifs <;> rfl
      rw [hsame]
      simp

/-- Which votes on finalized budgets have been seen after a message. -/
theorem hasSeen_finalized (message : BudgetMessage) (hash : UInt256) :
    (books.processMessage rules node message).2.finalized.HasSeen hash <->
      books.finalized.HasSeen hash ∨ exists vote, message = BudgetMessage.fbvote vote ∧
        node.ready = true ∧ hash = vote.getHash rules.finalizedVotes ∧
          VoteBook.looksAt node.toBudgetEnv vote = true := by
  unfold VoteBook.HasSeen
  cases message with
  | mprop proposal =>
      rw [(mapSeenVotes_mprop proposal).2]
      simp
  | fbs budget =>
      rw [(mapSeenVotes_fbs budget).2]
      simp
  | mvote vote =>
      have hsame : (books.processMessage rules node (BudgetMessage.mvote vote)).2.finalized =
          books.finalized := by
        unfold BudgetBooks.processMessage
        split_ifs <;> rfl
      rw [hsame]
      simp
  | fbvote vote =>
      simp only [BudgetMessage.fbvote.injEq, exists_eq_left']
      cases hready : node.ready with
      | false =>
          rw [processMessage_of_not_ready hready]
          simp
      | true =>
          rw [processMessage_fbvote hready, and_iff_right rfl]
          exact VoteBook.hasSeen_receiveVote _ _ _ vote hash

/-!
# A genuine vote among its copies
-/

/-- The books after several messages, each of which finds the node in some state. -/
def receive (rules : BudgetRules) (books : BudgetBooks) (o : BudgetNode × BudgetMessage) :
    BudgetBooks :=
  (books.processMessage rules o.1 o.2).2

/-- Whether a message brings a forged copy of a vote on a proposal. -/
def bringsForgery (rules : BudgetRules) (vote : CBudgetVote) : BudgetNode × BudgetMessage -> Bool
  | (node, BudgetMessage.mvote copy) =>
      forgedCopy rules.proposalVotes node.toBudgetEnv vote copy
  | _ => false

/-- Whether a message brings a forged copy of a vote on a finalized budget. -/
def bringsBudgetForgery (rules : BudgetRules) (vote : CFinalizedBudgetVote) :
    BudgetNode × BudgetMessage -> Bool
  | (node, BudgetMessage.fbvote copy) =>
      forgedCopy rules.finalizedVotes node.toBudgetEnv vote copy
  | _ => false

/-- Whether a node looks at copies of a vote which it has not seen. -/
def wouldLook (node : BudgetNode) (vote : MasternodeVote choice) : Bool :=
  node.ready && VoteBook.looksAt node.toBudgetEnv vote

section Kind

variable (rules : BudgetRules) (voteRules : VoteRules choice)
  (book : BudgetBooks -> VoteBook item choice) (bring : MasternodeVote choice -> BudgetMessage)
  (apart : BudgetBooks -> BudgetBooks -> Prop) (hash : UInt256)

/-- What is common to both kinds: how messages change what is seen, and what else they do. -/
structure KindLaws : Prop where
  hasSeen : forall node books message k,
    (book (processMessage rules node books message).2).HasSeen k <->
      (book books).HasSeen k ∨ exists vote, message = bring vote ∧ node.ready = true ∧
        k = vote.getHash voteRules ∧ VoteBook.looksAt node.toBudgetEnv vote = true
  quiet : forall node books books' message, apart books books' ->
    (forall vote, message = bring vote -> node.ready = true ->
      VoteBook.looksAt node.toBudgetEnv vote = true -> vote.getHash voteRules ≠ hash) ->
    apart (processMessage rules node books message).2 (processMessage rules node books' message).2
  forged : forall node books books' vote, apart books books' -> vote.getHash voteRules = hash ->
    vote.signatureValid voteRules node.toBudgetEnv true = false ->
    apart books (processMessage rules node books' (bring vote)).2
  bring_inj : forall vote vote', bring vote = bring vote' -> vote = vote'

variable {rules voteRules book bring apart}

/-- Forged copies leave no more than a hash behind. -/
theorem KindLaws.run [DecidableEq choice] {vote : MasternodeVote choice}
    (laws : KindLaws rules voteRules book bring apart (vote.getHash voteRules))
    {inert : BudgetNode × BudgetMessage -> Bool}
    (hbrings : forall o, inert o = true <->
      exists copy, o.2 = bring copy ∧ forgedCopy voteRules o.1.toBudgetEnv vote copy = true)
    (hrefl : forall books, apart books books) (os : List (BudgetNode × BudgetMessage))
    (books : BudgetBooks)
    (hunseen : ¬ (book ((os.filter fun o => !inert o).foldl (receive rules) books)).HasSeen
      (vote.getHash voteRules)) :
    apart ((os.filter fun o => !inert o).foldl (receive rules) books)
        (os.foldl (receive rules) books) ∧
      ((book (os.foldl (receive rules) books)).HasSeen (vote.getHash voteRules) <->
        exists o, o ∈ os ∧ inert o = true ∧ wouldLook o.1 vote = true) := by
  let marked := fun books : BudgetBooks => (book books).HasSeen (vote.getHash voteRules)
  have hkeep : forall books o, marked books -> marked (receive rules books o) :=
    fun books o h => (laws.hasSeen o.1 books o.2 _).mpr (Or.inl h)
  have hseen : ¬ marked books := fun h => hunseen (marked_foldl _ marked hkeep _ h)
  have hinert : forall books books' o, inert o = true -> apart books books' ->
      apart books (receive rules books' o) ∧
        (marked (receive rules books' o) <-> marked books' ∨ wouldLook o.1 vote = true) := by
    intro books books' o hforged hrel
    rcases o with ⟨node, message⟩
    rcases (hbrings _).mp hforged with ⟨copy, hmessage, hcopy⟩
    change message = bring copy at hmessage
    subst hmessage
    have hhash := getHash_forgedCopy hcopy
    constructor
    · exact laws.forged node books books' copy hrel hhash (signatureValid_forgedCopy hcopy)
    · refine (laws.hasSeen node books' _ _).trans (or_congr_right ?_)
      unfold wouldLook
      rw [Bool.and_eq_true, ← looksAt_forgedCopy hcopy]
      constructor
      · intro h
        rcases h with ⟨other, heq, hready, _, hknown⟩
        rw [laws.bring_inj copy other heq]
        exact ⟨hready, hknown⟩
      · exact fun h => ⟨copy, rfl, h.1, hhash.symm, h.2⟩
  have hother : forall books books' o, inert o = false -> apart books books' ->
      ¬ marked (receive rules books o) ->
      apart (receive rules books o) (receive rules books' o) ∧
        (marked (receive rules books' o) <-> marked books') := by
    intro books books' o _ hrel hunmarked
    have hquiet := mt (laws.hasSeen o.1 books o.2 _).mpr hunmarked
    rw [not_or, not_exists] at hquiet
    constructor
    · apply laws.quiet o.1 books books' o.2 hrel
      intro other heq hready hknown hhash
      exact hquiet.2 other ⟨heq, hready, hhash.symm, hknown⟩
    · refine (laws.hasSeen o.1 books' o.2 _).trans (or_iff_left ?_)
      intro hmarks
      rcases hmarks with ⟨other, hmarks⟩
      exact hquiet.2 other hmarks
  have hrun := foldl_inert (receive rules) apart marked inert
    (fun o => wouldLook o.1 vote = true) hkeep hinert hother os books books (hrefl books) hunseen
  rw [or_iff_right hseen] at hrun
  exact hrun

end Kind

theorem mvoteLaws (rules : BudgetRules) (hash : UInt256) :
    KindLaws rules rules.proposalVotes BudgetBooks.proposals BudgetMessage.mvote
      (Apart (fun k => k = hash) fun _ => False) hash := by
  constructor
  · exact fun node books message k => hasSeen_proposals message k
  · intro node books books' message h hvote
    exact h.processMessage message hvote fun _ _ _ _ => id
  · intro node books books' vote h hhash hsig
    cases hready : node.ready with
    | false =>
        rw [processMessage_of_not_ready hready]
        exact h
    | true =>
        rw [processMessage_mvote hready]
        exact ⟨h.proposals.receiveForged _ _ hhash hsig, h.finalized⟩
  · exact fun vote vote' heq => BudgetMessage.mvote.inj heq

theorem fbvoteLaws (rules : BudgetRules) (hash : UInt256) :
    KindLaws rules rules.finalizedVotes BudgetBooks.finalized BudgetMessage.fbvote
      (Apart (fun _ => False) fun k => k = hash) hash := by
  constructor
  · exact fun node books message k => hasSeen_finalized message k
  · intro node books books' message h hvote
    exact h.processMessage message (fun _ _ _ _ => id) hvote
  · intro node books books' vote h hhash hsig
    cases hready : node.ready with
    | false =>
        rw [processMessage_of_not_ready hready]
        exact h
    | true =>
        rw [processMessage_fbvote hready]
        exact ⟨h.proposals, h.finalized.receiveForged _ _ hhash hsig⟩
  · exact fun vote vote' heq => BudgetMessage.fbvote.inj heq

theorem apart_refl {hashes hashes' : UInt256 -> Prop} (books : BudgetBooks) :
    Apart hashes hashes' books books :=
  ⟨VoteBook.SeenApart.refl _, VoteBook.SeenApart.refl _⟩

theorem bringsForgery_iff (rules : BudgetRules) (vote : CBudgetVote)
    (o : BudgetNode × BudgetMessage) :
    bringsForgery rules vote o = true <-> exists copy, o.2 = BudgetMessage.mvote copy ∧
      forgedCopy rules.proposalVotes o.1.toBudgetEnv vote copy = true := by
  rcases o with ⟨node, message⟩
  cases message <;> simp [bringsForgery]

theorem bringsBudgetForgery_iff (rules : BudgetRules) (vote : CFinalizedBudgetVote)
    (o : BudgetNode × BudgetMessage) :
    bringsBudgetForgery rules vote o = true <-> exists copy, o.2 = BudgetMessage.fbvote copy ∧
      forgedCopy rules.finalizedVotes o.1.toBudgetEnv vote copy = true := by
  rcases o with ⟨node, message⟩
  cases message <;> simp [bringsBudgetForgery]

/-- A vote that is counted has not been seen before. -/
theorem unseen_of_counts {rules : VoteRules choice} {env : BudgetEnv}
    {book : VoteBook item choice} {vote : MasternodeVote choice}
    (h : (book.receiveVote rules env vote).1 = true) : ¬ book.HasSeen (vote.getHash rules) := by
  intro hseen
  rw [VoteBook.receiveVote_ignored rules env book (Or.inl hseen)] at h
  cases h

theorem ready_of_counts {rules : BudgetRules} {node : BudgetNode} {books : BudgetBooks}
    {message : BudgetMessage} (h : (books.processMessage rules node message).1 = true) :
    node.ready = true := by
  by_contra hready
  rw [processMessage_of_not_ready (Bool.not_eq_true _ ▸ hready)] at h
  cases h

/--
Votes on a proposal and on a finalized budget, each of which is counted when its forged copies
are left out.  It is still counted among them exactly if none of them was looked at.
-/
theorem genuine_vote_counts_iff (rules : BudgetRules) (books : BudgetBooks)
    (os : List (BudgetNode × BudgetMessage)) (node : BudgetNode) :
    (forall vote : CBudgetVote,
        (processMessage rules node
          ((os.filter fun o => !bringsForgery rules vote o).foldl (receive rules) books)
          (BudgetMessage.mvote vote)).1 = true ->
        ((processMessage rules node (os.foldl (receive rules) books)
            (BudgetMessage.mvote vote)).1 = true <->
          forall o, o ∈ os -> bringsForgery rules vote o = true -> wouldLook o.1 vote = false)) ∧
      forall vote : CFinalizedBudgetVote,
        (processMessage rules node
          ((os.filter fun o => !bringsBudgetForgery rules vote o).foldl (receive rules) books)
          (BudgetMessage.fbvote vote)).1 = true ->
        ((processMessage rules node (os.foldl (receive rules) books)
            (BudgetMessage.fbvote vote)).1 = true <->
          forall o, o ∈ os -> bringsBudgetForgery rules vote o = true ->
            wouldLook o.1 vote = false) := by
  constructor
  · intro vote hcounts
    have hready := ready_of_counts hcounts
    rw [processMessage_mvote hready] at hcounts
    rcases (mvoteLaws rules _).run (bringsForgery_iff rules vote) apart_refl os books
      (unseen_of_counts hcounts) with ⟨hapart, hseen⟩
    rw [processMessage_mvote hready]
    refine (hapart.proposals.counts_iff _ _ hcounts).trans ((not_congr hseen).trans ?_)
    simp only [not_exists, not_and, Bool.not_eq_true]
  · intro vote hcounts
    have hready := ready_of_counts hcounts
    rw [processMessage_fbvote hready] at hcounts
    rcases (fbvoteLaws rules _).run (bringsBudgetForgery_iff rules vote) apart_refl os books
      (unseen_of_counts hcounts) with ⟨hapart, hseen⟩
    rw [processMessage_fbvote hready]
    refine (hapart.finalized.counts_iff _ _ hcounts).trans ((not_congr hseen).trans ?_)
    simp only [not_exists, not_and, Bool.not_eq_true]

/-- A node which is not ready does not look at the copies. -/
theorem genuine_vote_after_ignored_copies :
    (processMessage BudgetExample.rules BudgetExample.node
        ([(BudgetExample.node, BudgetMessage.mprop BudgetExample.proposal),
          ({ BudgetExample.node with fLiteMode := true },
            BudgetMessage.mvote (BudgetExample.voteOf 1 1 [2]))].foldl
          (receive BudgetExample.rules) {})
        (BudgetMessage.mvote (BudgetExample.voteOf 1 1 [1]))).1 = true ∧
      (processMessage BudgetExample.rules BudgetExample.node
        ([(BudgetExample.node, BudgetMessage.fbs BudgetExample.budget),
          ({ BudgetExample.node with fLiteMode := true },
            BudgetMessage.fbvote (BudgetExample.voteOf 1 () [2]))].foldl
          (receive BudgetExample.rules) {})
        (BudgetMessage.fbvote (BudgetExample.voteOf 1 () [1]))).1 = true := by
  constructor
  · exact ((genuine_vote_counts_iff BudgetExample.rules {} _ BudgetExample.node).1 _
      (by decide +kernel)).mpr (by decide +kernel)
  · exact ((genuine_vote_counts_iff BudgetExample.rules {} _ BudgetExample.node).2 _
      (by decide +kernel)).mpr (by decide +kernel)

/-- A forged copy keeps the vote from being counted, on a proposal as on a finalized budget. -/
theorem forged_copy_suppresses_vote :
    ¬ ((forall (rules : BudgetRules) (books : BudgetBooks)
          (os : List (BudgetNode × BudgetMessage)) (node : BudgetNode) (vote : CBudgetVote),
          (processMessage rules node
            ((os.filter fun o => !bringsForgery rules vote o).foldl (receive rules) books)
            (BudgetMessage.mvote vote)).1 = true ->
          (processMessage rules node (os.foldl (receive rules) books)
            (BudgetMessage.mvote vote)).1 = true)) ∧
      ¬ forall (rules : BudgetRules) (books : BudgetBooks)
          (os : List (BudgetNode × BudgetMessage)) (node : BudgetNode)
          (vote : CFinalizedBudgetVote),
          (processMessage rules node
            ((os.filter fun o => !bringsBudgetForgery rules vote o).foldl (receive rules) books)
            (BudgetMessage.fbvote vote)).1 = true ->
          (processMessage rules node (os.foldl (receive rules) books)
            (BudgetMessage.fbvote vote)).1 = true := by
  constructor
  · intro h
    have hcounts := h BudgetExample.rules {}
      [(BudgetExample.node, BudgetMessage.mprop BudgetExample.proposal),
        (BudgetExample.node, BudgetMessage.mvote (BudgetExample.voteOf 1 1 [2]))]
      BudgetExample.node (BudgetExample.voteOf 1 1 [1]) (by decide +kernel)
    revert hcounts
    decide +kernel
  · intro h
    have hcounts := h BudgetExample.rules {}
      [(BudgetExample.node, BudgetMessage.fbs BudgetExample.budget),
        (BudgetExample.node, BudgetMessage.fbvote (BudgetExample.voteOf 1 () [2]))]
      BudgetExample.node (BudgetExample.voteOf 1 () [1]) (by decide +kernel)
    revert hcounts
    decide +kernel

end BudgetBooks

end Hbcur
