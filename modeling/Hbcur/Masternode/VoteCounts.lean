import Hbcur.Foundation.Run
import Hbcur.Masternode.BudgetVotes

/-!
# The votes which count

`GetVoteCount` is the size of `mapVotes`, while `CleanAndRemove` only marks the votes of
masternodes which have left the list.
-/

namespace Hbcur

open Foundation

variable {choice item : Type}

/-!
# Valid votes
-/

namespace Voted

def AllValid (voted : Voted item choice) : Prop :=
  forall k vote, voted.mapVotes.lookup k = some vote -> vote.fValid = true

/-- The votes which are marked as valid. -/
def validCount (voted : Voted item choice) : Nat :=
  StdMap.countValues voted.mapVotes MasternodeVote.fValid

theorem getVoteCount_eq_iff (voted : Voted item choice) :
    voted.getVoteCount = voted.validCount <-> voted.AllValid := by
  unfold getVoteCount validCount StdMap.countValues AllValid
  rw [eq_comm, List.countP_eq_length]
  constructor
  · intro h k vote hlookup
    exact h ⟨k, vote⟩ (AList.mem_lookup_iff.mp hlookup)
  · intro h e hmem
    exact h e.1 e.2 (AList.mem_lookup_iff.mpr hmem)

/-- Whether all masternodes which have voted are in the list. -/
def VotersKnown (env : BudgetEnv) (voted : Voted item choice) : Prop :=
  forall k vote, voted.mapVotes.lookup k = some vote -> (env.mnodeman.find vote.vin).isSome = true

theorem signatureValid_unchecked (rules : VoteRules choice) (env : BudgetEnv)
    (vote : MasternodeVote choice) :
    vote.signatureValid rules env false = (env.mnodeman.find vote.vin).isSome := by
  unfold MasternodeVote.signatureValid
  cases env.mnodeman.find vote.vin <;> rfl

theorem allValid_cleanAndRemove_iff (rules : VoteRules choice) (env : BudgetEnv)
    (voted : Voted item choice) :
    (voted.cleanAndRemove rules env false).AllValid <-> voted.VotersKnown env := by
  unfold AllValid VotersKnown cleanAndRemove
  simp only [StdMap.lookup_mapValues]
  constructor
  · intro h k vote hlookup
    have hvalid := h k _ (by rw [hlookup, Option.map_some])
    simp only at hvalid
    rw [signatureValid_unchecked] at hvalid
    exact hvalid
  · intro h k vote hlookup
    rcases Option.map_eq_some_iff.mp hlookup with ⟨old, hold, rfl⟩
    simp only
    rw [signatureValid_unchecked]
    exact h k old hold

end Voted

namespace VoteBook

/-- All votes are valid, those which wait for their item included. -/
structure AllValid (book : VoteBook item choice) : Prop where
  items : forall hash voted, book.mapItems.lookup hash = some voted -> voted.AllValid
  orphans : forall hash vote, book.mapOrphanVotes.lookup hash = some vote -> vote.fValid = true

namespace AllValid

variable {book : VoteBook item choice} (h : book.AllValid)
include h

theorem update (rules : VoteRules choice) (env : BudgetEnv) (fromPeer : Bool)
    {vote : MasternodeVote choice} (hvote : vote.fValid = true) :
    (book.update rules env fromPeer vote).2.AllValid := by
  rcases update_cases rules env book fromPeer vote with heq | heq | ⟨voted, hvoted, _, heq⟩
  · rw [heq]
    exact h
  · rw [heq]
    constructor
    · exact h.items
    · intro hash other hlookup
      rw [StdMap.lookup_insert_eq] at hlookup
      split_ifs at hlookup
      · cases hlookup
        exact hvote
      · exact h.orphans hash other hlookup
  · rw [heq]
    constructor
    · intro hash changed hlookup k other hother
      rw [StdMap.lookup_insert_eq] at hlookup
      split_ifs at hlookup
      · cases hlookup
        rw [StdMap.lookup_insert_eq] at hother
        split_ifs at hother
        · cases hother
          exact hvote
        · exact h.items _ voted hvoted k other hother
      · exact h.items hash changed hlookup k other hother
    · exact h.orphans

theorem checkOrphanVote (rules : VoteRules choice) (env : BudgetEnv) (hash : UInt256)
    {vote : MasternodeVote choice} (hvote : vote.fValid = true) :
    (book.checkOrphanVote rules env hash vote).AllValid := by
  have hupdate := h.update rules env false hvote
  unfold VoteBook.checkOrphanVote
  cases hresult : book.update rules env false vote with
  | mk counted book' =>
      rw [hresult] at hupdate
      cases counted with
      | false => exact hupdate
      | true =>
          constructor
          · exact hupdate.items
          · intro k other hlookup
            simp only at hlookup
            rw [StdMap.lookup_erase_eq] at hlookup
            split_ifs at hlookup
            exact hupdate.orphans k other hlookup

theorem checkOrphanVotes (rules : VoteRules choice) (env : BudgetEnv) :
    (book.checkOrphanVotes rules env).AllValid := by
  have hvalid : forall e, e ∈ book.mapOrphanVotes.entries -> e.2.fValid = true := by
    intro e hmem
    exact h.orphans e.1 e.2 (AList.mem_lookup_iff.mpr hmem)
  unfold VoteBook.checkOrphanVotes
  revert hvalid
  generalize book.mapOrphanVotes.entries = es
  induction es generalizing book with
  | nil => exact fun _ => h
  | cons e es ih =>
      intro hvalid
      exact ih (h.checkOrphanVote rules env e.1 (hvalid e List.mem_cons_self))
        fun e' hmem => hvalid e' (List.mem_cons_of_mem e hmem)

theorem seeVote (seen : StdMap UInt256 (MasternodeVote choice)) :
    ({ book with mapSeenVotes := seen } : VoteBook item choice).AllValid :=
  ⟨h.items, h.orphans⟩

theorem receiveVote (rules : VoteRules choice) (env : BudgetEnv) (vote : MasternodeVote choice) :
    (book.receiveVote rules env vote).2.AllValid := by
  cases hnew : StdMap.contains book.mapSeenVotes (vote.getHash rules) with
  | true =>
      rw [receiveVote_ignored rules env book (Or.inl hnew)]
      exact h
  | false =>
      cases hknown : looksAt env vote with
      | false =>
          rw [receiveVote_ignored rules env book (Or.inr hknown)]
          exact h
      | true =>
          rw [receiveVote_seen rules env book hnew hknown]
          split_ifs
          · exact (h.seeVote _).update rules env true rfl
          · exact h.seeVote _

theorem addItem (hash : UInt256) (broadcast : item) :
    (book.addItem hash broadcast).2.AllValid := by
  rcases addItem_cases book hash broadcast with heq | ⟨_, heq⟩
  · rw [heq]
    exact h
  · rw [heq]
    constructor
    · intro k voted hlookup
      simp only at hlookup
      rw [StdMap.lookup_insert_eq] at hlookup
      split_ifs at hlookup
      · cases hlookup
        exact fun _ _ hnone => nomatch hnone
      · exact h.items k voted hlookup
    · exact h.orphans

theorem receiveItem (hash : UInt256) (collateral : Collateral) (isValid : Bool)
    (broadcast : item) : (book.receiveItem hash collateral isValid broadcast).2.AllValid := by
  unfold VoteBook.receiveItem
  by_cases hold : StdMap.contains book.mapSeenItems hash = true
  · rw [if_pos hold]
    exact h
  · rw [if_neg hold]
    cases collateral with
    | invalid => exact h
    | immature => exact ⟨h.items, h.orphans⟩
    | valid =>
        have hseen : ({ book with
            mapSeenItems := StdMap.insertNew book.mapSeenItems hash broadcast } :
            VoteBook item choice).AllValid := ⟨h.items, h.orphans⟩
        cases isValid with
        | true => exact hseen.addItem hash broadcast
        | false => exact hseen

theorem matureItems (hashItem : item -> UInt256) (collateral : item -> Collateral)
    (isValid : item -> Bool) (waiting : List item) :
    (VoteBook.matureItems hashItem collateral isValid waiting book).AllValid := by
  induction waiting generalizing book with
  | nil => exact h
  | cons broadcast rest ih =>
      unfold VoteBook.matureItems
      split_ifs
      · exact ih (h.addItem (hashItem broadcast) broadcast)
      · exact ih h
      · exact ⟨(ih h).items, (ih h).orphans⟩

end AllValid

/-- After the clean-up the valid votes are those of masternodes in the list. -/
theorem allValid_cleanAndRemove_iff {book : VoteBook item choice} (h : book.AllValid)
    (rules : VoteRules choice) (env : BudgetEnv) :
    (book.cleanAndRemove rules env).AllValid <->
      forall hash voted, book.mapItems.lookup hash = some voted -> voted.VotersKnown env := by
  unfold cleanAndRemove
  constructor
  · intro hclean hash voted hlookup
    refine (voted.allValid_cleanAndRemove_iff rules env).mp (hclean.items hash _ ?_)
    simp only
    rw [StdMap.lookup_mapValues, hlookup, Option.map_some]
  · intro hknown
    constructor
    · intro hash voted hlookup
      simp only at hlookup
      rw [StdMap.lookup_mapValues] at hlookup
      rcases Option.map_eq_some_iff.mp hlookup with ⟨old, hold, rfl⟩
      exact (old.allValid_cleanAndRemove_iff rules env).mpr (hknown hash old hold)
    · exact h.orphans

end VoteBook

/-!
# Any calls
-/

/-- What changes the maps of the budget manager. -/
inductive BudgetCall where
  | processMessage (message : BudgetMessage)
  /-- The passes over all votes in `NewBlock`. -/
  | cleanAndRemove
  /-- The items which have waited for their collateral, in `NewBlock`. -/
  | matureItems
  /-- A budget of the node itself, in `SubmitFinalBudget`. -/
  | submitBudget (budget : CFinalizedBudgetBroadcast)
  /-- Votes of the node itself. -/
  | castVote (vote : CBudgetVote)
  | castBudgetVote (vote : CFinalizedBudgetVote)
  | clearSeen
  | clear

namespace VoteBook

/-- A vote of the node itself is seen if it is counted. -/
def castVote (rules : VoteRules choice) (env : BudgetEnv) (book : VoteBook item choice)
    (voteIn : MasternodeVote choice) : VoteBook item choice :=
  let vote := { voteIn with fValid := true }
  match book.update rules env false vote with
  | (true, book') =>
      { book' with
        mapSeenVotes := StdMap.insertNew book'.mapSeenVotes (vote.getHash rules) vote }
  | (false, book') => book'

/-- An item of the node itself, if it is valid. -/
def submitItem (book : VoteBook item choice) (hash : UInt256) (isValid : Bool)
    (broadcast : item) : VoteBook item choice :=
  if isValid then
    (VoteBook.addItem
      { book with mapSeenItems := StdMap.insertNew book.mapSeenItems hash broadcast }
      hash broadcast).2
  else book

theorem AllValid.submitItem {book : VoteBook item choice} (h : book.AllValid) (hash : UInt256)
    (isValid : Bool) (broadcast : item) : (book.submitItem hash isValid broadcast).AllValid := by
  have hseen : ({ book with
      mapSeenItems := StdMap.insertNew book.mapSeenItems hash broadcast } :
      VoteBook item choice).AllValid := ⟨h.items, h.orphans⟩
  unfold VoteBook.submitItem
  split_ifs
  · exact hseen.addItem hash broadcast
  · exact h

theorem AllValid.castVote {book : VoteBook item choice} (h : book.AllValid)
    (rules : VoteRules choice) (env : BudgetEnv) (vote : MasternodeVote choice) :
    (book.castVote rules env vote).AllValid := by
  have hvalid : ({ vote with fValid := true } : MasternodeVote choice).fValid = true := rfl
  have hupdate := h.update rules env false hvalid
  unfold VoteBook.castVote
  simp only
  cases hresult : book.update rules env false { vote with fValid := true } with
  | mk counted book' =>
      rw [hresult] at hupdate
      cases counted with
      | false => exact hupdate
      | true => exact hupdate.seeVote _

end VoteBook

namespace BudgetBooks

def call (rules : BudgetRules) (books : BudgetBooks) : BudgetNode × BudgetCall -> BudgetBooks
  | (node, BudgetCall.processMessage message) => (books.processMessage rules node message).2
  | (node, BudgetCall.cleanAndRemove) =>
      { proposals := books.proposals.cleanAndRemove rules.proposalVotes node.toBudgetEnv
        finalized := books.finalized.cleanAndRemove rules.finalizedVotes node.toBudgetEnv }
  | (node, BudgetCall.matureItems) =>
      { proposals := VoteBook.matureItems rules.hashProposal node.proposalCollateral
          node.proposalIsValid books.proposals.vecImmature
          { books.proposals with vecImmature := [] }
        finalized := VoteBook.matureItems rules.hashBudget node.budgetCollateral
          node.budgetIsValid books.finalized.vecImmature
          { books.finalized with vecImmature := [] } }
  | (node, BudgetCall.submitBudget budget) =>
      { books with
        finalized := books.finalized.submitItem (rules.hashBudget budget)
          (node.budgetIsValid budget) budget }
  | (node, BudgetCall.castVote vote) =>
      { books with
        proposals := books.proposals.castVote rules.proposalVotes node.toBudgetEnv vote }
  | (node, BudgetCall.castBudgetVote vote) =>
      { books with
        finalized := books.finalized.castVote rules.finalizedVotes node.toBudgetEnv vote }
  | (_, BudgetCall.clearSeen) =>
      { proposals := { books.proposals with mapSeenItems := ∅, mapSeenVotes := ∅ }
        finalized := { books.finalized with mapSeenItems := ∅, mapSeenVotes := ∅ } }
  | (_, BudgetCall.clear) =>
      { proposals := { vecImmature := books.proposals.vecImmature }
        finalized := { vecImmature := books.finalized.vecImmature } }

/-- The finalized budgets with the number of their valid votes. -/
def validManager (books : BudgetBooks) (countEnabled : Nat) : CBudgetManager where
  mapFinalizedBudgets := books.finalized.mapItems.entries.map fun e =>
    { nBlockStart := e.2.item.nBlockStart
      vecBudgetPayments := e.2.item.vecBudgetPayments
      voteCount := e.2.validCount }
  countEnabled := countEnabled

/-- The checks of a block compare the numbers of valid votes. -/
def CountsValid (books : BudgetBooks) : Prop :=
  forall countEnabled, books.toManager countEnabled = books.validManager countEnabled

theorem countsValid_iff (books : BudgetBooks) :
    books.CountsValid <->
      forall hash voted, books.finalized.mapItems.lookup hash = some voted -> voted.AllValid := by
  unfold CountsValid toManager validManager
  simp only [CBudgetManager.mk.injEq, and_true, forall_const, List.map_inj_left,
    CFinalizedBudget.mk.injEq, true_and]
  constructor
  · intro h hash voted hlookup
    have hcount := h ⟨hash, voted⟩ (AList.mem_lookup_iff.mp hlookup)
    exact voted.getVoteCount_eq_iff.mp hcount
  · intro h e hmem
    exact e.2.getVoteCount_eq_iff.mpr (h e.1 e.2 (AList.mem_lookup_iff.mpr hmem))

/-- No masternode which has voted for a finalized budget has left when votes are cleaned up. -/
def VotersStay (books : BudgetBooks) (o : BudgetNode × BudgetCall) : Prop :=
  o.2 = BudgetCall.cleanAndRemove ->
    forall hash voted, books.finalized.mapItems.lookup hash = some voted ->
      voted.VotersKnown o.1.toBudgetEnv

theorem allValid_processMessage {books : BudgetBooks} (h : books.finalized.AllValid)
    (rules : BudgetRules) (node : BudgetNode) (message : BudgetMessage) :
    (books.processMessage rules node message).2.finalized.AllValid := by
  unfold processMessage
  split_ifs
  · exact h
  · cases message with
    | mprop proposal =>
        simp only
        split_ifs
        · exact h.checkOrphanVotes rules.finalizedVotes node.toBudgetEnv
        · exact h
    | mvote vote => exact h
    | fbs budget =>
        have hitem := h.receiveItem (rules.hashBudget budget) (node.budgetCollateral budget)
          (node.budgetIsValid budget) budget
        simp only
        split_ifs
        · exact hitem.checkOrphanVotes rules.finalizedVotes node.toBudgetEnv
        · exact hitem
    | fbvote vote => exact h.receiveVote rules.finalizedVotes node.toBudgetEnv vote

theorem allValid_call {books : BudgetBooks} (h : books.finalized.AllValid) (rules : BudgetRules)
    {o : BudgetNode × BudgetCall} (hstay : VotersStay books o) :
    (books.call rules o).finalized.AllValid := by
  rcases o with ⟨node, c⟩
  cases c with
  | processMessage message => exact allValid_processMessage h rules node message
  | cleanAndRemove =>
      exact (VoteBook.allValid_cleanAndRemove_iff h rules.finalizedVotes _).mpr (hstay rfl)
  | matureItems =>
      have hcleared : ({ books.finalized with vecImmature := [] } :
          VoteBook CFinalizedBudgetBroadcast Unit).AllValid := ⟨h.items, h.orphans⟩
      exact hcleared.matureItems _ _ _ _
  | submitBudget budget => exact h.submitItem _ _ budget
  | castVote vote => exact h
  | castBudgetVote vote => exact h.castVote rules.finalizedVotes node.toBudgetEnv vote
  | clearSeen => exact ⟨h.items, h.orphans⟩
  | clear => exact ⟨(fun _ _ hnone => nomatch hnone), (fun _ _ hnone => nomatch hnone)⟩

/-- A vote which is marked while it still counts shows at once. -/
theorem votersStay_of_countsValid {books : BudgetBooks} (h : books.finalized.AllValid)
    {rules : BudgetRules} {o : BudgetNode × BudgetCall}
    (hcounts : (books.call rules o).CountsValid) : VotersStay books o := by
  rcases o with ⟨node, c⟩
  intro hclean
  change c = BudgetCall.cleanAndRemove at hclean
  subst hclean
  apply (VoteBook.allValid_cleanAndRemove_iff h rules.finalizedVotes node.toBudgetEnv).mp
  exact ⟨(countsValid_iff _).mp hcounts, h.orphans⟩

theorem counts_valid_iff_voters_stay (rules : BudgetRules)
    (os : List (BudgetNode × BudgetCall)) :
    StatesSatisfy (call rules) CountsValid {} os <->
      StepsSatisfy (call rules) VotersStay {} os := by
  refine statesSatisfy_iff_steps (fun books : BudgetBooks => books.finalized.AllValid) ?_ ?_ ?_ os {} ?_
  · exact fun books h => (countsValid_iff books).mpr h.items
  · exact fun books o h hstay => allValid_call h rules hstay
  · exact fun books o h hcounts => votersStay_of_countsValid h hcounts
  · exact ⟨(fun _ _ hnone => nomatch hnone), (fun _ _ hnone => nomatch hnone)⟩

open BudgetExample in
/-- A masternode votes for a finalized budget and leaves the list. -/
theorem departed_vote_counts :
    ¬ forall (rules : BudgetRules) (os : List (BudgetNode × BudgetCall)),
      StatesSatisfy (call rules) CountsValid {} os := by
  intro h
  have hrun := h rules
    [(node, BudgetCall.processMessage (BudgetMessage.fbs budget)),
      (node, BudgetCall.processMessage (BudgetMessage.fbvote (voteOf 1 () [1]))),
      (nodeWith [masternode 2], BudgetCall.cleanAndRemove)]
  have hcounts := congrArg CBudgetManager.mapFinalizedBudgets (hrun.foldl 2)
  exact absurd hcounts (by decide +kernel)

end BudgetBooks

end Hbcur
