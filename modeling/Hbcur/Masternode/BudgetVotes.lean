import Hbcur.Foundation.StdMap
import Hbcur.Masternode.Budget
import Hbcur.Masternode.Rank

/-!
# Votes on budgets

`masternode-budget.cpp` keeps proposals and finalized budgets alike: the items themselves,
those seen, the votes seen, and the votes which came before their item.  The functions for the
two kinds are the same but for what is voted on.  Whether an item is valid and paid for is
decided by the node when it comes in.
-/

namespace Hbcur

open Foundation

def BUDGET_VOTE_UPDATE_MIN : Int := 60 * 60

/-- `CBudgetVote` or `CFinalizedBudgetVote`, by what there is to choose from. -/
structure MasternodeVote (choice : Type) where
  fValid : Bool := true
  vin : CTxIn
  /-- `nProposalHash` or `nBudgetHash` -/
  nHash : UInt256
  nVote : choice
  nTime : Int
  vchSig : List UInt8
  deriving DecidableEq, Repr

abbrev CBudgetVote := MasternodeVote Int

/-- A finalized budget can only be voted for. -/
abbrev CFinalizedBudgetVote := MasternodeVote Unit

/-- Hashes and signatures of votes. -/
structure VoteRules (choice : Type) where
  hashOutPoint : COutPoint -> UInt256
  hashVote : CTxIn -> UInt256 -> choice -> Int -> UInt256
  /-- The check of a signature by a key, over what is signed. -/
  verifyMessage : List UInt8 -> List UInt8 -> COutPoint × UInt256 × choice × Int -> Bool

/-- What a node knows when something happens. -/
structure BudgetEnv where
  fLiteMode : Bool
  isBlockchainSynced : Bool
  isSynced : Bool
  mnodeman : CMasternodeMan
  /-- `GetTime()` -/
  now : Int

namespace BudgetEnv

/-- Whether messages are processed at all. -/
def ready (env : BudgetEnv) : Bool :=
  !env.fLiteMode && env.isBlockchainSynced

end BudgetEnv

variable {choice item : Type}

namespace MasternodeVote

/-- The hash of a vote leaves its signature out. -/
def getHash (rules : VoteRules choice) (vote : MasternodeVote choice) : UInt256 :=
  rules.hashVote vote.vin vote.nHash vote.nVote vote.nTime

/-- The key of a masternode's vote in `mapVotes`. -/
def key (rules : VoteRules choice) (vote : MasternodeVote choice) : UInt256 :=
  rules.hashOutPoint vote.vin.prevout

def signatureValid (rules : VoteRules choice) (env : BudgetEnv) (fSignatureCheck : Bool)
    (vote : MasternodeVote choice) : Bool :=
  match env.mnodeman.find vote.vin with
  | none => false
  | some pmn =>
      !fSignatureCheck || rules.verifyMessage pmn.pubKeyMasternode vote.vchSig
        (vote.vin.prevout, vote.nHash, vote.nVote, vote.nTime)

end MasternodeVote

/-!
# The votes on one item
-/

/-- Why a vote is not taken. -/
inductive VoteError where
  | olderThanExisting
  | tooSoon (nSeconds : Int)
  | tooFarAhead (nTime nMaxTime : Int)
  deriving DecidableEq, Repr

/-- The votes on an item by the masternodes' keys, `mapVotes`. -/
abbrev VoteMap (choice : Type) := StdMap UInt256 (MasternodeVote choice)

def tooFarAhead (now : Int) (vote : MasternodeVote choice) : Option VoteError :=
  if vote.nTime > now + 60 * 60 then some (VoteError.tooFarAhead vote.nTime (now + 60 * 60))
  else none

/-- What speaks against a vote, given the vote which the masternode has cast before. -/
def refusal (now : Int) (existing : Option (MasternodeVote choice))
    (vote : MasternodeVote choice) : Option VoteError :=
  match existing with
  | none => tooFarAhead now vote
  | some old =>
      if old.nTime > vote.nTime then some VoteError.olderThanExisting
      else if vote.nTime - old.nTime < BUDGET_VOTE_UPDATE_MIN then
        some (VoteError.tooSoon (vote.nTime - old.nTime))
      else tooFarAhead now vote

def addOrUpdateVote (rules : VoteRules choice) (now : Int) (mapVotes : VoteMap choice)
    (vote : MasternodeVote choice) : Except VoteError (VoteMap choice) :=
  match refusal now (mapVotes.lookup (vote.key rules)) vote with
  | some err => Except.error err
  | none => Except.ok (mapVotes.insert (vote.key rules) vote)

/-- A proposal or finalized budget as it is broadcast, with the votes on it. -/
structure Voted (item choice : Type) where
  item : item
  mapVotes : VoteMap choice := ∅

namespace Voted

def getVoteCount (voted : Voted item choice) : Nat :=
  voted.mapVotes.entries.length

def cleanAndRemove (rules : VoteRules choice) (env : BudgetEnv) (fSignatureCheck : Bool)
    (voted : Voted item choice) : Voted item choice :=
  { voted with
    mapVotes := StdMap.mapValues
      (fun vote => { vote with fValid := vote.signatureValid rules env fSignatureCheck })
      voted.mapVotes }

end Voted

/-!
# All items of a kind
-/

/-- What `IsBudgetCollateralValid` says, and how it is confirmed if it is not valid. -/
inductive Collateral where
  | valid
  | immature
  | invalid
  deriving DecidableEq, Repr

/-- The maps for proposals, or those for finalized budgets. -/
structure VoteBook (item choice : Type) where
  /-- `mapProposals` or `mapFinalizedBudgets` -/
  mapItems : StdMap UInt256 (Voted item choice) := ∅
  /-- `mapSeenMasternodeBudgetProposals` or `mapSeenFinalizedBudgets` -/
  mapSeenItems : StdMap UInt256 item := ∅
  /-- `mapSeenMasternodeBudgetVotes` or `mapSeenFinalizedBudgetVotes` -/
  mapSeenVotes : StdMap UInt256 (MasternodeVote choice) := ∅
  /-- `mapOrphanMasternodeBudgetVotes` or `mapOrphanFinalizedBudgetVotes` -/
  mapOrphanVotes : StdMap UInt256 (MasternodeVote choice) := ∅
  /-- `vecImmatureBudgetProposals` or `vecImmatureFinalizedBudgets` -/
  vecImmature : List item := []

namespace VoteBook

/-- `UpdateProposal` or `UpdateFinalizedBudget`, for a vote from a peer or for one at hand. -/
def update (rules : VoteRules choice) (env : BudgetEnv) (fromPeer : Bool)
    (book : VoteBook item choice) (vote : MasternodeVote choice) : Bool × VoteBook item choice :=
  match book.mapItems.lookup vote.nHash with
  | none =>
      -- one vote is kept for each missing item
      if fromPeer && env.isSynced then
        (false, { book with mapOrphanVotes := book.mapOrphanVotes.insert vote.nHash vote })
      else (false, book)
  | some voted =>
      match addOrUpdateVote rules env.now voted.mapVotes vote with
      | Except.error _ => (false, book)
      | Except.ok mapVotes =>
          (true,
            { book with mapItems := book.mapItems.insert vote.nHash { voted with mapVotes } })

/-- One round of `CheckOrphanVotes`. -/
def checkOrphanVote (rules : VoteRules choice) (env : BudgetEnv) (book : VoteBook item choice)
    (hash : UInt256) (vote : MasternodeVote choice) : VoteBook item choice :=
  match book.update rules env false vote with
  | (true, book') => { book' with mapOrphanVotes := book'.mapOrphanVotes.erase hash }
  | (false, book') => book'

def checkOrphanVotes (rules : VoteRules choice) (env : BudgetEnv) (book : VoteBook item choice) :
    VoteBook item choice :=
  book.mapOrphanVotes.entries.foldl (fun book e => book.checkOrphanVote rules env e.1 e.2) book

/-- A `mvote` or `fbvote` message, and whether the vote is counted. -/
def receiveVote (rules : VoteRules choice) (env : BudgetEnv) (book : VoteBook item choice)
    (voteIn : MasternodeVote choice) : Bool × VoteBook item choice :=
  let vote := { voteIn with fValid := true }
  if StdMap.contains book.mapSeenVotes (vote.getHash rules) then (false, book)
  else
    match env.mnodeman.find vote.vin with
    | none => (false, book)
    | some _ =>
        let book :=
          { book with
            mapSeenVotes := StdMap.insertNew book.mapSeenVotes (vote.getHash rules) vote }
        if vote.signatureValid rules env true then book.update rules env true vote
        else (false, book)

/-- `AddProposal` or `AddFinalizedBudget` of a valid item. -/
def addItem (book : VoteBook item choice) (hash : UInt256) (broadcast : item) :
    Bool × VoteBook item choice :=
  if StdMap.contains book.mapItems hash then (false, book)
  else (true, { book with mapItems := book.mapItems.insert hash { item := broadcast } })

/-- A `mprop` or `fbs` message, and whether the votes which wait for items are looked at. -/
def receiveItem (book : VoteBook item choice) (hash : UInt256) (collateral : Collateral)
    (isValid : Bool) (broadcast : item) : Bool × VoteBook item choice :=
  if StdMap.contains book.mapSeenItems hash then (false, book)
  else
    match collateral with
    | Collateral.invalid => (false, book)
    | Collateral.immature => (false, { book with vecImmature := book.vecImmature ++ [broadcast] })
    | Collateral.valid =>
        let book :=
          { book with mapSeenItems := StdMap.insertNew book.mapSeenItems hash broadcast }
        if isValid then (true, (book.addItem hash broadcast).2) else (false, book)

/-- The items which wait for their collateral, in `NewBlock`. -/
def matureItems (hashItem : item -> UInt256) (collateral : item -> Collateral)
    (isValid : item -> Bool) : List item -> VoteBook item choice -> VoteBook item choice
  | [], book => book
  | broadcast :: rest, book =>
      if collateral broadcast = Collateral.valid then
        if isValid broadcast then
          matureItems hashItem collateral isValid rest
            (book.addItem (hashItem broadcast) broadcast).2
        else matureItems hashItem collateral isValid rest book
      else
        let book := matureItems hashItem collateral isValid rest book
        { book with vecImmature := broadcast :: book.vecImmature }

def cleanAndRemove (rules : VoteRules choice) (env : BudgetEnv) (book : VoteBook item choice) :
    VoteBook item choice :=
  { book with mapItems := StdMap.mapValues (Voted.cleanAndRemove rules env false) book.mapItems }

end VoteBook

/-!
# What the operations do
-/

namespace VoteBook

variable (rules : VoteRules choice) (env : BudgetEnv) (book : VoteBook item choice)

/-- A vote is left aside, or waits for its item, or is counted. -/
theorem update_cases (fromPeer : Bool) (vote : MasternodeVote choice) :
    book.update rules env fromPeer vote = (false, book) ∨
      book.update rules env fromPeer vote =
          (false, { book with mapOrphanVotes := book.mapOrphanVotes.insert vote.nHash vote }) ∨
        exists voted, book.mapItems.lookup vote.nHash = some voted ∧
          refusal env.now (voted.mapVotes.lookup (vote.key rules)) vote = none ∧
          book.update rules env fromPeer vote =
            (true,
              { book with
                mapItems := book.mapItems.insert vote.nHash
                  { voted with mapVotes := voted.mapVotes.insert (vote.key rules) vote } }) := by
  unfold update addOrUpdateVote
  cases hitem : book.mapItems.lookup vote.nHash with
  | none =>
      simp only
      split_ifs
      · exact Or.inr (Or.inl rfl)
      · exact Or.inl rfl
  | some voted =>
      cases hrefusal : refusal env.now (voted.mapVotes.lookup (vote.key rules)) vote with
      | some err => exact Or.inl (by simp [hrefusal])
      | none => exact Or.inr (Or.inr ⟨voted, rfl, hrefusal, by simp [hrefusal]⟩)

/-- Whether a vote is looked at when it comes in, unless it has been seen. -/
def looksAt (env : BudgetEnv) (vote : MasternodeVote choice) : Bool :=
  (env.mnodeman.find vote.vin).isSome

theorem receiveVote_ignored {vote : MasternodeVote choice}
    (h : StdMap.contains book.mapSeenVotes (vote.getHash rules) = true ∨
      looksAt env vote = false) :
    book.receiveVote rules env vote = (false, book) := by
  unfold receiveVote
  simp only
  rcases h with hseen | hunknown
  · exact if_pos hseen
  · unfold looksAt at hunknown
    rw [Option.isSome_eq_false_iff, Option.isNone_iff_eq_none] at hunknown
    rw [hunknown]
    exact ite_self _

/-- The vote is put into the map of seen votes, whatever its signature. -/
theorem receiveVote_seen {vote : MasternodeVote choice}
    (hnew : StdMap.contains book.mapSeenVotes (vote.getHash rules) = false)
    (hknown : looksAt env vote = true) :
    book.receiveVote rules env vote =
      if vote.signatureValid rules env true then
        VoteBook.update rules env true
          { book with
            mapSeenVotes := book.mapSeenVotes.insert (vote.getHash rules)
              { vote with fValid := true } }
          { vote with fValid := true }
      else
        (false,
          { book with
            mapSeenVotes := book.mapSeenVotes.insert (vote.getHash rules)
              { vote with fValid := true } }) := by
  have hhash : MasternodeVote.getHash rules { vote with fValid := true } = vote.getHash rules := rfl
  have hinsert : StdMap.insertNew book.mapSeenVotes (vote.getHash rules)
      { vote with fValid := true } =
        book.mapSeenVotes.insert (vote.getHash rules) { vote with fValid := true } := by
    unfold StdMap.insertNew
    rw [hnew]
    rfl
  unfold looksAt at hknown
  rcases Option.isSome_iff_exists.mp hknown with ⟨pmn, hpmn⟩
  unfold receiveVote
  simp only
  rw [hhash, hnew, hpmn, hinsert]
  rfl

theorem addItem_cases (hash : UInt256) (broadcast : item) :
    book.addItem hash broadcast = (false, book) ∨
      book.mapItems.lookup hash = none ∧ book.addItem hash broadcast =
        (true, { book with mapItems := book.mapItems.insert hash { item := broadcast } }) := by
  unfold addItem
  split_ifs with hin
  · exact Or.inl rfl
  · rw [Bool.not_eq_true, StdMap.contains_eq_false_iff] at hin
    exact Or.inr ⟨hin, rfl⟩

end VoteBook

/-!
# Both kinds
-/

structure CBudgetProposalBroadcast where
  strProposalName : String
  strURL : String
  nTime : Int
  nBlockStart : Int
  nBlockEnd : Int
  nAmount : Int
  address : CScript
  nFeeTXHash : UInt256
  deriving DecidableEq, Repr

structure CFinalizedBudgetBroadcast where
  strBudgetName : String
  nBlockStart : Int
  vecBudgetPayments : List CTxBudgetPayment
  nFeeTXHash : UInt256
  deriving DecidableEq, Repr

structure BudgetRules where
  proposalVotes : VoteRules Int
  finalizedVotes : VoteRules Unit
  hashProposal : CBudgetProposalBroadcast -> UInt256
  hashBudget : CFinalizedBudgetBroadcast -> UInt256

/-- What a node thinks of items when a message comes in. -/
structure BudgetNode extends BudgetEnv where
  proposalCollateral : CBudgetProposalBroadcast -> Collateral
  proposalIsValid : CBudgetProposalBroadcast -> Bool
  budgetCollateral : CFinalizedBudgetBroadcast -> Collateral
  budgetIsValid : CFinalizedBudgetBroadcast -> Bool

inductive BudgetMessage where
  | mprop (proposal : CBudgetProposalBroadcast)
  | mvote (vote : CBudgetVote)
  | fbs (budget : CFinalizedBudgetBroadcast)
  | fbvote (vote : CFinalizedBudgetVote)

/-- The maps of `CBudgetManager`. -/
structure BudgetBooks where
  proposals : VoteBook CBudgetProposalBroadcast Int := {}
  finalized : VoteBook CFinalizedBudgetBroadcast Unit := {}

namespace BudgetBooks

def checkOrphanVotes (rules : BudgetRules) (env : BudgetEnv) (books : BudgetBooks) :
    BudgetBooks where
  proposals := books.proposals.checkOrphanVotes rules.proposalVotes env
  finalized := books.finalized.checkOrphanVotes rules.finalizedVotes env

/-- `ProcessMessage`, and whether a vote is counted. -/
def processMessage (rules : BudgetRules) (node : BudgetNode) (books : BudgetBooks)
    (message : BudgetMessage) : Bool × BudgetBooks :=
  if !node.ready then (false, books)
  else
    match message with
    | BudgetMessage.mprop proposal =>
        let (reached, proposals) := books.proposals.receiveItem (rules.hashProposal proposal)
          (node.proposalCollateral proposal) (node.proposalIsValid proposal) proposal
        let books := { books with proposals }
        (false, if reached then books.checkOrphanVotes rules node.toBudgetEnv else books)
    | BudgetMessage.mvote vote =>
        let (counted, proposals) :=
          books.proposals.receiveVote rules.proposalVotes node.toBudgetEnv vote
        (counted, { books with proposals })
    | BudgetMessage.fbs budget =>
        let (reached, finalized) := books.finalized.receiveItem (rules.hashBudget budget)
          (node.budgetCollateral budget) (node.budgetIsValid budget) budget
        let books := { books with finalized }
        (false, if reached then books.checkOrphanVotes rules node.toBudgetEnv else books)
    | BudgetMessage.fbvote vote =>
        let (counted, finalized) :=
          books.finalized.receiveVote rules.finalizedVotes node.toBudgetEnv vote
        (counted, { books with finalized })

/-- The finalized budgets as the checks of a block read them. -/
def toManager (books : BudgetBooks) (countEnabled : Nat) : CBudgetManager where
  mapFinalizedBudgets := books.finalized.mapItems.entries.map fun e =>
    { nBlockStart := e.2.item.nBlockStart
      vecBudgetPayments := e.2.item.vecBudgetPayments
      voteCount := e.2.getVoteCount }
  countEnabled := countEnabled

end BudgetBooks

/-!
# A node with two masternodes
-/

namespace BudgetExample

def masternode (n : Nat) : CMasternode where
  vin := { prevout := { hash := BitVec.ofNat 256 n, n := 0 }, scriptSig := [], nSequence := 0 }
  protocolVersion := 70914
  sigTime := 0
  isEnabled := true
  pubKeyCollateralAddress := []
  pubKeyMasternode := []

/-- The signatures of all masternodes consist of a single one. -/
def voteRules : VoteRules choice where
  hashOutPoint := fun out => out.hash
  hashVote := fun vin nHash _ nTime =>
    BitVec.ofInt 256 (1000 * vin.prevout.hash.toNat + nHash.toNat + nTime)
  verifyMessage := fun _ vchSig _ => vchSig == [1]

def rules : BudgetRules where
  proposalVotes := voteRules
  finalizedVotes := voteRules
  hashProposal := fun _ => 7
  hashBudget := fun _ => 7

def nodeWith (vMasternodes : List CMasternode) : BudgetNode where
  fLiteMode := false
  isBlockchainSynced := true
  isSynced := true
  mnodeman := CMasternodeMan.ofMasternodes vMasternodes 200
  now := 1000
  proposalCollateral := fun _ => Collateral.valid
  proposalIsValid := fun _ => true
  budgetCollateral := fun _ => Collateral.valid
  budgetIsValid := fun _ => true

def node : BudgetNode := nodeWith [masternode 1, masternode 2]

def proposal : CBudgetProposalBroadcast where
  strProposalName := "road"
  strURL := ""
  nTime := 0
  nBlockStart := 144
  nBlockEnd := 145
  nAmount := 10 * COIN
  address := [0]
  nFeeTXHash := 1

def budget : CFinalizedBudgetBroadcast where
  strBudgetName := "main"
  nBlockStart := 144
  vecBudgetPayments := [{ payee := [0], nAmount := 10 * COIN }]
  nFeeTXHash := 1

/-- A vote of a masternode on the item above. -/
def voteOf (n : Nat) (nVote : choice) (vchSig : List UInt8) : MasternodeVote choice where
  vin := (masternode n).vin
  nHash := 7
  nVote := nVote
  nTime := 100
  vchSig := vchSig

end BudgetExample

end Hbcur

/-!
# Two votes of one masternode

A vote replaces an earlier one if it is at least an hour younger.  Two votes which are closer
to each other are not told apart by their times: the one which comes first stays.
-/

namespace Hbcur

open Foundation

variable {choice : Type}

theorem tooFarAhead_eq_none_iff (now : Int) (vote : MasternodeVote choice) :
    tooFarAhead now vote = none <-> vote.nTime ≤ now + 60 * 60 := by
  unfold tooFarAhead
  split_ifs with h
  · exact iff_of_false (fun heq => nomatch heq) (by omega)
  · exact iff_of_true rfl (by omega)

/-- A vote is taken if it is not too far ahead, and an hour younger than the one before. -/
theorem refusal_eq_none_iff (now : Int) (existing : Option (MasternodeVote choice))
    (vote : MasternodeVote choice) :
    refusal now existing vote = none <->
      vote.nTime ≤ now + 60 * 60 ∧ forall old, existing = some old ->
        old.nTime + BUDGET_VOTE_UPDATE_MIN ≤ vote.nTime := by
  cases existing with
  | none =>
      change tooFarAhead now vote = none <-> _
      rw [tooFarAhead_eq_none_iff]
      simp
  | some old =>
      unfold refusal
      simp only [Option.some.injEq, forall_eq']
      have hmin : (0 : Int) < BUDGET_VOTE_UPDATE_MIN := by decide
      split_ifs with holder hsoon
      · exact iff_of_false (fun heq => nomatch heq) (by omega)
      · exact iff_of_false (fun heq => nomatch heq) (by omega)
      · rw [tooFarAhead_eq_none_iff]
        exact (and_iff_left (by omega)).symm

section Delivery

variable (rules : VoteRules choice)

/-- The votes on an item after a vote has come in. -/
def deliver (now : Int) (mapVotes : VoteMap choice) (vote : MasternodeVote choice) :
    VoteMap choice :=
  match addOrUpdateVote rules now mapVotes vote with
  | Except.error _ => mapVotes
  | Except.ok mapVotes' => mapVotes'

theorem lookup_deliver (now : Int) (mapVotes : VoteMap choice) (vote : MasternodeVote choice)
    (k : UInt256) :
    (deliver rules now mapVotes vote).lookup k =
      if k = vote.key rules ∧ refusal now (mapVotes.lookup (vote.key rules)) vote = none then
        some vote
      else mapVotes.lookup k := by
  unfold deliver addOrUpdateVote
  cases hrefusal : refusal now (mapVotes.lookup (vote.key rules)) vote with
  | some err => simp
  | none => simp [StdMap.lookup_insert_eq]

variable {rules} {mapVotes : VoteMap choice} {earlier later : MasternodeVote choice}

end Delivery

end Hbcur
