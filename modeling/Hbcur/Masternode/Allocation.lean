import Hbcur.Foundation.Choosing
import Hbcur.Masternode.BudgetLimits

/-!
# The budget of the next cycle

`CBudgetManager::GetBudget` of `masternode-budget.cpp`: the proposals with enough votes are
paid in the order of their votes, as long as the budget lasts.
-/

namespace Hbcur

open Foundation Serialize

def VOTE_YES : Int := 1
def VOTE_NO : Int := 2

/-!
# Proposals
-/

namespace Voted

variable {item : Type}

def getYeas (voted : Voted item Int) : Int :=
  StdMap.countValues voted.mapVotes fun vote => decide (vote.nVote = VOTE_YES) && vote.fValid

def getNays (voted : Voted item Int) : Int :=
  StdMap.countValues voted.mapVotes fun vote => decide (vote.nVote = VOTE_NO) && vote.fValid

end Voted

/-- `CBudgetProposal::IsValid` -/
def proposalIsValid (ctx : BudgetContext) (hash : UInt256) (fCheckCollateral : Bool)
    (p : Voted CBudgetProposalBroadcast Int) : Except String Unit := do
  require (!decide (p.getNays - p.getYeas > (ctx.countEnabled / 10 : Nat))) "Active removal"
  require (!decide (p.item.nBlockStart < 0)) "Invalid Proposal"
  require (!decide (p.item.nBlockEnd < p.item.nBlockStart))
    "Invalid nBlockEnd (end before start)"
  require (!decide (p.item.nAmount < 10 * COIN)) "Invalid nAmount"
  require (!decide (p.item.address = [])) "Invalid Payment Address"
  onlyIf fCheckCollateral
    (require (ctx.collateralError p.item.nFeeTXHash hash).isNone "Invalid collateral")
  require (!CScript.isPayToScriptHash p.item.address) "Multisig is not currently supported."
  require (!decide (p.item.nAmount > ctx.getTotalBudget p.item.nBlockStart))
    "Payment more than max"
  match ctx.tipHeight with
  | none => Except.ok ()
  | some nHeight =>
      require (!decide (p.item.nBlockEnd < nHeight - ctx.cycle / 2))
        "Invalid nBlockEnd (end too early)"

/-- The amounts which `IsValid` lets through on any network. -/
def AmountAdmitted (nAmount : Int) : Prop :=
  10 * COIN ≤ nAmount ∧ nAmount ≤ BudgetContext.maxBudget

theorem amountAdmitted_of_isValid {ctx : BudgetContext} {hash : UInt256}
    {fCheckCollateral : Bool} {p : Voted CBudgetProposalBroadcast Int}
    (h : proposalIsValid ctx hash fCheckCollateral p = Except.ok ()) :
    AmountAdmitted p.item.nAmount := by
  unfold proposalIsValid at h
  simp only [then_eq_ok_iff, require_eq_ok_iff, Bool.not_eq_true', decide_eq_false_iff_not] at h
  rcases h with ⟨_, _, _, hleast, _, _, _, hmost, _⟩
  have hmax := (ctx.getTotalBudget_bounds p.item.nBlockStart).2
  constructor <;> omega

/-- A proposal in `mapProposals`, where `AddProposal` puts valid ones only. -/
structure CBudgetProposal extends Voted CBudgetProposalBroadcast Int where
  fValid : Bool := true
  nAlloted : Int := 0
  admitted : AmountAdmitted item.nAmount

namespace CBudgetProposal

def getAmount (p : CBudgetProposal) : Int := p.item.nAmount

def netVotes (p : CBudgetProposal) : Int := p.getYeas - p.getNays

def setAllotted (p : CBudgetProposal) (nAllotedIn : Int) : CBudgetProposal :=
  { p with nAlloted := nAllotedIn }

def cleanAndRemove (rules : VoteRules Int) (env : BudgetEnv) (p : CBudgetProposal) :
    CBudgetProposal where
  toVoted := p.toVoted.cleanAndRemove rules env false
  fValid := p.fValid
  nAlloted := p.nAlloted
  admitted := p.admitted

def isEstablished (ctx : BudgetContext) (p : CBudgetProposal) : Bool :=
  if ctx.networkID = Network.MAIN then decide (p.item.nTime < ctx.now - 60 * 60 * 24)
  else decide (p.item.nTime < ctx.now - 60 * 5)

/-- The conditions under which a proposal takes part in the budget of a cycle. -/
def eligible (ctx : BudgetContext) (nBlockStart nBlockEnd : Int) (p : CBudgetProposal) : Bool :=
  p.fValid && decide (p.item.nBlockStart ≤ nBlockStart) &&
    decide (p.item.nBlockEnd ≥ nBlockEnd) &&
    decide (p.netVotes > (ctx.countEnabled / 10 : Nat)) && p.isEstablished ctx

theorem getAmount_pos (p : CBudgetProposal) : 0 < p.getAmount := by
  have h := p.admitted.1
  exact Int.lt_of_lt_of_le (by decide) h

end CBudgetProposal

abbrev ProposalMap := StdMap UInt256 CBudgetProposal

def addProposal (ctx : BudgetContext) (hash : UInt256) (p : Voted CBudgetProposalBroadcast Int)
    (mapProposals : ProposalMap) : Bool × ProposalMap :=
  if h : proposalIsValid ctx hash true p = Except.ok () then
    if StdMap.contains mapProposals hash then (false, mapProposals)
    else (true, mapProposals.insert hash { p with admitted := amountAdmitted_of_isValid h })
  else (false, mapProposals)

/-!
# The order of proposals
-/

/-- A proposal under its hash, with the votes it had when it was listed. -/
structure Candidate where
  hash : UInt256
  proposal : CBudgetProposal
  votes : Int

def sortProposalsByVotes (left right : Candidate) : Bool :=
  if left.votes ≠ right.votes then decide (left.votes > right.votes)
  else decide (left.proposal.item.nFeeTXHash > right.proposal.item.nFeeTXHash)

/-- `sort` by `sortProposalsByVotes`, which leaves the order of equals open. -/
structure ProposalSort where
  sort : List Candidate -> List Candidate
  perm : forall l, (sort l).Perm l
  sorted : forall l, (sort l).Pairwise fun a b => sortProposalsByVotes b a = false

theorem votes_le_of_sorted {a b : Candidate} (h : sortProposalsByVotes b a = false) :
    b.votes ≤ a.votes := by
  unfold sortProposalsByVotes at h
  split_ifs at h with hne
  · exact Int.not_lt.mp (of_decide_eq_false h)
  · exact Int.le_of_eq (not_not.mp hne)

theorem sortProposalsByVotes_eq_false_iff {a b : Candidate} :
    sortProposalsByVotes b a = false <-> b.votes < a.votes ∨
      b.votes = a.votes ∧
        b.proposal.item.nFeeTXHash.toNat ≤ a.proposal.item.nFeeTXHash.toNat := by
  unfold sortProposalsByVotes
  split_ifs with hne
  · rw [decide_eq_false_iff_not]
    omega
  · rw [decide_eq_false_iff_not, gt_iff_lt, BitVec.lt_def]
    omega

/-- Merge sort is one of the sorts. -/
def ProposalSort.mergeSort : ProposalSort where
  sort := fun l => l.mergeSort fun a b => !sortProposalsByVotes b a
  perm := fun l => l.mergeSort_perm _
  sorted := by
    intro l
    have h : (l.mergeSort fun a b => !sortProposalsByVotes b a).Pairwise
        fun a b => (!sortProposalsByVotes b a) = true := by
      apply List.pairwise_mergeSort
      · intro a b c hab hbc
        rw [Bool.not_eq_true', sortProposalsByVotes_eq_false_iff] at hab hbc ⊢
        omega
      · intro a b
        rw [Bool.or_eq_true, Bool.not_eq_true', Bool.not_eq_true',
          sortProposalsByVotes_eq_false_iff, sortProposalsByVotes_eq_false_iff]
        omega
    exact h.imp fun hle => Bool.not_eq_true' _ |>.mp hle

/-!
# The loop
-/

structure AllocationState where
  nBudgetAllocated : Int := 0
  vBudgetProposalsRet : List UInt256 := []
  mapProposals : ProposalMap

/-- The cycle for which a budget is made. -/
structure BudgetCycle where
  nBlockStart : Int
  nBlockEnd : Int
  nTotalBudget : Int

def allocate (ctx : BudgetContext) (cycle : BudgetCycle) (s : AllocationState) (c : Candidate) :
    AllocationState :=
  let nAmount := c.proposal.getAmount
  if c.proposal.eligible ctx cycle.nBlockStart cycle.nBlockEnd then
    if wrapInt64 (nAmount + s.nBudgetAllocated) ≤ cycle.nTotalBudget then
      { nBudgetAllocated := wrapInt64 (s.nBudgetAllocated + nAmount)
        vBudgetProposalsRet := s.vBudgetProposalsRet ++ [c.hash]
        mapProposals := StdMap.modify s.mapProposals c.hash fun p => p.setAllotted nAmount }
    else
      { s with
        mapProposals := StdMap.modify s.mapProposals c.hash fun p => p.setAllotted 0 }
  else s

def nextCycle (ctx : BudgetContext) (nHeight : Int) : BudgetCycle :=
  let nBlockStart := nHeight - nHeight.tmod ctx.cycle + ctx.cycle
  { nBlockStart := nBlockStart
    nBlockEnd := nBlockStart + ctx.cycle - 1
    nTotalBudget := ctx.getTotalBudget nBlockStart }

def candidates (mapProposals : ProposalMap) : List Candidate :=
  mapProposals.entries.map fun e => { hash := e.1, proposal := e.2, votes := e.2.netVotes }

def cleanProposals (rules : VoteRules Int) (env : BudgetEnv) (mapProposals : ProposalMap) :
    ProposalMap :=
  StdMap.mapValues (CBudgetProposal.cleanAndRemove rules env) mapProposals

/-- The hashes of the proposals which are paid, and the proposals after it. -/
def getBudget (rules : VoteRules Int) (sort : ProposalSort) (ctx : BudgetContext)
    (mapProposals : ProposalMap) : List UInt256 × ProposalMap :=
  let cleaned := cleanProposals rules ctx.toBudgetEnv mapProposals
  let sorted := sort.sort (candidates cleaned)
  match ctx.tipHeight with
  | none => ([], cleaned)
  | some nHeight =>
      let s := sorted.foldl (allocate ctx (nextCycle ctx nHeight)) { mapProposals := cleaned }
      (s.vBudgetProposalsRet, s.mapProposals)

/-!
# What the loop does
-/

section Loop

variable {ctx : BudgetContext} {cycle : BudgetCycle}

def Candidate.amount (c : Candidate) : Int := c.proposal.getAmount

/-- Whether a candidate takes part in a cycle. -/
def Candidate.takesPart (ctx : BudgetContext) (cycle : BudgetCycle) (c : Candidate) : Bool :=
  c.proposal.eligible ctx cycle.nBlockStart cycle.nBlockEnd

/-- The candidates which get their amounts. -/
def paidCandidates (ctx : BudgetContext) (cycle : BudgetCycle) (used : Int) (l : List Candidate) :
    List Candidate :=
  takeFitting Candidate.amount cycle.nTotalBudget used (l.filter (Candidate.takesPart ctx cycle))

/-- The running total never leaves the range of an `int64_t`. -/
structure BudgetCycle.Within (cycle : BudgetCycle) (used : Int) : Prop where
  nonneg : 0 ≤ used
  le_total : used ≤ cycle.nTotalBudget
  total_le : cycle.nTotalBudget ≤ BudgetContext.maxBudget

theorem wrapInt64_amount {used : Int} (h : cycle.Within used) (c : Candidate) :
    wrapInt64 (c.amount + used) = c.amount + used := by
  have hpos : 0 < c.amount := c.proposal.getAmount_pos
  have hmost : c.amount ≤ BudgetContext.maxBudget := c.proposal.admitted.2
  have hmax : BudgetContext.maxBudget = 730000000000 := rfl
  have h0 := h.nonneg
  have h1 := h.le_total
  have h2 := h.total_le
  exact wrapInt64_of_range _ (by omega) (by omega)

theorem allocate_idle {s : AllocationState} {c : Candidate}
    (hpart : c.takesPart ctx cycle = false) : allocate ctx cycle s c = s := by
  unfold allocate
  exact if_neg (by rw [← Candidate.takesPart, hpart]; exact Bool.false_ne_true)

theorem allocate_pays {s : AllocationState} {c : Candidate}
    (h : cycle.Within s.nBudgetAllocated) (hpart : c.takesPart ctx cycle = true)
    (hfits : c.amount + s.nBudgetAllocated ≤ cycle.nTotalBudget) :
    allocate ctx cycle s c =
      { nBudgetAllocated := s.nBudgetAllocated + c.amount
        vBudgetProposalsRet := s.vBudgetProposalsRet ++ [c.hash]
        mapProposals := StdMap.modify s.mapProposals c.hash
          fun p => p.setAllotted c.amount } := by
  have hwrap := wrapInt64_amount h c
  unfold allocate
  rw [← Candidate.takesPart, if_pos hpart, ← Candidate.amount, hwrap, if_pos hfits,
    Int.add_comm s.nBudgetAllocated, hwrap]

theorem allocate_passes {s : AllocationState} {c : Candidate}
    (h : cycle.Within s.nBudgetAllocated) (hpart : c.takesPart ctx cycle = true)
    (hover : cycle.nTotalBudget < c.amount + s.nBudgetAllocated) :
    allocate ctx cycle s c =
      { s with
        mapProposals := StdMap.modify s.mapProposals c.hash fun p => p.setAllotted 0 } := by
  have hwrap := wrapInt64_amount h c
  unfold allocate
  rw [← Candidate.takesPart, if_pos hpart, ← Candidate.amount, hwrap,
    if_neg (Int.not_le.mpr hover)]

/-- What has happened after the candidates of a list, of which some have been paid. -/
structure Allocates (ctx : BudgetContext) (cycle : BudgetCycle) (s : AllocationState)
    (l paid : List Candidate) (s' : AllocationState) : Prop where
  returned : s'.vBudgetProposalsRet = s.vBudgetProposalsRet ++ paid.map Candidate.hash
  allotted : forall c, c ∈ paid ->
    s'.mapProposals.lookup c.hash =
      (s.mapProposals.lookup c.hash).map fun p => p.setAllotted c.amount
  refused : forall c, c ∈ l -> c.takesPart ctx cycle = true -> c ∉ paid ->
    s'.mapProposals.lookup c.hash =
      (s.mapProposals.lookup c.hash).map fun p => p.setAllotted 0
  others : forall hash, (forall c, c ∈ l -> c.takesPart ctx cycle = true -> c.hash ≠ hash) ->
    s'.mapProposals.lookup hash = s.mapProposals.lookup hash

theorem mem_of_mem_paid {used : Int} {l : List Candidate} {c : Candidate}
    (h : c ∈ paidCandidates ctx cycle used l) : c ∈ l ∧ c.takesPart ctx cycle = true :=
  List.mem_filter.mp ((takeFitting_sublist _ used).subset h)

/-- The first candidate which takes part gets an amount, and the others follow. -/
theorem Allocates.cons {s s1 s' : AllocationState} {c : Candidate} {rest paid paid' : List Candidate}
    {nAmount : Int} (hrest : Allocates ctx cycle s1 rest paid s')
    (hmap : s1.mapProposals = StdMap.modify s.mapProposals c.hash fun p => p.setAllotted nAmount)
    (hpart : c.takesPart ctx cycle = true) (hother : forall c', c' ∈ rest -> c'.hash ≠ c.hash)
    (hpaid : forall c', c' ∈ paid -> c' ∈ rest)
    (hcase : (paid' = paid ∧ nAmount = 0 ∧ s1.vBudgetProposalsRet = s.vBudgetProposalsRet) ∨
      (paid' = c :: paid ∧ nAmount = c.amount ∧
        s1.vBudgetProposalsRet = s.vBudgetProposalsRet ++ [c.hash])) :
    Allocates ctx cycle s (c :: rest) paid' s' := by
  have hkeep : forall hash, hash ≠ c.hash ->
      s1.mapProposals.lookup hash = s.mapProposals.lookup hash := by
    intro hash hne
    rw [hmap, StdMap.lookup_modify, if_neg hne]
  have hfirst : s'.mapProposals.lookup c.hash =
      (s.mapProposals.lookup c.hash).map fun p => p.setAllotted nAmount := by
    rw [hrest.others c.hash fun c' hmem _ => hother c' hmem, hmap, StdMap.lookup_modify,
      if_pos rfl]
  constructor
  · rw [hrest.returned]
    rcases hcase with ⟨rfl, _, hret⟩ | ⟨rfl, _, hret⟩
    · rw [hret]
    · rw [hret, List.append_assoc]
      rfl
  · intro c' hmem
    have hlater : c' ∈ paid -> s'.mapProposals.lookup c'.hash =
        (s.mapProposals.lookup c'.hash).map fun p => p.setAllotted c'.amount := by
      intro hin
      rw [hrest.allotted c' hin, hkeep _ (hother c' (hpaid c' hin))]
    rcases hcase with ⟨rfl, _, _⟩ | ⟨rfl, hamount, _⟩
    · exact hlater hmem
    · rcases List.mem_cons.mp hmem with rfl | hin
      · rw [hfirst, hamount]
      · exact hlater hin
  · intro c' hmem hpart' hnot
    have hlater : c' ∈ rest -> c' ∉ paid -> s'.mapProposals.lookup c'.hash =
        (s.mapProposals.lookup c'.hash).map fun p => p.setAllotted 0 := by
      intro hin hnotIn
      rw [hrest.refused c' hin hpart' hnotIn, hkeep _ (hother c' hin)]
    rcases hcase with ⟨rfl, hzero, _⟩ | ⟨rfl, _, _⟩
    · rcases List.mem_cons.mp hmem with rfl | hin
      · rw [hfirst, hzero]
      · exact hlater hin hnot
    · rw [List.mem_cons, not_or] at hnot
      rcases List.mem_cons.mp hmem with heq | hin
      · exact absurd heq hnot.1
      · exact hlater hin hnot.2
  · intro hash hdiff
    have hne : hash ≠ c.hash := fun heq => hdiff c List.mem_cons_self hpart heq.symm
    rw [hrest.others hash fun c' hmem => hdiff c' (List.mem_cons_of_mem c hmem), hkeep hash hne]

theorem allocates_foldl (l : List Candidate) :
    forall s : AllocationState, cycle.Within s.nBudgetAllocated ->
      (l.map Candidate.hash).Nodup ->
      Allocates ctx cycle s l (paidCandidates ctx cycle s.nBudgetAllocated l)
        (l.foldl (allocate ctx cycle) s) := by
  induction l with
  | nil =>
      intro s _ _
      constructor
      · exact (List.append_nil _).symm
      · intro c hmem
        cases hmem
      · intro c hmem
        cases hmem
      · intro hash _
        rfl
  | cons c rest ih =>
      intro s hwithin hnodup
      rw [List.map_cons, List.nodup_cons] at hnodup
      rcases hnodup with ⟨hnew, hnodup⟩
      have hother : forall c', c' ∈ rest -> c'.hash ≠ c.hash := by
        intro c' hmem heq
        exact hnew (heq ▸ List.mem_map_of_mem hmem)
      rw [List.foldl_cons]
      cases hpart : c.takesPart ctx cycle with
      | false =>
          have hpaid : paidCandidates ctx cycle s.nBudgetAllocated (c :: rest) =
              paidCandidates ctx cycle s.nBudgetAllocated rest := by
            unfold paidCandidates
            rw [List.filter_cons_of_neg (by rw [hpart]; exact Bool.false_ne_true)]
          have hrest := ih s hwithin hnodup
          rw [allocate_idle hpart, hpaid]
          constructor
          · exact hrest.returned
          · exact hrest.allotted
          · intro c' hmem hpart' hnot
            rcases List.mem_cons.mp hmem with rfl | hmem
            · rw [hpart] at hpart'
              cases hpart'
            · exact hrest.refused c' hmem hpart' hnot
          · intro hash hdiff
            exact hrest.others hash fun c' hmem => hdiff c' (List.mem_cons_of_mem c hmem)
      | true =>
          have hfilter : (c :: rest).filter (Candidate.takesPart ctx cycle) =
              c :: rest.filter (Candidate.takesPart ctx cycle) :=
            List.filter_cons_of_pos hpart
          rcases Int.lt_or_le cycle.nTotalBudget (c.amount + s.nBudgetAllocated) with hover | hfits
          · have hpaid : paidCandidates ctx cycle s.nBudgetAllocated (c :: rest) =
                paidCandidates ctx cycle s.nBudgetAllocated rest := by
              unfold paidCandidates
              rw [hfilter, takeFitting_cons_of_lt hover]
            rw [allocate_passes hwithin hpart hover]
            exact Allocates.cons (ih _ hwithin hnodup) rfl hpart hother
              (fun c' hmem => (mem_of_mem_paid hmem).1) (Or.inl ⟨hpaid, rfl, rfl⟩)
          · have hpaid : paidCandidates ctx cycle s.nBudgetAllocated (c :: rest) =
                c :: paidCandidates ctx cycle (s.nBudgetAllocated + c.amount) rest := by
              unfold paidCandidates
              rw [hfilter, takeFitting_cons_of_le hfits]
            have hwithin' : cycle.Within (s.nBudgetAllocated + c.amount) := by
              have hpos : 0 < c.amount := c.proposal.getAmount_pos
              have hnonneg := hwithin.nonneg
              exact ⟨by omega, by omega, hwithin.total_le⟩
            rw [allocate_pays hwithin hpart hfits]
            exact Allocates.cons (ih _ hwithin' hnodup) rfl hpart hother
              (fun c' hmem => (mem_of_mem_paid hmem).1) (Or.inr ⟨hpaid, rfl, rfl⟩)

end Loop

/-!
# The budget
-/

def netVotesAt (mapProposals : ProposalMap) (hash : UInt256) : Int :=
  match mapProposals.lookup hash with
  | none => 0
  | some p => p.netVotes

def allottedAt (mapProposals : ProposalMap) (hash : UInt256) : Int :=
  match mapProposals.lookup hash with
  | none => 0
  | some p => p.nAlloted

/-- What the budget of a cycle is, and what it leaves in the map of proposals. -/
structure Budgeted (rules : VoteRules Int) (ctx : BudgetContext) (cycle : BudgetCycle)
    (mapProposals : ProposalMap) (ret : List UInt256) (after : ProposalMap) : Prop where
  /-- The proposals stay as they are, but for the validity of their votes. -/
  kept : forall hash, (after.lookup hash).map CBudgetProposal.toVoted =
    (mapProposals.lookup hash).map fun p => p.toVoted.cleanAndRemove rules ctx.toBudgetEnv false
  eligible : forall hash, hash ∈ ret -> exists p, after.lookup hash = some p ∧
    p.eligible ctx cycle.nBlockStart cycle.nBlockEnd = true ∧ p.nAlloted = p.getAmount
  ordered : ret.Pairwise fun a b => netVotesAt after b ≤ netVotesAt after a
  total_le : (ret.map (allottedAt after)).sum ≤ cycle.nTotalBudget
  /-- The proposals have their turns by their votes, and who is left out did not fit. -/
  left_out : exists turns : List UInt256, turns.Perm (mapProposals.entries.map Sigma.fst) ∧
    turns.Pairwise (fun a b => netVotesAt after b ≤ netVotesAt after a) ∧
    forall before hash later p, turns = before ++ hash :: later ->
      after.lookup hash = some p -> hash ∉ ret ->
      p.eligible ctx cycle.nBlockStart cycle.nBlockEnd = true ->
      exists paid rest, ret = paid ++ rest ∧ (forall h, h ∈ paid -> h ∈ before) ∧
        (forall h, h ∈ rest -> h ∈ later) ∧ p.nAlloted = 0 ∧
        cycle.nTotalBudget < p.getAmount + (paid.map (allottedAt after)).sum

section Budget

variable {rules : VoteRules Int} {ctx : BudgetContext} {cycle : BudgetCycle}

theorem candidate_lookup {mapProposals : ProposalMap} {c : Candidate}
    (h : c ∈ candidates mapProposals) :
    mapProposals.lookup c.hash = some c.proposal ∧ c.votes = c.proposal.netVotes := by
  rcases List.mem_map.mp h with ⟨e, hmem, rfl⟩
  exact ⟨AList.mem_lookup_iff.mpr hmem, rfl⟩

theorem candidates_hashes (mapProposals : ProposalMap) :
    (candidates mapProposals).map Candidate.hash = mapProposals.entries.map Sigma.fst := by
  unfold candidates
  rw [List.map_map]
  rfl

theorem nodup_hashes {mapProposals : ProposalMap} {sorted : List Candidate}
    (hperm : sorted.Perm (candidates mapProposals)) : (sorted.map Candidate.hash).Nodup := by
  have hkeys : (mapProposals.entries.map Sigma.fst).Nodup := mapProposals.nodupKeys
  rw [← candidates_hashes] at hkeys
  exact (hperm.map _).nodup_iff.mpr hkeys

/-- After the loop every candidate is as it was, with some amount allotted to it. -/
theorem Allocates.exists_allotted {s s' : AllocationState} {l paid : List Candidate}
    (h : Allocates ctx cycle s l paid s') (hnodup : (l.map Candidate.hash).Nodup) {c : Candidate}
    (hmem : c ∈ l) (hlookup : s.mapProposals.lookup c.hash = some c.proposal) :
    exists nAlloted, s'.mapProposals.lookup c.hash = some (c.proposal.setAllotted nAlloted) := by
  cases hpart : c.takesPart ctx cycle with
  | false =>
      refine ⟨c.proposal.nAlloted, ?_⟩
      rw [h.others c.hash, hlookup]
      · rfl
      · intro c' hin hpart' heq
        rw [List.inj_on_of_nodup_map hnodup hin hmem heq, hpart] at hpart'
        cases hpart'
  | true =>
      by_cases hpaid : c ∈ paid
      · refine ⟨c.amount, ?_⟩
        rw [h.allotted c hpaid, hlookup]
        rfl
      · refine ⟨0, ?_⟩
        rw [h.refused c hmem hpart hpaid, hlookup]
        rfl

/-- The loop leaves everything alone but what is allotted. -/
theorem Allocates.map_toVoted {s s' : AllocationState} {l paid : List Candidate}
    (h : Allocates ctx cycle s l paid s') (hnodup : (l.map Candidate.hash).Nodup)
    (hlookup : forall c, c ∈ l -> s.mapProposals.lookup c.hash = some c.proposal)
    (hash : UInt256) :
    (s'.mapProposals.lookup hash).map CBudgetProposal.toVoted =
      (s.mapProposals.lookup hash).map CBudgetProposal.toVoted := by
  by_cases hin : hash ∈ l.map Candidate.hash
  · rcases List.mem_map.mp hin with ⟨c, hmem, rfl⟩
    rcases h.exists_allotted hnodup hmem (hlookup c hmem) with ⟨nAlloted, hafter⟩
    rw [hafter, hlookup c hmem]
    rfl
  · rw [h.others hash]
    intro c hmem _ heq
    exact hin (heq ▸ List.mem_map_of_mem hmem)

/-- Who is paid before a candidate which is left out, and after it. -/
theorem paidCandidates_split {sorted before later : List Candidate} {c : Candidate}
    (hsplit : sorted = before ++ c :: later) (hpart : c.takesPart ctx cycle = true)
    (hnot : c ∉ paidCandidates ctx cycle 0 sorted) :
    exists rest, paidCandidates ctx cycle 0 sorted = paidCandidates ctx cycle 0 before ++ rest ∧
      (forall c', c' ∈ rest -> c' ∈ later) ∧
      cycle.nTotalBudget <
        c.amount + ((paidCandidates ctx cycle 0 before).map Candidate.amount).sum := by
  have hfilter : sorted.filter (Candidate.takesPart ctx cycle) =
      before.filter (Candidate.takesPart ctx cycle) ++
        c :: later.filter (Candidate.takesPart ctx cycle) := by
    rw [hsplit, List.filter_append, List.filter_cons_of_pos hpart]
  unfold paidCandidates at hnot ⊢
  rw [hfilter] at hnot ⊢
  have hover := lt_of_notMem_takeFitting hnot
  rw [takeFitting_append, takeFitting_cons_of_lt hover]
  refine ⟨_, rfl, ?_, by rw [Int.zero_add] at hover; exact hover⟩
  intro c' hmem
  exact (List.mem_filter.mp ((takeFitting_sublist _ _).subset hmem)).1

theorem budgeted_of_sorted {mapProposals : ProposalMap} {sorted : List Candidate}
    (hperm : sorted.Perm (candidates (cleanProposals rules ctx.toBudgetEnv mapProposals)))
    (hsorted : sorted.Pairwise fun a b => b.votes ≤ a.votes) (hwithin : cycle.Within 0)
    {s' : AllocationState}
    (h : Allocates ctx cycle
      { mapProposals := cleanProposals rules ctx.toBudgetEnv mapProposals } sorted
      (paidCandidates ctx cycle 0 sorted) s') :
    Budgeted rules ctx cycle mapProposals s'.vBudgetProposalsRet s'.mapProposals := by
  have hnodup := nodup_hashes hperm
  have hlookup : forall c, c ∈ sorted -> exists nAlloted,
      s'.mapProposals.lookup c.hash = some (c.proposal.setAllotted nAlloted) := by
    intro c hmem
    exact h.exists_allotted hnodup hmem (candidate_lookup (hperm.mem_iff.mp hmem)).1
  have hvotes : forall c, c ∈ sorted -> netVotesAt s'.mapProposals c.hash = c.votes := by
    intro c hmem
    rcases hlookup c hmem with ⟨nAlloted, hafter⟩
    rw [netVotesAt, hafter, (candidate_lookup (hperm.mem_iff.mp hmem)).2]
    rfl
  have hpaid : forall c, c ∈ paidCandidates ctx cycle 0 sorted ->
      s'.mapProposals.lookup c.hash = some (c.proposal.setAllotted c.amount) := by
    intro c hmem
    have hin := (mem_of_mem_paid hmem).1
    rw [h.allotted c hmem, (candidate_lookup (hperm.mem_iff.mp hin)).1]
    rfl
  have hret : s'.vBudgetProposalsRet =
      (paidCandidates ctx cycle 0 sorted).map Candidate.hash := h.returned
  have hsums : forall l : List Candidate, (forall c, c ∈ l -> c ∈ paidCandidates ctx cycle 0 sorted) ->
      (l.map Candidate.hash).map (allottedAt s'.mapProposals) = l.map Candidate.amount := by
    intro l hl
    rw [List.map_map]
    apply List.map_congr_left
    intro c hmem
    rw [Function.comp_apply, allottedAt, hpaid c (hl c hmem)]
    rfl
  have hpairwise : (sorted.map Candidate.hash).Pairwise
      fun a b => netVotesAt s'.mapProposals b ≤ netVotesAt s'.mapProposals a := by
    rw [List.pairwise_map]
    apply hsorted.imp_of_mem
    intro a b ha hb hle
    rw [hvotes a ha, hvotes b hb]
    exact hle
  have hsub : (paidCandidates ctx cycle 0 sorted).Sublist sorted :=
    (takeFitting_sublist _ 0).trans List.filter_sublist
  constructor
  · intro hash
    rw [h.map_toVoted hnodup fun c hmem => (candidate_lookup (hperm.mem_iff.mp hmem)).1]
    rw [cleanProposals, StdMap.lookup_mapValues, Option.map_map]
    rfl
  · intro hash hmem
    rw [hret] at hmem
    rcases List.mem_map.mp hmem with ⟨c, hc, rfl⟩
    exact ⟨_, hpaid c hc, (mem_of_mem_paid hc).2, rfl⟩
  · rw [hret]
    exact hpairwise.sublist (hsub.map _)
  · rw [hret, hsums _ fun c hc => hc]
    have htotal : 0 + ((paidCandidates ctx cycle 0 sorted).map Candidate.amount).sum ≤
        cycle.nTotalBudget := sum_takeFitting_le _ 0 hwithin.le_total
    rw [Int.zero_add] at htotal
    exact htotal
  · refine ⟨sorted.map Candidate.hash, ?_, hpairwise, ?_⟩
    · have hkeys := hperm.map Candidate.hash
      rw [candidates_hashes] at hkeys
      rw [← show (cleanProposals rules ctx.toBudgetEnv mapProposals).entries.map Sigma.fst =
        mapProposals.entries.map Sigma.fst from StdMap.keys_map_values _ _]
      exact hkeys
    · intro before hash later p hturns hafter hnot heligible
      rw [List.map_eq_append_iff] at hturns
      rcases hturns with ⟨cbefore, crest, hsplit, rfl, hrest⟩
      rcases List.map_eq_cons_iff.mp hrest with ⟨c, clater, rfl, rfl, rfl⟩
      have hmem : c ∈ sorted := hsplit ▸ List.mem_append_right _ List.mem_cons_self
      have hnotPaid : c ∉ paidCandidates ctx cycle 0 sorted := by
        intro hin
        rw [hret] at hnot
        exact hnot (List.mem_map_of_mem hin)
      have hpart : c.takesPart ctx cycle = true := by
        rcases hlookup c hmem with ⟨nAlloted, hsome⟩
        rw [hsome, Option.some.injEq] at hafter
        rw [← hafter] at heligible
        exact heligible
      have hp : p = c.proposal.setAllotted 0 := by
        rw [h.refused c hmem hpart hnotPaid, (candidate_lookup (hperm.mem_iff.mp hmem)).1] at hafter
        exact (Option.some.inj hafter).symm
      rcases paidCandidates_split hsplit hpart hnotPaid with ⟨rest, hpaidSplit, hlater, hover⟩
      refine ⟨(paidCandidates ctx cycle 0 cbefore).map Candidate.hash, rest.map Candidate.hash,
        ?_, ?_, ?_, ?_, ?_⟩
      · rw [hret, hpaidSplit, List.map_append]
      · intro hash hin
        rcases List.mem_map.mp hin with ⟨c', hc', rfl⟩
        exact List.mem_map_of_mem (mem_of_mem_paid hc').1
      · intro hash hin
        rcases List.mem_map.mp hin with ⟨c', hc', rfl⟩
        exact List.mem_map_of_mem (hlater c' hc')
      · rw [hp]
        rfl
      · rw [hsums _ fun c' hc' => hpaidSplit ▸ List.mem_append_left _ hc', hp]
        exact hover

/--
`GetBudget` pays eligible proposals in the order of their votes, never more than the budget of
the cycle, and an eligible proposal is only left out if the rest of the budget was too small.
Without a tip there is no cycle and nothing is paid.
-/
theorem getBudget_budgeted (rules : VoteRules Int) (sort : ProposalSort) (ctx : BudgetContext)
    (mapProposals : ProposalMap) :
    match ctx.tipHeight with
    | none => (getBudget rules sort ctx mapProposals).1 = []
    | some nHeight => Budgeted rules ctx (nextCycle ctx nHeight) mapProposals
        (getBudget rules sort ctx mapProposals).1 (getBudget rules sort ctx mapProposals).2 := by
  unfold getBudget
  cases ctx.tipHeight with
  | none => rfl
  | some nHeight =>
      have hbounds := ctx.getTotalBudget_bounds (nextCycle ctx nHeight).nBlockStart
      have hwithin : (nextCycle ctx nHeight).Within 0 := ⟨Int.le_refl 0, hbounds.1, hbounds.2⟩
      have hperm := sort.perm (candidates (cleanProposals rules ctx.toBudgetEnv mapProposals))
      apply budgeted_of_sorted hperm _ hwithin
      · exact allocates_foldl _ _ hwithin (nodup_hashes hperm)
      · exact (sort.sorted _).imp votes_le_of_sorted

end Budget

end Hbcur
