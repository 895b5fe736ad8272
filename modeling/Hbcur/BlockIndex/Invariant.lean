import Hbcur.BlockIndex.Activate
import Hbcur.BlockIndex.Selection

/-!
# The index invariant

What holds of the tree, the links, the flags, the active chain and the candidates
between the operations on the index.
-/

namespace Hbcur
namespace BlockIndex

open Foundation

namespace IndexState

/-!
# The parts of the invariant
-/

/-- One tree, in which work grows from parent to child. -/
structure TreeInv (hashGenesis : Nat) (tree : BlockTree) : Prop where
  size_pos : 0 < tree.size
  genesis : (tree.header 0).hashBlock = hashGenesis
  root : forall p, p < tree.size -> (tree.header p).pprev = none -> p = 0
  work : forall p q, (tree.header p).pprev = some q ->
    (tree.header q).nChainWork < (tree.header p).nChainWork

/-- The transactions from the root to an entry. -/
def chainTxTotal (s : IndexState) (p : Nat) : Nat :=
  ((s.tree.ancestors p).map (fun x => (s.status x).nTx)).sum

/-- The parent is linked, or there is none. -/
def PrevLinked (s : IndexState) (p : Nat) : Prop :=
  forall q, (s.header p).pprev = some q -> (s.status q).nChainTx ≠ 0

/--
An entry is linked when its data and all data before it is there.  Entries which are due
are on the queue, and those which have data but are not due are in `mapBlocksUnlinked`.
-/
structure LinkInv (s : IndexState) (queue : List Nat) : Prop where
  data : forall p, p < s.tree.size -> ((s.status p).fHaveData = true <-> 0 < (s.status p).nTx)
  level : forall p, p < s.tree.size ->
    (3 ≤ (s.status p).validity.level <-> 0 < (s.status p).nTx)
  sequence : forall p, p < s.tree.size -> (s.status p).nChainTx = 0 ->
    (s.status p).nSequenceId = 0
  linked : forall p, p < s.tree.size -> (s.status p).nChainTx ≠ 0 ->
    (s.status p).fHaveData = true ∧ s.PrevLinked p ∧
      (s.status p).nChainTx = s.chainTxTotal p
  queued : forall p, p ∈ queue -> p < s.tree.size ∧ (s.status p).fHaveData = true ∧
    (s.status p).nChainTx = 0 ∧ s.PrevLinked p
  queue_nodup : queue.Nodup
  due : forall p, p < s.tree.size -> (s.status p).fHaveData = true -> s.PrevLinked p ->
    (s.status p).nChainTx = 0 -> p ∈ queue
  waiting : forall e, e ∈ s.mapBlocksUnlinked -> e.2 < s.tree.size ∧
    (exists q, e.1 = some q ∧ (s.header e.2).pprev = some q) ∧
    (s.status e.2).fHaveData = true ∧ (s.status e.2).nChainTx = 0 ∧ e.2 ∉ queue
  unlinked_nodup : s.mapBlocksUnlinked.Nodup
  registered : forall p, p < s.tree.size -> (s.status p).fHaveData = true ->
    (s.status p).nChainTx = 0 -> p ∈ queue ∨ ((s.header p).pprev, p) ∈ s.mapBlocksUnlinked

/-- Failure flags have a cause, and levels are those of a block after its parent. -/
structure FlagInv (s : IndexState) : Prop where
  cause : forall p, p < s.tree.size -> (s.status p).failed = true ->
    exists a, a ∈ s.tree.ancestors p ∧ (s.status a).fFailedValid = true
  level_tree : forall p q, (s.header p).pprev = some q -> 2 ≤ (s.status p).validity.level
  level_scripts : forall p q, (s.header p).pprev = some q ->
    4 ≤ (s.status p).validity.level -> (s.status p).validity = Validity.scripts ∧
      forall r, (s.header q).pprev = some r -> (s.status q).validity = Validity.scripts

/-- The active chain is linked, not failed and fully checked. -/
structure ChainInv (s : IndexState) (t : Nat) : Prop where
  lt_size : t < s.tree.size
  onChain : s.OnChain t
  good : forall x, x ∈ s.tree.ancestors t ->
    (s.status x).failed = false ∧ (s.status x).nChainTx ≠ 0
  scripts : forall x q, x ∈ s.tree.ancestors t -> (s.header x).pprev = some q ->
    (s.status x).validity = Validity.scripts

/-- Candidates are linked and not worse than the tip. -/
def CandInv (s : IndexState) (t : Nat) : Prop :=
  forall c, c ∈ s.setBlockIndexCandidates -> c < s.tree.size ∧
    (s.status c).nChainTx ≠ 0 ∧ s.less c t = false

structure IndexInv (hashGenesis : Nat) (s : IndexState) (queue : List Nat) (t : Nat) :
    Prop where
  tree : TreeInv hashGenesis s.tree
  links : s.LinkInv queue
  flags : s.FlagInv
  chain : s.ChainInv t
  candidates : s.CandInv t

/--
The candidates are complete from the entry `m` on.  A reorganisation which fails leaves
the tip below `m`, and `m` can always be connected again.
-/
structure Mark (s : IndexState) (m : Nat) : Prop where
  candidate : m ∈ s.setBlockIndexCandidates
  good : forall x, x ∈ s.branch m ->
    (s.status x).failed = false ∧ (s.status x).validity = Validity.scripts
  complete : forall p, p < s.tree.size -> (s.status p).nChainTx ≠ 0 ->
    (s.status p).failed = false -> s.less p m = false -> p ∈ s.setBlockIndexCandidates

/-!
# Consequences
-/

section Consequences

variable {hashGenesis : Nat} {s : IndexState} {queue : List Nat} {t p q : Nat}

theorem TreeInv.zero_mem_ancestors (h : TreeInv hashGenesis s.tree) (hp : p < s.tree.size) :
    0 ∈ s.tree.ancestors p := by
  induction p using s.tree.forest.node_induction with
  | root p hroot =>
      rw [h.root p hp hroot]
      exact Forest.mem_ancestors_self 0
  | child p q hprev ih =>
      exact Forest.mem_ancestors_of_parent hprev (ih (s.tree.size_pos_of_pprev hprev))

theorem TreeInv.work_le (h : TreeInv hashGenesis s.tree) {a : Nat}
    (ha : a ∈ s.tree.ancestors p) : (s.header a).nChainWork ≤ (s.header p).nChainWork := by
  induction p using s.tree.forest.node_induction with
  | root p hroot =>
      rw [BlockTree.ancestors, Forest.ancestors_of_root hroot, List.mem_singleton] at ha
      rw [ha]
  | child p q hprev ih =>
      by_cases hap : a = p
      · rw [hap]
      · have hwork := h.work p q hprev
        have hle := ih (Forest.mem_ancestors_parent hprev ha hap)
        exact hle.trans (Nat.le_of_lt hwork)

theorem TreeInv.work_lt (h : TreeInv hashGenesis s.tree) {a : Nat}
    (ha : a ∈ s.tree.ancestors p) (hne : a ≠ p) :
    (s.header a).nChainWork < (s.header p).nChainWork := by
  cases hprev : (s.header p).pprev with
  | none =>
      rw [BlockTree.ancestors, Forest.ancestors_of_root hprev, List.mem_singleton] at ha
      exact absurd ha hne
  | some q =>
      have hle := h.work_le (Forest.mem_ancestors_parent hprev ha hne)
      exact Nat.lt_of_le_of_lt hle (h.work p q hprev)

/-- An entry is not worse than its ancestors. -/
theorem TreeInv.not_less_ancestor (h : TreeInv hashGenesis s.tree) {a : Nat}
    (ha : a ∈ s.tree.ancestors p) : s.less p a = false := by
  by_cases hne : a = p
  · rw [hne]
    exact less_irrefl p
  · exact less_asymm (less_of_nChainWork_lt (h.work_lt ha hne))

/-- Everything before a linked entry is linked. -/
theorem LinkInv.linked_ancestor (h : s.LinkInv queue) (hp : p < s.tree.size)
    (hlinked : (s.status p).nChainTx ≠ 0) {a : Nat} (ha : a ∈ s.tree.ancestors p) :
    (s.status a).nChainTx ≠ 0 := by
  induction p using s.tree.forest.node_induction with
  | root p hroot =>
      rw [BlockTree.ancestors, Forest.ancestors_of_root hroot, List.mem_singleton] at ha
      rw [ha]
      exact hlinked
  | child p q hprev ih =>
      by_cases hap : a = p
      · rw [hap]
        exact hlinked
      · exact ih (s.tree.size_pos_of_pprev hprev) ((h.linked p hp hlinked).2.1 q hprev)
          (Forest.mem_ancestors_parent hprev ha hap)

/-- Linked means that all data back to the root is present. -/
theorem LinkInv.linked_iff (h : s.LinkInv []) (hp : p < s.tree.size) :
    (s.status p).nChainTx ≠ 0 <->
      forall a, a ∈ s.tree.ancestors p -> (s.status a).fHaveData = true := by
  constructor
  · intro hlinked a ha
    exact (h.linked a (BlockTree.lt_size_of_mem_ancestors ha hp)
      (h.linked_ancestor hp hlinked ha)).1
  · intro hdata
    induction p using s.tree.forest.node_induction with
    | root p hroot =>
        intro hzero
        have hprev : s.PrevLinked p := by
          intro q hq
          have hnone : (s.header p).pprev = none := hroot
          rw [hnone] at hq
          cases hq
        cases h.due p hp (hdata p (Forest.mem_ancestors_self p)) hprev hzero
    | child p q hprev ih =>
        intro hzero
        have hq := ih (s.tree.size_pos_of_pprev hprev)
          (fun a ha => hdata a (Forest.mem_ancestors_of_parent hprev ha))
        have hlinked : s.PrevLinked p := by
          intro q' hq'
          have hsome : (s.header p).pprev = some q := hprev
          rw [hsome] at hq'
          cases hq'
          exact hq
        cases h.due p hp (hdata p (Forest.mem_ancestors_self p)) hlinked hzero

theorem IndexInv.root_linked (h : IndexInv hashGenesis s queue t) (hp : p < s.tree.size)
    (hroot : (s.header p).pprev = none) : (s.status p).nChainTx ≠ 0 := by
  rw [h.tree.root p hp hroot]
  exact (h.chain.good 0 (h.tree.zero_mem_ancestors h.chain.lt_size)).2

/-- A candidate's branch has its data. -/
theorem IndexInv.data_of_candidate (h : IndexInv hashGenesis s queue t) {c x : Nat}
    (hc : c ∈ s.setBlockIndexCandidates) (hx : x ∈ s.tree.ancestors c) :
    x < s.tree.size ∧ (s.status x).nChainTx ≠ 0 ∧ (s.status x).fHaveData = true := by
  rcases h.candidates c hc with ⟨hlt, hlinked, _⟩
  have hxlt := BlockTree.lt_size_of_mem_ancestors hx hlt
  have hxlinked := h.links.linked_ancestor hlt hlinked hx
  exact ⟨hxlt, hxlinked, (h.links.linked x hxlt hxlinked).1⟩

/-- The invariant is enough for the search. -/
theorem IndexInv.searchable (h : IndexInv hashGenesis s queue t) : s.Searchable t where
  onChain := h.chain.onChain
  linked x hx := (h.chain.good x hx).2
  candidates _ hc _ hx :=
    (h.data_of_candidate hc (h.chain.onChain.mem_branch_iff.mp hx).1).2.1
  unlinked e he hx := (h.chain.good e.2 hx).2 (h.links.waiting e he).2.2.2.1

theorem chainTxTotal_child (hprev : (s.header p).pprev = some q) :
    s.chainTxTotal p = s.chainTxTotal q + (s.status p).nTx := by
  unfold chainTxTotal
  rw [BlockTree.ancestors, Forest.ancestors_of_parent hprev, List.map_cons, List.sum_cons,
    Nat.add_comm]
  rfl

theorem chainTxTotal_root (hprev : (s.header p).pprev = none) :
    s.chainTxTotal p = (s.status p).nTx := by
  unfold chainTxTotal
  rw [BlockTree.ancestors, Forest.ancestors_of_root hprev, List.map_singleton,
    List.sum_singleton]

end Consequences

/-!
# Steps which leave the links alone
-/

/-- Nothing which the links rest on has changed. -/
structure SameLinks (s s' : IndexState) : Prop where
  tree : s'.tree = s.tree
  unlinked : s'.mapBlocksUnlinked = s.mapBlocksUnlinked
  nTx : forall x, (s'.status x).nTx = (s.status x).nTx
  nChainTx : forall x, (s'.status x).nChainTx = (s.status x).nChainTx
  nSequenceId : forall x, (s'.status x).nSequenceId = (s.status x).nSequenceId
  fHaveData : forall x, (s'.status x).fHaveData = (s.status x).fHaveData
  level : forall x, x < s.tree.size ->
    (3 ≤ (s'.status x).validity.level <-> 3 ≤ (s.status x).validity.level)

namespace SameLinks

variable {s s' : IndexState}

theorem header (h : SameLinks s s') (x : Nat) : s'.header x = s.header x := by
  unfold IndexState.header
  rw [h.tree]

theorem less (h : SameLinks s s') (a b : Nat) : s'.less a b = s.less a b :=
  less_congr h.tree (h.nSequenceId a) (h.nSequenceId b)

theorem prevLinked (h : SameLinks s s') (p : Nat) : s'.PrevLinked p <-> s.PrevLinked p := by
  unfold PrevLinked
  rw [h.header]
  constructor
  · intro hp q hq
    rw [← h.nChainTx]
    exact hp q hq
  · intro hp q hq
    rw [h.nChainTx]
    exact hp q hq

theorem chainTxTotal (h : SameLinks s s') (p : Nat) :
    s'.chainTxTotal p = s.chainTxTotal p := by
  unfold IndexState.chainTxTotal
  rw [h.tree]
  congr 1
  exact List.map_congr_left (fun x _ => h.nTx x)

theorem linkInv (h : SameLinks s s') {queue : List Nat} (hs : s.LinkInv queue) :
    s'.LinkInv queue where
  data p hp := by
    rw [h.fHaveData, h.nTx]
    exact hs.data p (h.tree ▸ hp)
  level p hp := by
    rw [h.tree] at hp
    rw [h.level p hp, h.nTx]
    exact hs.level p hp
  sequence p hp := by
    rw [h.nChainTx, h.nSequenceId]
    exact hs.sequence p (h.tree ▸ hp)
  linked p hp := by
    rw [h.nChainTx, h.fHaveData, h.prevLinked, h.chainTxTotal]
    exact hs.linked p (h.tree ▸ hp)
  queued p hp := by
    rw [h.nChainTx, h.fHaveData, h.prevLinked, h.tree]
    exact hs.queued p hp
  queue_nodup := hs.queue_nodup
  due p hp := by
    rw [h.nChainTx, h.fHaveData, h.prevLinked]
    exact hs.due p (h.tree ▸ hp)
  waiting e he := by
    rw [h.nChainTx, h.fHaveData, h.tree, h.header]
    exact hs.waiting e (h.unlinked ▸ he)
  unlinked_nodup := by
    rw [h.unlinked]
    exact hs.unlinked_nodup
  registered p hp := by
    rw [h.nChainTx, h.fHaveData, h.header, h.unlinked]
    exact hs.registered p (h.tree ▸ hp)

end SameLinks

end IndexState

end BlockIndex
end Hbcur
