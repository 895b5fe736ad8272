import Hbcur.BlockIndex.FindMostWork
import Hbcur.BlockIndex.Received

/-!
# Best-chain selection

The search returns the greatest usable candidate, and what it drops for missing
data comes back when the data arrives.
-/

namespace Hbcur
namespace BlockIndex

open Foundation

namespace IndexState

/-!
# Entries which the queue will reach
-/

/-- On the queue, or waiting for an entry which the queue will reach. -/
inductive Pending (unlinked : List (Option Nat × Nat)) (queue : List Nat) : Nat -> Prop where
  | queued {x : Nat} : x ∈ queue -> Pending unlinked queue x
  | waits {y x : Nat} : Pending unlinked queue y -> (some y, x) ∈ unlinked ->
      Pending unlinked queue x

theorem not_pending_nil {unlinked : List (Option Nat × Nat)} {x : Nat} :
    ¬ Pending unlinked [] x := by
  intro h
  induction h with
  | queued h => cases h
  | waits _ _ ih => exact ih

theorem mem_waiting_iff {s : IndexState} {p x : Nat} :
    x ∈ s.waiting p <-> (some p, x) ∈ s.mapBlocksUnlinked := by
  unfold waiting
  simp only [List.mem_map, List.mem_filter, decide_eq_true_eq]
  constructor
  · rintro ⟨⟨k, y⟩, ⟨hmem, hk⟩, hy⟩
    cases hk
    cases hy
    exact hmem
  · intro h
    exact ⟨(some p, x), ⟨h, rfl⟩, rfl⟩

theorem mem_release_iff {s : IndexState} {p : Nat} {e : Option Nat × Nat} :
    e ∈ (s.release p).mapBlocksUnlinked <-> e ∈ s.mapBlocksUnlinked ∧ e.1 ≠ some p := by
  unfold release
  simp only [List.mem_filter, decide_eq_true_eq]

theorem length_waiting_add_release {s : IndexState} {p : Nat} :
    (s.waiting p).length + ((s.link p).release p).mapBlocksUnlinked.length =
      s.mapBlocksUnlinked.length := by
  unfold waiting release
  rw [link_unlinked, List.length_map,
    List.length_eq_length_filter_add (l := s.mapBlocksUnlinked)
      (fun e => decide (e.1 = some p))]
  simp

/-- A run of the queue with as many rounds as entries are queued or waiting: what holds when
nothing is queued, and goes back over each round, holds of the whole run. -/
theorem linkLoop_rule (inv : List Nat -> IndexState -> Prop)
    (R : List Nat -> IndexState -> IndexState -> Prop) (hdone : forall s, inv [] s -> R [] s s)
    (hturn : forall p queue s, inv (p :: queue) s ->
      inv (queue ++ s.waiting p) ((s.link p).release p) ∧
        forall s', R (queue ++ s.waiting p) ((s.link p).release p) s' -> R (p :: queue) s s')
    (fuel : Nat) :
    forall (queue : List Nat) (s : IndexState), inv queue s ->
      queue.length + s.mapBlocksUnlinked.length ≤ fuel -> R queue s (linkLoop fuel queue s) := by
  induction fuel with
  | zero =>
      intro queue s hinv hlen
      have hnil : queue = [] := List.eq_nil_of_length_eq_zero (by omega)
      subst hnil
      exact hdone s hinv
  | succ fuel ih =>
      intro queue s hinv hlen
      cases queue with
      | nil => exact hdone s hinv
      | cons p queue =>
          rcases hturn p queue s hinv with ⟨hnext, hback⟩
          have hsum := s.length_waiting_add_release (p := p)
          apply hback
          apply ih _ _ hnext
          rw [List.length_append]
          rw [List.length_cons] at hlen
          omega

theorem Pending.turn {s : IndexState} {p x : Nat} {queue : List Nat}
    (h : Pending s.mapBlocksUnlinked (p :: queue) x) :
    x = p ∨ Pending ((s.link p).release p).mapBlocksUnlinked (queue ++ s.waiting p) x := by
  induction h with
  | queued hx =>
      rcases List.mem_cons.mp hx with rfl | hx
      · exact Or.inl rfl
      · exact Or.inr (Pending.queued (List.mem_append_left _ hx))
  | @waits y x _ hyx ih =>
      right
      by_cases hy : y = p
      · subst hy
        exact Pending.queued (List.mem_append_right _ (mem_waiting_iff.mpr hyx))
      · rcases ih with rfl | hpending
        · exact absurd rfl hy
        · refine Pending.waits hpending (mem_release_iff.mpr ⟨?_, ?_⟩)
          · rw [link_unlinked]
            exact hyx
          · simpa using hy

/-- A candidate, unless it is worse than the tip. -/
def Offered (s : IndexState) (x : Nat) : Prop :=
  s.worseThanTip x = false -> x ∈ s.setBlockIndexCandidates

theorem offered_link {s : IndexState} {t p x : Nat} (ht : s.tip = some t) (hpt : p ≠ t)
    (h : x = p ∨ s.Offered x) : (s.link p).Offered x := by
  have ht' : (s.link p).tip = some t := by
    unfold IndexState.tip
    rw [link_vChain]
    exact ht
  intro hworse
  rw [mem_link_candidates_iff]
  by_cases hx : x = p
  · subst hx
    exact Or.inr ⟨rfl, hworse⟩
  · rcases h with h | h
    · exact absurd h hx
    · left
      apply h
      rw [worseThanTip_eq ht'] at hworse
      rw [worseThanTip_eq ht, ← link_less_of_ne hx (Ne.symm hpt)]
      exact hworse

/-- The queue offers every entry which it can reach. -/
theorem offered_linkLoop {t : Nat} (fuel : Nat) :
    forall (queue : List Nat) (s : IndexState), s.tip = some t -> t ∉ queue ->
      (forall e, e ∈ s.mapBlocksUnlinked -> e.2 ≠ t) ->
      queue.length + s.mapBlocksUnlinked.length ≤ fuel ->
      forall x, s.Offered x ∨ Pending s.mapBlocksUnlinked queue x ->
        (linkLoop fuel queue s).Offered x := by
  intro queue s ht hqueue hwait hlen
  apply linkLoop_rule
    (fun queue s => s.tip = some t ∧ t ∉ queue ∧ forall e, e ∈ s.mapBlocksUnlinked -> e.2 ≠ t)
    (fun queue s s' => forall x, s.Offered x ∨ Pending s.mapBlocksUnlinked queue x ->
      s'.Offered x)
  · intro s _ x hx
    rcases hx with hx | hx
    · exact hx
    · exact absurd hx not_pending_nil
  · intro p queue s hinv
    rcases hinv with ⟨ht, hqueue, hwait⟩
    constructor
    · constructor
      · unfold IndexState.tip release
        rw [link_vChain]
        exact ht
      · constructor
        · rw [List.mem_append, not_or]
          constructor
          · exact fun h => hqueue (List.mem_cons_of_mem p h)
          · exact fun h => hwait _ (mem_waiting_iff.mp h) rfl
        · intro e he
          rw [mem_release_iff, link_unlinked] at he
          exact hwait e he.1
    · intro s' hrest x hx
      have hpt : p ≠ t := fun h => hqueue (by rw [h]; exact List.mem_cons_self)
      have hoffer : x = p ∨ s.Offered x -> ((s.link p).release p).Offered x :=
        fun h => offered_link ht hpt h
      apply hrest
      rcases hx with hx | hx
      · exact Or.inl (hoffer (Or.inr hx))
      · rcases hx.turn with h | h
        · exact Or.inl (hoffer (Or.inl h))
        · exact Or.inr h
  · exact ⟨ht, hqueue, hwait⟩
  · exact hlen

/-!
# Arrival of missing data
-/

/-- A state in which the entries registered in `s` wait for the block `m`. -/
structure StillWaiting (s later : IndexState) (m : Nat) : Prop where
  unlinked : forall e, e ∈ s.mapBlocksUnlinked -> e ∈ later.mapBlocksUnlinked
  tip : exists t, later.tip = some t ∧ m ≠ t ∧
    forall e, e ∈ later.mapBlocksUnlinked -> e.2 ≠ t
  parent : forall q, (later.header m).pprev = some q -> (later.status q).nChainTx ≠ 0

theorem offered_receivedBlockTransactions {s later : IndexState} {m x nTx : Nat}
    (h : StillWaiting s later m) (hx : Pending s.mapBlocksUnlinked [m] x) :
    (later.receivedBlockTransactions nTx m).Offered x := by
  rcases h.tip with ⟨t, ht, hmt, hwait⟩
  have hpending : Pending later.mapBlocksUnlinked [m] x := by
    induction hx with
    | queued hx => exact Pending.queued hx
    | waits _ hyx ih => exact Pending.waits ih (h.unlinked _ hyx)
  have hloop := offered_linkLoop (later.mapBlocksUnlinked.length + 1) [m]
    (later.store nTx m) ht (fun hmem => hmt (List.mem_singleton.mp hmem).symm) hwait
    (by rw [List.length_singleton]; exact (Nat.add_comm _ _).le) x (Or.inr hpending)
  unfold receivedBlockTransactions
  cases hprev : (later.header m).pprev with
  | none => exact hloop
  | some q =>
      have hne : q ≠ m := Nat.ne_of_lt (later.tree.pprev_lt m q hprev)
      have hlinked : ((later.store nTx m).status q).nChainTx ≠ 0 := by
        rw [store_status_of_ne hne]
        exact h.parent q hprev
      simp only [if_pos hlinked]
      exact hloop

/-- The entries between a dropped candidate and the missing block are reached. -/
theorem pending_of_registered {s s' : IndexState} {m c : Nat} (hm : m ∈ s.tree.ancestors c)
    (h : forall x, x ∈ s.tree.ancestors c -> m ∈ s.tree.ancestors x -> x ≠ m ->
      ((s.header x).pprev, x) ∈ s'.mapBlocksUnlinked) :
    Pending s'.mapBlocksUnlinked [m] c := by
  have hall : forall x, x ∈ s.tree.ancestors c -> m ∈ s.tree.ancestors x ->
      Pending s'.mapBlocksUnlinked [m] x := by
    intro x
    induction x using s.tree.forest.node_induction with
    | root x hroot =>
        intro _ hmx
        rw [BlockTree.ancestors, Forest.ancestors_of_root hroot, List.mem_singleton] at hmx
        exact Pending.queued (by rw [hmx]; exact List.mem_singleton_self x)
    | child x q hprev ih =>
        intro hxc hmx
        by_cases hne : x = m
        · exact Pending.queued (by rw [hne]; exact List.mem_singleton_self m)
        · have hmq := Forest.mem_ancestors_parent hprev hmx (Ne.symm hne)
          have hqc := Forest.mem_ancestors_trans (Forest.parent_mem_ancestors hprev) hxc
          have hedge := h x hxc hmx hne
          have hkey : (s.header x).pprev = some q := hprev
          rw [hkey] at hedge
          exact Pending.waits (ih hqc hmq) hedge
  exact hall c (Forest.mem_ancestors_self c) hm

/-!
# Selection
-/

/-- The part of the index invariant on which the search rests. -/
structure Searchable (s : IndexState) (t : Nat) : Prop where
  onChain : s.OnChain t
  linked : s.Linked (s.tree.ancestors t)
  candidates : forall c, c ∈ s.setBlockIndexCandidates -> s.Linked (s.branch c)
  unlinked : forall e, e ∈ s.mapBlocksUnlinked -> e.2 ∉ s.tree.ancestors t

/-- The greatest of the qualified candidates, or nothing if there are none. -/
def Selects (s : IndexState) : Option Nat -> Prop
  | none => forall c, c ∈ s.setBlockIndexCandidates -> ¬ s.Qualified c
  | some r => r ∈ s.setBlockIndexCandidates ∧ s.Qualified r ∧
      forall c, c ∈ s.setBlockIndexCandidates -> s.Qualified c -> c = r ∨ s.less c r = true

/-- A later arrival of the data of `m` makes the dropped `c` a candidate again. -/
def ComesBack (s : IndexState) (m c : Nat) : Prop :=
  StillWaiting s s m ∧
    forall (later : IndexState) (nTx : Nat), StillWaiting s later m ->
      (later.receivedBlockTransactions nTx m).worseThanTip c = false ->
      c ∈ (later.receivedBlockTransactions nTx m).setBlockIndexCandidates

theorem selects_of_found {s s' : IndexState} {r : Option Nat} (h : Searched s s')
    (hfound : Found s' r) : s.Selects r := by
  have hkeep : forall c, c ∈ s.setBlockIndexCandidates -> s.Qualified c ->
      c ∈ s'.setBlockIndexCandidates := by
    intro c hc hq
    by_contra hnot
    exact (h.dropped c hc hnot).not_qualified hq
  cases hfound with
  | nothing hnil =>
      intro c hc hq
      have hmem := hkeep c hc hq
      rw [hnil] at hmem
      cases hmem
  | best r hr hq hmax =>
      refine ⟨h.candidates r hr, ?_, ?_⟩
      · intro x hx
        rw [← h.branch_eq] at hx
        by_contra hbad
        rw [Bool.not_eq_false] at hbad
        have hgood := hq x hx
        rw [h.unusable_of_unusable hbad] at hgood
        cases hgood
      · intro c hc hqc
        by_cases hcr : c = r
        · exact Or.inl hcr
        · right
          have hnot := hmax c (hkeep c hc hqc)
          rw [h.less_eq] at hnot
          rcases less_total (s := s) hcr with hless | hless
          · exact hless
          · rw [hnot] at hless
            cases hless

theorem comesBack_of_missing {s s' : IndexState} {t m c : Nat} (hs : s.Searchable t)
    (h : Searched s s') (hc : c ∈ s.setBlockIndexCandidates) (hm : m ∈ s.branch c)
    (hpath : forall x, x ∈ s.tree.ancestors c -> m ∈ s.tree.ancestors x -> x ≠ m ->
      ((s.header x).pprev, x) ∈ s'.mapBlocksUnlinked) :
    ComesBack s' m c := by
  have hbranch := hs.onChain.mem_branch_iff.mp hm
  have hoff : forall e, e ∈ s'.mapBlocksUnlinked -> e.2 ∉ s.tree.ancestors t := by
    intro e he
    rcases h.unlinked_new e he with hold | ⟨x, hx⟩
    · exact hs.unlinked e hold
    · exact (hs.onChain.mem_branch_iff.mp hx).2
  refine ⟨⟨fun e he => he, ⟨t, (h.onChain hs.onChain).tip_eq, ?_, ?_⟩, ?_⟩, ?_⟩
  · intro hmt
    apply hbranch.2
    rw [hmt]
    exact Forest.mem_ancestors_self t
  · intro e he het
    apply hoff e he
    rw [het]
    exact Forest.mem_ancestors_self t
  · intro q hq
    rw [h.nChainTx]
    have hprev : s.tree.forest.parent m = some q := by
      rw [← h.tree]
      exact hq
    have hqc := Forest.mem_ancestors_trans (Forest.parent_mem_ancestors hprev) hbranch.1
    by_cases hqt : q ∈ s.tree.ancestors t
    · exact hs.linked q hqt
    · exact hs.candidates c hc q (hs.onChain.mem_branch_iff.mpr ⟨hqc, hqt⟩)
  · intro later nTx hwait hworse
    exact offered_receivedBlockTransactions hwait
      (pending_of_registered hbranch.1 hpath) hworse

/--
The search ends, returns the greatest qualified candidate, and drops only candidates
above a failed entry or above a missing block whose arrival brings them back.
-/
theorem findMostWorkChain_selects {s : IndexState} {t : Nat} (hs : s.Searchable t) :
    exists r s', s.findMostWorkChain = some (r, s') ∧
      (forall fuel, s.setBlockIndexCandidates.length < fuel ->
        findMostWorkLoop fuel s = some (r, s')) ∧
      s.Selects r ∧
      forall c, c ∈ s.setBlockIndexCandidates -> c ∉ s'.setBlockIndexCandidates ->
        (exists a, a ∈ s.branch c ∧ (s.status a).failed = true) ∨
        exists m, m ∈ s.branch c ∧ (s.status m).fHaveData = false ∧
          (forall x, x ∈ s.tree.ancestors c -> m ∈ s.tree.ancestors x -> x ≠ m ->
            ((s.header x).pprev, x) ∈ s'.mapBlocksUnlinked) ∧
          ComesBack s' m c := by
  rcases findMostWorkChain_spec hs.onChain hs.candidates with ⟨r, s', hrun, hsearched, hfound⟩
  refine ⟨r, s', hrun, ?_, selects_of_found hsearched hfound, ?_⟩
  · intro fuel hfuel
    exact findMostWorkLoop_mono hfuel hrun
  · intro c hc hnot
    cases hsearched.dropped c hc hnot with
    | failed a ha hfailed _ => exact Or.inl ⟨a, ha, hfailed⟩
    | missing m hm hdata hpath =>
        exact Or.inr ⟨m, hm, hdata, hpath, comesBack_of_missing hs hsearched hc hm hpath⟩

end IndexState

end BlockIndex
end Hbcur
