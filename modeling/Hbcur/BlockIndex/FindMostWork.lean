import Hbcur.BlockIndex.State

/-!
# The most-work chain

`FindMostWorkChain` of `main.cpp`: the search for the best usable candidate, which
drops the unusable ones it meets.
-/

namespace Hbcur
namespace BlockIndex

open Foundation

namespace IndexState

/-!
# The search
-/

/-- The entries from `p` back to the active chain. -/
def branch (s : IndexState) (p : Nat) : List Nat :=
  (s.tree.ancestors p).takeWhile (fun x => !s.contains x)

/-- Failed or without block data. -/
def unusable (s : IndexState) (p : Nat) : Bool :=
  (s.status p).failed || !(s.status p).fHaveData

inductive Scan where
  | usable
  | unusable (pindexTest : Nat)
  | aborted

/-- The inner loop of the search, with its assertion. -/
def scan (s : IndexState) : List Nat -> Scan
  | [] => Scan.usable
  | pindexTest :: rest =>
      if (s.status pindexTest).nChainTx = 0 ∧ (s.header pindexTest).nHeight ≠ 0 then
        Scan.aborted
      else if s.unusable pindexTest then Scan.unusable pindexTest
      else scan s rest

/-- Drop the candidates from `pindexNew` back to the unusable `pindexTest`. -/
def discard (s : IndexState) (pindexNew pindexTest : Nat) : IndexState :=
  let dropped := (s.tree.ancestors pindexNew).takeWhile (fun x => decide (x ≠ pindexTest))
  let marked : IndexState :=
    if (s.status pindexTest).failed then
      { s with
        status := fun x =>
          if x ∈ dropped then { s.status x with fFailedChild := true } else s.status x }
    else
      { s with
        mapBlocksUnlinked :=
          s.mapBlocksUnlinked ++ dropped.map (fun x => ((s.header x).pprev, x)) }
  marked.eraseCandidates (dropped ++ [pindexTest])

def findMostWorkLoop : Nat -> IndexState -> Option (Option Nat × IndexState)
  | 0, _ => none
  | fuel + 1, s =>
      match s.bestCandidate s.setBlockIndexCandidates with
      | none => some (none, s)
      | some pindexNew =>
          match s.scan (s.branch pindexNew) with
          | Scan.usable => some (some pindexNew, s)
          | Scan.aborted => none
          | Scan.unusable pindexTest => findMostWorkLoop fuel (s.discard pindexNew pindexTest)

/-- Every round drops a candidate, so this many rounds are enough. -/
def findMostWorkChain (s : IndexState) : Option (Option Nat × IndexState) :=
  findMostWorkLoop (s.setBlockIndexCandidates.length + 1) s

/-!
# Usable branches
-/

/-- The active chain ends in `t` and follows the parent links. -/
def OnChain (s : IndexState) (t : Nat) : Prop := s.vChain = chainOf s.tree t

/-- All entries off the active chain have their data and are not failed. -/
def Qualified (s : IndexState) (p : Nat) : Prop :=
  forall x, x ∈ s.branch p -> s.unusable x = false

theorem OnChain.contains_iff {s : IndexState} {t x : Nat} (h : s.OnChain t) :
    s.contains x = true <-> x ∈ s.tree.ancestors t := by
  unfold IndexState.contains
  rw [h, contains_chainOf]

theorem OnChain.tip_eq {s : IndexState} {t : Nat} (h : s.OnChain t) : s.tip = some t := by
  unfold IndexState.tip
  rw [h, tip_chainOf]

theorem OnChain.mem_branch_iff {s : IndexState} {t p x : Nat} (h : s.OnChain t) :
    x ∈ s.branch p <-> x ∈ s.tree.ancestors p ∧ x ∉ s.tree.ancestors t := by
  induction p using s.tree.forest.node_induction with
  | root p hroot =>
      unfold branch
      rw [BlockTree.ancestors, Forest.ancestors_of_root hroot, List.takeWhile_cons,
        List.takeWhile_nil, ← h.contains_iff]
      split_ifs with hc
      · constructor
        · intro hx
          refine ⟨hx, ?_⟩
          rw [List.mem_singleton.mp hx]
          simpa using hc
        · exact fun hx => hx.1
      · constructor
        · intro hx
          cases hx
        · rintro ⟨hx, hnot⟩
          rw [List.mem_singleton.mp hx] at hnot
          simp [hnot] at hc
  | child p q hprev ih =>
      unfold branch at ih ⊢
      have hcons : s.tree.ancestors p = p :: s.tree.ancestors q :=
        Forest.ancestors_of_parent hprev
      rw [hcons, List.takeWhile_cons]
      cases hc : s.contains p with
      | true =>
          have hp := h.contains_iff.mp hc
          constructor
          · intro hx
            simp at hx
          · rintro ⟨hx, hnot⟩
            rw [← hcons] at hx
            exact absurd (Forest.mem_ancestors_trans hx hp) hnot
      | false =>
          have hp : p ∉ s.tree.ancestors t := by
            rw [← h.contains_iff, hc]
            exact Bool.false_ne_true
          simp only [Bool.not_false, if_true, List.mem_cons, ih]
          constructor
          · rintro (rfl | ⟨hx, hnot⟩)
            · exact ⟨Or.inl rfl, hp⟩
            · exact ⟨Or.inr hx, hnot⟩
          · rintro ⟨rfl | hx, hnot⟩
            · exact Or.inl rfl
            · exact Or.inr ⟨hx, hnot⟩

theorem OnChain.branch_trans {s : IndexState} {t a p x : Nat} (h : s.OnChain t)
    (hxa : x ∈ s.branch a) (hap : a ∈ s.tree.ancestors p) : x ∈ s.branch p := by
  rw [h.mem_branch_iff] at hxa ⊢
  exact ⟨Forest.mem_ancestors_trans hxa.1 hap, hxa.2⟩

/-- The assertion of the inner loop holds along a list. -/
def Linked (s : IndexState) (ps : List Nat) : Prop :=
  forall x, x ∈ ps -> (s.status x).nChainTx ≠ 0

theorem scan_cases {s : IndexState} {ps : List Nat} (h : s.Linked ps) :
    (s.scan ps = Scan.usable ∧ forall x, x ∈ ps -> s.unusable x = false) ∨
      exists m, s.scan ps = Scan.unusable m ∧ m ∈ ps ∧ s.unusable m = true := by
  induction ps with
  | nil => exact Or.inl ⟨rfl, by simp⟩
  | cons p ps ih =>
      unfold scan
      rw [if_neg (fun habort => h p List.mem_cons_self habort.1)]
      cases hp : s.unusable p with
      | true =>
          rw [if_pos rfl]
          exact Or.inr ⟨p, rfl, List.mem_cons_self, hp⟩
      | false =>
          rw [if_neg Bool.false_ne_true]
          rcases ih (fun x hx => h x (List.mem_cons_of_mem p hx)) with ⟨hs, hall⟩ | ⟨m, hs, hm, hbad⟩
          · refine Or.inl ⟨hs, ?_⟩
            intro x hx
            rcases List.mem_cons.mp hx with rfl | hx
            · exact hp
            · exact hall x hx
          · exact Or.inr ⟨m, hs, List.mem_cons_of_mem p hm, hbad⟩

/-!
# What a search may change
-/

/-- An unusable entry of the branch of `c`, for which `c` was dropped. -/
inductive DroppedFor (s s' : IndexState) (c : Nat) : Prop where
  | failed (a : Nat) : a ∈ s.branch c -> (s.status a).failed = true ->
      (s'.status c).failed = true -> DroppedFor s s' c
  | missing (m : Nat) : m ∈ s.branch c -> (s.status m).fHaveData = false ->
      (forall x, x ∈ s.tree.ancestors c -> m ∈ s.tree.ancestors x -> x ≠ m ->
        ((s.header x).pprev, x) ∈ s'.mapBlocksUnlinked) -> DroppedFor s s' c

/-- `s'` comes from `s` by dropping unusable candidates. -/
structure Searched (s s' : IndexState) : Prop where
  tree : s'.tree = s.tree
  vChain : s'.vChain = s.vChain
  nBlockSequenceId : s'.nBlockSequenceId = s.nBlockSequenceId
  candidates : forall c, c ∈ s'.setBlockIndexCandidates -> c ∈ s.setBlockIndexCandidates
  status : forall x, s'.status x = s.status x ∨
    (s'.status x = { s.status x with fFailedChild := true } ∧
      exists a, a ∈ s.branch x ∧ (s.status a).failed = true)
  unlinked : forall e, e ∈ s.mapBlocksUnlinked -> e ∈ s'.mapBlocksUnlinked
  unlinked_new : forall e, e ∈ s'.mapBlocksUnlinked ->
    e ∈ s.mapBlocksUnlinked ∨ exists c, e.2 ∈ s.branch c
  unlinked_eq : (forall c, c ∈ s.setBlockIndexCandidates -> forall x, x ∈ s.branch c ->
    (s.status x).fHaveData = true) -> s'.mapBlocksUnlinked = s.mapBlocksUnlinked
  dropped : forall c, c ∈ s.setBlockIndexCandidates ->
    c ∉ s'.setBlockIndexCandidates -> DroppedFor s s' c

namespace Searched

variable {s s' : IndexState}

theorem refl (s : IndexState) : Searched s s where
  tree := rfl
  vChain := rfl
  nBlockSequenceId := rfl
  candidates _ h := h
  status _ := Or.inl rfl
  unlinked _ h := h
  unlinked_new _ h := Or.inl h
  unlinked_eq _ := rfl
  dropped _ h hnot := absurd h hnot

theorem branch_eq (h : Searched s s') (p : Nat) : s'.branch p = s.branch p := by
  unfold branch IndexState.contains
  rw [h.tree, h.vChain]

theorem nSequenceId (h : Searched s s') (x : Nat) :
    (s'.status x).nSequenceId = (s.status x).nSequenceId := by
  rcases h.status x with hx | ⟨hx, _⟩ <;> rw [hx]

theorem nChainTx (h : Searched s s') (x : Nat) :
    (s'.status x).nChainTx = (s.status x).nChainTx := by
  rcases h.status x with hx | ⟨hx, _⟩ <;> rw [hx]

theorem fHaveData (h : Searched s s') (x : Nat) :
    (s'.status x).fHaveData = (s.status x).fHaveData := by
  rcases h.status x with hx | ⟨hx, _⟩ <;> rw [hx]

theorem less_eq (h : Searched s s') (a b : Nat) : s'.less a b = s.less a b :=
  less_congr h.tree (h.nSequenceId a) (h.nSequenceId b)

theorem failed_of_failed (h : Searched s s') {x : Nat} (hx : (s.status x).failed = true) :
    (s'.status x).failed = true := by
  rcases h.status x with heq | ⟨heq, _⟩
  · rw [heq]
    exact hx
  · rw [heq]
    simp [IndexStatus.failed]

theorem unusable_of_unusable (h : Searched s s') {x : Nat} (hx : s.unusable x = true) :
    s'.unusable x = true := by
  unfold unusable at hx ⊢
  rw [h.fHaveData]
  rcases Bool.or_eq_true_iff.mp hx with hfailed | hdata
  · rw [h.failed_of_failed hfailed]
    rfl
  · rw [hdata]
    exact Bool.or_true _

theorem onChain (h : Searched s s') {t : Nat} (ht : s.OnChain t) : s'.OnChain t := by
  unfold OnChain at ht ⊢
  rw [h.tree, h.vChain]
  exact ht

/-- A failed entry was failed before, or lies above an entry which was. -/
theorem exists_failed (h : Searched s s') {t x : Nat} (ht : s.OnChain t)
    (hx : (s'.status x).failed = true) (hoff : x ∉ s.tree.ancestors t) :
    exists a, a ∈ s.branch x ∧ (s.status a).failed = true := by
  rcases h.status x with heq | ⟨_, hex⟩
  · rw [heq] at hx
    refine ⟨x, ?_, hx⟩
    rw [ht.mem_branch_iff]
    exact ⟨Forest.mem_ancestors_self x, hoff⟩
  · exact hex

end Searched

/-- A qualified candidate is not dropped. -/
theorem DroppedFor.not_qualified {s s' : IndexState} {c : Nat} (h : DroppedFor s s' c) :
    ¬ s.Qualified c := by
  intro hq
  cases h with
  | failed a ha hfailed _ =>
      have hu := hq a ha
      simp [unusable, hfailed] at hu
  | missing m hm hdata _ =>
      have hu := hq m hm
      simp [unusable, hdata] at hu

theorem DroppedFor.mono {s s' s'' : IndexState} {c : Nat} (h : DroppedFor s s' c)
    (hfailed : (s'.status c).failed = true -> (s''.status c).failed = true)
    (hunlinked : forall e, e ∈ s'.mapBlocksUnlinked -> e ∈ s''.mapBlocksUnlinked) :
    DroppedFor s s'' c := by
  cases h with
  | failed a ha hfa hc => exact DroppedFor.failed a ha hfa (hfailed hc)
  | missing m hm hdata hpath =>
      exact DroppedFor.missing m hm hdata
        (fun x hx hmx hne => hunlinked _ (hpath x hx hmx hne))

/-!
# One round of the search
-/

section Round

variable {s s' : IndexState} {t c m : Nat}

theorem mem_dropped_iff (hm : m ∈ s.tree.ancestors c) {x : Nat} :
    x ∈ (s.tree.ancestors c).takeWhile (fun y => decide (y ≠ m)) <->
      x ∈ s.tree.ancestors c ∧ m ∈ s.tree.ancestors x ∧ x ≠ m :=
  Forest.mem_takeWhile_ne_iff hm

theorem discard_candidates :
    (s.discard c m).setBlockIndexCandidates =
      s.setBlockIndexCandidates.filter
        (· ∉ (s.tree.ancestors c).takeWhile (fun y => decide (y ≠ m)) ++ [m]) := by
  unfold discard
  by_cases hfailed : (s.status m).failed = true <;> simp [eraseCandidates, hfailed]

theorem mem_discard_candidates_iff (hm : m ∈ s.tree.ancestors c) {x : Nat} :
    x ∈ (s.discard c m).setBlockIndexCandidates <->
      x ∈ s.setBlockIndexCandidates ∧
        ¬ (x ∈ s.tree.ancestors c ∧ m ∈ s.tree.ancestors x) := by
  have hdropped : x ∈ (s.tree.ancestors c).takeWhile (fun y => decide (y ≠ m)) ++ [m] <->
      x ∈ s.tree.ancestors c ∧ m ∈ s.tree.ancestors x := by
    rw [List.mem_append, mem_dropped_iff hm, List.mem_singleton]
    constructor
    · rintro (⟨hx, hmx, _⟩ | rfl)
      · exact ⟨hx, hmx⟩
      · exact ⟨hm, Forest.mem_ancestors_self x⟩
    · rintro ⟨hx, hmx⟩
      by_cases hne : x = m
      · exact Or.inr hne
      · exact Or.inl ⟨hx, hmx, hne⟩
  rw [discard_candidates, List.mem_filter, decide_eq_true_eq, hdropped]

/-- Dropping the branch of a candidate back to an unusable entry. -/
theorem Searched.discard (h : Searched s s') (ht : s.OnChain t)
    (hm : m ∈ s'.branch c) (hbad : s'.unusable m = true)
    (hc : c ∈ s'.setBlockIndexCandidates) : Searched s (s'.discard c m) := by
  have ht' := h.onChain ht
  have htree := h.tree
  rw [ht'.mem_branch_iff] at hm
  rcases hm with ⟨hanc, hoff⟩
  have hcand : forall x, x ∈ (s'.discard c m).setBlockIndexCandidates <->
      x ∈ s'.setBlockIndexCandidates ∧
        ¬ (x ∈ s'.tree.ancestors c ∧ m ∈ s'.tree.ancestors x) :=
    fun x => mem_discard_candidates_iff hanc
  have hmem : forall x, x ∈ (s'.tree.ancestors c).takeWhile (fun y => decide (y ≠ m)) ->
      m ∈ s'.branch x := by
    intro x hx
    rw [mem_dropped_iff hanc] at hx
    rw [ht'.mem_branch_iff]
    exact ⟨hx.2.1, hoff⟩
  cases hfailed : (s'.status m).failed with
  | true =>
      -- the entries above the failed one are marked as its children
      have hstatus : forall x, (s'.discard c m).status x =
          if x ∈ (s'.tree.ancestors c).takeWhile (fun y => decide (y ≠ m))
            then { s'.status x with fFailedChild := true } else s'.status x := by
        intro x
        simp [IndexState.discard, hfailed, eraseCandidates]
      have hunlinked : (s'.discard c m).mapBlocksUnlinked = s'.mapBlocksUnlinked := by
        simp [IndexState.discard, hfailed, eraseCandidates]
      have hcause : exists a, a ∈ s.branch m ∧ (s.status a).failed = true := by
        apply h.exists_failed ht hfailed
        rw [← htree]
        exact hoff
      have habove : forall x, m ∈ s'.tree.ancestors x ->
          exists a, a ∈ s.branch x ∧ (s.status a).failed = true := by
        intro x hx
        rcases hcause with ⟨a, ha, hfa⟩
        rw [htree] at hx
        exact ⟨a, ht.branch_trans ha hx, hfa⟩
      have hkeep : forall x, (s'.status x).failed = true ->
          ((s'.discard c m).status x).failed = true := by
        intro x hx
        rw [hstatus]
        split_ifs
        · simp [IndexStatus.failed]
        · exact hx
      refine
        { tree := ?_, vChain := ?_, nBlockSequenceId := ?_, candidates := ?_, status := ?_,
          unlinked := ?_, unlinked_new := ?_, unlinked_eq := ?_, dropped := ?_ }
      · rw [← htree]
        simp [IndexState.discard, hfailed, eraseCandidates]
      · rw [← h.vChain]
        simp [IndexState.discard, hfailed, eraseCandidates]
      · rw [← h.nBlockSequenceId]
        simp [IndexState.discard, hfailed, eraseCandidates]
      · intro x hx
        exact h.candidates x ((hcand x).mp hx).1
      · intro x
        rw [hstatus]
        split_ifs with hx
        · right
          refine ⟨?_, habove x ((mem_dropped_iff hanc).mp hx).2.1⟩
          rcases h.status x with heq | ⟨heq, _⟩ <;> rw [heq]
        · exact h.status x
      · rw [hunlinked]
        exact h.unlinked
      · rw [hunlinked]
        exact h.unlinked_new
      · rw [hunlinked]
        exact h.unlinked_eq
      · intro x hx hnot
        by_cases hx' : x ∈ s'.setBlockIndexCandidates
        · rw [hcand, not_and, not_not] at hnot
          rcases hnot hx' with ⟨hxc, hmx⟩
          rcases habove x hmx with ⟨a, ha, hfa⟩
          apply DroppedFor.failed a ha hfa
          rw [hstatus]
          split_ifs with hdrop
          · simp [IndexStatus.failed]
          · have hxm : x = m := by
              by_contra hne
              exact hdrop ((mem_dropped_iff hanc).mpr ⟨hxc, hmx, hne⟩)
            rw [hxm]
            exact hfailed
        · exact (h.dropped x hx hx').mono (hkeep x) (fun e he => by rw [hunlinked]; exact he)
  | false =>
      -- the data of `m` is missing, and the entries above it wait for it
      have hdata : (s.status m).fHaveData = false := by
        rw [← h.fHaveData]
        simpa [IndexState.unusable, hfailed] using hbad
      have hstatus : (s'.discard c m).status = s'.status := by
        simp [IndexState.discard, hfailed, eraseCandidates]
      have hunlinked : (s'.discard c m).mapBlocksUnlinked = s'.mapBlocksUnlinked ++
          ((s'.tree.ancestors c).takeWhile (fun y => decide (y ≠ m))).map
            (fun x => ((s'.header x).pprev, x)) := by
        simp [IndexState.discard, hfailed, eraseCandidates]
      have hbranch : m ∈ s.branch c := by
        rw [ht.mem_branch_iff, ← htree]
        exact ⟨hanc, hoff⟩
      refine
        { tree := ?_, vChain := ?_, nBlockSequenceId := ?_, candidates := ?_, status := ?_,
          unlinked := ?_, unlinked_new := ?_, unlinked_eq := ?_, dropped := ?_ }
      · rw [← htree]
        simp [IndexState.discard, hfailed, eraseCandidates]
      · rw [← h.vChain]
        simp [IndexState.discard, hfailed, eraseCandidates]
      · rw [← h.nBlockSequenceId]
        simp [IndexState.discard, hfailed, eraseCandidates]
      · intro x hx
        exact h.candidates x ((hcand x).mp hx).1
      · rw [hstatus]
        exact h.status
      · intro e he
        rw [hunlinked]
        exact List.mem_append_left _ (h.unlinked e he)
      · intro e he
        rw [hunlinked, List.mem_append] at he
        rcases he with he | he
        · exact h.unlinked_new e he
        · rcases List.mem_map.mp he with ⟨x, hx, rfl⟩
          refine Or.inr ⟨x, ?_⟩
          rw [ht.mem_branch_iff]
          refine ⟨Forest.mem_ancestors_self x, fun hxt => hoff ?_⟩
          rw [htree]
          exact Forest.mem_ancestors_trans
            (by rw [← htree]; exact ((mem_dropped_iff hanc).mp hx).2.1) hxt
      · intro hall
        have := hall c (h.candidates c hc) m hbranch
        rw [hdata] at this
        cases this
      · intro x hx hnot
        by_cases hx' : x ∈ s'.setBlockIndexCandidates
        · rw [hcand, not_and, not_not] at hnot
          rcases hnot hx' with ⟨hxc, hmx⟩
          refine DroppedFor.missing m ?_ hdata ?_
          · rw [ht.mem_branch_iff, ← htree]
            exact ⟨hmx, hoff⟩
          · intro y hy hmy hne
            rw [← htree] at hy hmy
            rw [hunlinked]
            apply List.mem_append_right
            rw [List.mem_map]
            refine ⟨y, ?_, ?_⟩
            · rw [mem_dropped_iff hanc]
              exact ⟨Forest.mem_ancestors_trans hy hxc, hmy, hne⟩
            · unfold IndexState.header
              rw [htree]
        · refine (h.dropped x hx hx').mono ?_ ?_
          · intro hf
            rw [hstatus]
            exact hf
          · intro e he
            rw [hunlinked]
            exact List.mem_append_left _ he

theorem length_discard_candidates_lt (hm : m ∈ s.tree.ancestors c)
    (hc : c ∈ s.setBlockIndexCandidates) :
    (s.discard c m).setBlockIndexCandidates.length < s.setBlockIndexCandidates.length := by
  rw [discard_candidates, List.length_filter_lt_length_iff_exists]
  refine ⟨c, hc, ?_⟩
  have hdrop : c ∈ (s.tree.ancestors c).takeWhile (fun y => decide (y ≠ m)) ++ [m] := by
    rw [List.mem_append, mem_dropped_iff hm, List.mem_singleton]
    by_cases hne : c = m
    · exact Or.inr hne
    · exact Or.inl ⟨Forest.mem_ancestors_self c, hm, hne⟩
  rw [decide_eq_true_eq, not_not]
  exact hdrop

end Round

/-!
# The whole search
-/

/-- What the search returns: the best of the candidates it has left, if any. -/
inductive Found (s' : IndexState) : Option Nat -> Prop where
  | nothing : s'.setBlockIndexCandidates = [] -> Found s' none
  | best (r : Nat) : r ∈ s'.setBlockIndexCandidates -> s'.Qualified r ->
      (forall c, c ∈ s'.setBlockIndexCandidates -> s'.less r c = false) -> Found s' (some r)

theorem findMostWorkLoop_spec {s : IndexState} {t : Nat} (ht : s.OnChain t)
    (hlinked : forall c, c ∈ s.setBlockIndexCandidates -> s.Linked (s.branch c)) (fuel : Nat) :
    forall s', Searched s s' -> s'.setBlockIndexCandidates.length < fuel ->
      exists r s'', findMostWorkLoop fuel s' = some (r, s'') ∧ Searched s s'' ∧
        Found s'' r := by
  induction fuel with
  | zero =>
      intro s' _ hlen
      omega
  | succ fuel ih =>
      intro s' h hlen
      unfold findMostWorkLoop
      cases hbest : s'.bestCandidate s'.setBlockIndexCandidates with
      | none =>
          rw [bestCandidate_eq_none_iff] at hbest
          exact ⟨none, s', rfl, h, Found.nothing hbest⟩
      | some c =>
          rcases bestCandidate_spec hbest with ⟨hc, hmax⟩
          have hlink : s'.Linked (s'.branch c) := by
            intro x hx
            rw [h.branch_eq] at hx
            rw [h.nChainTx]
            exact hlinked c (h.candidates c hc) x hx
          rcases scan_cases hlink with ⟨hscan, hall⟩ | ⟨m, hscan, hm, hbad⟩
          · simp only [hscan]
            exact ⟨some c, s', rfl, h, Found.best c hc hall hmax⟩
          · simp only [hscan]
            have hanc := ((h.onChain ht).mem_branch_iff.mp hm).1
            have hlt := length_discard_candidates_lt hanc hc
            exact ih _ (h.discard ht hm hbad hc) (by omega)

/-- More rounds than needed change nothing. -/
theorem findMostWorkLoop_mono {fuel fuel' : Nat} (hle : fuel ≤ fuel') {s : IndexState}
    {x : Option Nat × IndexState} (h : findMostWorkLoop fuel s = some x) :
    findMostWorkLoop fuel' s = some x := by
  induction fuel generalizing fuel' s with
  | zero => cases h
  | succ fuel ih =>
      cases fuel' with
      | zero => omega
      | succ fuel' =>
          unfold findMostWorkLoop at h ⊢
          cases hbest : s.bestCandidate s.setBlockIndexCandidates with
          | none =>
              rw [hbest] at h
              exact h
          | some c =>
              rw [hbest] at h
              simp only at h ⊢
              cases hscan : s.scan (s.branch c) with
              | usable =>
                  rw [hscan] at h
                  exact h
              | aborted =>
                  rw [hscan] at h
                  cases h
              | unusable m =>
                  rw [hscan] at h
                  exact ih (Nat.le_of_succ_le_succ hle) h

theorem findMostWorkChain_spec {s : IndexState} {t : Nat} (ht : s.OnChain t)
    (hlinked : forall c, c ∈ s.setBlockIndexCandidates -> s.Linked (s.branch c)) :
    exists r s', s.findMostWorkChain = some (r, s') ∧ Searched s s' ∧ Found s' r :=
  findMostWorkLoop_spec ht hlinked _ s (Searched.refl s) (Nat.lt_succ_self _)

end IndexState

end BlockIndex
end Hbcur
