import Hbcur.BlockIndex.Tree

/-!
# The active chain

`CChain` of `chain.h`: a vector of entries by height.
-/

namespace Hbcur
namespace BlockIndex

open Foundation

/-!
# The vector of entries
-/

/-- `vChain.resize`, which fills with null pointers. -/
def resize (vChain : List (Option Nat)) (n : Nat) : List (Option Nat) :=
  vChain.take n ++ List.replicate (n - vChain.length) none

/-- Write entries back to front until one is there already. -/
def fill (tree : BlockTree) : List (Option Nat) -> List Nat -> List (Option Nat)
  | vChain, [] => vChain
  | vChain, p :: ps =>
      if vChain[(tree.header p).nHeight]? = some (some p) then vChain
      else fill tree (vChain.set (tree.header p).nHeight (some p)) ps

def setTip (tree : BlockTree) (vChain : List (Option Nat)) (pindex : Option Nat) :
    List (Option Nat) :=
  match pindex with
  | none => []
  | some p => fill tree (resize vChain ((tree.header p).nHeight + 1)) (tree.ancestors p)

def tip (vChain : List (Option Nat)) : Option Nat :=
  match vChain.getLast? with
  | some (some p) => some p
  | _ => none

def contains (tree : BlockTree) (vChain : List (Option Nat)) (p : Nat) : Bool :=
  decide (vChain[(tree.header p).nHeight]? = some (some p))

def findFork (tree : BlockTree) (vChain : List (Option Nat)) (p : Nat) : Option Nat :=
  let start :=
    if vChain.length < (tree.header p).nHeight + 1 then
      if vChain.length = 0 then none else tree.getAncestor p (vChain.length - 1)
    else some p
  match start with
  | none => none
  | some q => (tree.ancestors q).find? (contains tree vChain)

/-!
# Chains which follow the parent links
-/

/-- The vector for the chain which ends in `p`. -/
def chainOf (tree : BlockTree) (p : Nat) : List (Option Nat) :=
  (tree.ancestors p).reverse.map some

variable {tree : BlockTree}

theorem length_chainOf (p : Nat) : (chainOf tree p).length = (tree.header p).nHeight + 1 := by
  rw [chainOf, List.length_map, List.length_reverse, BlockTree.length_ancestors]

theorem getElem?_chainOf {p x n : Nat} :
    (chainOf tree p)[n]? = some (some x) <->
      x ∈ tree.ancestors p ∧ (tree.header x).nHeight = n := by
  rw [chainOf, List.getElem?_map, Option.map_eq_some_iff]
  constructor
  · rintro ⟨y, hy, hyx⟩
    cases hyx
    rw [BlockTree.ancestors, Forest.getElem?_reverse_ancestors,
      BlockTree.depth_eq_nHeight] at hy
    exact hy
  · intro hx
    refine ⟨x, ?_, rfl⟩
    rw [BlockTree.ancestors, Forest.getElem?_reverse_ancestors, BlockTree.depth_eq_nHeight]
    exact hx

theorem chainOf_root {p : Nat} (h : (tree.header p).pprev = none) :
    chainOf tree p = [some p] := by
  rw [chainOf, BlockTree.ancestors, Forest.ancestors_of_root h]
  rfl

theorem chainOf_child {p q : Nat} (h : (tree.header p).pprev = some q) :
    chainOf tree p = chainOf tree q ++ [some p] := by
  rw [chainOf, BlockTree.ancestors, Forest.ancestors_of_parent h, List.reverse_cons,
    List.map_append]
  rfl

@[simp] theorem tip_chainOf (p : Nat) : tip (chainOf tree p) = some p := by
  cases h : (tree.header p).pprev with
  | none => rw [chainOf_root h]; rfl
  | some q => rw [chainOf_child h]; simp [tip]

@[simp] theorem contains_chainOf {p x : Nat} :
    contains tree (chainOf tree p) x = true <-> x ∈ tree.ancestors p := by
  rw [contains, decide_eq_true_eq, getElem?_chainOf]
  exact and_iff_left rfl

/-- Entries come with all their ancestors. -/
def ClosedChain (tree : BlockTree) (vChain : List (Option Nat)) : Prop :=
  forall n x, vChain[n]? = some (some x) ->
    (tree.header x).nHeight = n ∧
      forall a, a ∈ tree.ancestors x -> vChain[(tree.header a).nHeight]? = some (some a)

theorem eq_chainOf_of_closedChain {vChain : List (Option Nat)} {p : Nat}
    (hclosed : ClosedChain tree vChain)
    (hlen : vChain.length = (tree.header p).nHeight + 1)
    (hp : vChain[(tree.header p).nHeight]? = some (some p)) : vChain = chainOf tree p := by
  apply List.ext_getElem?
  intro n
  by_cases hn : n ≤ (tree.header p).nHeight
  · rw [← BlockTree.depth_eq_nHeight] at hn
    rcases Forest.exists_ancestor_of_depth hn with ⟨a, ha, hdepth⟩
    rw [BlockTree.depth_eq_nHeight] at hdepth
    rw [← hdepth, (hclosed _ p hp).2 a ha, eq_comm, getElem?_chainOf]
    exact ⟨ha, rfl⟩
  · rw [List.getElem?_eq_none (by omega), List.getElem?_eq_none (by rw [length_chainOf]; omega)]

theorem closedChain_take {vChain : List (Option Nat)} (h : ClosedChain tree vChain) (k : Nat) :
    ClosedChain tree (vChain.take k) := by
  intro n x hx
  have hn : n < k := by
    by_contra hn
    rw [List.getElem?_eq_none (by rw [List.length_take]; omega)] at hx
    cases hx
  rw [List.getElem?_take_of_lt hn] at hx
  rcases h n x hx with ⟨hheight, hanc⟩
  refine ⟨hheight, ?_⟩
  intro a ha
  have hle := BlockTree.nHeight_le_of_mem_ancestors ha
  rw [List.getElem?_take_of_lt (by omega)]
  exact hanc a ha

theorem fill_eq_chainOf {p : Nat} :
    forall vChain : List (Option Nat), (tree.header p).nHeight < vChain.length ->
      ClosedChain tree (vChain.take ((tree.header p).nHeight + 1)) ->
      fill tree vChain (tree.ancestors p) =
        chainOf tree p ++ vChain.drop ((tree.header p).nHeight + 1) := by
  induction p using tree.forest.node_induction with
  | root p h =>
      intro vChain hlen _
      rw [BlockTree.ancestors, Forest.ancestors_of_root h, chainOf_root h, fill]
      have hzero := tree.nHeight_root p h
      rw [hzero] at hlen ⊢
      cases vChain with
      | nil => simp at hlen
      | cons y ys =>
          by_cases hy : y = some p
          · simp [hy]
          · simp [hy, fill]
  | child p q h ih =>
      intro vChain hlen hclosed
      have hheight := tree.nHeight_child p q h
      rw [BlockTree.ancestors, Forest.ancestors_of_parent h, fill]
      by_cases hp : vChain[(tree.header p).nHeight]? = some (some p)
      · rw [if_pos hp]
        have heq : vChain.take ((tree.header p).nHeight + 1) = chainOf tree p := by
          apply eq_chainOf_of_closedChain hclosed
          · rw [List.length_take]
            omega
          · rw [List.getElem?_take_of_lt (by omega)]
            exact hp
        rw [← heq, List.take_append_drop]
      · rw [if_neg hp]
        have hfront : (vChain.set (tree.header p).nHeight (some p)).take
            ((tree.header q).nHeight + 1) =
            (vChain.take ((tree.header p).nHeight + 1)).take ((tree.header q).nHeight + 1) := by
          rw [List.take_set_of_le (by omega), List.take_take]
          congr 1
          omega
        have hstep := ih (vChain.set (tree.header p).nHeight (some p))
          (by rw [List.length_set]; omega)
          (by rw [hfront]; exact closedChain_take hclosed _)
        have hdrop : (vChain.set (tree.header p).nHeight (some p)).drop
            ((tree.header q).nHeight + 1) =
            some p :: vChain.drop ((tree.header p).nHeight + 1) := by
          rw [← hheight, List.drop_eq_getElem_cons (by rw [List.length_set]; omega)]
          rw [List.getElem_set_self, List.drop_set_of_lt (by omega)]
        rw [BlockTree.ancestors] at hstep
        rw [hstep, hdrop, chainOf_child h, List.append_assoc]
        rfl

theorem closedChain_chainOf (p : Nat) : ClosedChain tree (chainOf tree p) := by
  intro n x hx
  rw [getElem?_chainOf] at hx
  refine ⟨hx.2, ?_⟩
  intro a ha
  rw [getElem?_chainOf]
  exact ⟨Forest.mem_ancestors_trans ha hx.1, rfl⟩

theorem closedChain_resize {vChain : List (Option Nat)} (h : ClosedChain tree vChain)
    (n : Nat) : ClosedChain tree (resize vChain n) := by
  have hget : forall m x : Nat, (resize vChain n)[m]? = some (some x) <->
      (vChain.take n)[m]? = some (some x) := by
    intro m x
    rw [resize, List.getElem?_append]
    split_ifs with hm
    · exact Iff.rfl
    · rw [List.getElem?_eq_none (Nat.not_lt.mp hm), List.getElem?_replicate]
      split_ifs <;> simp
  intro m x hx
  rw [hget] at hx
  rcases closedChain_take h n m x hx with ⟨hheight, hanc⟩
  exact ⟨hheight, fun a ha => (hget _ a).mpr (hanc a ha)⟩

/-- `SetTip` moves a chain to any entry. -/
theorem setTip_chainOf (t p : Nat) :
    setTip tree (chainOf tree t) (some p) = chainOf tree p := by
  have hlen : (resize (chainOf tree t) ((tree.header p).nHeight + 1)).length =
      (tree.header p).nHeight + 1 := by
    rw [resize, List.length_append, List.length_take, List.length_replicate]
    omega
  change fill tree (resize (chainOf tree t) ((tree.header p).nHeight + 1))
    (tree.ancestors p) = chainOf tree p
  rw [fill_eq_chainOf _ (by omega)
    (closedChain_take (closedChain_resize (closedChain_chainOf t) _) _),
    List.drop_eq_nil_of_le (by omega), List.append_nil]

/-!
# Forks
-/

/-- The last common entry of two branches. -/
structure IsFork (tree : BlockTree) (t p f : Nat) : Prop where
  left : f ∈ tree.ancestors t
  right : f ∈ tree.ancestors p
  last : forall a, a ∈ tree.ancestors t -> a ∈ tree.ancestors p -> a ∈ tree.ancestors f

theorem isFork_of_find?_ancestors {t p f : Nat}
    (h : (tree.ancestors p).find? (contains tree (chainOf tree t)) = some f) :
    IsFork tree t p f := by
  induction p using tree.forest.node_induction with
  | root p hroot =>
      rw [BlockTree.ancestors, Forest.ancestors_of_root hroot] at h
      have hf := List.mem_singleton.mp (List.mem_of_find?_eq_some h)
      subst hf
      have ht := contains_chainOf.mp (List.find?_some h)
      refine ⟨ht, Forest.mem_ancestors_self f, ?_⟩
      intro a _ ha
      exact ha
  | child p q hprev ih =>
      rw [BlockTree.ancestors, Forest.ancestors_of_parent hprev, List.find?_cons] at h
      cases hc : contains tree (chainOf tree t) p with
      | true =>
          rw [hc] at h
          cases h
          exact ⟨contains_chainOf.mp hc, Forest.mem_ancestors_self f, fun a _ ha => ha⟩
      | false =>
          rw [hc] at h
          rcases ih h with ⟨hleft, hright, hlast⟩
          refine ⟨hleft, Forest.mem_ancestors_of_parent hprev hright, ?_⟩
          intro a hat hap
          by_cases hne : a = p
          · subst hne
            rw [contains_chainOf.mpr hat] at hc
            cases hc
          · exact hlast a hat (Forest.mem_ancestors_parent hprev hap hne)

theorem isFork_of_findFork {t p f : Nat}
    (h : findFork tree (chainOf tree t) p = some f) : IsFork tree t p f := by
  unfold findFork at h
  rw [length_chainOf] at h
  by_cases hlt : (tree.header t).nHeight + 1 < (tree.header p).nHeight + 1
  · rw [if_pos hlt, if_neg (by omega), Nat.add_sub_cancel] at h
    cases hstart : tree.getAncestor p (tree.header t).nHeight with
    | none =>
        rw [hstart] at h
        cases h
    | some q =>
        rw [hstart] at h
        rcases BlockTree.getAncestor_eq_some_iff.mp hstart with ⟨hq, hheight⟩
        rcases isFork_of_find?_ancestors h with ⟨hleft, hright, hlast⟩
        refine ⟨hleft, Forest.mem_ancestors_trans hright hq, ?_⟩
        intro a hat hap
        apply hlast a hat
        apply Forest.mem_ancestors_of_depth_le hap hq
        have hle := Forest.depth_le_of_mem_ancestors hat
        rw [BlockTree.depth_eq_nHeight, BlockTree.depth_eq_nHeight] at hle ⊢
        omega
  · rw [if_neg hlt] at h
    exact isFork_of_find?_ancestors h

/-- Two branches with a common entry have a fork. -/
theorem exists_findFork {t p a : Nat} (hat : a ∈ tree.ancestors t)
    (hap : a ∈ tree.ancestors p) :
    exists f, findFork tree (chainOf tree t) p = some f := by
  have hfind : forall q, a ∈ tree.ancestors q ->
      exists f, (tree.ancestors q).find? (contains tree (chainOf tree t)) = some f := by
    intro q haq
    rw [← Option.isSome_iff_exists, List.find?_isSome]
    exact ⟨a, haq, contains_chainOf.mpr hat⟩
  unfold findFork
  rw [length_chainOf]
  by_cases hlt : (tree.header t).nHeight + 1 < (tree.header p).nHeight + 1
  · rw [if_pos hlt, if_neg (by omega), Nat.add_sub_cancel]
    rw [← BlockTree.depth_eq_nHeight, ← BlockTree.depth_eq_nHeight] at hlt
    rcases Forest.exists_ancestor_of_depth (Nat.le_of_lt (Nat.lt_of_add_lt_add_right hlt)) with
      ⟨q, hq, hdepth⟩
    rw [BlockTree.depth_eq_nHeight, BlockTree.depth_eq_nHeight] at hdepth
    rw [BlockTree.getAncestor_eq_some_iff.mpr ⟨hq, hdepth⟩]
    apply hfind q
    apply Forest.mem_ancestors_of_depth_le hap hq
    have hle := Forest.depth_le_of_mem_ancestors hat
    rw [BlockTree.depth_eq_nHeight, BlockTree.depth_eq_nHeight] at hle ⊢
    omega
  · rw [if_neg hlt]
    exact hfind p hap

end BlockIndex
end Hbcur
