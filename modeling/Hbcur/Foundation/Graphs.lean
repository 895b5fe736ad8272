import Mathlib.Data.List.Nodup
import Mathlib.Order.Nat

/-!
# Ancestry in forests with parent links

Nodes are numbered in the order in which they were made, so that a parent always
has a smaller number than its children.
-/

namespace Hbcur
namespace Foundation

/-- A parent function all of whose links point back. -/
structure Forest where
  parent : Nat -> Option Nat
  parent_lt : forall p q, parent p = some q -> q < p

namespace Forest

variable (F : Forest)

def walk : Nat -> Nat -> List Nat
  | 0, p => [p]
  | fuel + 1, p =>
      p :: match F.parent p with
        | none => []
        | some q => walk fuel q

/-- A node, its parent and so on up to its root. -/
def ancestors (p : Nat) : List Nat := F.walk p p

variable {F}

theorem walk_stable (p : Nat) :
    forall fuel, p ≤ fuel -> F.walk fuel p = F.ancestors p := by
  induction p using Nat.strong_induction_on with
  | h p ih =>
      intro fuel hfuel
      have hroot : F.parent p = none -> F.walk fuel p = [p] ∧ F.ancestors p = [p] := by
        intro hnone
        constructor
        · cases fuel <;> simp [walk, hnone]
        · unfold ancestors
          cases p <;> simp [walk, hnone]
      cases hparent : F.parent p with
      | none => rw [(hroot hparent).1, (hroot hparent).2]
      | some q =>
          have hlt := F.parent_lt p q hparent
          have hstep : forall n, p ≤ n -> F.walk n p = p :: F.ancestors q := by
            intro n hn
            cases n with
            | zero => omega
            | succ n =>
                simp only [walk, hparent]
                rw [ih q hlt n (by omega)]
          rw [hstep fuel hfuel]
          exact (hstep p le_rfl).symm

theorem ancestors_of_root {p : Nat} (h : F.parent p = none) : F.ancestors p = [p] := by
  unfold ancestors
  cases p <;> simp [walk, h]

theorem ancestors_of_parent {p q : Nat} (h : F.parent p = some q) :
    F.ancestors p = p :: F.ancestors q := by
  have hlt := F.parent_lt p q h
  rw [← walk_stable p p le_rfl]
  cases p with
  | zero => omega
  | succ n =>
      simp only [walk, h]
      rw [walk_stable q n (by omega)]

/-- Induction from the roots towards the leaves. -/
@[elab_as_elim]
theorem node_induction {motive : Nat -> Prop}
    (root : forall p, F.parent p = none -> motive p)
    (child : forall p q, F.parent p = some q -> motive q -> motive p) (p : Nat) :
    motive p := by
  induction p using Nat.strong_induction_on with
  | h p ih =>
      cases h : F.parent p with
      | none => exact root p h
      | some q => exact child p q h (ih q (F.parent_lt p q h))

/-!
# The ancestor order
-/

theorem mem_ancestors_self (p : Nat) : p ∈ F.ancestors p := by
  cases h : F.parent p with
  | none =>
      rw [ancestors_of_root h]
      exact List.mem_singleton_self p
  | some q =>
      rw [ancestors_of_parent h]
      exact List.mem_cons_self

theorem ancestors_eq_cons (p : Nat) :
    F.ancestors p = p :: (F.ancestors p).tail := by
  cases h : F.parent p with
  | none => rw [ancestors_of_root h]; rfl
  | some q => rw [ancestors_of_parent h]; rfl

theorem mem_ancestors_iff {a p : Nat} :
    a ∈ F.ancestors p <-> a = p ∨ exists q, F.parent p = some q ∧ a ∈ F.ancestors q := by
  cases h : F.parent p with
  | none => simp [ancestors_of_root h]
  | some q => simp [ancestors_of_parent h]

theorem mem_ancestors_of_parent {a p q : Nat} (h : F.parent p = some q)
    (ha : a ∈ F.ancestors q) : a ∈ F.ancestors p :=
  mem_ancestors_iff.mpr (Or.inr ⟨q, h, ha⟩)

theorem parent_mem_ancestors {p q : Nat} (h : F.parent p = some q) :
    q ∈ F.ancestors p :=
  mem_ancestors_of_parent h (mem_ancestors_self q)

theorem mem_ancestors_trans {a b p : Nat} (hab : a ∈ F.ancestors b)
    (hbp : b ∈ F.ancestors p) : a ∈ F.ancestors p := by
  induction p using F.node_induction with
  | root p h =>
      rw [ancestors_of_root h, List.mem_singleton] at hbp
      subst hbp
      exact hab
  | child p q h ih =>
      rcases mem_ancestors_iff.mp hbp with rfl | ⟨q', hq', hb⟩
      · exact hab
      · rw [h] at hq'
        cases hq'
        exact mem_ancestors_of_parent h (ih hb)

theorem le_of_mem_ancestors {a p : Nat} (h : a ∈ F.ancestors p) : a ≤ p := by
  induction p using F.node_induction with
  | root p hroot =>
      rw [ancestors_of_root hroot, List.mem_singleton] at h
      exact h.le
  | child p q hparent ih =>
      rcases mem_ancestors_iff.mp h with rfl | ⟨q', hq', ha⟩
      · exact le_rfl
      · rw [hparent] at hq'
        cases hq'
        exact (ih ha).trans (F.parent_lt p q hparent).le

theorem mem_ancestors_antisymm {a p : Nat} (hap : a ∈ F.ancestors p)
    (hpa : p ∈ F.ancestors a) : a = p :=
  le_antisymm (le_of_mem_ancestors hap) (le_of_mem_ancestors hpa)

/-- A proper ancestor is an ancestor of the parent. -/
theorem mem_ancestors_parent {a p q : Nat} (h : F.parent p = some q)
    (ha : a ∈ F.ancestors p) (hne : a ≠ p) : a ∈ F.ancestors q := by
  rcases mem_ancestors_iff.mp ha with rfl | ⟨q', hq', ha'⟩
  · exact absurd rfl hne
  · rw [h] at hq'
    cases hq'
    exact ha'

theorem not_mem_ancestors_parent {p q : Nat} (h : F.parent p = some q) :
    p ∉ F.ancestors q := by
  intro hp
  have hle := le_of_mem_ancestors hp
  have hlt := F.parent_lt p q h
  omega

/-- The ancestors of one node are linearly ordered. -/
theorem mem_ancestors_total {a b p : Nat} (ha : a ∈ F.ancestors p)
    (hb : b ∈ F.ancestors p) : a ∈ F.ancestors b ∨ b ∈ F.ancestors a := by
  induction p using F.node_induction with
  | root p h =>
      rw [ancestors_of_root h, List.mem_singleton] at ha hb
      subst ha hb
      exact Or.inl (mem_ancestors_self _)
  | child p q h ih =>
      by_cases hap : a = p
      · subst hap
        exact Or.inr hb
      · by_cases hbp : b = p
        · subst hbp
          exact Or.inl ha
        · exact ih (mem_ancestors_parent h ha hap) (mem_ancestors_parent h hb hbp)

/-- The ancestors of a node among the ancestors of another. -/
theorem ancestors_suffix {a p : Nat} (h : a ∈ F.ancestors p) :
    exists above, F.ancestors p = above ++ F.ancestors a ∧
      forall x, x ∈ above -> x ≠ a ∧ a ∈ F.ancestors x := by
  induction p using F.node_induction with
  | root p hroot =>
      rw [ancestors_of_root hroot, List.mem_singleton] at h
      subst h
      exact ⟨[], rfl, by simp⟩
  | child p q hparent ih =>
      by_cases hap : a = p
      · subst hap
        exact ⟨[], rfl, by simp⟩
      · have hmem := mem_ancestors_parent hparent h hap
        rcases ih hmem with ⟨above, heq, habove⟩
        refine ⟨p :: above, ?_, ?_⟩
        · rw [ancestors_of_parent hparent, heq]
          rfl
        · intro x hx
          rcases List.mem_cons.mp hx with rfl | hx
          · exact ⟨fun hxa => hap hxa.symm, h⟩
          · exact habove x hx

/-- The nodes on the way from a node to one of its ancestors. -/
theorem mem_takeWhile_ne_iff {a p x : Nat} (h : a ∈ F.ancestors p) :
    x ∈ (F.ancestors p).takeWhile (fun y => decide (y ≠ a)) <->
      x ∈ F.ancestors p ∧ a ∈ F.ancestors x ∧ x ≠ a := by
  rcases ancestors_suffix h with ⟨above, heq, habove⟩
  have htake : (F.ancestors p).takeWhile (fun y => decide (y ≠ a)) = above := by
    rw [heq, List.takeWhile_append_of_pos (fun y hy => by simpa using (habove y hy).1)]
    rw [ancestors_eq_cons a]
    simp
  rw [htake]
  constructor
  · intro hx
    refine ⟨?_, (habove x hx).2, (habove x hx).1⟩
    rw [heq]
    exact List.mem_append_left _ hx
  · rintro ⟨hx, hax, hne⟩
    rw [heq] at hx
    rcases List.mem_append.mp hx with hx | hx
    · exact hx
    · exact absurd (mem_ancestors_antisymm hx hax) hne

/-- Two forests which agree below a node give it the same ancestors. -/
theorem ancestors_congr {G : Forest} {p : Nat}
    (h : forall x, x ≤ p -> G.parent x = F.parent x) : G.ancestors p = F.ancestors p := by
  induction p using F.node_induction with
  | root p hroot =>
      rw [ancestors_of_root hroot, ancestors_of_root ((h p le_rfl).trans hroot)]
  | child p q hparent ih =>
      have hlt := F.parent_lt p q hparent
      rw [ancestors_of_parent hparent, ancestors_of_parent ((h p le_rfl).trans hparent),
        ih (fun x hx => h x (hx.trans hlt.le))]

/-!
# Depth
-/

variable (F) in
/-- The number of proper ancestors. -/
def depth (p : Nat) : Nat := (F.ancestors p).length - 1

theorem length_ancestors (p : Nat) : (F.ancestors p).length = F.depth p + 1 := by
  have hpos := List.length_pos_of_mem (F.mem_ancestors_self p)
  unfold depth
  omega

theorem depth_of_root {p : Nat} (h : F.parent p = none) : F.depth p = 0 := by
  simp [depth, ancestors_of_root h]

theorem depth_of_parent {p q : Nat} (h : F.parent p = some q) :
    F.depth p = F.depth q + 1 := by
  have hlen := F.length_ancestors q
  rw [depth, ancestors_of_parent h, List.length_cons]
  omega

theorem depth_lt_of_mem_ancestors {a p : Nat} (h : a ∈ F.ancestors p) (hne : a ≠ p) :
    F.depth a < F.depth p := by
  induction p using F.node_induction with
  | root p hroot =>
      rw [ancestors_of_root hroot, List.mem_singleton] at h
      exact absurd h hne
  | child p q hparent ih =>
      have hmem := mem_ancestors_parent hparent h hne
      rw [depth_of_parent hparent]
      by_cases haq : a = q
      · subst haq
        omega
      · have := ih hmem haq
        omega

theorem depth_le_of_mem_ancestors {a p : Nat} (h : a ∈ F.ancestors p) :
    F.depth a ≤ F.depth p := by
  by_cases hne : a = p
  · rw [hne]
  · exact (depth_lt_of_mem_ancestors h hne).le

/-- At one depth a node has one ancestor. -/
theorem eq_of_depth_eq {a b p : Nat} (ha : a ∈ F.ancestors p) (hb : b ∈ F.ancestors p)
    (h : F.depth a = F.depth b) : a = b := by
  by_contra hne
  rcases mem_ancestors_total ha hb with hab | hba
  · have := depth_lt_of_mem_ancestors hab hne
    omega
  · have := depth_lt_of_mem_ancestors hba (Ne.symm hne)
    omega

theorem mem_ancestors_of_depth_le {a b p : Nat} (ha : a ∈ F.ancestors p)
    (hb : b ∈ F.ancestors p) (h : F.depth a ≤ F.depth b) : a ∈ F.ancestors b := by
  rcases mem_ancestors_total ha hb with hab | hba
  · exact hab
  · have hle := depth_le_of_mem_ancestors hba
    have heq : a = b := eq_of_depth_eq ha hb (by omega)
    rw [heq]
    exact mem_ancestors_self b

theorem exists_ancestor_of_depth {p n : Nat} (h : n ≤ F.depth p) :
    exists a, a ∈ F.ancestors p ∧ F.depth a = n := by
  induction p using F.node_induction with
  | root p hroot =>
      rw [depth_of_root hroot] at h
      refine ⟨p, mem_ancestors_self p, ?_⟩
      rw [depth_of_root hroot]
      omega
  | child p q hparent ih =>
      rw [depth_of_parent hparent] at h
      by_cases hn : n ≤ F.depth q
      · rcases ih hn with ⟨a, ha, hdepth⟩
        exact ⟨a, mem_ancestors_of_parent hparent ha, hdepth⟩
      · refine ⟨p, mem_ancestors_self p, ?_⟩
        rw [depth_of_parent hparent]
        omega

/-!
# Branches

The part of the way to the root which stays off a given branch.
-/

/-- Position in the reversed ancestor list is depth. -/
theorem getElem?_reverse_ancestors {p x : Nat} (n : Nat) :
    (F.ancestors p).reverse[n]? = some x <-> x ∈ F.ancestors p ∧ F.depth x = n := by
  induction p using F.node_induction with
  | root p h =>
      rw [ancestors_of_root h]
      cases n with
      | zero =>
          constructor
          · intro hx
            have hpx : p = x := by simpa using hx
            rw [← hpx]
            exact ⟨List.mem_singleton_self p, depth_of_root h⟩
          · rintro ⟨hx, _⟩
            simpa using (List.mem_singleton.mp hx).symm
      | succ n =>
          constructor
          · intro hx
            simp at hx
          · rintro ⟨hx, hdepth⟩
            rw [List.mem_singleton.mp hx, depth_of_root h] at hdepth
            omega
  | child p q h ih =>
      rw [ancestors_of_parent h, List.reverse_cons]
      have hlen : (F.ancestors q).reverse.length = F.depth q + 1 := by
        rw [List.length_reverse, length_ancestors]
      have hp := depth_of_parent h
      by_cases hlt : n < F.depth q + 1
      · rw [List.getElem?_append_left (by omega), ih]
        constructor
        · rintro ⟨hx, hdepth⟩
          exact ⟨List.mem_cons_of_mem p hx, hdepth⟩
        · rintro ⟨hx, hdepth⟩
          rcases List.mem_cons.mp hx with rfl | hx
          · omega
          · exact ⟨hx, hdepth⟩
      · rw [List.getElem?_append_right (by omega), hlen]
        constructor
        · intro hx
          have hn : n - (F.depth q + 1) = 0 := by
            by_contra hn
            rw [List.getElem?_eq_none (by simp; omega)] at hx
            cases hx
          rw [hn] at hx
          have hpx : p = x := by simpa using hx
          rw [← hpx]
          exact ⟨List.mem_cons_self, by omega⟩
        · rintro ⟨hx, hdepth⟩
          rcases List.mem_cons.mp hx with rfl | hx
          · have hn : n - (F.depth q + 1) = 0 := by omega
            simp [hn]
          · have := depth_le_of_mem_ancestors hx
            omega

end Forest

end Foundation
end Hbcur

/-!
# What a worklist reaches

The nodes of a graph which are reached from some seeds, through nodes which are present.  A
worklist takes a node out and puts its successors in; the nodes still to come are those which
are reached without it.
-/

namespace Hbcur
namespace Foundation

variable {node : Type}

inductive Reached (edge : node -> node -> Prop) (present seed : node -> Prop) : node -> Prop where
  | seed {n : node} : seed n -> present n -> Reached edge present seed n
  | edge {n m : node} : Reached edge present seed n -> edge n m -> present m ->
      Reached edge present seed m

section Reached

variable {edge : node -> node -> Prop} {present present' seed seed' : node -> Prop}

/-- Only seeds and successors which are present matter. -/
theorem Reached.mono (hseed : forall n, present n -> seed n -> seed' n)
    (hpresent : forall n, present n -> present' n) {n : node}
    (h : Reached edge present seed n) : Reached edge present' seed' n := by
  induction h with
  | seed hs hp => exact Reached.seed (hseed _ hp hs) (hpresent _ hp)
  | edge _ hedge hp ih => exact Reached.edge ih hedge (hpresent _ hp)

theorem reached_congr (hseed : forall n, present n -> (seed n <-> seed' n)) {n : node} :
    Reached edge present seed n <-> Reached edge present seed' n := by
  constructor
  · exact Reached.mono (fun n hp => (hseed n hp).mp) (fun _ hp => hp)
  · exact Reached.mono (fun n hp => (hseed n hp).mpr) (fun _ hp => hp)

theorem not_reached_of_noSeed (hseed : forall n, present n -> ¬ seed n) {n : node} :
    ¬ Reached edge present seed n := by
  intro h
  induction h with
  | seed hs hp => exact hseed _ hp hs
  | edge _ _ _ ih => exact ih

/-- One turn: a seed is taken out, and its successors become seeds. -/
theorem reached_take_iff {n : node} (hn : seed n) (hpresent : present n)
    (hseed : forall m, present m -> m ≠ n -> (seed' m <-> seed m ∨ edge n m)) {m : node} :
    Reached edge present seed m <->
      m = n ∨ Reached edge (fun m => m ≠ n ∧ present m) seed' m := by
  constructor
  · intro h
    induction h with
    | @seed m hs hp =>
        by_cases heq : m = n
        · exact Or.inl heq
        · exact Or.inr (Reached.seed ((hseed m hp heq).mpr (Or.inl hs)) ⟨heq, hp⟩)
    | @edge p m _ hedge hp ih =>
        by_cases heq : m = n
        · exact Or.inl heq
        · apply Or.inr
          rcases ih with rfl | hreached
          · exact Reached.seed ((hseed m hp heq).mpr (Or.inr hedge)) ⟨heq, hp⟩
          · exact Reached.edge hreached hedge ⟨heq, hp⟩
  · rintro (rfl | h)
    · exact Reached.seed hn hpresent
    · induction h with
      | @seed m hs hp =>
          rcases (hseed m hp.2 hp.1).mp hs with hold | hedge
          · exact Reached.seed hold hp.2
          · exact Reached.edge (Reached.seed hn hpresent) hedge hp.2
      | edge _ hedge hp ih => exact Reached.edge ih hedge hp.2

/-- A single seed and what is reached from its successors. -/
theorem reached_single_iff {n : node} (hpresent : present n) {m : node} :
    Reached edge present (fun m => m = n) m <-> m = n ∨ Reached edge present (edge n) m := by
  constructor
  · intro h
    induction h with
    | seed hs _ => exact Or.inl hs
    | edge _ hedge hp ih =>
        apply Or.inr
        rcases ih with rfl | hreached
        · exact Reached.seed hedge hp
        · exact Reached.edge hreached hedge hp
  · rintro (rfl | h)
    · exact Reached.seed rfl hpresent
    · induction h with
      | seed hedge hp => exact Reached.edge (Reached.seed rfl hpresent) hedge hp
      | edge _ hedge hp ih => exact Reached.edge ih hedge hp

end Reached

end Foundation
end Hbcur
