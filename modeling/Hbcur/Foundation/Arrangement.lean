import Mathlib.Data.List.Induction
import Mathlib.Data.List.Sort

/-!
# Sorting with ties

Items are put into falling order of their keys, where a sort leaves the order of equal keys to
chance.  What follows is when the order, or the best item among the first ones, is the same
for all arrangements which may come out.
-/

namespace Hbcur
namespace Foundation

variable {α κ : Type}

/-!
# The best item of a list
-/

/-- One round of a loop which keeps the first item of the highest score above zero. -/
def better (score : α -> Nat) (best : Option α × Nat) (a : α) : Option α × Nat :=
  if score a > best.2 then (some a, score a) else best

def firstHighest (score : α -> Nat) (l : List α) : Option α :=
  (l.foldl (better score) (none, 0)).1

/-- An item has the highest score, and the items before it have lower ones. -/
def Wins (score : α -> Nat) (l : List α) (w : α) : Prop :=
  exists before after, l = before ++ w :: after ∧ 0 < score w ∧
    (forall a, a ∈ before -> score a < score w) ∧ forall a, a ∈ after -> score a ≤ score w

section Best

variable {score : α -> Nat}

variable (score) in
theorem foldl_better_cases (l : List α) :
    (l.foldl (better score) (none, 0) = (none, 0) ∧ forall a, a ∈ l -> score a = 0) ∨
      exists w, l.foldl (better score) (none, 0) = (some w, score w) ∧ Wins score l w := by
  induction l using List.reverseRecOn with
  | nil => exact Or.inl ⟨rfl, fun a hmem => nomatch hmem⟩
  | append_singleton l a ih =>
      rw [List.foldl_append, List.foldl_cons, List.foldl_nil]
      unfold better at ih ⊢
      rcases ih with ⟨hbest, hzero⟩ | ⟨w, hbest, before, after, heq, hpos, hbefore, hafter⟩
      · rw [hbest]
        by_cases ha : score a > 0
        · refine Or.inr ⟨a, if_pos ha, l, [], rfl, ha, ?_, fun _ hmem => nomatch hmem⟩
          intro b hmem
          rw [hzero b hmem]
          exact ha
        · refine Or.inl ⟨if_neg ha, fun b hmem => ?_⟩
          rcases List.mem_append.mp hmem with hin | hlast
          · exact hzero b hin
          · rw [List.mem_singleton.mp hlast]
            omega
      · rw [hbest]
        by_cases ha : score a > score w
        · refine Or.inr ⟨a, if_pos ha, l, [], rfl, by omega, ?_, fun _ hmem => nomatch hmem⟩
          intro b hmem
          rw [heq] at hmem
          rcases List.mem_append.mp hmem with hin | hin
          · exact (hbefore b hin).trans ha
          · rcases List.mem_cons.mp hin with rfl | hin
            · exact ha
            · exact (hafter b hin).trans_lt ha
        · refine Or.inr ⟨w, if_neg ha, before, after ++ [a], ?_, hpos, hbefore, ?_⟩
          · rw [heq, List.append_assoc, List.cons_append]
          · intro b hmem
            rcases List.mem_append.mp hmem with hin | hlast
            · exact hafter b hin
            · rw [List.mem_singleton.mp hlast]
              omega

/-- Whoever comes before the winner has a lower score. -/
theorem Wins.lt_of_before {l : List α} {w : α} (h : Wins score l w) (hnodup : l.Nodup)
    {front back : List α} {a : α} (hsplit : l = front ++ a :: back) (hw : w ∈ back) :
    score a < score w := by
  rcases h with ⟨before, after, heq, _, hbefore, _⟩
  rw [hsplit] at heq
  apply hbefore a
  rcases List.append_eq_append_iff.mp heq with ⟨middle, hfront, hback⟩ | ⟨middle, hfront, hback⟩
  · cases middle with
    | nil =>
        -- The winner would be both at this place and behind it.
        rw [List.nil_append, List.cons.injEq] at hback
        rw [hsplit, hback.1, List.nodup_append'] at hnodup
        exact absurd hw (List.nodup_cons.mp hnodup.2.1).1
    | cons b middle =>
        rw [List.cons_append, List.cons.injEq] at hback
        rw [hfront, hback.1]
        simp
  · cases middle with
    | nil =>
        rw [List.nil_append, List.cons.injEq] at hback
        rw [hsplit, ← hback.1, List.nodup_append'] at hnodup
        exact absurd hw (List.nodup_cons.mp hnodup.2.1).1
    | cons b middle =>
        rw [List.cons_append, List.cons.injEq] at hback
        rw [hsplit, hfront, ← hback.1, List.nodup_append'] at hnodup
        exact absurd (List.mem_cons_of_mem a hw) (hnodup.2.2 (by simp))

theorem Wins.mem {l : List α} {w : α} (h : Wins score l w) : w ∈ l := by
  rcases h with ⟨before, after, heq, _⟩
  rw [heq]
  simp

theorem Wins.le {l : List α} {w a : α} (h : Wins score l w) (ha : a ∈ l) :
    score a ≤ score w := by
  rcases h with ⟨before, after, heq, _, hbefore, hafter⟩
  rw [heq] at ha
  rcases List.mem_append.mp ha with hin | hin
  · exact (hbefore a hin).le
  · rcases List.mem_cons.mp hin with rfl | hin
    · exact le_rfl
    · exact hafter a hin

theorem Wins.pos {l : List α} {w : α} (h : Wins score l w) : 0 < score w := by
  rcases h with ⟨_, _, _, hpos, _⟩
  exact hpos

theorem Wins.unique {l : List α} {w w' : α} (hnodup : l.Nodup) (h : Wins score l w)
    (h' : Wins score l w') : w = w' := by
  have hle := h.le h'.mem
  have hle' := h'.le h.mem
  rcases h with ⟨before, after, heq, hpos, hbefore, hafter⟩
  have hin := h'.mem
  rw [heq] at hin
  rcases List.mem_append.mp hin with hearly | hlate
  · have hlt := hbefore w' hearly
    omega
  · rcases List.mem_cons.mp hlate with heqw | hlate
    · exact heqw.symm
    · have hlt := h'.lt_of_before hnodup heq hlate
      omega

theorem firstHighest_eq_none_iff {l : List α} :
    firstHighest score l = none <-> forall a, a ∈ l -> score a = 0 := by
  unfold firstHighest
  rcases foldl_better_cases score l with ⟨hbest, hzero⟩ | ⟨w, hbest, hwins⟩
  · rw [hbest]
    exact iff_of_true rfl hzero
  · rw [hbest]
    refine iff_of_false (fun heq => nomatch heq) fun hzero => ?_
    have hpos := hwins.pos
    rw [hzero w hwins.mem] at hpos
    exact absurd hpos (lt_irrefl 0)

theorem firstHighest_eq_some_iff {l : List α} (hnodup : l.Nodup) {w : α} :
    firstHighest score l = some w <-> Wins score l w := by
  unfold firstHighest
  rcases foldl_better_cases score l with ⟨hbest, hzero⟩ | ⟨w', hbest, hwins'⟩
  · rw [hbest]
    refine iff_of_false (fun heq => nomatch heq) fun hwins => ?_
    have hpos := hwins.pos
    rw [hzero w hwins.mem] at hpos
    exact absurd hpos (lt_irrefl 0)
  · rw [hbest]
    constructor
    · intro heq
      rw [← Option.some_inj.mp heq]
      exact hwins'
    · intro hwins
      exact congrArg some (hwins'.unique hnodup hwins)

end Best

/-!
# The first items of an arrangement
-/

section Arranged

variable [LinearOrder κ] (key : α -> κ)

/-- A list in falling order of the keys. -/
def Falling (l : List α) : Prop :=
  l.Pairwise fun a b => key b ≤ key a

/-- How many items have a higher key than an item. -/
def above (l : List α) (a : α) : Nat :=
  l.countP fun b => decide (key a < key b)

/-- How many items have at least the key of an item. -/
def notBelow (l : List α) (a : α) : Nat :=
  l.countP fun b => decide (key a ≤ key b)

variable {key} {l : List α} {k : Nat} {a : α}

theorem Falling.take_drop (h : Falling key l) {b : α} (ha : a ∈ l.take k) (hb : b ∈ l.drop k) :
    key b ≤ key a := by
  unfold Falling at h
  rw [← List.take_append_drop k l, List.pairwise_append] at h
  exact h.2.2 a ha b hb

theorem countP_take_add_drop (p : α -> Bool) (l : List α) (k : Nat) :
    (l.take k).countP p + (l.drop k).countP p = l.countP p := by
  rw [← List.countP_append, List.take_append_drop]

theorem length_take_of_mem_drop (h : a ∈ l.drop k) : (l.take k).length = k := by
  have hpos := List.length_pos_of_mem h
  rw [List.length_drop] at hpos
  rw [List.length_take]
  omega

theorem mem_take_or_drop (k : Nat) (h : a ∈ l) : a ∈ l.take k ∨ a ∈ l.drop k := by
  rw [← List.take_append_drop k l] at h
  exact List.mem_append.mp h

/-- With fewer than `k` items above it, an item or one of the same key is among the first. -/
theorem exists_tied_in_take (h : Falling key l) (ha : a ∈ l) (habove : above key l a < k) :
    exists b, b ∈ l.take k ∧ key b = key a := by
  by_contra hnone
  simp only [not_exists, not_and] at hnone
  have hdrop : a ∈ l.drop k :=
    (mem_take_or_drop k ha).resolve_left fun htake => hnone a htake rfl
  have hall : (l.take k).countP (fun b => decide (key a < key b)) = (l.take k).length := by
    rw [List.countP_eq_length]
    intro b hb
    exact decide_eq_true (lt_of_le_of_ne (h.take_drop hb hdrop) fun heq => hnone b hb heq.symm)
  have hsum := countP_take_add_drop (fun b => decide (key a < key b)) l k
  rw [hall, length_take_of_mem_drop hdrop] at hsum
  unfold above at habove
  omega

/-- With more than `k` items not below it, one of the same key is behind the first ones. -/
theorem exists_tied_in_drop (h : Falling key l) (ha : a ∈ l.take k)
    (hnotBelow : k < notBelow key l a) : exists b, b ∈ l.drop k ∧ key b = key a := by
  by_contra hnone
  simp only [not_exists, not_and] at hnone
  have hzero : (l.drop k).countP (fun b => decide (key a ≤ key b)) = 0 := by
    rw [List.countP_eq_zero]
    intro b hb hle
    exact hnone b hb (le_antisymm (h.take_drop ha hb) (of_decide_eq_true hle))
  have hsum := countP_take_add_drop (fun b => decide (key a ≤ key b)) l k
  have hle := List.countP_le_length (p := fun b => decide (key a ≤ key b)) (l := l.take k)
  rw [List.length_take] at hle
  unfold notBelow at hnotBelow
  omega

theorem mem_take_of_notBelow (h : Falling key l) (ha : a ∈ l)
    (hnotBelow : notBelow key l a ≤ k) : a ∈ l.take k := by
  by_contra htake
  have hdrop : a ∈ l.drop k := (mem_take_or_drop k ha).resolve_left htake
  have hall : (l.take k).countP (fun b => decide (key a ≤ key b)) = (l.take k).length := by
    rw [List.countP_eq_length]
    exact fun b hb => decide_eq_true (h.take_drop hb hdrop)
  have hself : 0 < (l.drop k).countP fun b => decide (key a ≤ key b) :=
    List.countP_pos_iff.mpr ⟨a, hdrop, decide_eq_true le_rfl⟩
  have hsum := countP_take_add_drop (fun b => decide (key a ≤ key b)) l k
  rw [hall, length_take_of_mem_drop hdrop] at hsum
  unfold notBelow at hnotBelow
  omega

theorem above_lt_of_mem_take (h : Falling key l) (ha : a ∈ l.take k) : above key l a < k := by
  have hzero : (l.drop k).countP (fun b => decide (key a < key b)) = 0 := by
    rw [List.countP_eq_zero]
    intro b hb hlt
    exact absurd (of_decide_eq_true hlt) (not_lt.mpr (h.take_drop ha hb))
  have hlt : (l.take k).countP (fun b => decide (key a < key b)) < (l.take k).length := by
    refine lt_of_le_of_ne List.countP_le_length fun heq => ?_
    exact absurd (of_decide_eq_true (List.countP_eq_length.mp heq a ha)) (lt_irrefl _)
  have hsum := countP_take_add_drop (fun b => decide (key a < key b)) l k
  rw [List.length_take] at hlt
  unfold above
  omega

/-- In falling order an item wins which beats those of its score by its key. -/
theorem wins_of_beats {score : α -> Nat} {w : α} (h : Falling key l) (hnodup : l.Nodup)
    (hw : w ∈ l) (hpos : 0 < score w)
    (hbeats : forall a, a ∈ l -> a ≠ w ->
      score a < score w ∨ score a = score w ∧ key a < key w) : Wins score l w := by
  rcases List.append_of_mem hw with ⟨before, after, rfl⟩
  unfold Falling at h
  rw [List.pairwise_append] at h
  rw [List.nodup_append', List.nodup_cons] at hnodup
  refine ⟨before, after, rfl, hpos, ?_, ?_⟩
  · intro a hmem
    have hne : a ≠ w := fun heq => hnodup.2.2 (heq ▸ hmem) List.mem_cons_self
    rcases hbeats a (List.mem_append_left _ hmem) hne with hlt | ⟨_, hkey⟩
    · exact hlt
    · exact absurd hkey (not_lt.mpr (h.2.2 a hmem w List.mem_cons_self))
  · intro a hmem
    have hne : a ≠ w := fun heq => hnodup.2.1.1 (heq ▸ hmem)
    rcases hbeats a (List.mem_append_right _ (List.mem_cons_of_mem w hmem)) hne with
      hlt | ⟨heq, _⟩
    · exact hlt.le
    · exact heq.le

end Arranged

/-!
# All arrangements
-/

section Arrangements

variable [DecidableEq α] [LinearOrder κ] (key : α -> κ)

omit [LinearOrder κ] in
/-- Two items of a list are exchanged. -/
theorem perm_map_swap {l : List α} (hnodup : l.Nodup) {a b : α} (ha : a ∈ l) (hb : b ∈ l) :
    (l.map (Equiv.swap a b)).Perm l := by
  have hclosed : forall c, c ∈ l -> Equiv.swap a b c ∈ l := by
    intro c hc
    rw [Equiv.swap_apply_def]
    split_ifs
    · exact hb
    · exact ha
    · exact hc
  apply (List.perm_ext_iff_of_nodup (hnodup.map (Equiv.swap a b).injective) hnodup).mpr
  intro c
  rw [List.mem_map]
  constructor
  · intro hmem
    rcases hmem with ⟨d, hd, rfl⟩
    exact hclosed d hd
  · exact fun hc => ⟨Equiv.swap a b c, hclosed c hc, Equiv.swap_apply_self a b c⟩

/-- Arrangements of some items which allow items of the same key to be exchanged. -/
structure Exchangeable (items : List α) (arrangements : List α -> Prop) : Prop where
  perm : forall l, arrangements l -> l.Perm items
  falling : forall l, arrangements l -> Falling key l
  exchange : forall l a b, arrangements l -> a ∈ items -> b ∈ items -> key a = key b ->
    arrangements (l.map (Equiv.swap a b))

/-- Whoever wins is sure to be among the first `k`, and beats all who may be among them. -/
def Decided (score : α -> Nat) (k : Nat) (items : List α) : Prop :=
  (forall a, a ∈ items -> above key items a < k -> score a = 0) ∨
    exists w, w ∈ items ∧ notBelow key items w ≤ k ∧ 0 < score w ∧
      forall a, a ∈ items -> above key items a < k -> a ≠ w ->
        score a < score w ∨ score a = score w ∧ key a < key w

variable {key} {items : List α} {arrangements : List α -> Prop}
  (h : Exchangeable key items arrangements) (hnodup : items.Nodup)
include h hnodup

/-- There is one arrangement exactly if no two items have the same key. -/
theorem Exchangeable.unique_iff {l : List α} (hl : arrangements l) :
    (forall l', arrangements l' -> l' = l) <-> (items.map key).Nodup := by
  constructor
  · intro hunique
    apply hnodup.map_on
    intro a ha b hb heq
    have hsame := hunique _ (h.exchange l a b hl ha hb heq)
    have hfixed : forall c, c ∈ l -> Equiv.swap a b c = id c := by
      rw [← List.map_eq_map_iff, List.map_id]
      exact hsame
    have hswap := hfixed a ((h.perm l hl).mem_iff.mpr ha)
    rw [Equiv.swap_apply_left] at hswap
    exact hswap.symm
  · intro hkeys l' hl'
    refine List.Perm.eq_of_pairwise ?_ (h.falling l' hl') (h.falling l hl)
      ((h.perm l' hl').trans (h.perm l hl).symm)
    intro a b ha hb hab hba
    exact List.inj_on_of_nodup_map hkeys ((h.perm l' hl').mem_iff.mp ha)
      ((h.perm l hl).mem_iff.mp hb) (le_antisymm hba hab)

theorem Exchangeable.nodup_take {l : List α} (hl : arrangements l) (k : Nat) :
    (l.take k).Nodup :=
  ((h.perm l hl).nodup_iff.mpr hnodup).sublist (List.take_sublist k l)

omit hnodup in
/-- An item which may be among the first `k` is so in some arrangement. -/
theorem Exchangeable.exists_mem_take {l : List α} (hl : arrangements l) {a : α} {k : Nat}
    (ha : a ∈ items) (habove : above key items a < k) :
    exists l', arrangements l' ∧ a ∈ l'.take k := by
  have hal := (h.perm l hl).mem_iff.mpr ha
  have habove' : above key l a < k := ((h.perm l hl).countP_eq _).trans_lt habove
  rcases exists_tied_in_take (h.falling l hl) hal habove' with ⟨b, hb, hkey⟩
  have hbitems := (h.perm l hl).mem_iff.mp (List.mem_of_mem_take hb)
  refine ⟨_, h.exchange l a b hl ha hbitems hkey.symm, ?_⟩
  rw [← List.map_take]
  exact List.mem_map.mpr ⟨b, hb, Equiv.swap_apply_right a b⟩

/-- An item which is among the first `k` in all arrangements is not just one of several. -/
theorem Exchangeable.notBelow_le {l : List α} (hl : arrangements l) {a : α} {k : Nat}
    (ha : a ∈ items) (htaken : forall l', arrangements l' -> a ∈ l'.take k) :
    notBelow key items a ≤ k := by
  by_contra hmore
  rw [not_le] at hmore
  have hmore' : k < notBelow key l a := hmore.trans_eq ((h.perm l hl).countP_eq _).symm
  rcases exists_tied_in_drop (h.falling l hl) (htaken l hl) hmore' with ⟨b, hb, hkey⟩
  have hbitems := (h.perm l hl).mem_iff.mp (List.mem_of_mem_drop hb)
  have hexchanged := htaken _ (h.exchange l a b hl ha hbitems hkey.symm)
  rw [← List.map_take] at hexchanged
  rcases List.mem_map.mp hexchanged with ⟨c, hc, hca⟩
  have hcb : c = b := (Equiv.swap a b).injective (hca.trans (Equiv.swap_apply_right a b).symm)
  have hdisjoint := (h.perm l hl).nodup_iff.mpr hnodup
  rw [← List.take_append_drop k l, List.nodup_append'] at hdisjoint
  exact hdisjoint.2.2 (hcb ▸ hc) hb

/-- Two items of the same key cannot be told apart by their places. -/
theorem Exchangeable.key_ne_of_choice {score : α -> Nat} {k : Nat} {w a : α} {l : List α}
    (hl : arrangements l) (hwins : forall l', arrangements l' -> Wins score (l'.take k) w)
    (ha : a ∈ l.take k) (hne : a ≠ w) (hscore : score a = score w) : key a < key w := by
  have hw := (hwins l hl).mem
  rcases List.append_of_mem hw with ⟨before, after, hsplit⟩
  have hafter : a ∈ after := by
    rw [hsplit] at ha
    rcases List.mem_append.mp ha with hin | hin
    · rcases List.append_of_mem hin with ⟨front, back, hfront⟩
      rw [hfront, List.append_assoc, List.cons_append] at hsplit
      have hlt := (hwins l hl).lt_of_before (h.nodup_take hnodup hl k) hsplit (by simp)
      omega
    · exact (List.mem_cons.mp hin).resolve_left hne
  have hfalling := (h.falling l hl).sublist (List.take_sublist k l)
  rw [hsplit, List.pairwise_append, List.pairwise_cons] at hfalling
  refine lt_of_le_of_ne (hfalling.2.1.1 a hafter) fun hkey => ?_
  -- With the two exchanged, the winner comes after an item of the same score.
  have hitems : forall b, b ∈ l.take k -> b ∈ items :=
    fun b hb => (h.perm l hl).mem_iff.mp (List.mem_of_mem_take hb)
  have hexchange := h.exchange l a w hl (hitems a ha) (hitems w hw) hkey
  have hsplit' : (l.map (Equiv.swap a w)).take k =
      before.map (Equiv.swap a w) ++ a :: after.map (Equiv.swap a w) := by
    rw [← List.map_take, hsplit, List.map_append, List.map_cons, Equiv.swap_apply_right]
  have hlt := (hwins _ hexchange).lt_of_before (h.nodup_take hnodup hexchange k) hsplit'
    (List.mem_map.mpr ⟨a, hafter, Equiv.swap_apply_left a w⟩)
  omega

/-- The same item is found in all arrangements exactly if the keys decide which it is. -/
theorem Exchangeable.choice_iff (score : α -> Nat) (k : Nat) {l : List α}
    (hl : arrangements l) :
    (forall l', arrangements l' ->
        firstHighest score (l'.take k) = firstHighest score (l.take k)) <->
      Decided key score k items := by
  constructor
  · intro hsame
    cases hchoice : firstHighest score (l.take k) with
    | none =>
        refine Or.inl fun a ha habove => ?_
        rcases h.exists_mem_take hl ha habove with ⟨l', hl', hmem⟩
        exact firstHighest_eq_none_iff.mp ((hsame l' hl').trans hchoice) a hmem
    | some w =>
        have hwins : forall l', arrangements l' -> Wins score (l'.take k) w := fun l' hl' =>
          (firstHighest_eq_some_iff (h.nodup_take hnodup hl' k)).mp
            ((hsame l' hl').trans hchoice)
        have hw := (h.perm l hl).mem_iff.mp (List.mem_of_mem_take (hwins l hl).mem)
        refine Or.inr ⟨w, hw, ?_, (hwins l hl).pos, ?_⟩
        · exact h.notBelow_le hnodup hl hw fun l' hl' => (hwins l' hl').mem
        · intro a ha habove hne
          rcases h.exists_mem_take hl ha habove with ⟨l', hl', hmem⟩
          rcases ((hwins l' hl').le hmem).lt_or_eq with hlt | heq
          · exact Or.inl hlt
          · exact Or.inr ⟨heq, h.key_ne_of_choice hnodup hl' hwins hmem hne heq⟩
  · intro hdecided
    have hpossible : forall l' a, arrangements l' -> a ∈ l'.take k ->
        a ∈ items ∧ above key items a < k := by
      intro l' a hl' hmem
      refine ⟨(h.perm l' hl').mem_iff.mp (List.mem_of_mem_take hmem), ?_⟩
      exact ((h.perm l' hl').countP_eq _).symm.trans_lt
        (above_lt_of_mem_take (h.falling l' hl') hmem)
    rcases hdecided with hzero | ⟨w, hw, hsure, hpos, hbeats⟩
    · have hnone : forall l', arrangements l' -> firstHighest score (l'.take k) = none := by
        intro l' hl'
        refine firstHighest_eq_none_iff.mpr fun a hmem => ?_
        exact hzero a (hpossible l' a hl' hmem).1 (hpossible l' a hl' hmem).2
      exact fun l' hl' => (hnone l' hl').trans (hnone l hl).symm
    · have hfirst : forall l', arrangements l' ->
          firstHighest score (l'.take k) = some w := by
        intro l' hl'
        have htake : w ∈ l'.take k :=
          mem_take_of_notBelow (h.falling l' hl') ((h.perm l' hl').mem_iff.mpr hw)
            (((h.perm l' hl').countP_eq _).trans_le hsure)
        have hdistinct := h.nodup_take hnodup hl' k
        apply (firstHighest_eq_some_iff hdistinct).mpr
        refine wins_of_beats ((h.falling l' hl').sublist (List.take_sublist k l')) hdistinct
          htake hpos ?_
        intro a hmem hne
        exact hbeats a (hpossible l' a hl' hmem).1 (hpossible l' a hl' hmem).2 hne
      exact fun l' hl' => (hfirst l' hl').trans (hfirst l hl).symm

end Arrangements

/-!
# The middle of a list

The median of an odd number of values, the ones below and above it each being fewer than half.
-/

section Middle

variable [LinearOrder κ] {l l' : List κ} {a b : κ}

structure IsMedian (l : List κ) (a : κ) : Prop where
  mem : a ∈ l
  below : 2 * (l.countP fun b => decide (b < a)) < l.length
  above : 2 * (l.countP fun b => decide (a < b)) < l.length

theorem IsMedian.perm (hperm : l.Perm l') (h : IsMedian l a) : IsMedian l' a where
  mem := hperm.subset h.mem
  below := by
    rw [← hperm.countP_eq, ← hperm.length_eq]
    exact h.below
  above := by
    rw [← hperm.countP_eq, ← hperm.length_eq]
    exact h.above

/-- The values up to one and those above it are all of them. -/
theorem countP_le_add_countP_lt (l : List κ) (a : κ) :
    (l.countP fun b => decide (b ≤ a)) + (l.countP fun b => decide (a < b)) = l.length := by
  rw [List.length_eq_countP_add_countP fun b => decide (b ≤ a)]
  congr 1
  apply List.countP_congr
  intro b _
  simp

theorem not_isMedian_of_lt (ha : IsMedian l a) (hlt : a < b) : ¬ IsMedian l b := by
  intro hb
  have hsplit := countP_le_add_countP_lt l a
  have hmono : (l.countP fun c => decide (c ≤ a)) ≤ l.countP fun c => decide (c < b) := by
    apply List.countP_mono_left
    intro c _ hc
    exact decide_eq_true ((of_decide_eq_true hc).trans_lt hlt)
  have habove := ha.above
  have hbelow := hb.below
  omega

theorem IsMedian.unique (ha : IsMedian l a) (hb : IsMedian l b) : a = b := by
  apply le_antisymm
  · exact le_of_not_gt fun h => not_isMedian_of_lt hb h ha
  · exact le_of_not_gt fun h => not_isMedian_of_lt ha h hb

/-- The least value is the median if it makes up more than half of the list. -/
theorem isMedian_least_iff (hle : forall b, b ∈ l -> a ≤ b) :
    IsMedian l a <-> l.length < 2 * l.count a := by
  have hcount : (l.countP fun b => decide (b ≤ a)) = l.count a := by
    apply List.countP_congr
    intro b hb
    simp only [decide_eq_true_eq, beq_iff_eq]
    exact ⟨fun h => le_antisymm h (hle b hb), fun h => h.le⟩
  have hbelow : (l.countP fun b => decide (b < a)) = 0 := by
    rw [List.countP_eq_zero]
    intro b hb hlt
    exact absurd (of_decide_eq_true hlt) (not_lt_of_ge (hle b hb))
  have hsplit := countP_le_add_countP_lt l a
  constructor
  · intro h
    have habove := h.above
    omega
  · intro h
    have hmem : a ∈ l := List.count_pos_iff.mp (by omega)
    have hpos := List.length_pos_of_mem hmem
    exact ⟨hmem, by omega, by omega⟩

/-- The middle of an odd number of values in rising order. -/
theorem isMedian_getElem (h : l.Pairwise (· ≤ ·)) (hodd : l.length % 2 = 1)
    (hmid : l.length / 2 < l.length) : IsMedian l l[l.length / 2] := by
  have hdrop : l.drop (l.length / 2) = l[l.length / 2] :: l.drop (l.length / 2 + 1) :=
    List.drop_eq_getElem_cons hmid
  rw [← List.take_append_drop (l.length / 2) l, hdrop, List.pairwise_append,
    List.pairwise_cons] at h
  rcases h with ⟨_, ⟨hafter, _⟩, hbefore⟩
  refine ⟨List.getElem_mem hmid, ?_, ?_⟩
  · have hzero : ((l.drop (l.length / 2)).countP fun b => decide (b < l[l.length / 2])) = 0 := by
      rw [hdrop, List.countP_eq_zero]
      intro b hb hlt
      rcases List.mem_cons.mp hb with heq | htail
      · exact (of_decide_eq_true hlt).ne heq
      · exact absurd (of_decide_eq_true hlt) (not_lt_of_ge (hafter b htail))
    have hcount := countP_take_add_drop (fun b => decide (b < l[l.length / 2])) l (l.length / 2)
    have hle := List.countP_le_length (p := fun b => decide (b < l[l.length / 2]))
      (l := l.take (l.length / 2))
    rw [List.length_take] at hle
    omega
  · have hzero : ((l.take (l.length / 2)).countP fun b => decide (l[l.length / 2] < b)) = 0 := by
      rw [List.countP_eq_zero]
      intro b hb hlt
      exact absurd (of_decide_eq_true hlt)
        (not_lt_of_ge (hbefore b hb _ List.mem_cons_self))
    have hcount := countP_take_add_drop (fun b => decide (l[l.length / 2] < b)) l (l.length / 2)
    have hle := List.countP_le_length (p := fun b => decide (l[l.length / 2] < b))
      (l := l.drop (l.length / 2 + 1))
    rw [hzero, hdrop, List.countP_cons_of_neg (by simp)] at hcount
    rw [List.length_drop] at hle
    omega

end Middle

end Foundation
end Hbcur
