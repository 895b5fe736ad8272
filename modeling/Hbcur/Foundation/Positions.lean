import Mathlib.Algebra.BigOperators.Group.Finset.Piecewise
import Mathlib.Data.Fintype.Basic

/-!
# References from a table

How often a value stands in the slots of a table, and what writing one slot does to that.
-/

namespace Hbcur
namespace Foundation

variable {slot value : Type} [Fintype slot] [DecidableEq slot] [DecidableEq value]

def references (table : slot -> value) (v : value) : Nat :=
  (Finset.univ.filter fun s => table s = v).card

variable (table : slot -> value) (s : slot) (v w : value)

omit [DecidableEq slot] in
theorem references_eq_zero_iff : references table v = 0 <-> forall s, table s ≠ v := by
  unfold references
  rw [Finset.card_eq_zero, Finset.filter_eq_empty_iff]
  exact forall_congr' fun s => imp_iff_right (Finset.mem_univ s)

omit [DecidableEq slot] in
theorem references_pos_iff : 0 < references table v <-> exists s, table s = v := by
  rw [Nat.pos_iff_ne_zero, ne_eq, references_eq_zero_iff, not_forall]
  exact exists_congr fun s => not_not

omit [DecidableEq slot] in
theorem references_congr {table table' : slot -> value} {v v' : value}
    (h : forall s, table' s = v' <-> table s = v) : references table' v' = references table v := by
  unfold references
  exact congrArg _ (Finset.filter_congr fun s _ => h s)

omit [DecidableEq slot] in
/-- One table has the references of another, and one more. -/
theorem references_lt {table table' : slot -> value} {v v' : value} {s : slot}
    (h : forall s, table s = v -> table' s = v') (hnot : table s ≠ v) (hin : table' s = v') :
    references table v < references table' v' := by
  unfold references
  apply Finset.card_lt_card
  rw [Finset.ssubset_iff_of_subset (Finset.monotone_filter_right _ fun s _ => h s)]
  exact ⟨s, Finset.mem_filter.mpr ⟨Finset.mem_univ s, hin⟩,
    fun hmem => hnot (Finset.mem_filter.mp hmem).2⟩

theorem references_split :
    references table w =
      (if table s = w then 1 else 0) +
        ((Finset.univ.erase s).filter fun s' => table s' = w).card := by
  unfold references
  rw [Finset.card_filter, Finset.card_filter,
    ← Finset.add_sum_erase Finset.univ _ (Finset.mem_univ s)]

/-- Writing a slot takes one reference away and gives one. -/
theorem references_update :
    references (Function.update table s v) w + (if table s = w then 1 else 0) =
      references table w + if v = w then 1 else 0 := by
  have hrest : ((Finset.univ.erase s).filter fun s' => Function.update table s v s' = w) =
      (Finset.univ.erase s).filter fun s' => table s' = w := by
    apply Finset.filter_congr
    intro s' hmem
    rw [Function.update_of_ne (Finset.ne_of_mem_erase hmem)]
  rw [references_split (Function.update table s v) s w, references_split table s w, hrest,
    Function.update_self]
  omega

theorem references_update_of_ne (hold : table s ≠ w) (hnew : v ≠ w) :
    references (Function.update table s v) w = references table w := by
  have h := references_update table s v w
  rw [if_neg hold, if_neg hnew] at h
  exact h

theorem references_update_away (hold : table s = w) (hnew : v ≠ w) :
    references (Function.update table s v) w + 1 = references table w := by
  have h := references_update table s v w
  rw [if_pos hold, if_neg hnew] at h
  exact h

theorem references_update_self (hold : table s ≠ v) :
    references (Function.update table s v) v = references table v + 1 := by
  have h := references_update table s v v
  rw [if_neg hold, if_pos rfl] at h
  exact h

/-- The slots of a table one after another. -/
theorem count_map_eq_references {slots : List slot} (hnodup : slots.Nodup)
    (hall : forall s, s ∈ slots) : (slots.map table).count v = references table v := by
  have huniv : slots.toFinset = Finset.univ := by
    apply Finset.eq_univ_of_forall
    intro s
    exact List.mem_toFinset.mpr (hall s)
  unfold references
  have hfilter : (slots.filter fun s => decide (table s = v)).toFinset =
      slots.toFinset.filter fun s => table s = v := by
    rw [List.toFinset_filter]
    apply Finset.filter_congr
    intro s _
    exact decide_eq_true_iff
  rw [← huniv, ← hfilter, List.toFinset_card_of_nodup (hnodup.filter _), List.count,
    List.countP_map, List.countP_eq_length_filter]
  congr 1

end Foundation
end Hbcur

/-!
# A list with an index of positions

The elements of a list are different, and an index knows where each of them stands.
-/

namespace Hbcur
namespace Foundation

variable {item : Type}

/-- The index and the list are inverse to each other. -/
def Indexed (v : List item) (pos : item -> Option Int) : Prop :=
  forall a p, pos a = some p <-> 0 ≤ p ∧ v[p.toNat]? = some a

theorem indexed_nil : Indexed ([] : List item) fun _ => none := by
  intro a p
  simp

namespace Indexed

variable {v : List item} {pos : item -> Option Int}

theorem congr {pos' : item -> Option Int} (h : Indexed v pos) (hpos : forall a, pos' a = pos a) :
    Indexed v pos' := by
  intro a p
  rw [hpos]
  exact h a p

theorem getElem (h : Indexed v pos) {a : item} {p : Int} (hpos : pos a = some p) :
    0 ≤ p ∧ v[p.toNat]? = some a :=
  (h a p).mp hpos

theorem lt_length (h : Indexed v pos) {a : item} {p : Int} (hpos : pos a = some p) :
    p < v.length := by
  rcases h.getElem hpos with ⟨hp, hget⟩
  rcases List.getElem?_eq_some_iff.mp hget with ⟨hlt, _⟩
  omega

theorem pos_of_getElem (h : Indexed v pos) {a : item} {i : Nat} (hget : v[i]? = some a) :
    pos a = some (i : Int) :=
  (h a i).mpr ⟨Int.natCast_nonneg i, by rw [Int.toNat_natCast]; exact hget⟩

theorem mem_iff (h : Indexed v pos) (a : item) : a ∈ v <-> exists p, pos a = some p := by
  constructor
  · intro hmem
    rcases List.mem_iff_getElem?.mp hmem with ⟨i, hget⟩
    exact ⟨i, h.pos_of_getElem hget⟩
  · intro hpos
    rcases hpos with ⟨p, hp⟩
    exact List.mem_of_getElem? (h.getElem hp).2

theorem nodup (h : Indexed v pos) : v.Nodup := by
  rw [List.nodup_iff_getElem?_ne_getElem?]
  intro i j hij hj heq
  have hget := List.getElem?_eq_getElem (Nat.lt_trans hij hj)
  have hi := h.pos_of_getElem hget
  rw [h.pos_of_getElem (heq.symm.trans hget)] at hi
  have hcast : (j : Int) = i := Option.some.inj hi
  omega

variable [DecidableEq item]

/-- `push_back` of a new element. -/
theorem push (h : Indexed v pos) {a : item} (hnew : pos a = none) :
    Indexed (v ++ [a]) (Function.update pos a (some (v.length : Int))) := by
  intro b p
  by_cases hb : b = a
  · subst hb
    rw [Function.update_self, Option.some.injEq]
    constructor
    · intro hp
      rw [← hp, Int.toNat_natCast]
      exact ⟨Int.natCast_nonneg _, List.getElem?_concat_length⟩
    · intro hget
      rcases hget with ⟨hp, hget⟩
      rcases Nat.lt_trichotomy p.toNat v.length with hlt | heq | hgt
      · rw [List.getElem?_append_left hlt] at hget
        rw [(h b p).mpr ⟨hp, hget⟩] at hnew
        cases hnew
      · omega
      · rw [List.getElem?_eq_none (by simp; omega)] at hget
        cases hget
  · rw [Function.update_of_ne hb, h b p]
    apply and_congr_right
    intro hp
    rcases Nat.lt_trichotomy p.toNat v.length with hlt | heq | hgt
    · rw [List.getElem?_append_left hlt]
    · rw [heq, List.getElem?_concat_length, List.getElem?_eq_none (Nat.le_refl _)]
      simp [Ne.symm hb]
    · rw [List.getElem?_eq_none (by omega), List.getElem?_eq_none (by simp; omega)]

/-- Two elements change places. -/
theorem swap (h : Indexed v pos) {a b : item} {i j : Nat} (ha : v[i]? = some a)
    (hb : v[j]? = some b) (hij : i ≠ j) :
    Indexed ((v.set i b).set j a)
      (Function.update (Function.update pos a (some (j : Int))) b (some (i : Int))) := by
  rcases List.getElem?_eq_some_iff.mp ha with ⟨hi, _⟩
  rcases List.getElem?_eq_some_iff.mp hb with ⟨hj, _⟩
  have hab : a ≠ b := by
    intro heq
    have hpos := h.pos_of_getElem ha
    rw [heq, h.pos_of_getElem hb] at hpos
    have hcast : (j : Int) = i := Option.some.inj hpos
    omega
  have hget : forall k : Nat, ((v.set i b).set j a)[k]? =
      if k = j then some a else if k = i then some b else v[k]? := by
    intro k
    rw [List.getElem?_set, List.getElem?_set, List.length_set]
    by_cases hkj : k = j
    · rw [if_pos hkj.symm, if_pos hkj, if_pos hj]
    · rw [if_neg (Ne.symm hkj), if_neg hkj]
      by_cases hki : k = i
      · rw [if_pos hki.symm, if_pos hki, if_pos hi]
      · rw [if_neg (Ne.symm hki), if_neg hki]
  intro c p
  rw [hget]
  by_cases hcb : c = b
  · subst hcb
    rw [Function.update_self, Option.some.injEq]
    constructor
    · intro hp
      rw [← hp, Int.toNat_natCast, if_neg hij, if_pos rfl]
      exact ⟨Int.natCast_nonneg _, rfl⟩
    · intro hp
      rcases hp with ⟨hp, hval⟩
      split_ifs at hval with hpj hpi
      · exact absurd (Option.some.inj hval) hab
      · omega
      · have hpos := h.pos_of_getElem hval
        rw [h.pos_of_getElem hb] at hpos
        have hcast : (j : Int) = p.toNat := Option.some.inj hpos
        omega
  · rw [Function.update_of_ne hcb]
    by_cases hca : c = a
    · subst hca
      rw [Function.update_self, Option.some.injEq]
      constructor
      · intro hp
        rw [← hp, Int.toNat_natCast, if_pos rfl]
        exact ⟨Int.natCast_nonneg _, rfl⟩
      · intro hp
        rcases hp with ⟨hp, hval⟩
        split_ifs at hval with hpj hpi
        · omega
        · exact absurd (Option.some.inj hval) (Ne.symm hab)
        · have hpos := h.pos_of_getElem hval
          rw [h.pos_of_getElem ha] at hpos
          have hcast : (i : Int) = p.toNat := Option.some.inj hpos
          omega
    · rw [Function.update_of_ne hca, h c p]
      apply and_congr_right
      intro hp
      split_ifs with hpj hpi
      · rw [hpj, hb, Option.some.injEq, Option.some.injEq]
        exact iff_of_false (Ne.symm hcb) (Ne.symm hca)
      · rw [hpi, ha, Option.some.injEq, Option.some.injEq]
        exact iff_of_false (Ne.symm hca) (Ne.symm hcb)
      · exact Iff.rfl

/-- `pop_back` -/
theorem pop (h : Indexed v pos) {a : item} (hlast : v[v.length - 1]? = some a) :
    Indexed v.dropLast (Function.update pos a none) := by
  rcases List.getElem?_eq_some_iff.mp hlast with ⟨hlt, _⟩
  intro b p
  rw [List.getElem?_dropLast]
  by_cases hb : b = a
  · subst hb
    rw [Function.update_self]
    apply iff_of_false
    · intro hnone
      cases hnone
    · intro hp
      rcases hp with ⟨hp, hval⟩
      split_ifs at hval with hlt'
      have hpos := h.pos_of_getElem hval
      rw [h.pos_of_getElem hlast] at hpos
      have hcast : ((v.length - 1 : Nat) : Int) = p.toNat := Option.some.inj hpos
      omega
  · rw [Function.update_of_ne hb, h b p]
    apply and_congr_right
    intro hp
    split_ifs with hlt'
    · exact Iff.rfl
    · constructor
      · intro hval
        rcases List.getElem?_eq_some_iff.mp hval with ⟨hltp, _⟩
        have heq : p.toNat = v.length - 1 := by omega
        rw [heq, hlast] at hval
        exact absurd (Option.some.inj hval) (Ne.symm hb)
      · intro hnone
        cases hnone

end Indexed

end Foundation
end Hbcur
