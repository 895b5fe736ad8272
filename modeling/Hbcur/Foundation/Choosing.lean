import Mathlib.Algebra.Order.BigOperators.Group.List
import Mathlib.Algebra.Ring.Int.Defs
import Mathlib.Data.List.Nodup

/-!
# Greedy allocation

Items with amounts are taken in order as long as they fit under a limit.  An item which does
not fit is passed over, and later ones may still be taken.
-/

namespace Hbcur
namespace Foundation

variable {item : Type} (amount : item -> Int) (limit : Int)

/-- The items taken when a part of the limit is used up. -/
def takeFitting : Int -> List item -> List item
  | _, [] => []
  | used, x :: rest =>
      if amount x + used ≤ limit then x :: takeFitting (used + amount x) rest
      else takeFitting used rest

variable {amount limit} {used : Int}

theorem takeFitting_cons_of_le {x : item} {rest : List item} (h : amount x + used ≤ limit) :
    takeFitting amount limit used (x :: rest) =
      x :: takeFitting amount limit (used + amount x) rest := by
  rw [takeFitting, if_pos h]

theorem takeFitting_cons_of_lt {x : item} {rest : List item} (h : limit < amount x + used) :
    takeFitting amount limit used (x :: rest) = takeFitting amount limit used rest := by
  rw [takeFitting, if_neg (Int.not_le.mpr h)]

theorem takeFitting_sublist (xs : List item) :
    forall used, (takeFitting amount limit used xs).Sublist xs := by
  induction xs with
  | nil =>
      intro used
      exact List.Sublist.refl []
  | cons x rest ih =>
      intro used
      rcases Int.lt_or_le limit (amount x + used) with hlt | hle
      · rw [takeFitting_cons_of_lt hlt]
        exact (ih used).cons x
      · rw [takeFitting_cons_of_le hle]
        exact (ih _).cons_cons x

/-- What is taken stays under the limit. -/
theorem sum_takeFitting_le (xs : List item) :
    forall used, used ≤ limit ->
      used + ((takeFitting amount limit used xs).map amount).sum ≤ limit := by
  induction xs with
  | nil =>
      intro used hused
      simpa [takeFitting] using hused
  | cons x rest ih =>
      intro used hused
      rcases Int.lt_or_le limit (amount x + used) with hlt | hle
      · rw [takeFitting_cons_of_lt hlt]
        exact ih used hused
      · have hrest := ih (used + amount x) (by omega)
        rw [takeFitting_cons_of_le hle, List.map_cons, List.sum_cons]
        omega

/-- Later items see only how much the earlier ones have used up. -/
theorem takeFitting_append (xs ys : List item) :
    forall used, takeFitting amount limit used (xs ++ ys) =
      takeFitting amount limit used xs ++ takeFitting amount limit
        (used + ((takeFitting amount limit used xs).map amount).sum) ys := by
  induction xs with
  | nil =>
      intro used
      simp [takeFitting]
  | cons x rest ih =>
      intro used
      rw [List.cons_append]
      rcases Int.lt_or_le limit (amount x + used) with hlt | hle
      · rw [takeFitting_cons_of_lt hlt, takeFitting_cons_of_lt hlt, ih]
      · rw [takeFitting_cons_of_le hle, takeFitting_cons_of_le hle, ih, List.map_cons,
          List.sum_cons, List.cons_append, Int.add_assoc]

/-- An item which is left out did not fit when its turn came. -/
theorem lt_of_notMem_takeFitting {before after : List item} {x : item}
    (h : x ∉ takeFitting amount limit used (before ++ x :: after)) :
    limit < amount x +
      (used + ((takeFitting amount limit used before).map amount).sum) := by
  by_contra hle
  rw [takeFitting_append, takeFitting_cons_of_le (Int.not_lt.mp hle)] at h
  exact h (List.mem_append_right _ List.mem_cons_self)

end Foundation
end Hbcur

/-!
# Totals which are bounded

Amounts by key, of which no selection of different keys adds up to more than a bound.  The
keys may be infinitely many.
-/

namespace Hbcur
namespace Foundation

variable {key : Type}

structure TotalAtMost (amount : key -> Int) (bound : Int) : Prop where
  nonneg : forall k, 0 ≤ amount k
  total : forall ks : List key, ks.Nodup -> (ks.map amount).sum ≤ bound

namespace TotalAtMost

variable {amount amount' extra : key -> Int} {bound bound' : Int}

theorem bound_nonneg (h : TotalAtMost amount bound) : 0 ≤ bound :=
  h.total [] List.nodup_nil

/-- Amounts which come on top. -/
theorem add (h : TotalAtMost amount bound) (hextra : TotalAtMost extra bound')
    (hnonneg : forall k, 0 ≤ amount' k) (hle : forall k, amount' k ≤ amount k + extra k) :
    TotalAtMost amount' (bound + bound') := by
  refine ⟨hnonneg, ?_⟩
  intro ks hnodup
  have hsum : (ks.map amount').sum ≤ (ks.map fun k => amount k + extra k).sum :=
    List.sum_le_sum fun k _ => hle k
  rw [List.sum_map_add] at hsum
  have hamount := h.total ks hnodup
  have hbound := hextra.total ks hnodup
  omega

/-- Amounts which are taken away under some of the keys. -/
theorem remove [DecidableEq key] (h : TotalAtMost amount bound) {gone : List key}
    (hgone : gone.Nodup)
    (hamount : forall k, amount' k = if k ∈ gone then 0 else amount k) :
    TotalAtMost amount' (bound - (gone.map amount).sum) := by
  constructor
  · intro k
    rw [hamount k]
    split_ifs
    · exact Int.le_refl 0
    · exact h.nonneg k
  · intro ks hnodup
    -- The keys which are left stand beside those which are gone.
    have hboth : (ks.filter (fun k => decide (k ∉ gone)) ++ gone).Nodup := by
      apply List.Nodup.append (hnodup.filter _) hgone
      intro k hkept hmem
      exact of_decide_eq_true (List.mem_filter.mp hkept).2 hmem
    have hsum : (ks.map amount').sum =
        ((ks.filter fun k => decide (k ∉ gone)).map amount).sum := by
      clear hnodup hboth
      induction ks with
      | nil => rfl
      | cons k rest ih =>
          rw [List.map_cons, List.sum_cons, ih, hamount k, List.filter_cons]
          by_cases hmem : k ∈ gone
          · rw [if_pos hmem, if_neg (by simp [hmem]), Int.zero_add]
          · rw [if_neg hmem, if_pos (by simp [hmem]), List.map_cons, List.sum_cons]
    have htotal := h.total _ hboth
    rw [List.map_append, List.sum_append] at htotal
    omega

end TotalAtMost

/-!
# The amounts of a list
-/

theorem sum_positions_le :
    forall (is : List Nat) (amounts : List Int), (forall n, n ∈ amounts -> 0 ≤ n) ->
      is.Nodup -> (is.map fun i => amounts[i]?.getD 0).sum ≤ amounts.sum := by
  intro is
  induction is with
  | nil =>
      intro amounts hnonneg _
      exact List.sum_nonneg hnonneg
  | cons i rest ih =>
      intro amounts hnonneg hnodup
      rcases List.nodup_cons.mp hnodup with ⟨hnew, hrest⟩
      -- The others are positions of the same list with nothing at this one.
      have hothers : (rest.map fun j => amounts[j]?.getD 0) =
          rest.map fun j => (amounts.set i 0)[j]?.getD 0 := by
        apply List.map_congr_left
        intro j hj
        have hne : i ≠ j := fun heq => hnew (heq ▸ hj)
        rw [List.getElem?_set_ne hne]
      have hset := ih (amounts.set i 0) (by
        intro n hmem
        rcases List.mem_or_eq_of_mem_set hmem with hold | rfl
        · exact hnonneg n hold
        · exact Int.le_refl 0) hrest
      rw [List.map_cons, List.sum_cons, hothers]
      rw [List.sum_set'] at hset
      by_cases hlt : i < amounts.length
      · rw [dif_pos hlt] at hset
        rw [List.getElem?_eq_getElem hlt, Option.getD_some]
        omega
      · rw [dif_neg hlt] at hset
        rw [List.getElem?_eq_none (Nat.le_of_not_lt hlt), Option.getD_none]
        omega

/-- Amounts by key, where different keys are different positions of a list. -/
theorem totalAtMost_positions {amounts : List Int} (hnonneg : forall n, n ∈ amounts -> 0 ≤ n)
    (position : key -> Option Nat)
    (hposition : forall k k' i, position k = some i -> position k' = some i -> k = k') :
    TotalAtMost (fun k => ((position k).bind fun i => amounts[i]?).getD 0) amounts.sum := by
  constructor
  · intro k
    cases hfound : (position k).bind fun i => amounts[i]? with
    | none => exact Int.le_refl 0
    | some n =>
        rcases Option.bind_eq_some_iff.mp hfound with ⟨i, _, hget⟩
        exact hnonneg n (List.mem_of_getElem? hget)
  · intro ks hnodup
    have hpositions : (ks.filterMap position).Nodup :=
      List.Nodup.filterMap (fun k k' i hk hk' => hposition k k' i hk hk') hnodup
    have hsum : (ks.map fun k => ((position k).bind fun i => amounts[i]?).getD 0).sum =
        ((ks.filterMap position).map fun i => amounts[i]?.getD 0).sum := by
      clear hnodup hpositions
      induction ks with
      | nil => rfl
      | cons k rest ih =>
          rw [List.map_cons, List.sum_cons, ih, List.filterMap_cons]
          cases position k with
          | none => exact Int.zero_add _
          | some i => rfl
    rw [hsum]
    exact sum_positions_le _ _ hnonneg hpositions

end Foundation
end Hbcur

/-!
# Items chosen by flags

A list of flags beside a list of items chooses some of these.  Setting one flag adds one item, up
to the order, and a choice weighs at most as much as all items.
-/

namespace Hbcur
namespace Foundation

variable {item amount : Type}

def chosen : List item -> List Bool -> List item
  | x :: items, flag :: flags => if flag then x :: chosen items flags else chosen items flags
  | _, _ => []

theorem chosen_true (items : List item) :
    chosen items (List.replicate items.length true) = items := by
  induction items with
  | nil => rfl
  | cons x items ih => rw [List.length_cons, List.replicate_succ, chosen, if_pos rfl, ih]

theorem chosen_false (items : List item) (n : Nat) :
    chosen items (List.replicate n false) = [] := by
  induction items generalizing n with
  | nil => cases n <;> rfl
  | cons x items ih =>
      cases n with
      | zero => rfl
      | succ n =>
          rw [List.replicate_succ, chosen, if_neg Bool.false_ne_true]
          exact ih n

theorem chosen_sublist (items : List item) (flags : List Bool) :
    (chosen items flags).Sublist items := by
  induction items generalizing flags with
  | nil => cases flags <;> exact List.Sublist.slnil
  | cons x items ih =>
      cases flags with
      | nil => exact List.nil_sublist _
      | cons flag flags =>
          rw [chosen]
          split
          · exact (ih flags).cons_cons x
          · exact (ih flags).cons x

/-- Setting a flag which was not set chooses one more item. -/
theorem chosen_set {items : List item} {flags : List Bool} {i : Nat} {x : item}
    (hitem : items[i]? = some x) (hflag : flags[i]? = some false) :
    (chosen items (flags.set i true)).Perm (x :: chosen items flags) := by
  induction items generalizing flags i with
  | nil => cases hitem
  | cons y items ih =>
      cases flags with
      | nil => cases hflag
      | cons flag flags =>
          cases i with
          | zero =>
              rw [List.getElem?_cons_zero, Option.some_inj] at hitem hflag
              rw [List.set_cons_zero, hflag, hitem, chosen, chosen, if_pos rfl,
                if_neg Bool.false_ne_true]
          | succ i =>
              rw [List.getElem?_cons_succ] at hitem hflag
              rw [List.set_cons_succ, chosen, chosen]
              split
              · exact ((ih hitem hflag).cons y).trans (List.Perm.swap x y _)
              · exact ih hitem hflag

theorem set_set_self {flags : List Bool} {i : Nat} (h : flags[i]? = some false) :
    (flags.set i true).set i false = flags := by
  rw [List.set_set]
  apply List.ext_getElem?
  intro j
  rw [List.getElem?_set]
  split
  case isTrue heq =>
    rw [← heq, h]
    rcases List.getElem?_eq_some_iff.mp h with ⟨hlt, _⟩
    rw [if_pos hlt]
  case isFalse => rfl

section Weights

variable [AddCommMonoid amount] (weight : item -> amount)

theorem sum_chosen_set {items : List item} {flags : List Bool} {i : Nat} {x : item}
    (hitem : items[i]? = some x) (hflag : flags[i]? = some false) :
    ((chosen items (flags.set i true)).map weight).sum =
      ((chosen items flags).map weight).sum + weight x := by
  rw [((chosen_set hitem hflag).map weight).sum_eq, List.map_cons, List.sum_cons, add_comm]

variable [PartialOrder amount] [IsOrderedAddMonoid amount]

theorem sum_chosen_le {items : List item} (flags : List Bool)
    (h : forall x, x ∈ items -> 0 ≤ weight x) :
    ((chosen items flags).map weight).sum ≤ (items.map weight).sum := by
  apply ((chosen_sublist items flags).map weight).sum_le_sum
  intro v hv
  rcases List.mem_map.mp hv with ⟨x, hx, heq⟩
  exact heq ▸ h x hx

theorem sum_chosen_nonneg {items : List item} (flags : List Bool)
    (h : forall x, x ∈ items -> 0 ≤ weight x) :
    0 ≤ ((chosen items flags).map weight).sum := by
  apply List.sum_nonneg
  intro v hv
  rcases List.mem_map.mp hv with ⟨x, hx, heq⟩
  exact heq ▸ h x ((chosen_sublist items flags).subset hx)

end Weights

end Foundation
end Hbcur
