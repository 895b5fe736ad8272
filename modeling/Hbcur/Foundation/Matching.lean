import Hbcur.Foundation.StdMap
import Mathlib.Data.List.NodupEquivFin

/-!
# Increasing matchings

Items are matched with partners of a second list, in the order of both.  Taking the first
partner which fits is no loss: whatever an increasing matching does with the items, there is
one which uses that partner for the first of them.
-/

namespace Hbcur
namespace Foundation

variable {item partner : Type}

/-!
# Matching greedily
-/

def matchGreedily (fits : item -> partner -> Bool) : List item -> List partner -> Bool
  | [], _ => true
  | _ :: _, [] => false
  | x :: xs, y :: ys =>
      if fits x y then matchGreedily fits xs ys else matchGreedily fits (x :: xs) ys

section Greedy

variable {fits : item -> partner -> Bool}

theorem matchGreedily_cons (x : item) (xs : List item) (y : partner) (ys : List partner) :
    matchGreedily fits (x :: xs) (y :: ys) =
      matchGreedily fits (if fits x y then xs else x :: xs) ys := by
  rw [matchGreedily]
  split_ifs <;> rfl

/-- The first item of a matching may be left out. -/
theorem sublistForall₂_of_cons {rel : item -> partner -> Prop} {x : item} {xs : List item}
    {ys : List partner} (h : List.SublistForall₂ rel (x :: xs) ys) :
    List.SublistForall₂ rel xs ys := by
  induction ys with
  | nil => cases h
  | cons y ys ih =>
      cases h with
      | cons hxy hrest => exact hrest.cons_right
      | cons_right hrest => exact (ih hrest).cons_right

/-- With the first item the first partner may be left out. -/
theorem sublistForall₂_of_cons_cons {rel : item -> partner -> Prop} {x : item} {xs : List item}
    {y : partner} {ys : List partner} (h : List.SublistForall₂ rel (x :: xs) (y :: ys)) :
    List.SublistForall₂ rel xs ys := by
  cases h with
  | cons hxy hrest => exact hrest
  | cons_right hrest => exact sublistForall₂_of_cons hrest

theorem matchGreedily_iff : forall {xs : List item} {ys : List partner},
    matchGreedily fits xs ys = true <->
      List.SublistForall₂ (fun x y => fits x y = true) xs ys := by
  intro xs ys
  induction ys generalizing xs with
  | nil =>
      cases xs with
      | nil => exact iff_of_true rfl List.SublistForall₂.nil
      | cons x xs =>
          apply iff_of_false
          · exact Bool.false_ne_true
          · intro h
            cases h
  | cons y ys ih =>
      cases xs with
      | nil => exact iff_of_true rfl List.SublistForall₂.nil
      | cons x xs =>
          rw [matchGreedily]
          by_cases hfits : fits x y = true
          · rw [if_pos hfits, ih]
            constructor
            · intro h
              exact List.SublistForall₂.cons hfits h
            · exact sublistForall₂_of_cons_cons
          · rw [if_neg hfits, ih]
            constructor
            · intro h
              exact h.cons_right
            · intro h
              cases h with
              | cons hxy hrest => exact absurd hxy hfits
              | cons_right hrest => exact hrest

theorem length_le_of_sublistForall₂ {rel : item -> partner -> Prop} {xs : List item}
    {ys : List partner} (h : List.SublistForall₂ rel xs ys) : xs.length ≤ ys.length := by
  rcases List.sublistForall₂_iff.mp h with ⟨taken, hforall, hsub⟩
  rw [hforall.length_eq]
  exact hsub.length_le

/-- One may stop as soon as there are more items than partners. -/
theorem matchGreedily_of_length_lt {xs : List item} {ys : List partner}
    (h : ys.length < xs.length) : matchGreedily fits xs ys = false := by
  rw [← Bool.not_eq_true, matchGreedily_iff]
  intro hmatch
  exact absurd (length_le_of_sublistForall₂ hmatch) (Nat.not_le.mpr h)

end Greedy

/-!
# Matchings as maps of positions
-/

section Positions

variable {rel : item -> partner -> Prop} {xs : List item} {ys : List partner}

theorem sublistForall₂_reverse_iff :
    List.SublistForall₂ rel xs.reverse ys.reverse <-> List.SublistForall₂ rel xs ys := by
  rw [List.sublistForall₂_iff, List.sublistForall₂_iff]
  constructor
  · intro h
    rcases h with ⟨taken, hforall, hsub⟩
    exists taken.reverse
    constructor
    · rw [← List.forall₂_reverse_iff, List.reverse_reverse]
      exact hforall
    · rw [← List.reverse_sublist, List.reverse_reverse]
      exact hsub
  · intro h
    rcases h with ⟨taken, hforall, hsub⟩
    exact ⟨taken.reverse, List.forall₂_reverse_iff.mpr hforall, hsub.reverse⟩

theorem sublistForall₂_iff_exists_strictMono :
    List.SublistForall₂ rel xs ys <->
      exists f : Fin xs.length -> Fin ys.length,
        StrictMono f ∧ forall i, rel (xs.get i) (ys.get (f i)) := by
  rw [List.sublistForall₂_iff]
  constructor
  · intro h
    rcases h with ⟨taken, hforall, hsub⟩
    rcases List.sublist_iff_exists_fin_orderEmbedding_get_eq.mp hsub with ⟨g, hg⟩
    exists fun i => g (Fin.cast hforall.length_eq i)
    constructor
    · intro i j hij
      exact g.strictMono hij
    · intro i
      rw [← hg]
      exact hforall.get i.isLt (hforall.length_eq ▸ i.isLt)
  · intro h
    rcases h with ⟨f, hmono, hrel⟩
    exists List.ofFn fun i => ys.get (f i)
    constructor
    · apply List.forall₂_iff_get.mpr
      constructor
      · exact List.length_ofFn.symm
      · intro i hi hi'
        have hrelated := hrel ⟨i, hi⟩
        simpa using hrelated
    · apply List.sublist_iff_exists_fin_orderEmbedding_get_eq.mpr
      exists (Fin.castOrderIso (List.length_ofFn)).toOrderEmbedding.trans
        (OrderEmbedding.ofStrictMono f hmono)
      intro i
      simp only [List.get_eq_getElem, List.getElem_ofFn]
      rfl

end Positions

/-!
# What the partners have found
-/

section Found

variable {rel : item -> partner -> Prop} {xs : List item} {ys : List partner}

theorem sublistForall₂_filterMap {found : partner -> Option item}
    (h : forall y, y ∈ ys -> forall x, found y = some x -> rel x y) :
    List.SublistForall₂ rel (ys.filterMap found) ys := by
  induction ys with
  | nil => exact List.SublistForall₂.nil
  | cons y ys ih =>
      rw [List.forall_mem_cons] at h
      cases hfound : found y with
      | none =>
          rw [List.filterMap_cons_none hfound]
          exact (ih h.2).cons_right
      | some x =>
          rw [List.filterMap_cons_some hfound]
          exact List.SublistForall₂.cons (h.1 x hfound) (ih h.2)

theorem sublistForall₂_take (n : Nat) (h : List.SublistForall₂ rel xs ys) :
    List.SublistForall₂ rel (xs.take n) ys := by
  rcases List.sublistForall₂_iff.mp h with ⟨taken, hforall, hsub⟩
  exact List.sublistForall₂_iff.mpr
    ⟨taken.take n, List.forall₂_take n hforall, (List.take_sublist n taken).trans hsub⟩

theorem exists_of_sublistForall₂ {x : item} (h : List.SublistForall₂ rel xs ys) (hx : x ∈ xs) :
    exists y, y ∈ ys ∧ rel x y := by
  induction h with
  | nil => cases hx
  | cons hxy _ ih =>
      rcases List.mem_cons.mp hx with rfl | hmem
      · exact ⟨_, List.mem_cons_self, hxy⟩
      · rcases ih hmem with ⟨y, hy, hrel⟩
        exact ⟨y, List.mem_cons_of_mem _ hy, hrel⟩
  | cons_right _ ih =>
      rcases ih hx with ⟨y, hy, hrel⟩
      exact ⟨y, List.mem_cons_of_mem _ hy, hrel⟩

end Found

end Foundation
end Hbcur

/-!
# Matching by trial

Each item is tried with the partners one after the other, passing over those which have an item,
and goes to the first one which it fits.  Where no item fits two partners, a partner has an item
in the end as soon as some item fits it.
-/

namespace Hbcur
namespace Foundation

variable {item partner : Type} [DecidableEq partner]

/-- The loop over the partners for one item. -/
def assign (fits : item -> partner -> Bool) (x : item) :
    List partner -> StdMap partner item -> StdMap partner item
  | [], m => m
  | y :: ys, m =>
      if StdMap.contains m y then assign fits x ys m
      else if fits x y then m.insert y x
      else assign fits x ys m

def assignEach (fits : item -> partner -> Bool) (xs : List item) (ys : List partner)
    (m : StdMap partner item) : StdMap partner item :=
  xs.foldl (fun m x => assign fits x ys m) m

section Assign

variable {fits : item -> partner -> Bool} {x : item} {ys : List partner}
  {m : StdMap partner item}

/-- An item which fits one partner at most goes there, unless there is an item. -/
theorem lookup_assign (hunique : forall y, y ∈ ys -> forall y', y' ∈ ys ->
      fits x y = true -> fits x y' = true -> y = y') (k : partner) :
    (assign fits x ys m).lookup k =
      if k ∈ ys ∧ fits x k = true ∧ m.lookup k = none then some x else m.lookup k := by
  induction ys with
  | nil => rw [assign, if_neg (fun h => List.not_mem_nil h.1)]
  | cons y ys ih =>
      have hrest := ih (fun z hz z' hz' =>
        hunique z (List.mem_cons_of_mem _ hz) z' (List.mem_cons_of_mem _ hz'))
      by_cases hhere : m.lookup y = none ∧ fits x y = true
      · have hgiven : assign fits x (y :: ys) m = m.insert y x := by
          rw [assign, (StdMap.contains_eq_false_iff m y).mpr hhere.1,
            if_neg Bool.false_ne_true, if_pos hhere.2]
        rw [hgiven, StdMap.lookup_insert_eq]
        by_cases hk : k = y
        · rw [if_pos hk, hk, if_pos ⟨List.mem_cons_self, hhere.2, hhere.1⟩]
        · rw [if_neg hk, if_neg]
          intro h
          exact hk (hunique k h.1 y List.mem_cons_self h.2.1 hhere.2)
      · have hpassed : assign fits x (y :: ys) m = assign fits x ys m := by
          rw [assign]
          split_ifs with hcontains hfits
          · rfl
          · rw [Bool.not_eq_true, StdMap.contains_eq_false_iff] at hcontains
            exact absurd ⟨hcontains, hfits⟩ hhere
          · rfl
        rw [hpassed, hrest]
        congr 1
        rw [List.mem_cons, eq_iff_iff]
        constructor
        · exact fun h => ⟨Or.inr h.1, h.2⟩
        · rintro ⟨rfl | hmem, hfits, hnone⟩
          · exact absurd ⟨hnone, hfits⟩ hhere
          · exact ⟨hmem, hfits, hnone⟩

/-- A partner gets the first of the items which fit it. -/
theorem lookup_assignEach {xs : List item}
    (hunique : forall x, x ∈ xs -> forall y, y ∈ ys -> forall y', y' ∈ ys ->
      fits x y = true -> fits x y' = true -> y = y') {k : partner} (hk : k ∈ ys) :
    (assignEach fits xs ys m).lookup k =
      (m.lookup k).or (xs.find? fun x => fits x k) := by
  unfold assignEach
  induction xs generalizing m with
  | nil => rw [List.foldl_nil, List.find?_nil, Option.or_none]
  | cons x xs ih =>
      rw [List.forall_mem_cons] at hunique
      rw [List.foldl_cons, ih hunique.2, lookup_assign hunique.1, List.find?_cons]
      cases hlookup : m.lookup k with
      | some x' =>
          rw [if_neg (fun h => Option.some_ne_none _ h.2.2)]
          rfl
      | none =>
          cases hfits : fits x k with
          | true =>
              rw [if_pos ⟨hk, rfl, rfl⟩]
              rfl
          | false => rw [if_neg (fun h => Bool.false_ne_true h.2.1)]

end Assign

end Foundation
end Hbcur
