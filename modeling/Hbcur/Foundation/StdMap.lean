import Mathlib.Algebra.GroupWithZero.Nat
import Mathlib.Data.List.AList
import Mathlib.Data.List.Sort

/-!
# Maps

A `std::map` as an association list with distinct keys, and the loops which insert or erase
several keys.
-/

namespace Hbcur
namespace Foundation

abbrev StdMap (key value : Type) := AList fun _ : key => value

namespace StdMap

variable {key value : Type} [DecidableEq key]

def contains (m : StdMap key value) (k : key) : Bool :=
  (m.lookup k).isSome

/-- `insert`, which leaves an entry alone that is there already. -/
def insertNew (m : StdMap key value) (k : key) (v : value) : StdMap key value :=
  if contains m k then m else m.insert k v

/-- Change the entry under a key if there is one. -/
def modify (m : StdMap key value) (k : key) (f : value -> value) : StdMap key value :=
  match m.lookup k with
  | none => m
  | some v => m.insert k (f v)

/-- `insert` under several keys, in order. -/
def insertAllNew (m : StdMap key value) (ks : List key) (v : value) : StdMap key value :=
  ks.foldl (fun m k => insertNew m k v) m

def eraseAll (m : StdMap key value) (ks : List key) : StdMap key value :=
  ks.foldl (fun m k => m.erase k) m

/-- The keys of the entries which satisfy a condition. -/
def keysWhere (m : StdMap key value) (p : key -> value -> Bool) : List key :=
  (m.entries.filter fun e => p e.1 e.2).map Sigma.fst

/-- A loop over all entries which erases some of them. -/
def eraseWhere (m : StdMap key value) (p : key -> value -> Bool) : StdMap key value :=
  eraseAll m (keysWhere m p)

/-- Assign to several keys, in order. -/
def assignAll (m : StdMap key value) (kvs : List (key × value)) : StdMap key value :=
  kvs.foldl (fun m kv => m.insert kv.1 kv.2) m

omit [DecidableEq key] in
theorem keys_map_values {value' : Type} (f : value -> value')
    (es : List (Sigma fun _ : key => value)) :
    (es.map fun e => (⟨e.1, f e.2⟩ : Sigma fun _ : key => value')).keys = es.keys := by
  unfold List.keys
  rw [List.map_map]
  rfl

/-- Change all the values. -/
def mapValues {value' : Type} (f : value -> value') (m : StdMap key value) :
    StdMap key value' where
  entries := m.entries.map fun e => ⟨e.1, f e.2⟩
  nodupKeys := by
    have hnodup := m.nodupKeys
    unfold List.NodupKeys at hnodup ⊢
    rw [keys_map_values]
    exact hnodup

/-!
# Looking up
-/

variable (m : StdMap key value) (k k' : key) (v : value)

theorem contains_iff : contains m k = true <-> exists v, m.lookup k = some v :=
  Option.isSome_iff_exists

theorem contains_eq_false_iff : contains m k = false <-> m.lookup k = none := by
  unfold contains
  cases m.lookup k <;> simp

theorem lookup_insert_eq :
    (m.insert k' v).lookup k = if k = k' then some v else m.lookup k := by
  split_ifs with h
  · rw [h, AList.lookup_insert]
  · exact AList.lookup_insert_ne h

theorem lookup_erase_eq :
    (m.erase k').lookup k = if k = k' then none else m.lookup k := by
  split_ifs with h
  · rw [h, AList.lookup_erase]
  · exact AList.lookup_erase_ne h

theorem lookup_insertNew :
    (insertNew m k' v).lookup k =
      if k = k' ∧ contains m k' = false then some v else m.lookup k := by
  unfold insertNew
  cases h : contains m k' with
  | true => simp
  | false => simp [lookup_insert_eq]

theorem lookup_modify (f : value -> value) :
    (modify m k' f).lookup k =
      if k = k' then (m.lookup k).map f else m.lookup k := by
  unfold modify
  cases h : m.lookup k' with
  | none =>
      split_ifs with hk
      · rw [hk, h]
        rfl
      · rfl
  | some v =>
      simp only
      rw [lookup_insert_eq]
      split_ifs with hk
      · rw [hk, h]
        rfl
      · rfl

@[simp] theorem contains_insert :
    contains (m.insert k' v) k = (decide (k = k') || contains m k) := by
  unfold contains
  rw [lookup_insert_eq]
  by_cases h : k = k' <;> simp [h]

@[simp] theorem contains_insertNew :
    contains (insertNew m k' v) k = (decide (k = k') || contains m k) := by
  unfold insertNew
  split_ifs with h
  · by_cases hk : k = k'
    · simp [hk, h]
    · simp [hk]
  · exact contains_insert m k k' v

theorem lookup_mapValues {value' : Type} (f : value -> value') :
    (mapValues f m).lookup k = (m.lookup k).map f := by
  change (m.entries.map fun e => (⟨e.1, f e.2⟩ : Sigma fun _ : key => value')).dlookup k =
    (m.entries.dlookup k).map f
  induction m.entries with
  | nil => rfl
  | cons e es ih =>
      rcases e with ⟨k', v'⟩
      rw [List.map_cons]
      by_cases hk : k = k'
      · subst hk
        rw [List.dlookup_cons_eq, List.dlookup_cons_eq]
        rfl
      · rw [List.dlookup_cons_ne _ _ hk, List.dlookup_cons_ne _ _ hk, ih]

/-!
# After a loop
-/

theorem lookup_insertAllNew (ks : List key) :
    (insertAllNew m ks v).lookup k =
      match m.lookup k with
      | some w => some w
      | none => if k ∈ ks then some v else none := by
  unfold insertAllNew
  induction ks generalizing m with
  | nil =>
      cases h : m.lookup k with
      | none => exact h
      | some w => exact h
  | cons first rest ih =>
      rw [List.foldl_cons, ih, lookup_insertNew]
      by_cases hk : k = first
      · subst hk
        cases h : m.lookup k with
        | none => simp [(contains_eq_false_iff m k).mpr h]
        | some w =>
            have hin : contains m k = true := (contains_iff m k).mpr ⟨w, h⟩
            simp [hin]
      · rw [if_neg (fun h => hk h.1)]
        cases h : m.lookup k with
        | none => simp [hk]
        | some w => rfl

theorem lookup_eraseAll (ks : List key) :
    (eraseAll m ks).lookup k = if k ∈ ks then none else m.lookup k := by
  unfold eraseAll
  induction ks generalizing m with
  | nil => rfl
  | cons first rest ih =>
      rw [List.foldl_cons, ih, lookup_erase_eq]
      by_cases hk : k = first
      · simp [hk]
      · simp [hk]

theorem mem_keysWhere_iff {p : key -> value -> Bool} :
    k ∈ keysWhere m p <-> exists v, m.lookup k = some v ∧ p k v = true := by
  unfold keysWhere
  rw [List.mem_map]
  constructor
  · rintro ⟨e, he, rfl⟩
    rw [List.mem_filter] at he
    exact ⟨e.2, AList.mem_lookup_iff.mpr he.1, he.2⟩
  · rintro ⟨v, hv, hp⟩
    exact ⟨⟨k, v⟩, List.mem_filter.mpr ⟨AList.mem_lookup_iff.mp hv, hp⟩, rfl⟩

theorem lookup_eraseWhere (p : key -> value -> Bool) :
    (eraseWhere m p).lookup k = (m.lookup k).filter fun v => !p k v := by
  unfold eraseWhere
  rw [lookup_eraseAll]
  cases hv : m.lookup k with
  | none => exact ite_self none
  | some v =>
      cases hp : p k v with
      | true =>
          rw [if_pos ((mem_keysWhere_iff m k).mpr ⟨v, hv, hp⟩), Option.filter_some, hp]
          rfl
      | false =>
          rw [if_neg fun hmem => ?_, Option.filter_some, hp]
          · rfl
          · rcases (mem_keysWhere_iff m k).mp hmem with ⟨v', hv', hp'⟩
            rw [hv] at hv'
            cases hv'
            rw [hp] at hp'
            cases hp'

theorem lookup_assignAll_of_notMem {kvs : List (key × value)} (h : k ∉ kvs.map Prod.fst) :
    (assignAll m kvs).lookup k = m.lookup k := by
  unfold assignAll
  induction kvs generalizing m with
  | nil => rfl
  | cons kv rest ih =>
      rw [List.map_cons, List.mem_cons, not_or] at h
      rw [List.foldl_cons, ih _ h.2, lookup_insert_eq, if_neg h.1]

theorem lookup_assignAll_of_mem {kvs : List (key × value)} (hnodup : (kvs.map Prod.fst).Nodup)
    (h : (k, v) ∈ kvs) : (assignAll m kvs).lookup k = some v := by
  induction kvs generalizing m with
  | nil => cases h
  | cons kv rest ih =>
      rw [List.map_cons, List.nodup_cons] at hnodup
      change (assignAll (m.insert kv.1 kv.2) rest).lookup k = some v
      rcases List.mem_cons.mp h with rfl | hrest
      · rw [lookup_assignAll_of_notMem _ _ hnodup.1, AList.lookup_insert]
      · exact ih _ hnodup.2 hrest

/-!
# Counting values
-/

/-- How many values satisfy a condition. -/
def countValues (m : StdMap key value) (P : value -> Bool) : Nat :=
  m.entries.countP fun e => P e.2

theorem entries_insert_new (h : contains m k = false) :
    (m.insert k v).entries = ⟨k, v⟩ :: m.entries := by
  apply AList.entries_insert_of_notMem
  rw [← AList.lookup_isSome]
  exact fun hin => Bool.false_ne_true (h.symm.trans hin)

theorem countValues_insert_new (P : value -> Bool) (h : contains m k = false) :
    countValues (m.insert k v) P = countValues m P + if P v then 1 else 0 := by
  unfold countValues
  rw [entries_insert_new m k v h, List.countP_cons]

theorem entries_erase : (m.erase k).entries = m.entries.filter fun e => decide (e.1 ≠ k) := by
  have hnodup := m.nodupKeys
  change m.entries.kerase k = _
  revert hnodup
  induction m.entries with
  | nil => exact fun _ => rfl
  | cons e es ih =>
      intro hnodup
      rw [List.nodupKeys_cons] at hnodup
      by_cases hk : k = e.1
      · rw [List.kerase_cons_eq hk, List.filter_cons_of_neg (by simp [hk])]
        refine (List.filter_eq_self.mpr ?_).symm
        intro e' hmem
        refine decide_eq_true fun heq => hnodup.1 ?_
        rw [← hk, ← heq]
        exact List.mem_map_of_mem hmem
      · rw [List.kerase_cons_ne hk, List.filter_cons_of_pos (by simp [Ne.symm hk]), ih hnodup.2]

theorem countValues_eraseAll (ks : List key) (P : value -> Bool) :
    countValues (eraseAll m ks) P =
      m.entries.countP fun e => P e.2 && decide (e.1 ∉ ks) := by
  unfold countValues eraseAll
  induction ks generalizing m with
  | nil => simp
  | cons first rest ih =>
      rw [List.foldl_cons, ih, entries_erase, List.countP_filter]
      refine List.countP_congr fun e _ => ?_
      by_cases hk : e.1 = first <;> simp [hk]

/-!
# Adding up values
-/

theorem perm_erase_of_lookup (h : m.lookup k = some v) :
    m.entries.Perm (⟨k, v⟩ :: (m.erase k).entries) := by
  have hkey : k ∈ m.entries.keys := by
    rw [← List.dlookup_isSome]
    exact Option.isSome_iff_exists.mpr ⟨v, h⟩
  rcases List.exists_of_kerase hkey with ⟨w, before, after, hnot, hsplit, herase⟩
  have hvalue : w = v := by
    change m.entries.dlookup k = some v at h
    rw [hsplit, List.dlookup_append, List.dlookup_eq_none.mpr hnot, List.dlookup_cons_eq] at h
    exact Option.some.inj h
  rw [show (m.erase k).entries = before ++ after from herase, hsplit, hvalue]
  exact List.perm_middle

def sumValues (m : StdMap key value) (f : value -> Nat) : Nat :=
  (m.entries.map fun e => f e.2).sum

theorem sumValues_insert_new (f : value -> Nat) (h : contains m k = false) :
    sumValues (m.insert k v) f = sumValues m f + f v := by
  unfold sumValues
  rw [entries_insert_new m k v h, List.map_cons, List.sum_cons, Nat.add_comm]

theorem sumValues_erase (f : value -> Nat) (h : m.lookup k = some v) :
    sumValues (m.erase k) f + f v = sumValues m f := by
  unfold sumValues
  rw [((perm_erase_of_lookup m k v h).map _).sum_nat, List.map_cons, List.sum_cons,
    Nat.add_comm]

/-- A value is replaced. -/
theorem sumValues_insert (f : value -> Nat) {w : value} (h : m.lookup k = some w) :
    sumValues (m.insert k v) f + f w = sumValues m f + f v := by
  have herase := sumValues_erase m k w f h
  have hinsert : sumValues (m.insert k v) f = sumValues (m.erase k) f + f v := by
    unfold sumValues
    rw [AList.entries_insert, List.map_cons, List.sum_cons, Nat.add_comm]
    rfl
  omega

theorem length_entries_erase (h : m.lookup k = some v) :
    (m.erase k).entries.length + 1 = m.entries.length := by
  rw [(perm_erase_of_lookup m k v h).length_eq, List.length_cons]

/-!
# Counting after one change
-/

theorem countValues_erase (P : value -> Bool) (h : m.lookup k = some v) :
    countValues (m.erase k) P + (if P v then 1 else 0) = countValues m P := by
  unfold countValues
  rw [(perm_erase_of_lookup m k v h).countP_eq, List.countP_cons]

/-- A value is replaced. -/
theorem countValues_insert (P : value -> Bool) {w : value} (h : m.lookup k = some w) :
    countValues (m.insert k v) P + (if P w then 1 else 0) =
      countValues m P + if P v then 1 else 0 := by
  have herase := countValues_erase m k w P h
  have hinsert : countValues (m.insert k v) P =
      countValues (m.erase k) P + if P v then 1 else 0 := by
    unfold countValues
    rw [AList.entries_insert, List.countP_cons]
    rfl
  omega

/-!
# Maps with the same lookups
-/

theorem perm_of_lookup {m m' : StdMap key value} (h : forall k, m.lookup k = m'.lookup k) :
    m.entries.Perm m'.entries := by
  apply List.lookup_ext m.nodupKeys m'.nodupKeys
  intro k v
  change v ∈ m.lookup k <-> v ∈ m'.lookup k
  rw [h]

/-- A count does not depend on what the values are mapped away from. -/
theorem countValues_congr {value' : Type} (f : value -> value') {m m' : StdMap key value}
    (h : forall k, (m.lookup k).map f = (m'.lookup k).map f) (P : value' -> Bool) :
    countValues m (fun v => P (f v)) = countValues m' fun v => P (f v) := by
  have hmap : forall m : StdMap key value,
      countValues m (fun v => P (f v)) = countValues (mapValues f m) P := by
    intro m
    unfold countValues mapValues
    rw [List.countP_map]
    rfl
  have hperm : (mapValues f m).entries.Perm (mapValues f m').entries := by
    apply perm_of_lookup
    intro k
    rw [lookup_mapValues, lookup_mapValues, h]
  rw [hmap, hmap]
  exact hperm.countP_eq _

/-!
# Renaming the keys
-/

omit [DecidableEq key] in
theorem length_keys : m.keys.length = m.entries.length :=
  List.length_map _

theorem countValues_eq_countP_keys (P : value -> Bool) :
    countValues m P = m.keys.countP fun k => (m.lookup k).any P := by
  unfold countValues
  rw [AList.keys, List.keys, List.countP_map]
  apply List.countP_congr
  intro e hmem
  have hlookup : m.lookup e.1 = some e.2 := AList.mem_lookup_iff.mpr hmem
  rw [Function.comp_apply, hlookup, Option.any_some]

/-- Counts agree when the keys are renamed and the values agree. -/
theorem countValues_rename {key' value' : Type} [DecidableEq key'] {m : StdMap key value}
    {m' : StdMap key' value'} (rename : key -> key') (hkeys : (m.keys.map rename).Perm m'.keys)
    {P : value -> Bool} {P' : value' -> Bool}
    (h : forall k v, m.lookup k = some v -> exists v', m'.lookup (rename k) = some v' ∧ P' v' = P v) :
    countValues m' P' = countValues m P := by
  rw [countValues_eq_countP_keys, countValues_eq_countP_keys, ← hkeys.countP_eq, List.countP_map]
  apply List.countP_congr
  intro k hmem
  rcases Option.isSome_iff_exists.mp (AList.lookup_isSome.mpr hmem) with ⟨v, hv⟩
  rcases h k v hv with ⟨v', hv', heq⟩
  rw [Function.comp_apply, hv, hv', Option.any_some, Option.any_some, heq]

/-!
# In the order of the keys
-/

/-- The entries as an iterator goes through them. -/
def inOrder [LE key] [DecidableLE key] (m : StdMap key value) : List (Sigma fun _ : key => value) :=
  m.entries.mergeSort fun e e' => decide (e.1 ≤ e'.1)

section InOrder

variable [LE key] [DecidableLE key]

/-- `lower_bound`, the first entry which does not come before a key. -/
def lowerBound (m : StdMap key value) (k : key) : Option (Sigma fun _ : key => value) :=
  (inOrder m).find? fun e => decide (k ≤ e.1)

omit [DecidableEq key] in
theorem perm_inOrder : (inOrder m).Perm m.entries :=
  List.mergeSort_perm _ _

theorem mem_inOrder_iff : ⟨k, v⟩ ∈ inOrder m <-> m.lookup k = some v := by
  rw [(perm_inOrder m).mem_iff]
  exact AList.mem_lookup_iff.symm

omit [DecidableEq key] in
theorem nodup_keys_inOrder : ((inOrder m).map Sigma.fst).Nodup :=
  ((perm_inOrder m).map Sigma.fst).nodup_iff.mpr m.nodupKeys

omit [DecidableEq key] in
theorem mem_of_lowerBound {m : StdMap key value} {k : key} {e : Sigma fun _ : key => value}
    (h : lowerBound m k = some e) : e ∈ inOrder m :=
  List.mem_of_find?_eq_some h

variable [Std.IsLinearOrder key]

omit [DecidableEq key] in
theorem pairwise_inOrder : (inOrder m).Pairwise fun e e' => e.1 ≤ e'.1 := by
  have h := @List.pairwise_mergeSort _
    (fun e e' : Sigma fun _ : key => value => decide (e.1 ≤ e'.1))
    (fun a b c hab hbc => by
      rw [decide_eq_true_eq] at hab hbc ⊢
      exact Std.le_trans hab hbc)
    (fun a b => by
      rw [Bool.or_eq_true, decide_eq_true_eq, decide_eq_true_eq]
      exact Std.le_total)
    m.entries
  exact h.imp of_decide_eq_true

/-- A part of the entries comes in the same order. -/
theorem inOrder_eq_filter {m' : StdMap key value} (p : (Sigma fun _ : key => value) -> Bool)
    (h : forall k v, m'.lookup k = some v <-> m.lookup k = some v ∧ p ⟨k, v⟩ = true) :
    inOrder m' = (inOrder m).filter p := by
  have hnodup : forall l : List (Sigma fun _ : key => value), (l.map Sigma.fst).Nodup -> l.Nodup :=
    fun l hl => List.Nodup.of_map _ hl
  have hmem : forall e, e ∈ inOrder m' <-> e ∈ (inOrder m).filter p := by
    rintro ⟨k, v⟩
    rw [List.mem_filter, mem_inOrder_iff, mem_inOrder_iff, h]
  have hperm : (inOrder m').Perm ((inOrder m).filter p) :=
    (List.perm_ext_iff_of_nodup (hnodup _ (nodup_keys_inOrder m'))
      ((hnodup _ (nodup_keys_inOrder m)).filter p)).mpr hmem
  refine hperm.eq_of_pairwise ?_ (pairwise_inOrder m') ((pairwise_inOrder m).filter p)
  rintro ⟨k, v⟩ ⟨k', v'⟩ ha hb hle hge
  cases Std.le_antisymm hle hge
  rw [mem_inOrder_iff] at ha
  have hb' := (mem_inOrder_iff m' _ _).mp ((hmem _).mpr hb)
  rw [ha] at hb'
  cases hb'
  rfl

end InOrder

/-!
# Filling a map
-/

theorem length_entries_assignAll {kvs : List (key × value)} :
    forall m : StdMap key value, (kvs.map Prod.fst).Nodup ->
      (forall k, k ∈ kvs.map Prod.fst -> m.lookup k = none) ->
      (assignAll m kvs).entries.length = m.entries.length + kvs.length := by
  induction kvs with
  | nil => exact fun m _ _ => rfl
  | cons kv rest ih =>
      intro m hnodup hnew
      rw [List.map_cons, List.nodup_cons] at hnodup
      change (assignAll (m.insert kv.1 kv.2) rest).entries.length = _
      have hkv : contains m kv.1 = false :=
        (contains_eq_false_iff m kv.1).mpr (hnew kv.1 List.mem_cons_self)
      have hrest : forall k, k ∈ rest.map Prod.fst -> (m.insert kv.1 kv.2).lookup k = none := by
        intro k hk
        have hne : k ≠ kv.1 := by
          intro heq
          exact hnodup.1 (heq ▸ hk)
        rw [lookup_insert_eq, if_neg hne]
        exact hnew k (List.mem_cons_of_mem _ hk)
      rw [ih _ hnodup.2 hrest, entries_insert_new m kv.1 kv.2 hkv, List.length_cons,
        List.length_cons]
      omega

end StdMap

end Foundation
end Hbcur

/-!
# Ordered sets

A `std::set` as the list of its elements in their order, which a key into a linear order gives.
The list depends on the elements alone, not on the order in which they were inserted.
-/

namespace Hbcur
namespace Foundation
namespace StdSet

variable {item order : Type} [LinearOrder order] (key : item -> order)

/-- An element with the same key is there already. -/
def insert (x : item) : List item -> List item
  | [] => [x]
  | y :: ys =>
      if key x < key y then x :: y :: ys
      else if key y < key x then y :: insert x ys
      else y :: ys

def insertAll (s xs : List item) : List item := xs.foldl (fun s x => insert key x s) s

/-- The keys increase. -/
def Ordered (s : List item) : Prop := s.Pairwise fun x y => key x < key y

variable {key}

theorem mem_insert_iff (hkey : Function.Injective key) {x y : item} {s : List item} :
    y ∈ insert key x s <-> y = x ∨ y ∈ s := by
  induction s with
  | nil => rw [insert, List.mem_singleton, or_iff_left List.not_mem_nil]
  | cons z s ih =>
      rw [insert]
      split_ifs with hlt hgt
      · rw [List.mem_cons]
      · rw [List.mem_cons, ih, List.mem_cons, or_left_comm]
      · have heq : x = z := hkey (le_antisymm (not_lt.mp hgt) (not_lt.mp hlt))
        rw [heq, List.mem_cons, ← or_assoc, or_self]

theorem Ordered.insert (hkey : Function.Injective key) (x : item) {s : List item}
    (h : Ordered key s) : Ordered key (StdSet.insert key x s) := by
  induction s with
  | nil => exact List.pairwise_singleton _ x
  | cons y s ih =>
      have hcons := List.pairwise_cons.mp h
      rw [StdSet.insert]
      split_ifs with hlt hgt
      · refine List.pairwise_cons.mpr ⟨?_, h⟩
        intro z hz
        rcases List.mem_cons.mp hz with rfl | hmem
        · exact hlt
        · exact hlt.trans (hcons.1 z hmem)
      · refine List.pairwise_cons.mpr ⟨?_, ih hcons.2⟩
        intro z hz
        rcases (mem_insert_iff hkey).mp hz with rfl | hmem
        · exact hgt
        · exact hcons.1 z hmem
      · exact h

theorem mem_insertAll_iff (hkey : Function.Injective key) {y : item} {s xs : List item} :
    y ∈ insertAll key s xs <-> y ∈ s ∨ y ∈ xs := by
  unfold insertAll
  induction xs generalizing s with
  | nil => rw [List.foldl_nil, or_iff_left List.not_mem_nil]
  | cons x xs ih =>
      rw [List.foldl_cons, ih, mem_insert_iff hkey, List.mem_cons, or_assoc, or_left_comm]

theorem Ordered.insertAll (hkey : Function.Injective key) {s : List item}
    (h : Ordered key s) (xs : List item) : Ordered key (StdSet.insertAll key s xs) := by
  unfold StdSet.insertAll
  induction xs generalizing s with
  | nil => exact h
  | cons x xs ih => exact ih (h.insert hkey x)

/-- Sets with the same elements are listed in the same order. -/
theorem Ordered.eq_of_mem_iff {s s' : List item} (h : Ordered key s) (h' : Ordered key s')
    (hmem : forall x, x ∈ s <-> x ∈ s') : s = s' := by
  have hirrefl : Std.Irrefl fun x y : item => key x < key y := ⟨fun x => lt_irrefl (key x)⟩
  have hantisymm : Std.Antisymm fun x y : item => key x < key y :=
    ⟨fun _ _ hlt hgt => absurd hgt hlt.asymm⟩
  exact List.Pairwise.eq_of_mem_iff h h' hmem

/-- Inserting the elements of two lists gives the same set in either order. -/
theorem insertAll_comm (hkey : Function.Injective key) (xs ys : List item) :
    insertAll key (insertAll key [] xs) ys = insertAll key (insertAll key [] ys) xs := by
  have hempty : Ordered key [] := List.Pairwise.nil
  refine ((hempty.insertAll hkey xs).insertAll hkey ys).eq_of_mem_iff
    ((hempty.insertAll hkey ys).insertAll hkey xs) (fun x => ?_)
  rw [mem_insertAll_iff hkey, mem_insertAll_iff hkey, mem_insertAll_iff hkey,
    mem_insertAll_iff hkey, or_right_comm]

end StdSet
end Foundation
end Hbcur

/-!
# Loops over the entries of a map

A loop which goes through the entries of an association list and changes another
store only at the key of the entry at hand.  Keys are distinct, so the result can
be read off key by key.
-/

namespace Hbcur
namespace Foundation

variable {key value store slot : Type}

def keyedLoop (body : store -> key -> value -> Option store) :
    store -> List (Sigma fun _ : key => value) -> Option store
  | s, [] => some s
  | s, ⟨k, v⟩ :: rest =>
      match body s k v with
      | none => none
      | some s' => keyedLoop body s' rest

/-- One round of the loop succeeds where allowed and touches its own slot only. -/
def KeyedBody (body : store -> key -> value -> Option store)
    (look : store -> key -> slot) (allowed : slot -> value -> Prop)
    (merge : slot -> value -> slot) : Prop :=
  forall s k v, allowed (look s k) v ->
    exists s', body s k v = some s' ∧ look s' k = merge (look s k) v ∧
      forall other, other ≠ k -> look s' other = look s other

theorem keyedLoop_spec [DecidableEq key] {body : store -> key -> value -> Option store}
    {look : store -> key -> slot} {allowed : slot -> value -> Prop}
    {merge : slot -> value -> slot} (hbody : KeyedBody body look allowed merge) :
    forall (entries : List (Sigma fun _ : key => value)) (s : store),
      entries.NodupKeys ->
      (forall k v, ⟨k, v⟩ ∈ entries -> allowed (look s k) v) ->
      exists s', keyedLoop body s entries = some s' ∧
        forall k, look s' k =
          match entries.dlookup k with
          | none => look s k
          | some v => merge (look s k) v := by
  intro entries
  induction entries with
  | nil =>
      intro s _ _
      exact ⟨s, rfl, fun _ => rfl⟩
  | cons head rest ih =>
      rcases head with ⟨k, v⟩
      intro s hnodup hallowed
      rcases List.nodupKeys_cons.mp hnodup with ⟨hkey, hnodupRest⟩
      rcases hbody s k v (hallowed k v List.mem_cons_self) with ⟨s1, hone, hself, hother⟩
      have hallowedRest : forall k' v', ⟨k', v'⟩ ∈ rest -> allowed (look s1 k') v' := by
        intro k' v' hmem
        have hne : k' ≠ k := by
          intro heq
          have hkeys := List.mem_keys_of_mem hmem
          rw [heq] at hkeys
          exact hkey hkeys
        rw [hother k' hne]
        exact hallowed k' v' (List.mem_cons_of_mem _ hmem)
      rcases ih s1 hnodupRest hallowedRest with ⟨s2, hrest, hlook⟩
      refine ⟨s2, ?_, ?_⟩
      · simp only [keyedLoop, hone, hrest]
      · intro k'
        rw [hlook k']
        by_cases heq : k' = k
        · subst heq
          rw [List.dlookup_cons_eq, List.dlookup_eq_none.mpr hkey]
          exact hself
        · rw [List.dlookup_cons_ne _ _ heq, hother k' heq]

/-!
# Changing an entry of a list
-/

/-- A change which an image does not show. -/
theorem map_modify_of_same {item image : Type} (g : item -> image) (f : item -> item)
    (hf : forall x, g (f x) = g x) (l : List item) (i : Nat) : (l.modify i f).map g = l.map g := by
  induction l generalizing i with
  | nil => rw [List.modify_nil]
  | cons x l ih =>
      cases i with
      | zero => rw [List.modify_zero_cons, List.map_cons, hf, List.map_cons]
      | succ i => rw [List.modify_succ_cons, List.map_cons, ih, List.map_cons]

end Foundation
end Hbcur
