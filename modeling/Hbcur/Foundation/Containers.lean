import Mathlib.Data.List.Nodup
import Mathlib.Data.List.Perm.Basic

/-!
# Linked lists

A `std::list`, whose iterators go on pointing at their elements when others are inserted or
erased, and an index of what iterators point at.
-/

namespace Hbcur
namespace Foundation

variable {item : Type}

/-- The elements in order, each with the iterator which points at it. -/
structure LinkedList (item : Type) where
  nodes : List (Nat × item)
  next : Nat
  fresh : forall e, e ∈ nodes -> e.1 < next
  nodup : (nodes.map Prod.fst).Nodup

namespace LinkedList

def empty : LinkedList item where
  nodes := []
  next := 0
  fresh := by
    intro e he
    cases he
  nodup := List.nodup_nil

def toList (l : LinkedList item) : List item := l.nodes.map Prod.snd

def size (l : LinkedList item) : Nat := l.nodes.length

/-- What an iterator points at, if it is one of the list. -/
def deref (l : LinkedList item) (it : Nat) : Option item :=
  (l.nodes.find? fun e => e.1 == it).map Prod.snd

/-- `insert` at the end, which gives the iterator of the new element. -/
def pushBack (l : LinkedList item) (x : item) : Nat × LinkedList item :=
  (l.next,
    { nodes := l.nodes ++ [(l.next, x)]
      next := l.next + 1
      fresh := by
        intro e he
        rcases List.mem_append.mp he with hold | hnew
        · exact Nat.lt_succ_of_lt (l.fresh e hold)
        · rw [List.mem_singleton.mp hnew]
          exact Nat.lt_succ_self _
      nodup := by
        rw [List.map_append]
        apply List.Nodup.append l.nodup (List.nodup_singleton _)
        intro it hold hnew
        rcases List.mem_map.mp hold with ⟨e, he, heq⟩
        have hlt := l.fresh e he
        rw [heq, List.mem_singleton.mp hnew] at hlt
        exact Nat.lt_irrefl _ hlt })

def erase (l : LinkedList item) (it : Nat) : LinkedList item where
  nodes := l.nodes.filter fun e => !(e.1 == it)
  next := l.next
  fresh := by
    intro e he
    exact l.fresh e (List.mem_filter.mp he).1
  nodup := l.nodup.sublist (List.filter_sublist.map _)

variable (l : LinkedList item) (x : item) (it it' : Nat)

/-!
# What iterators point at
-/

theorem deref_eq_some_iff {l : LinkedList item} {x : item} {it : Nat} :
    l.deref it = some x <-> (it, x) ∈ l.nodes := by
  unfold deref
  rw [Option.map_eq_some_iff]
  constructor
  · intro h
    rcases h with ⟨e, hfind, hx⟩
    have hit := List.find?_some hfind
    rw [beq_iff_eq] at hit
    rw [← hit, ← hx]
    exact List.mem_of_find?_eq_some hfind
  · intro hmem
    cases hfind : l.nodes.find? fun e => e.1 == it with
    | none =>
        have hnot := List.find?_eq_none.mp hfind (it, x) hmem
        exact absurd (beq_self_eq_true it) hnot
    | some e =>
        have hit := List.find?_some hfind
        rw [beq_iff_eq] at hit
        exists e
        constructor
        · rfl
        · have heq := List.inj_on_of_nodup_map l.nodup (List.mem_of_find?_eq_some hfind) hmem hit
          rw [heq]

theorem mem_toList_iff {l : LinkedList item} {x : item} :
    x ∈ l.toList <-> exists it, l.deref it = some x := by
  unfold toList
  rw [List.mem_map]
  constructor
  · intro h
    rcases h with ⟨e, he, hx⟩
    exists e.1
    rw [deref_eq_some_iff, ← hx]
    exact he
  · intro h
    rcases h with ⟨it, hit⟩
    exact ⟨(it, x), deref_eq_some_iff.mp hit, rfl⟩

theorem deref_next : l.deref l.next = none := by
  apply Option.eq_none_iff_forall_ne_some.mpr
  intro x hx
  exact Nat.lt_irrefl _ (l.fresh _ (deref_eq_some_iff.mp hx))

theorem deref_pushBack :
    (l.pushBack x).2.deref it = if it = l.next then some x else l.deref it := by
  apply Option.ext
  intro y
  rw [deref_eq_some_iff]
  change (it, y) ∈ l.nodes ++ [(l.next, x)] <-> _
  rw [List.mem_append, List.mem_singleton, Prod.mk.injEq]
  by_cases heq : it = l.next
  · rw [if_pos heq, heq, ← deref_eq_some_iff, deref_next]
    constructor
    · intro h
      rcases h with hold | hnew
      · cases hold
      · rw [hnew.2]
    · intro h
      cases h
      exact Or.inr ⟨rfl, rfl⟩
  · rw [if_neg heq, ← deref_eq_some_iff]
    exact or_iff_left fun h => heq h.1

theorem deref_erase :
    (l.erase it).deref it' = if it' = it then none else l.deref it' := by
  apply Option.ext
  intro y
  rw [deref_eq_some_iff]
  change (it', y) ∈ l.nodes.filter _ <-> _
  rw [List.mem_filter, ← deref_eq_some_iff]
  by_cases heq : it' = it
  · rw [if_pos heq, heq]
    constructor
    · intro h
      have hne := h.2
      rw [beq_self_eq_true] at hne
      cases hne
    · intro h
      cases h
  · rw [if_neg heq]
    apply and_iff_left
    rw [beq_eq_false_iff_ne.mpr heq]
    rfl

/-!
# Counting
-/

theorem size_eq_length_toList : l.size = l.toList.length :=
  (List.length_map _).symm

theorem toList_pushBack : (l.pushBack x).2.toList = l.toList ++ [x] :=
  List.map_append

variable {l x it}

theorem perm_erase (h : l.deref it = some x) : l.toList.Perm (x :: (l.erase it).toList) := by
  have hmem := deref_eq_some_iff.mp h
  have hnodup := l.nodup
  change (l.nodes.map Prod.snd).Perm
    (x :: ((l.nodes.filter fun e => !(e.1 == it)).map Prod.snd))
  revert hmem hnodup
  induction l.nodes with
  | nil =>
      intro hmem
      cases hmem
  | cons e es ih =>
      intro hmem hnodup
      rw [List.map_cons, List.nodup_cons] at hnodup
      by_cases heq : e.1 = it
      · -- no other element has this iterator
        have hrest : es.filter (fun e => !(e.1 == it)) = es := by
          apply List.filter_eq_self.mpr
          intro e' he'
          have hne : e'.1 ≠ it := by
            intro hit
            apply hnodup.1
            rw [heq, ← hit]
            exact List.mem_map_of_mem he'
          rw [beq_eq_false_iff_ne.mpr hne]
          rfl
        have hx : e.2 = x := by
          rcases List.mem_cons.mp hmem with hhead | htail
          · rw [← hhead]
          · exact absurd (List.mem_map_of_mem htail) (heq ▸ hnodup.1)
        rw [List.filter_cons_of_neg (by simp [heq]), hrest, List.map_cons, hx]
      · rcases List.mem_cons.mp hmem with hhead | htail
        · rw [← hhead] at heq
          exact absurd rfl heq
        · rw [List.filter_cons_of_pos (by simp [heq]), List.map_cons, List.map_cons]
          exact ((ih htail hnodup.2).cons e.2).trans (List.Perm.swap x e.2 _)

theorem size_erase (h : l.deref it = some x) : (l.erase it).size + 1 = l.size := by
  rw [size_eq_length_toList, size_eq_length_toList, (perm_erase h).length_eq, List.length_cons]

theorem countP_erase (P : item -> Bool) (h : l.deref it = some x) :
    (l.erase it).toList.countP P + (if P x then 1 else 0) = l.toList.countP P := by
  rw [(perm_erase h).countP_eq, List.countP_cons]

end LinkedList

/-!
# An index of positions
-/

variable {key position : Type}

/-- The index has one entry for each key that stands somewhere, which says where. -/
def PointsAt (index : key -> Option position) (keyAt : position -> Option key) : Prop :=
  forall k p, index k = some p <-> keyAt p = some k

namespace PointsAt

variable {index index' : key -> Option position} {keyAt keyAt' : position -> Option key}

/-- No key stands in two places. -/
theorem unique (h : PointsAt index keyAt) {k : key} {p p' : position} (hp : keyAt p = some k)
    (hp' : keyAt p' = some k) : p = p' := by
  have hk := (h k p).mpr hp
  rw [(h k p').mpr hp'] at hk
  cases hk
  rfl

variable [DecidableEq key] [DecidableEq position]

theorem add (h : PointsAt index keyAt) {k : key} {p : position} (hk : index k = none)
    (hp : keyAt p = none) (hindex : forall k', index' k' = if k' = k then some p else index k')
    (hkeyAt : forall p', keyAt' p' = if p' = p then some k else keyAt p') :
    PointsAt index' keyAt' := by
  intro k' p'
  rw [hindex, hkeyAt]
  by_cases heqk : k' = k
  · by_cases heqp : p' = p
    · rw [if_pos heqk, if_pos heqp, heqk, heqp]
      exact iff_of_true rfl rfl
    · rw [if_pos heqk, if_neg heqp, ← h, heqk, hk]
      constructor
      · intro heq
        cases heq
        exact absurd rfl heqp
      · intro heq
        cases heq
  · by_cases heqp : p' = p
    · rw [if_neg heqk, if_pos heqp, h, heqp, hp]
      constructor
      · intro heq
        cases heq
      · intro heq
        cases heq
        exact absurd rfl heqk
    · rw [if_neg heqk, if_neg heqp]
      exact h k' p'

omit [DecidableEq position] in
/-- Positions are given up, and the keys there leave the index. -/
theorem remove (h : PointsAt index keyAt) (keys : List key) (gone : position -> Prop)
    [DecidablePred gone]
    (hkeys : forall k, k ∈ keys <-> exists p, gone p ∧ keyAt p = some k)
    (hindex : forall k, index' k = if k ∈ keys then none else index k)
    (hkeyAt : forall p, keyAt' p = if gone p then none else keyAt p) : PointsAt index' keyAt' := by
  intro k p
  rw [hindex, hkeyAt]
  by_cases hk : k ∈ keys
  · rw [if_pos hk]
    apply iff_of_false
    · intro heq
      cases heq
    · intro heq
      by_cases hp : gone p
      · rw [if_pos hp] at heq
        cases heq
      · rw [if_neg hp] at heq
        rcases (hkeys k).mp hk with ⟨p', hgone, hp'⟩
        rw [h.unique heq hp'] at hp
        exact hp hgone
  · rw [if_neg hk]
    by_cases hp : gone p
    · rw [if_pos hp]
      apply iff_of_false
      · intro heq
        exact hk ((hkeys k).mpr ⟨p, hp, (h k p).mp heq⟩)
      · intro heq
        cases heq
    · rw [if_neg hp]
      exact h k p

end PointsAt

end Foundation
end Hbcur

/-!
# Priority queues

A queue is kept in a list of its items, whose order is up to the operations.  They are given
the comparison each time, so that a user may change it and make the queue anew.  All that a
user may rely on is which items there are, and that one is taken out of a queue with any.
-/

namespace Hbcur
namespace Foundation

structure PriorityQueue (item : Type) where
  make : (item -> item -> Bool) -> List item -> List item
  push : (item -> item -> Bool) -> List item -> item -> List item
  pop : (item -> item -> Bool) -> List item -> Option (item × List item)
  make_perm : forall (less : item -> item -> Bool) (queue : List item),
    (make less queue).Perm queue
  push_perm : forall (less : item -> item -> Bool) (queue : List item) (x : item),
    (push less queue x).Perm (x :: queue)
  perm_of_pop : forall {less : item -> item -> Bool} {queue rest : List item} {x : item},
    pop less queue = some (x, rest) -> (x :: rest).Perm queue
  eq_nil_of_pop : forall {less : item -> item -> Bool} {queue : List item},
    pop less queue = none -> queue = []

namespace PriorityQueue

variable {item : Type}

theorem mem_make {pq : PriorityQueue item} {less : item -> item -> Bool} {queue : List item}
    {x : item} : x ∈ pq.make less queue <-> x ∈ queue :=
  (pq.make_perm less queue).mem_iff

theorem mem_push {pq : PriorityQueue item} {less : item -> item -> Bool} {queue : List item}
    {x y : item} : y ∈ pq.push less queue x <-> y = x ∨ y ∈ queue := by
  rw [(pq.push_perm less queue x).mem_iff, List.mem_cons]

/-- The first of the greatest items, and the others. -/
def popFirst (less : item -> item -> Bool) : List item -> Option (item × List item)
  | [] => none
  | x :: rest =>
      match popFirst less rest with
      | none => some (x, [])
      | some (y, others) => if less x y then some (y, x :: others) else some (x, rest)

theorem popFirst_perm {less : item -> item -> Bool} :
    forall {queue rest : List item} {x : item}, popFirst less queue = some (x, rest) ->
      (x :: rest).Perm queue := by
  intro queue
  induction queue with
  | nil => nofun
  | cons first queue ih =>
      intro rest x h
      rw [popFirst] at h
      cases hpop : popFirst less queue with
      | none =>
          rw [hpop] at h
          cases h
          cases queue with
          | nil => exact List.Perm.refl _
          | cons second queue =>
              rw [popFirst] at hpop
              split at hpop
              · cases hpop
              · split_ifs at hpop
      | some found =>
          rcases found with ⟨y, others⟩
          rw [hpop] at h
          simp only at h
          split_ifs at h
          · cases h
            exact (List.Perm.swap first x others).trans ((ih hpop).cons first)
          · cases h
            exact List.Perm.refl _

theorem popFirst_eq_none {less : item -> item -> Bool} {queue : List item}
    (h : popFirst less queue = none) : queue = [] := by
  cases queue with
  | nil => rfl
  | cons first queue =>
      rw [popFirst] at h
      split at h
      · cases h
      · split_ifs at h

/-- A queue which is searched for its greatest item. -/
def scan (item : Type) : PriorityQueue item where
  make _ queue := queue
  push _ queue x := x :: queue
  pop := popFirst
  make_perm _ queue := List.Perm.refl queue
  push_perm _ queue x := List.Perm.refl (x :: queue)
  perm_of_pop := popFirst_perm
  eq_nil_of_pop := popFirst_eq_none

end PriorityQueue

end Foundation
end Hbcur

/-!
# Records in the order of their keys

A store which keeps its records in the order of their keys and holds one record for each.
-/

namespace Hbcur
namespace Foundation

variable {key value : Type} (order : key -> Nat)

def Ordered (records : List (key × value)) : Prop :=
  records.Pairwise (fun a b => order a.1 < order b.1)

/-- Put a record in its place, or in the place of the one with its key. -/
def insertRecord (k : key) (r : value) : List (key × value) -> List (key × value)
  | [] => [(k, r)]
  | entry :: rest =>
      if order k < order entry.1 then (k, r) :: entry :: rest
      else if order entry.1 < order k then entry :: insertRecord k r rest
      else (k, r) :: rest

variable {order}

theorem mem_insertRecord {k : key} {r : value} {entry : key × value}
    (records : List (key × value)) (h : entry ∈ insertRecord order k r records) :
    entry = (k, r) ∨ entry ∈ records := by
  induction records with
  | nil => exact Or.inl (List.mem_singleton.mp h)
  | cons first rest ih =>
      rw [insertRecord] at h
      split_ifs at h
      · exact (List.mem_cons.mp h).imp id id
      · rcases List.mem_cons.mp h with rfl | h
        · exact Or.inr List.mem_cons_self
        · exact (ih h).imp id (List.mem_cons_of_mem first)
      · exact (List.mem_cons.mp h).imp id (List.mem_cons_of_mem first)

theorem ordered_insertRecord {k : key} {r : value} (records : List (key × value))
    (h : Ordered order records) : Ordered order (insertRecord order k r records) := by
  induction records with
  | nil => exact List.pairwise_singleton _ _
  | cons first rest ih =>
      rcases List.pairwise_cons.mp h with ⟨hfirst, hrest⟩
      rw [insertRecord]
      split_ifs with hlt hgt
      · refine List.pairwise_cons.mpr ⟨?_, h⟩
        intro entry hentry
        rcases List.mem_cons.mp hentry with rfl | hentry
        · exact hlt
        · exact Nat.lt_trans hlt (hfirst entry hentry)
      · refine List.pairwise_cons.mpr ⟨?_, ih hrest⟩
        intro entry hentry
        rcases mem_insertRecord rest hentry with rfl | hentry
        · exact hgt
        · exact hfirst entry hentry
      · refine List.pairwise_cons.mpr ⟨?_, hrest⟩
        intro entry hentry
        have hle : order k ≤ order first.1 := Nat.not_lt.mp hgt
        exact Nat.lt_of_le_of_lt hle (hfirst entry hentry)

/-- The records after one has been put in. -/
theorem mem_insertRecord_iff {k : key} {r : value} {entry : key × value}
    (records : List (key × value)) (h : Ordered order records) :
    entry ∈ insertRecord order k r records <->
      entry = (k, r) ∨ entry ∈ records ∧ order entry.1 ≠ order k := by
  induction records with
  | nil => simp [insertRecord]
  | cons first rest ih =>
      rcases List.pairwise_cons.mp h with ⟨hfirst, hrest⟩
      rw [insertRecord]
      split_ifs with hlt hgt
      · have hother : entry ∈ first :: rest -> order entry.1 ≠ order k := by
          intro hmem
          rcases List.mem_cons.mp hmem with rfl | hmem
          · exact Nat.ne_of_gt hlt
          · exact Nat.ne_of_gt (Nat.lt_trans hlt (hfirst entry hmem))
        rw [List.mem_cons, and_iff_left_of_imp hother]
      · rw [List.mem_cons, ih hrest, List.mem_cons]
        constructor
        · intro hmem
          rcases hmem with rfl | hnew | hold
          · exact Or.inr ⟨Or.inl rfl, Nat.ne_of_lt hgt⟩
          · exact Or.inl hnew
          · exact Or.inr ⟨Or.inr hold.1, hold.2⟩
        · intro hmem
          rcases hmem with hnew | ⟨rfl | hold, hne⟩
          · exact Or.inr (Or.inl hnew)
          · exact Or.inl rfl
          · exact Or.inr (Or.inr ⟨hold, hne⟩)
      · have hsame : order first.1 = order k :=
          Nat.le_antisymm (Nat.not_lt.mp hlt) (Nat.not_lt.mp hgt)
        rw [List.mem_cons, List.mem_cons]
        constructor
        · intro hmem
          rcases hmem with hnew | hold
          · exact Or.inl hnew
          · exact Or.inr ⟨Or.inr hold, Nat.ne_of_gt (hsame ▸ hfirst entry hold)⟩
        · intro hmem
          rcases hmem with hnew | ⟨rfl | hold, hne⟩
          · exact Or.inl hnew
          · exact absurd hsame hne
          · exact Or.inr hold

variable (order)

end Foundation
end Hbcur
