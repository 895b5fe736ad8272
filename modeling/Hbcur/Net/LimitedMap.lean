import Hbcur.Foundation.StdMap

/-!
# The limited map

`limitedmap.h`: a map next to an index of its entries by value.  An iterator into the map is the
key of its entry, and an iterator into the index is the place of its entry.
-/

namespace Hbcur

open Foundation

variable {key value : Type}

structure LimitedMap (key value : Type) where
  map : StdMap key value := ∅
  rmap : List (value × key) := []
  nMaxSize : Nat := 0

namespace LimitedMap

def size (m : LimitedMap key value) : Nat := m.map.entries.length

section Operations

variable [DecidableEq key] [LinearOrder value]

/-!
# The operations

Nothing where an assertion fails or an iterator is followed which leads nowhere.
-/

/-- `rmap.insert`, behind the entries of the same value. -/
def link (m : LimitedMap key value) (v : value) (k : key) : LimitedMap key value :=
  { m with rmap := m.rmap.orderedInsert (fun e e' => e.1 < e'.1) (v, k) }

/-- Look for the entry among those of its value, and erase it from the index. -/
def unlink (m : LimitedMap key value) (v : value) (k : key) : Option (LimitedMap key value) :=
  if (m.rmap.filter fun e => decide (e.1 = v)).any fun e => decide (e.2 = k) then
    some { m with rmap := m.rmap.erase (v, k) }
  else none

/-- Erase the entry which the index begins with. -/
def evict (m : LimitedMap key value) : Option (LimitedMap key value) :=
  match m.rmap with
  | [] => none
  | (_, k) :: rest =>
      if StdMap.contains m.map k then some { m with map := m.map.erase k, rmap := rest }
      else none

def insert (m : LimitedMap key value) (k : key) (v : value) : Option (LimitedMap key value) :=
  if StdMap.contains m.map k then some m
  else
    let m := { m with map := m.map.insert k v }
    (if m.nMaxSize ≠ 0 ∧ m.size = m.nMaxSize then m.evict else some m).map fun m => m.link v k

def erase (m : LimitedMap key value) (k : key) : Option (LimitedMap key value) :=
  match m.map.lookup k with
  | none => some m
  | some v => (m.unlink v k).map fun m => { m with map := m.map.erase k }

/-- `update`, of an iterator to the entry of a key. -/
def update (m : LimitedMap key value) (k : key) (v : value) : Option (LimitedMap key value) :=
  match m.map.lookup k with
  | none => some m
  | some old =>
      (m.unlink old k).map fun m => { m with map := m.map.insert k v }.link v k

/-- The loop of `max_size`, for a number of rounds. -/
def evictTo (s : Nat) : Nat -> LimitedMap key value -> Option (LimitedMap key value)
  | 0, m => if m.size ≤ s then some m else none
  | rounds + 1, m => if m.size ≤ s then some m else m.evict.bind (evictTo s rounds)

def setMaxSize (m : LimitedMap key value) (s : Nat) : Option (LimitedMap key value) :=
  (if s ≠ 0 then evictTo s m.size m else some m).map fun m => { m with nMaxSize := s }

end Operations

/-!
# The index
-/

/-- The entries of a map by their values. -/
def entriesByValue (map : StdMap key value) : List (value × key) :=
  map.entries.map fun e => (e.2, e.1)

/-- The index holds all entries but those which are pending. -/
structure Indexed [LE value] (pending : List (value × key)) (m : LimitedMap key value) :
    Prop where
  sorted : m.rmap.Pairwise fun e e' => e.1 ≤ e'.1
  perm : (pending ++ m.rmap).Perm (entriesByValue m.map)

section Entries

variable [DecidableEq key] {map : StdMap key value} {v : value} {k : key}

theorem mem_entriesByValue : (v, k) ∈ entriesByValue map <-> map.lookup k = some v := by
  unfold entriesByValue
  rw [List.mem_map]
  constructor
  · rintro ⟨e, hmem, heq⟩
    cases heq
    exact AList.mem_lookup_iff.mpr hmem
  · intro h
    exact ⟨⟨k, v⟩, AList.mem_lookup_iff.mp h, rfl⟩

theorem perm_entriesByValue_erase (h : map.lookup k = some v) :
    (entriesByValue map).Perm ((v, k) :: entriesByValue (map.erase k)) :=
  (StdMap.perm_erase_of_lookup map k v h).map _

theorem entriesByValue_insert_new (h : map.lookup k = none) (v : value) :
    entriesByValue (map.insert k v) = (v, k) :: entriesByValue map := by
  unfold entriesByValue
  rw [StdMap.entries_insert_new map k v ((StdMap.contains_eq_false_iff map k).mpr h)]
  rfl

end Entries

theorem Indexed.length_eq [LE value] {pending : List (value × key)} {m : LimitedMap key value}
    (h : Indexed pending m) : pending.length + m.rmap.length = m.size := by
  have hlength := h.perm.length_eq
  unfold entriesByValue at hlength
  rw [List.length_append, List.length_map] at hlength
  exact hlength

/-- An entry behind those of its value keeps the order. -/
theorem sorted_orderedInsert [LinearOrder value] {rmap : List (value × key)}
    (h : rmap.Pairwise fun e e' => e.1 ≤ e'.1) (entry : value × key) :
    (rmap.orderedInsert (fun e e' => e.1 < e'.1) entry).Pairwise fun e e' => e.1 ≤ e'.1 := by
  induction rmap with
  | nil => exact List.pairwise_singleton _ _
  | cons first rest ih =>
      rw [List.pairwise_cons] at h
      rw [List.orderedInsert]
      split_ifs with hlt
      · rw [List.pairwise_cons, List.pairwise_cons]
        refine ⟨?_, h⟩
        intro e hmem
        rcases List.mem_cons.mp hmem with rfl | hrest
        · exact le_of_lt hlt
        · exact (le_of_lt hlt).trans (h.1 e hrest)
      · rw [List.pairwise_cons]
        refine ⟨?_, ih h.2⟩
        intro e hmem
        rw [(List.perm_orderedInsert _ entry rest).mem_iff, List.mem_cons] at hmem
        rcases hmem with rfl | hrest
        · exact not_lt.mp hlt
        · exact h.1 e hrest

/-!
# What the parts of the operations do to the index
-/

namespace Indexed

variable [DecidableEq key] [LinearOrder value] {pending : List (value × key)}
  {m : LimitedMap key value} {v : value} {k : key}

theorem lookup_of_pending (h : Indexed ((v, k) :: pending) m) : m.map.lookup k = some v :=
  mem_entriesByValue.mp (h.perm.mem_iff.mp List.mem_cons_self)

/-- A new entry is in the map before it is in the index. -/
theorem put (h : Indexed [] m) (hnew : m.map.lookup k = none) (v : value) :
    Indexed [(v, k)] { m with map := m.map.insert k v } := by
  refine ⟨h.sorted, ?_⟩
  change ((v, k) :: m.rmap).Perm (entriesByValue (m.map.insert k v))
  rw [entriesByValue_insert_new hnew]
  exact h.perm.cons (v, k)

omit [DecidableEq key] in
theorem link (h : Indexed [(v, k)] m) : Indexed [] (m.link v k) :=
  ⟨sorted_orderedInsert h.sorted (v, k), (List.perm_orderedInsert _ _ _).trans h.perm⟩

/-- The entry is found, so that the assertion behind the loop is not reached. -/
theorem unlink (h : Indexed [] m) (hlookup : m.map.lookup k = some v) :
    m.unlink v k = some { m with rmap := m.rmap.erase (v, k) } ∧
      Indexed [(v, k)] { m with rmap := m.rmap.erase (v, k) } := by
  have hmem : (v, k) ∈ m.rmap := h.perm.mem_iff.mpr (mem_entriesByValue.mpr hlookup)
  constructor
  · unfold LimitedMap.unlink
    rw [if_pos]
    rw [List.any_eq_true]
    exact ⟨(v, k), List.mem_filter.mpr ⟨hmem, decide_eq_true rfl⟩, decide_eq_true rfl⟩
  · exact ⟨h.sorted.sublist List.erase_sublist, (List.perm_cons_erase hmem).symm.trans h.perm⟩

theorem remove (h : Indexed [(v, k)] m) : Indexed [] { m with map := m.map.erase k } := by
  refine ⟨h.sorted, ?_⟩
  exact (h.perm.trans (perm_entriesByValue_erase h.lookup_of_pending)).cons_inv

theorem overwrite (h : Indexed [(v, k)] m) (v' : value) :
    Indexed [(v', k)] { m with map := m.map.insert k v' } :=
  ⟨h.sorted, h.remove.perm.cons (v', k)⟩

/-- What is evicted: an entry of the index with the least value. -/
structure Evicted (m m' : LimitedMap key value) (v : value) (k : key) : Prop where
  lookup_eq : m.map.lookup k = some v
  least : forall e, e ∈ m.rmap -> v ≤ e.1
  map_eq : m'.map = m.map.erase k
  nMaxSize_eq : m'.nMaxSize = m.nMaxSize
  size_eq : m'.size + 1 = m.size

theorem evict (h : Indexed pending m) (hne : m.rmap ≠ []) :
    exists m' v k, m.evict = some m' ∧ Evicted m m' v k ∧ Indexed pending m' := by
  cases hrmap : m.rmap with
  | nil => exact absurd hrmap hne
  | cons first rest =>
      rcases first with ⟨v, k⟩
      have hlookup : m.map.lookup k = some v := by
        apply mem_entriesByValue.mp
        apply h.perm.mem_iff.mp
        rw [hrmap]
        exact List.mem_append_right pending List.mem_cons_self
      have hperm := perm_entriesByValue_erase hlookup
      have hsorted := h.sorted
      rw [hrmap, List.pairwise_cons] at hsorted
      refine ⟨{ m with map := m.map.erase k, rmap := rest }, v, k, ?_, ⟨hlookup, ?_, rfl, rfl, ?_⟩,
        hsorted.2, ?_⟩
      · unfold LimitedMap.evict
        rw [hrmap]
        exact if_pos ((StdMap.contains_iff m.map k).mpr ⟨v, hlookup⟩)
      · intro e hmem
        rw [hrmap] at hmem
        rcases List.mem_cons.mp hmem with rfl | hrest
        · exact le_refl _
        · exact hsorted.1 e hrest
      · have hlength := hperm.length_eq
        unfold entriesByValue at hlength
        rw [List.length_cons, List.length_map, List.length_map] at hlength
        exact hlength.symm
      · have hmiddle := h.perm
        rw [hrmap] at hmiddle
        exact (List.perm_middle.symm.trans (hmiddle.trans hperm)).cons_inv

end Indexed

/-!
# What the operations do
-/

section Spec

variable [DecidableEq key] [LinearOrder value] {m m' : LimitedMap key value} {k : key}

/-- An insertion would reach the limit. -/
def Full (m : LimitedMap key value) : Prop := m.nMaxSize ≠ 0 ∧ m.size + 1 = m.nMaxSize

instance (m : LimitedMap key value) : Decidable m.Full :=
  inferInstanceAs (Decidable (_ ∧ _))

omit [LinearOrder value] in
theorem size_put (hnew : m.map.lookup k = none) (v : value) :
    size { m with map := m.map.insert k v } = m.size + 1 := by
  unfold size
  rw [StdMap.entries_insert_new m.map k v ((StdMap.contains_eq_false_iff m.map k).mpr hnew)]
  rfl

theorem insert_old (hold : m.map.lookup k ≠ none) (v : value) : m.insert k v = some m := by
  unfold insert
  apply if_pos
  exact (StdMap.contains_iff m.map k).mpr (Option.ne_none_iff_exists'.mp hold)

theorem insert_new (hnew : m.map.lookup k = none) (v : value) :
    m.insert k v =
      (if m.Full then evict { m with map := m.map.insert k v }
        else some { m with map := m.map.insert k v }).map fun m => m.link v k := by
  unfold insert
  rw [if_neg (Bool.eq_false_iff.mp ((StdMap.contains_eq_false_iff m.map k).mpr hnew))]
  simp only [size_put hnew]
  rfl

theorem insert_of_not_full (h : Indexed [] m) (hnew : m.map.lookup k = none) (hfull : ¬ m.Full)
    (v : value) :
    exists m', m.insert k v = some m' ∧ Indexed [] m' ∧ m'.nMaxSize = m.nMaxSize ∧
      m'.size = m.size + 1 ∧ m'.map = m.map.insert k v := by
  refine ⟨link { m with map := m.map.insert k v } v k, ?_, (h.put hnew v).link, rfl,
    size_put hnew v, rfl⟩
  rw [insert_new hnew, if_neg hfull]
  rfl

/-- At the limit an older entry makes room, also where its value is the larger one. -/
theorem insert_of_full (h : Indexed [] m) (hnew : m.map.lookup k = none) (hfull : m.Full)
    (hsize : m.size ≠ 0) (v : value) :
    exists m', m.insert k v = some m' ∧ Indexed [] m' ∧ m'.nMaxSize = m.nMaxSize ∧
      m'.size = m.size := by
  have hput := h.put hnew v
  have hne : m.rmap ≠ [] := by
    intro hnil
    have hlength := h.length_eq
    rw [hnil] at hlength
    exact hsize hlength.symm
  rcases hput.evict hne with ⟨m', v', k', hevict, hevicted, hindexed⟩
  refine ⟨m'.link v k, ?_, hindexed.link, hevicted.nMaxSize_eq, ?_⟩
  · rw [insert_new hnew, if_pos hfull, hevict]
    rfl
  · have hsizes := hevicted.size_eq
    rw [size_put hnew] at hsizes
    exact Nat.succ_inj.mp hsizes

/-- With the limit one, there is nothing which the index begins with. -/
theorem insert_of_limit_one (h : Indexed [] m) (hnew : m.map.lookup k = none) (hfull : m.Full)
    (hsize : m.size = 0) (v : value) : m.insert k v = none := by
  have hnil : m.rmap = [] := by
    have hlength := h.length_eq
    rw [hsize, List.length_nil, Nat.zero_add] at hlength
    exact List.length_eq_zero_iff.mp hlength
  rw [insert_new hnew, if_pos hfull]
  unfold evict
  simp only [hnil]
  rfl

theorem erase_spec (h : Indexed [] m) (k : key) :
    exists m', m.erase k = some m' ∧ Indexed [] m' ∧ m'.nMaxSize = m.nMaxSize ∧
      m'.size ≤ m.size := by
  unfold erase
  cases hlookup : m.map.lookup k with
  | none => exact ⟨m, rfl, h, rfl, Nat.le_refl _⟩
  | some v =>
      rcases h.unlink hlookup with ⟨hunlink, hpending⟩
      have hindexed := hpending.remove
      refine ⟨_, ?_, hindexed, rfl, ?_⟩
      · simp only [hunlink]
        rfl
      · have hlength := hindexed.length_eq
        have hlength' := h.length_eq
        have hle := @List.length_erase_le _ _ (v, k) m.rmap
        rw [List.length_nil, Nat.zero_add] at hlength hlength'
        exact (Nat.le_of_eq hlength.symm).trans (hle.trans (Nat.le_of_eq hlength'))

theorem update_spec (h : Indexed [] m) (k : key) (v : value) :
    exists m', m.update k v = some m' ∧ Indexed [] m' ∧ m'.nMaxSize = m.nMaxSize ∧
      m'.size = m.size := by
  unfold update
  cases hlookup : m.map.lookup k with
  | none => exact ⟨m, rfl, h, rfl, rfl⟩
  | some old =>
      rcases h.unlink hlookup with ⟨hunlink, hpending⟩
      have hover := hpending.overwrite v
      refine ⟨_, ?_, hover.link, rfl, ?_⟩
      · simp only [hunlink]
        rfl
      · have hlength := hover.length_eq
        have hlength' := hpending.length_eq
        exact hlength.symm.trans hlength'

/-- What is dropped is not larger than what is kept. -/
structure KeepsLargest (m m' : LimitedMap key value) : Prop where
  kept : forall k v, m'.map.lookup k = some v -> m.map.lookup k = some v
  dropped_le : forall k v, m.map.lookup k = some v -> m'.map.lookup k = none ->
    forall k' v', m'.map.lookup k' = some v' -> v ≤ v'

theorem KeepsLargest.refl (m : LimitedMap key value) : KeepsLargest m m := by
  refine ⟨fun k v h => h, ?_⟩
  intro k v hlookup hnone
  rw [hlookup] at hnone
  cases hnone

theorem KeepsLargest.trans {m'' : LimitedMap key value} (h : KeepsLargest m m')
    (h' : KeepsLargest m' m'') : KeepsLargest m m'' := by
  refine ⟨fun k v hlookup => h.kept k v (h'.kept k v hlookup), ?_⟩
  intro k v hlookup hnone k' v' hkept
  cases hmiddle : m'.map.lookup k with
  | none => exact h.dropped_le k v hlookup hmiddle k' v' (h'.kept k' v' hkept)
  | some w =>
      have hvalue := h.kept k w hmiddle
      rw [hlookup, Option.some.injEq] at hvalue
      rw [hvalue]
      exact h'.dropped_le k w hmiddle hnone k' v' hkept

theorem keepsLargest_evict {v : value} (h : Indexed [] m) (hevicted : Indexed.Evicted m m' v k) :
    KeepsLargest m m' := by
  have hlookup : forall k', m'.map.lookup k' = if k' = k then none else m.map.lookup k' := by
    intro k'
    rw [hevicted.map_eq]
    exact StdMap.lookup_erase_eq m.map k' k
  constructor
  · intro k' v' hkept
    rw [hlookup] at hkept
    split_ifs at hkept
    exact hkept
  · intro k' w hbefore hnone k'' v'' hkept
    rw [hlookup] at hnone hkept
    split_ifs at hnone hkept with heq
    · subst heq
      rw [hevicted.lookup_eq, Option.some.injEq] at hbefore
      rw [← hbefore]
      exact hevicted.least (v'', k'') (h.perm.mem_iff.mpr (mem_entriesByValue.mpr hkept))
    · rw [hbefore] at hnone
      cases hnone

theorem evictTo_spec {s : Nat} :
    forall {rounds : Nat} {m : LimitedMap key value}, Indexed [] m -> m.size ≤ rounds + s ->
      exists m', evictTo s rounds m = some m' ∧ Indexed [] m' ∧ m'.size ≤ s ∧
        KeepsLargest m m' := by
  intro rounds
  induction rounds with
  | zero =>
      intro m h hsize
      rw [Nat.zero_add] at hsize
      exact ⟨m, if_pos hsize, h, hsize, KeepsLargest.refl m⟩
  | succ rounds ih =>
      intro m h hsize
      rw [evictTo]
      split_ifs with hle
      · exact ⟨m, rfl, h, hle, KeepsLargest.refl m⟩
      · have hne : m.rmap ≠ [] := by
          intro hnil
          have hlength := h.length_eq
          rw [hnil, List.length_nil] at hlength
          omega
        rcases h.evict hne with ⟨m1, v, k, hevict, hevicted, hindexed⟩
        have hsizes := hevicted.size_eq
        rcases ih hindexed (by omega) with ⟨m', hrest, hindexed', hle', hkeeps⟩
        refine ⟨m', ?_, hindexed', hle', (keepsLargest_evict h hevicted).trans hkeeps⟩
        rw [hevict]
        exact hrest

theorem setMaxSize_spec (h : Indexed [] m) (s : Nat) :
    exists m', m.setMaxSize s = some m' ∧ Indexed [] m' ∧ m'.nMaxSize = s ∧
      (s ≠ 0 -> m'.size ≤ s) ∧ KeepsLargest m m' := by
  unfold setMaxSize
  split_ifs with hs
  · rcases evictTo_spec h (Nat.le_add_right m.size s) with
      ⟨m', hevict, hindexed, hle, hkeeps⟩
    refine ⟨{ m' with nMaxSize := s }, ?_, ⟨hindexed.sorted, hindexed.perm⟩, rfl,
      fun _ => hle, ⟨hkeeps.kept, hkeeps.dropped_le⟩⟩
    rw [hevict]
    rfl
  · refine ⟨{ m with nMaxSize := s }, rfl, ⟨h.sorted, h.perm⟩, rfl, fun hne => absurd hne hs, ?_⟩
    exact ⟨(KeepsLargest.refl m).kept, (KeepsLargest.refl m).dropped_le⟩

end Spec

/-!
# Runs
-/

inductive Call (key value : Type) where
  | insert (k : key) (v : value)
  | erase (k : key)
  | update (k : key) (v : value)
  | maxSize (s : Nat)
  deriving DecidableEq

section Runs

variable [DecidableEq key] [LinearOrder value]

def apply (m : LimitedMap key value) : Call key value -> Option (LimitedMap key value)
  | Call.insert k v => m.insert k v
  | Call.erase k => m.erase k
  | Call.update k v => m.update k v
  | Call.maxSize s => m.setMaxSize s

/-- The index is the one of the map, and the limit is observed. -/
structure Limited (m : LimitedMap key value) : Prop where
  indexed : Indexed [] m
  size_le : m.nMaxSize ≠ 0 -> m.size ≤ m.nMaxSize

/-- Every call comes to an end with a map which is limited, and lowering the limit drops the
smallest. -/
def Keeps : LimitedMap key value -> List (Call key value) -> Prop
  | _, [] => True
  | m, call :: calls =>
      exists m', m.apply call = some m' ∧ Limited m' ∧
        (forall s, call = Call.maxSize s -> KeepsLargest m m') ∧ Keeps m' calls

/-- The map can take a new entry. -/
def Takes (m : LimitedMap key value) : Prop :=
  m.nMaxSize = 0 ∨ (2 ≤ m.nMaxSize ∧ m.size < m.nMaxSize)

/-- The map can take what is inserted, unless it is there already. -/
def Allowed (m : LimitedMap key value) : Call key value -> Prop
  | Call.insert k _ => m.map.lookup k = none -> m.Takes
  | _ => True

/-- Every call of a run is allowed in the state which it finds. -/
def AllAllowed : LimitedMap key value -> List (Call key value) -> Prop
  | _, [] => True
  | m, call :: calls =>
      m.Allowed call ∧ forall m', m' ∈ m.apply call -> AllAllowed m' calls

instance (m : LimitedMap key value) : Decidable m.Takes :=
  inferInstanceAs (Decidable (_ ∨ _))

instance (m : LimitedMap key value) : forall call, Decidable (m.Allowed call)
  | Call.insert k _ => inferInstanceAs (Decidable (m.map.lookup k = none -> m.Takes))
  | Call.erase _ => isTrue trivial
  | Call.update _ _ => isTrue trivial
  | Call.maxSize _ => isTrue trivial

def decideAllAllowed : forall (m : LimitedMap key value) (calls : List (Call key value)),
    Decidable (AllAllowed m calls)
  | _, [] => isTrue trivial
  | m, call :: calls =>
      have := fun m' => decideAllAllowed m' calls
      inferInstanceAs (Decidable (_ ∧ forall m', m' ∈ m.apply call -> _))

instance (m : LimitedMap key value) (calls : List (Call key value)) :
    Decidable (AllAllowed m calls) :=
  decideAllAllowed m calls

/-- A new entry is taken, and within the limit, exactly where it can be. -/
theorem insert_iff {m : LimitedMap key value} {k : key} (h : Limited m)
    (hnew : m.map.lookup k = none) (v : value) :
    (exists m', m.insert k v = some m' ∧ Limited m') <-> m.Takes := by
  have hbound := h.size_le
  unfold Takes
  by_cases hfull : m.Full
  · rcases hfull with ⟨hlimit, hnext⟩
    by_cases hsize : m.size = 0
    · rw [insert_of_limit_one h.indexed hnew ⟨hlimit, hnext⟩ hsize v]
      refine iff_of_false ?_ (by omega)
      rintro ⟨m', hnone, -⟩
      cases hnone
    · rcases insert_of_full h.indexed hnew ⟨hlimit, hnext⟩ hsize v with
        ⟨m', hinsert, hindexed, hmax, hsame⟩
      refine iff_of_true ⟨m', hinsert, hindexed, fun _ => ?_⟩ (by omega)
      omega
  · rcases insert_of_not_full h.indexed hnew hfull v with
      ⟨m', hinsert, hindexed, hmax, hsize, -⟩
    unfold Full at hfull
    constructor
    · rintro ⟨m'', hinsert', hlimited⟩
      rw [hinsert, Option.some.injEq] at hinsert'
      subst hinsert'
      have hbound' := hlimited.size_le
      rw [hmax] at hbound'
      omega
    · intro htakes
      refine ⟨m', hinsert, hindexed, fun hne => ?_⟩
      rw [hmax] at hne ⊢
      omega

theorem apply_iff {m : LimitedMap key value} (h : Limited m) (call : Call key value) :
    (exists m', m.apply call = some m' ∧ Limited m' ∧
        forall s, call = Call.maxSize s -> KeepsLargest m m') <-> m.Allowed call := by
  cases call with
  | insert k v =>
      by_cases hnew : m.map.lookup k = none
      · have hiff := insert_iff h hnew v
        constructor
        · rintro ⟨m', happly, hlimited, -⟩ _
          exact hiff.mp ⟨m', happly, hlimited⟩
        · intro hallowed
          rcases hiff.mpr (hallowed hnew) with ⟨m', hinsert, hlimited⟩
          exact ⟨m', hinsert, hlimited, nofun⟩
      · refine iff_of_true ⟨m, insert_old hnew v, h, nofun⟩ ?_
        intro hnone
        exact absurd hnone hnew
  | erase k =>
      rcases erase_spec h.indexed k with ⟨m', herase, hindexed, hmax, hsize⟩
      refine iff_of_true ⟨m', herase, ⟨hindexed, fun hne => ?_⟩, nofun⟩ trivial
      rw [hmax] at hne ⊢
      exact hsize.trans (h.size_le hne)
  | update k v =>
      rcases update_spec h.indexed k v with ⟨m', hupdate, hindexed, hmax, hsize⟩
      refine iff_of_true ⟨m', hupdate, ⟨hindexed, fun hne => ?_⟩, nofun⟩ trivial
      rw [hmax] at hne ⊢
      exact (Nat.le_of_eq hsize).trans (h.size_le hne)
  | maxSize s =>
      rcases setMaxSize_spec h.indexed s with ⟨m', hset, hindexed, hmax, hle, hkeeps⟩
      refine iff_of_true ⟨m', hset, ⟨hindexed, fun hne => ?_⟩, fun _ _ => hkeeps⟩ trivial
      rw [hmax] at hne ⊢
      exact hle hne

theorem keeps_iff : forall {m : LimitedMap key value}, Limited m ->
    forall calls : List (Call key value), Keeps m calls <-> AllAllowed m calls := by
  intro m h calls
  induction calls generalizing m with
  | nil => exact Iff.rfl
  | cons call calls ih =>
      constructor
      · rintro ⟨m', happly, hlimited, hkeeps, hrest⟩
        refine ⟨(apply_iff h call).mp ⟨m', happly, hlimited, hkeeps⟩, ?_⟩
        intro m'' happly'
        rw [Option.mem_def, happly, Option.some.injEq] at happly'
        subst happly'
        exact (ih hlimited).mp hrest
      · rintro ⟨hallowed, hrest⟩
        rcases (apply_iff h call).mpr hallowed with ⟨m', happly, hlimited, hkeeps⟩
        exact ⟨m', happly, hlimited, hkeeps, (ih hlimited).mpr (hrest m' happly)⟩

/-- The constructor. -/
def empty (nMaxSizeIn : Nat) : LimitedMap key value := { nMaxSize := nMaxSizeIn }

omit [DecidableEq key] in
theorem limited_empty (nMaxSizeIn : Nat) :
    Limited (empty nMaxSizeIn : LimitedMap key value) :=
  ⟨⟨List.Pairwise.nil, List.Perm.nil⟩, fun _ => Nat.zero_le _⟩

/-!
# Different keys
-/

def insertAll (m : LimitedMap key value) (entries : List (key × value)) :
    Option (LimitedMap key value) :=
  entries.foldlM (fun m e => m.insert e.1 e.2) m

/-- As many entries as the limit admits, and none of the others larger. -/
structure HoldsLargest (nMaxSizeIn : Nat) (entries : List (key × value))
    (m : LimitedMap key value) : Prop where
  size_eq : m.size = min entries.length nMaxSizeIn
  dropped_le : forall e, e ∈ entries -> m.map.lookup e.1 = none ->
    forall k v, m.map.lookup k = some v -> e.2 ≤ v

/-- Below the limit everything is kept. -/
theorem insertAll_below : forall {entries : List (key × value)} {m : LimitedMap key value},
    Indexed [] m -> (entries.map Prod.fst).Nodup ->
    (forall e, e ∈ entries -> m.map.lookup e.1 = none) ->
    m.size + entries.length < m.nMaxSize ->
    exists m', m.insertAll entries = some m' ∧ m'.size = m.size + entries.length ∧
      m'.map = StdMap.assignAll m.map entries := by
  intro entries
  induction entries with
  | nil =>
      intro m _ _ _ _
      exact ⟨m, rfl, rfl, rfl⟩
  | cons e entries ih =>
      intro m h hnodup hnew hroom
      rw [List.map_cons, List.nodup_cons] at hnodup
      rw [List.length_cons] at hroom ⊢
      have hfull : ¬ m.Full := by
        unfold Full
        omega
      have hfirst := hnew e List.mem_cons_self
      rcases insert_of_not_full h hfirst hfull e.2 with
        ⟨m1, hinsert, hindexed, hmax, hsize, hmap⟩
      have hothers : forall e', e' ∈ entries -> m1.map.lookup e'.1 = none := by
        intro e' hmem
        rw [hmap, StdMap.lookup_insert_eq, if_neg]
        · exact hnew e' (List.mem_cons_of_mem e hmem)
        · intro heq
          exact hnodup.1 (heq ▸ List.mem_map_of_mem hmem)
      rcases ih hindexed hnodup.2 hothers (by omega) with ⟨m', hrest, hsize', hmap'⟩
      refine ⟨m', ?_, by omega, ?_⟩
      · unfold insertAll
        rw [List.foldlM_cons, hinsert]
        exact hrest
      · rw [hmap', hmap]
        rfl

theorem insert_lt {m m' : LimitedMap key value} {k : key} {v : value} (h : Indexed [] m)
    (hlt : m.size < m.nMaxSize) (hinsert : m.insert k v = some m') :
    Indexed [] m' ∧ m'.nMaxSize = m.nMaxSize ∧ m'.size < m.nMaxSize := by
  by_cases hnew : m.map.lookup k = none
  · by_cases hfull : m.Full
    · by_cases hsize : m.size = 0
      · rw [insert_of_limit_one h hnew hfull hsize v] at hinsert
        cases hinsert
      · rcases insert_of_full h hnew hfull hsize v with ⟨m1, hinsert', hindexed, hmax, hsame⟩
        rw [hinsert, Option.some.injEq] at hinsert'
        rw [hinsert']
        exact ⟨hindexed, hmax, hsame ▸ hlt⟩
    · rcases insert_of_not_full h hnew hfull v with
        ⟨m1, hinsert', hindexed, hmax, hsize, -⟩
      rw [hinsert, Option.some.injEq] at hinsert'
      rw [hinsert']
      refine ⟨hindexed, hmax, ?_⟩
      unfold Full at hfull
      omega
  · rw [insert_old hnew, Option.some.injEq] at hinsert
    rw [← hinsert]
    exact ⟨h, rfl, hlt⟩

/-- Insertions alone never reach the limit. -/
theorem insertAll_lt : forall {entries : List (key × value)} {m m' : LimitedMap key value},
    Indexed [] m -> m.size < m.nMaxSize -> m.insertAll entries = some m' ->
    m'.size < m.nMaxSize := by
  intro entries
  induction entries with
  | nil =>
      intro m m' _ hlt hall
      cases hall
      exact hlt
  | cons e entries ih =>
      intro m m' h hlt hall
      unfold insertAll at hall
      rw [List.foldlM_cons] at hall
      rcases Option.bind_eq_some_iff.mp hall with ⟨m1, hinsert, hrest⟩
      rcases insert_lt h hlt hinsert with ⟨hindexed, hmax, hlt'⟩
      rw [← hmax] at hlt' ⊢
      exact ih hindexed hlt' hrest

theorem holdsLargest_iff {nMaxSizeIn : Nat} (hpos : 1 ≤ nMaxSizeIn)
    {entries : List (key × value)} (hnodup : (entries.map Prod.fst).Nodup) :
    (exists m, (empty nMaxSizeIn).insertAll entries = some m ∧
        HoldsLargest nMaxSizeIn entries m) <->
      entries.length < nMaxSizeIn := by
  have hindexed := (@limited_empty key value _ nMaxSizeIn).indexed
  constructor
  · rintro ⟨m, hall, hholds⟩
    have hlt := insertAll_lt hindexed hpos hall
    have hsize := hholds.size_eq
    change m.size < nMaxSizeIn at hlt
    omega
  · intro hlt
    have hroom : (empty nMaxSizeIn : LimitedMap key value).size + entries.length <
        nMaxSizeIn := by
      change 0 + entries.length < nMaxSizeIn
      omega
    rcases insertAll_below hindexed hnodup (fun _ _ => rfl) hroom with ⟨m, hall, hsize, hmap⟩
    refine ⟨m, hall, ?_, ?_⟩
    · change m.size = 0 + entries.length at hsize
      omega
    · intro e hmem hnone
      rw [hmap, StdMap.lookup_assignAll_of_mem _ _ _ hnodup hmem] at hnone
      cases hnone

/--
In a run each call keeps the index and the limit if and only if each new entry finds less
entries than the limit, which is not one.  Of entries with different keys, the largest are held
if and only if they are fewer than the limit.
-/
theorem limitedMap_keeps_iff {nMaxSizeIn : Nat} (hpos : 1 ≤ nMaxSizeIn) :
    (forall calls : List (Call key value),
      Keeps (empty nMaxSizeIn) calls <-> AllAllowed (empty nMaxSizeIn) calls) ∧
    forall entries : List (key × value), (entries.map Prod.fst).Nodup ->
      ((exists m, (empty nMaxSizeIn).insertAll entries = some m ∧
          HoldsLargest nMaxSizeIn entries m) <->
        entries.length < nMaxSizeIn) := by
  constructor
  · exact keeps_iff (limited_empty nMaxSizeIn)
  · intro entries hnodup
    exact holdsLargest_iff hpos hnodup

end Runs

section Example

/-- Two entries do not fit under the limit two and the larger one goes, the limit one takes no
entry at all, and three entries fit when the limit has been lowered to two. -/
theorem limit_two :
    (¬ exists m, (empty 2 : LimitedMap Nat Int).insertAll [(1, 20), (2, 10)] = some m ∧
      HoldsLargest 2 [(1, 20), (2, 10)] m) ∧
    ((empty 2 : LimitedMap Nat Int).insertAll [(1, 20), (2, 10)]).map rmap = some [(10, 2)] ∧
    ((empty 1 : LimitedMap Nat Int).insertAll [(1, 20)]).map rmap = none ∧
    (([Call.insert 1 20, Call.insert 2 10, Call.maxSize 2, Call.insert 3 30].foldlM apply
      (empty 5 : LimitedMap Nat Int)).map fun m => (m.size, m.nMaxSize)) = some (3, 2) := by
  refine ⟨?_, by decide +kernel⟩
  rintro ⟨m, hall, hholds⟩
  have hone : ((empty 2 : LimitedMap Nat Int).insertAll [(1, 20), (2, 10)]).map size = some 1 := by
    decide +kernel
  rw [hall, Option.map_some, hholds.size_eq] at hone
  cases hone

theorem limitedMap_keeps_iff_three :
    Keeps (empty 3 : LimitedMap Nat Int)
      [Call.insert 1 20, Call.insert 2 10, Call.insert 3 30, Call.update 3 5, Call.maxSize 1,
        Call.erase 2] ∧
    exists m, (empty 3 : LimitedMap Nat Int).insertAll [(1, 20), (2, 10)] = some m ∧
      HoldsLargest 3 [(1, 20), (2, 10)] m := by
  have hkeeps := @limitedMap_keeps_iff Nat Int _ _ 3 (by decide)
  constructor
  · exact (hkeeps.1 _).mpr (by decide +kernel)
  · exact (hkeeps.2 _ (by decide)).mpr (by decide)

end Example

end LimitedMap
end Hbcur
