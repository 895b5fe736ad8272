import Mathlib.Data.Finset.Insert
import Mathlib.Data.Finset.Erase
import Hbcur.Foundation.Run
import Hbcur.Foundation.StdMap
import Hbcur.Serialize.Bytes

/-!
# Orphan transactions

The transactions of `main.cpp` which wait for a parent, and the index which finds them by the
identifier of the transaction they wait for.
-/

namespace Hbcur

open Foundation

structure COrphanTx where
  tx : CTransaction
  fromPeer : Int
  deriving DecidableEq, Repr

structure Orphans where
  mapOrphanTransactions : StdMap UInt256 COrphanTx := ∅
  mapOrphanTransactionsByPrev : StdMap UInt256 (Finset UInt256) := ∅

namespace Orphans

def size (s : Orphans) : Nat := s.mapOrphanTransactions.entries.length

/-- The orphans indexed under a previous transaction; none if there is no entry. -/
def byPrev (s : Orphans) (prev : UInt256) : Finset UInt256 :=
  (s.mapOrphanTransactionsByPrev.lookup prev).getD ∅

/-!
# Adding
-/

/-- `operator[]`, which makes an empty set where there is none, and `insert`. -/
def link (hash : UInt256) (index : StdMap UInt256 (Finset UInt256)) (txin : CTxIn) :
    StdMap UInt256 (Finset UInt256) :=
  index.insert txin.prevout.hash
    (insert hash ((index.lookup txin.prevout.hash).getD ∅))

def addOrphanTx (s : Orphans) (tx : CTransaction) (peer : Int) : Bool × Orphans :=
  if StdMap.contains s.mapOrphanTransactions tx.hash then
    (false, s)
  else if tx.serialize.length > 5000 then
    (false, s)
  else
    (true,
      { mapOrphanTransactions :=
          s.mapOrphanTransactions.insert tx.hash { tx := tx, fromPeer := peer }
        mapOrphanTransactionsByPrev := tx.vin.foldl (link tx.hash) s.mapOrphanTransactionsByPrev })

/-!
# Erasing
-/

def unlink (hash : UInt256) (index : StdMap UInt256 (Finset UInt256)) (txin : CTxIn) :
    StdMap UInt256 (Finset UInt256) :=
  match index.lookup txin.prevout.hash with
  | none => index
  | some hashes =>
      if hashes.erase hash = ∅ then
        index.erase txin.prevout.hash
      else
        index.insert txin.prevout.hash (hashes.erase hash)

def eraseOrphanTx (s : Orphans) (hash : UInt256) : Orphans :=
  match s.mapOrphanTransactions.lookup hash with
  | none => s
  | some orphan =>
      { mapOrphanTransactions := s.mapOrphanTransactions.erase hash
        mapOrphanTransactionsByPrev :=
          orphan.tx.vin.foldl (unlink hash) s.mapOrphanTransactionsByPrev }

/-- The iterator is past an entry before the entry is erased. -/
def eraseOrphansFor (s : Orphans) (peer : Int) : Orphans :=
  (StdMap.inOrder s.mapOrphanTransactions).foldl
    (fun s e => if e.2.fromPeer = peer then s.eraseOrphanTx e.2.tx.hash else s) s

/-!
# Evicting
-/

theorem inOrder_ne_nil {s : Orphans} (h : 0 < s.size) :
    StdMap.inOrder s.mapOrphanTransactions ≠ [] := by
  intro hnil
  have hlength := (StdMap.perm_inOrder s.mapOrphanTransactions).length_eq
  rw [hnil] at hlength
  exact Nat.ne_of_lt h hlength

/-- The orphan at or after a random place, or else the first one. -/
def randomOrphan (s : Orphans) (randomhash : UInt256) (h : 0 < s.size) : UInt256 :=
  match StdMap.lowerBound s.mapOrphanTransactions randomhash with
  | some e => e.1
  | none => ((StdMap.inOrder s.mapOrphanTransactions).head (inOrder_ne_nil h)).1

theorem lookup_randomOrphan (s : Orphans) (randomhash : UInt256) (h : 0 < s.size) :
    exists orphan,
      s.mapOrphanTransactions.lookup (s.randomOrphan randomhash h) = some orphan := by
  unfold randomOrphan
  split
  · rename_i e he
    exact ⟨e.2, (StdMap.mem_inOrder_iff _ _ _).mp (StdMap.mem_of_lowerBound he)⟩
  · exact ⟨_, (StdMap.mem_inOrder_iff _ _ _).mp (List.head_mem (inOrder_ne_nil h))⟩

theorem size_eraseOrphanTx {s : Orphans} {hash : UInt256} {orphan : COrphanTx}
    (h : s.mapOrphanTransactions.lookup hash = some orphan) :
    (s.eraseOrphanTx hash).size + 1 = s.size := by
  unfold eraseOrphanTx
  rw [h]
  exact StdMap.length_entries_erase _ _ _ h

theorem size_evict (s : Orphans) (randomhash : UInt256) (h : 0 < s.size) :
    (s.eraseOrphanTx (s.randomOrphan randomhash h)).size + 1 = s.size := by
  rcases lookup_randomOrphan s randomhash h with ⟨orphan, horphan⟩
  exact size_eraseOrphanTx horphan

/-- The draws are the answers of `GetRandHash`. -/
def limitLoop (nMaxOrphans : Nat) (draws : Nat -> UInt256) (nEvicted : Nat) (s : Orphans) :
    Nat × Orphans :=
  if h : nMaxOrphans < s.size then
    limitLoop nMaxOrphans draws (nEvicted + 1)
      (s.eraseOrphanTx (s.randomOrphan (draws nEvicted) (Nat.zero_lt_of_lt h)))
  else
    (nEvicted, s)
  termination_by s.size
  decreasing_by
    have hsize := size_evict s (draws nEvicted) (Nat.zero_lt_of_lt h)
    omega

def limitOrphanTxSize (s : Orphans) (nMaxOrphans : Nat) (draws : Nat -> UInt256) :
    Nat × Orphans :=
  limitLoop nMaxOrphans draws 0 s

/-- What holds after every eviction holds when the loop is left. -/
theorem limitLoop_preserves {P : Orphans -> Prop}
    (herase : forall s hash, P s -> P (s.eraseOrphanTx hash)) (nMaxOrphans : Nat)
    (draws : Nat -> UInt256) (nEvicted : Nat) (s : Orphans) (h : P s) :
    P (limitLoop nMaxOrphans draws nEvicted s).2 := by
  induction nEvicted, s using limitLoop.induct nMaxOrphans draws with
  | case1 nEvicted s hmore ih =>
      rw [limitLoop, dif_pos hmore]
      exact ih (herase _ _ h)
  | case2 nEvicted s hdone =>
      rw [limitLoop, dif_neg hdone]
      exact h

/-- Each turn evicts one orphan. -/
theorem limitLoop_size (nMaxOrphans : Nat) (draws : Nat -> UInt256) (nEvicted : Nat)
    (s : Orphans) :
    (limitLoop nMaxOrphans draws nEvicted s).2.size = min s.size nMaxOrphans ∧
      (limitLoop nMaxOrphans draws nEvicted s).1 = nEvicted + (s.size - nMaxOrphans) := by
  induction nEvicted, s using limitLoop.induct nMaxOrphans draws with
  | case1 nEvicted s hmore ih =>
      have hsize := size_evict s (draws nEvicted) (Nat.zero_lt_of_lt hmore)
      rw [limitLoop, dif_pos hmore, ih.1, ih.2]
      omega
  | case2 nEvicted s hdone =>
      rw [limitLoop, dif_neg hdone]
      constructor
      · exact (Nat.min_eq_left (Nat.le_of_not_lt hdone)).symm
      · exact (congrArg (nEvicted + ·) (Nat.sub_eq_zero_of_le (Nat.le_of_not_lt hdone))).symm

/-!
# The index is exact
-/

/-- An input spends an output of the previous transaction. -/
def PrevOf (vin : List CTxIn) (prev : UInt256) : Prop :=
  exists txin, txin ∈ vin ∧ txin.prevout.hash = prev

def Spends (s : Orphans) (hash prev : UInt256) : Prop :=
  exists orphan, s.mapOrphanTransactions.lookup hash = some orphan ∧ PrevOf orphan.tx.vin prev

structure Exact (s : Orphans) : Prop where
  keyed : forall hash orphan, s.mapOrphanTransactions.lookup hash = some orphan ->
    orphan.tx.hash = hash
  mem_byPrev_iff : forall hash prev, hash ∈ s.byPrev prev <-> s.Spends hash prev
  nonempty : forall prev hashes, s.mapOrphanTransactionsByPrev.lookup prev = some hashes ->
    hashes.Nonempty

theorem exact_empty : Exact {} := by
  constructor
  · intro hash orphan h
    cases h
  · intro hash prev
    constructor
    · intro h
      cases h
    · rintro ⟨orphan, h, _⟩
      cases h
  · intro prev hashes h
    cases h

section Index

variable (hash : UInt256) (index : StdMap UInt256 (Finset UInt256))

theorem prevOf_cons (txin : CTxIn) (vin : List CTxIn) (prev : UInt256) :
    PrevOf (txin :: vin) prev <-> prev = txin.prevout.hash ∨ PrevOf vin prev := by
  unfold PrevOf
  rw [List.exists_mem_cons_iff]
  exact or_congr_left eq_comm

theorem mem_link (txin : CTxIn) (other prev : UInt256) :
    other ∈ ((link hash index txin).lookup prev).getD ∅ <->
      other ∈ (index.lookup prev).getD ∅ ∨ other = hash ∧ prev = txin.prevout.hash := by
  unfold link
  rw [StdMap.lookup_insert_eq]
  split_ifs with h
  · subst h
    rw [Option.getD_some, Finset.mem_insert, or_comm]
    simp
  · simp [h]

theorem mem_foldl_link (vin : List CTxIn) (other prev : UInt256) :
    other ∈ ((vin.foldl (link hash) index).lookup prev).getD ∅ <->
      other ∈ (index.lookup prev).getD ∅ ∨ other = hash ∧ PrevOf vin prev := by
  induction vin generalizing index with
  | nil => simp [PrevOf]
  | cons txin vin ih =>
      rw [List.foldl_cons, ih, mem_link, prevOf_cons, and_or_left, or_assoc]

theorem mem_unlink (txin : CTxIn) (other prev : UInt256) :
    other ∈ ((unlink hash index txin).lookup prev).getD ∅ <->
      other ∈ (index.lookup prev).getD ∅ ∧ ¬ (other = hash ∧ prev = txin.prevout.hash) := by
  unfold unlink
  cases hlookup : index.lookup txin.prevout.hash with
  | none =>
      by_cases h : prev = txin.prevout.hash
      · rw [h, hlookup]
        simp
      · simp [h]
  | some hashes =>
      have hmem : other ∈ hashes.erase hash <-> other ∈ hashes ∧ ¬ other = hash := by
        rw [Finset.mem_erase, and_comm]
      by_cases h : prev = txin.prevout.hash
      · subst h
        rw [hlookup, Option.getD_some]
        simp only [and_true]
        rw [← hmem]
        split_ifs with hempty
        · rw [AList.lookup_erase, hempty]
          rfl
        · rw [AList.lookup_insert]
          rfl
      · simp only [h, and_false, not_false_iff, and_true]
        split_ifs
        · rw [AList.lookup_erase_ne h]
        · rw [AList.lookup_insert_ne h]

theorem mem_foldl_unlink (vin : List CTxIn) (other prev : UInt256) :
    other ∈ ((vin.foldl (unlink hash) index).lookup prev).getD ∅ <->
      other ∈ (index.lookup prev).getD ∅ ∧ ¬ (other = hash ∧ PrevOf vin prev) := by
  induction vin generalizing index with
  | nil => simp [PrevOf]
  | cons txin vin ih =>
      rw [List.foldl_cons, ih, mem_unlink, prevOf_cons, and_or_left, not_or, and_assoc]

/-- No set of the index is empty. -/
def NoneEmpty (index : StdMap UInt256 (Finset UInt256)) : Prop :=
  forall prev hashes, index.lookup prev = some hashes -> hashes.Nonempty

theorem NoneEmpty.foldl_link {index : StdMap UInt256 (Finset UInt256)} (h : NoneEmpty index)
    (vin : List CTxIn) : NoneEmpty (vin.foldl (link hash) index) := by
  induction vin generalizing index with
  | nil => exact h
  | cons txin vin ih =>
      apply ih
      intro prev hashes hlookup
      unfold link at hlookup
      rw [StdMap.lookup_insert_eq] at hlookup
      split_ifs at hlookup
      · cases hlookup
        exact Finset.insert_nonempty _ _
      · exact h prev hashes hlookup

theorem NoneEmpty.foldl_unlink {index : StdMap UInt256 (Finset UInt256)} (h : NoneEmpty index)
    (vin : List CTxIn) : NoneEmpty (vin.foldl (unlink hash) index) := by
  induction vin generalizing index with
  | nil => exact h
  | cons txin vin ih =>
      apply ih
      intro prev hashes hlookup
      unfold unlink at hlookup
      split at hlookup
      · exact h prev hashes hlookup
      · split_ifs at hlookup with hempty
        · rw [StdMap.lookup_erase_eq] at hlookup
          split_ifs at hlookup
          exact h prev hashes hlookup
        · rw [StdMap.lookup_insert_eq] at hlookup
          split_ifs at hlookup
          · cases hlookup
            exact Finset.nonempty_iff_ne_empty.mpr hempty
          · exact h prev hashes hlookup

end Index

/-!
# Each operation
-/

theorem Exact.addOrphanTx {s : Orphans} (h : Exact s) (tx : CTransaction) (peer : Int) :
    Exact (s.addOrphanTx tx peer).2 := by
  unfold Orphans.addOrphanTx
  split_ifs with hin hbig
  · exact h
  · exact h
  · have hnew : s.mapOrphanTransactions.lookup tx.hash = none :=
      (StdMap.contains_eq_false_iff _ _).mp (Bool.eq_false_iff.mpr hin)
    constructor
    · intro hash orphan hlookup
      rw [StdMap.lookup_insert_eq] at hlookup
      split_ifs at hlookup with heq
      · cases hlookup
        exact heq.symm
      · exact h.keyed hash orphan hlookup
    · intro hash prev
      change hash ∈ ((tx.vin.foldl (link tx.hash) s.mapOrphanTransactionsByPrev).lookup
        prev).getD ∅ <-> _
      rw [mem_foldl_link]
      change hash ∈ s.byPrev prev ∨ _ <-> _
      rw [h.mem_byPrev_iff]
      unfold Spends
      simp only [StdMap.lookup_insert_eq]
      by_cases heq : hash = tx.hash
      · subst heq
        simp [hnew, PrevOf]
      · simp [heq]
    · exact NoneEmpty.foldl_link tx.hash h.nonempty tx.vin

theorem Exact.eraseOrphanTx {s : Orphans} (h : Exact s) (hash : UInt256) :
    Exact (s.eraseOrphanTx hash) := by
  unfold Orphans.eraseOrphanTx
  cases hlookup : s.mapOrphanTransactions.lookup hash with
  | none => exact h
  | some orphan =>
      constructor
      · intro other orphan' hother
        rw [StdMap.lookup_erase_eq] at hother
        split_ifs at hother
        exact h.keyed other orphan' hother
      · intro other prev
        change other ∈ ((orphan.tx.vin.foldl (unlink hash) s.mapOrphanTransactionsByPrev).lookup
          prev).getD ∅ <-> _
        rw [mem_foldl_unlink]
        change other ∈ s.byPrev prev ∧ _ <-> _
        rw [h.mem_byPrev_iff]
        unfold Spends
        simp only [StdMap.lookup_erase_eq]
        by_cases heq : other = hash
        · -- What the erased orphan spends is what its inputs are removed from.
          subst heq
          simp [hlookup, PrevOf]
        · simp [heq]
      · exact NoneEmpty.foldl_unlink hash h.nonempty orphan.tx.vin

theorem Exact.eraseOrphansFor {s : Orphans} (h : Exact s) (peer : Int) :
    Exact (s.eraseOrphansFor peer) := by
  unfold Orphans.eraseOrphansFor
  apply foldl_invariant (fun _ s => Exact s) _ h
  intro _ e _ s _ h
  split_ifs
  · exact h.eraseOrphanTx _
  · exact h

/-!
# Runs
-/

inductive Op where
  | addOrphanTx (tx : CTransaction) (peer : Int)
  | eraseOrphanTx (hash : UInt256)
  | eraseOrphansFor (peer : Int)
  | limitOrphanTxSize (nMaxOrphans : Nat) (draws : Nat -> UInt256)

def next (s : Orphans) : Op -> Orphans
  | Op.addOrphanTx tx peer => (s.addOrphanTx tx peer).2
  | Op.eraseOrphanTx hash => s.eraseOrphanTx hash
  | Op.eraseOrphansFor peer => s.eraseOrphansFor peer
  | Op.limitOrphanTxSize nMaxOrphans draws => (s.limitOrphanTxSize nMaxOrphans draws).2

theorem Exact.next {s : Orphans} (h : Exact s) (op : Op) : Exact (s.next op) := by
  cases op with
  | addOrphanTx tx peer => exact h.addOrphanTx tx peer
  | eraseOrphanTx hash => exact h.eraseOrphanTx hash
  | eraseOrphansFor peer => exact h.eraseOrphansFor peer
  | limitOrphanTxSize nMaxOrphans draws =>
      exact limitLoop_preserves (fun _ hash h => h.eraseOrphanTx hash) nMaxOrphans draws 0 s h

/-- The loop evicts as many orphans as there are too many, and then stops. -/
def Limits (s : Orphans) : Prop :=
  forall nMaxOrphans draws, (s.limitOrphanTxSize nMaxOrphans draws).2.size ≤ nMaxOrphans ∧
    (s.limitOrphanTxSize nMaxOrphans draws).1 = s.size - nMaxOrphans

theorem limits (s : Orphans) : Limits s := by
  intro nMaxOrphans draws
  rcases limitLoop_size nMaxOrphans draws 0 s with ⟨hsize, hevicted⟩
  constructor
  · exact Nat.le_trans (Nat.le_of_eq hsize) (Nat.min_le_right _ _)
  · exact hevicted.trans (Nat.zero_add _)

theorem exact_along (ops : List Op) :
    StatesSatisfy next (fun s => Exact s ∧ Limits s) {} ops := by
  apply statesSatisfy_of_invariant
  · intro s op h
    exact ⟨h.1.next op, limits _⟩
  · exact ⟨exact_empty, limits _⟩

end Orphans

end Hbcur
