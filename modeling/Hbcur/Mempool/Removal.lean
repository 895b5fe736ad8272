import Hbcur.Foundation.Graphs
import Hbcur.Mempool.Consistency

/-!
# Recursive removal

`remove` takes out a transaction and everything in the pool which depends on it, and nothing
else.
-/

namespace Hbcur

open Foundation

/-- The transaction spends an output which the other one has. -/
def CTransaction.SpendsOutput (tx parent : CTransaction) : Prop :=
  exists out, out ∈ tx.prevouts ∧ out.hash = parent.hash ∧ out.n < parent.vout.length

namespace CTxMemPool

def Holds (pool : CTxMemPool) (tx : CTransaction) : Prop :=
  exists entry, pool.mapTx.lookup tx.hash = some entry ∧ entry.tx = tx

/-- A chain of spends through the pool leads from an output of the first transaction. -/
def Descends (pool : CTxMemPool) (origTx : CTransaction) : CTransaction -> Prop :=
  Reached (fun parent tx => tx.SpendsOutput parent) pool.Holds fun tx => tx.SpendsOutput origTx

/-- The pool's own copy of a transaction, if it has one. -/
def copyOf (pool : CTxMemPool) (tx : CTransaction) : CTransaction :=
  ((pool.mapTx.lookup tx.hash).map CTxMemPoolEntry.tx).getD tx

/-- The transactions which are gone and the list of them. -/
structure Removes (pool : CTxMemPool) (gone : CTransaction -> Prop)
    (listed : List CTransaction) (pool' : CTxMemPool) : Prop where
  gone_held : forall tx, gone tx -> pool.Holds tx
  removed : forall tx, gone tx -> pool'.mapTx.lookup tx.hash = none
  left : forall hash entry, pool.mapTx.lookup hash = some entry -> ¬ gone entry.tx ->
    pool'.mapTx.lookup hash = some entry
  added : forall hash, pool.mapTx.lookup hash = none -> pool'.mapTx.lookup hash = none
  mem_listed_iff : forall tx, tx ∈ listed <-> gone tx
  nodup : listed.Nodup

section Removal

variable {pool : CTxMemPool}

theorem Consistent.holds_entry (h : Consistent pool) {hash : UInt256} {entry : CTxMemPoolEntry}
    (hlookup : pool.mapTx.lookup hash = some entry) : pool.Holds entry.tx := by
  have hkey := h.keyed hash entry hlookup
  exact ⟨entry, by rw [hkey, hlookup], rfl⟩

theorem Holds.eq_of_hash {tx : CTransaction} (h : pool.Holds tx) {entry : CTxMemPoolEntry}
    (hlookup : pool.mapTx.lookup tx.hash = some entry) : tx = entry.tx := by
  rcases h with ⟨entry', hlookup', htx⟩
  rw [hlookup] at hlookup'
  cases hlookup'
  exact htx.symm

/-- `mapNextTx` finds exactly the transactions which spend an output. -/
theorem Consistent.mem_children_iff (h : Consistent pool) {tx : CTransaction}
    (htx : pool.Holds tx) (hash : UInt256) (nOut : Nat) :
    tx.hash ∈ pool.children hash nOut <->
      exists out, out ∈ tx.prevouts ∧ out.hash = hash ∧ out.n < nOut := by
  unfold children
  simp only [List.mem_filterMap, List.mem_range, Option.map_eq_some_iff]
  constructor
  · rintro ⟨i, hi, next, hnext, hhash⟩
    rcases h.noOther _ _ hnext with ⟨⟨entry, hentry, hptx⟩, txin, hin, hout⟩
    rw [hhash] at hentry
    refine ⟨{ hash := hash, n := i }, ?_, rfl, hi⟩
    rw [Holds.eq_of_hash htx hentry, hptx, ← hout]
    exact mem_prevouts_of_getElem? hin
  · rintro ⟨out, hmem, rfl, hn⟩
    rcases htx with ⟨entry, hlookup, rfl⟩
    rcases h.spender hlookup hmem with ⟨i, hspent⟩
    exact ⟨out.n, hn, _, hspent, rfl⟩

theorem holds_eraseTx_iff {hash : UInt256} {entry : CTxMemPoolEntry} {tx : CTransaction}
    (hlookup : pool.mapTx.lookup hash = some entry) (hkey : entry.tx.hash = hash) :
    (pool.eraseTx hash entry).Holds tx <-> tx ≠ entry.tx ∧ pool.Holds tx := by
  unfold Holds
  simp only [lookup_mapTx_eraseTx]
  constructor
  · rintro ⟨entry', hlookup', htx⟩
    split_ifs at hlookup' with hne
    refine ⟨?_, entry', hlookup', htx⟩
    rintro rfl
    exact hne hkey
  · rintro ⟨hne, entry', hlookup', htx⟩
    refine ⟨entry', ?_, htx⟩
    rw [if_neg, hlookup']
    intro heq
    rw [heq, hlookup] at hlookup'
    cases hlookup'
    exact hne htx.symm

/-!
# The loop
-/

theorem removes_nothing {gone : CTransaction -> Prop} (h : forall tx, ¬ gone tx) :
    Removes pool gone [] pool := by
  constructor
  · exact fun tx htx => absurd htx (h tx)
  · exact fun tx htx => absurd htx (h tx)
  · exact fun _ _ hlookup _ => hlookup
  · exact fun _ hlookup => hlookup
  · exact fun tx => iff_of_false List.not_mem_nil (h tx)
  · exact List.nodup_nil

theorem Removes.congr {gone gone' : CTransaction -> Prop} {listed : List CTransaction}
    {pool' : CTxMemPool} (h : Removes pool gone listed pool')
    (hiff : forall tx, gone' tx <-> gone tx) : Removes pool gone' listed pool' := by
  have heq : gone' = gone := funext fun tx => propext (hiff tx)
  rw [heq]
  exact h

/-- One transaction is taken out before the others. -/
theorem Removes.cons {gone : CTransaction -> Prop} {listed : List CTransaction}
    {pool' : CTxMemPool} {hash : UInt256} {entry : CTxMemPoolEntry}
    (hlookup : pool.mapTx.lookup hash = some entry) (hkey : entry.tx.hash = hash)
    (h : Removes (pool.eraseTx hash entry) gone listed pool') :
    Removes pool (fun tx => tx = entry.tx ∨ gone tx) (entry.tx :: listed) pool' := by
  have hheld : forall tx, gone tx -> tx ≠ entry.tx ∧ pool.Holds tx :=
    fun tx htx => (holds_eraseTx_iff hlookup hkey).mp (h.gone_held tx htx)
  constructor
  · rintro tx (rfl | htx)
    · exact ⟨entry, by rw [hkey, hlookup], rfl⟩
    · exact (hheld tx htx).2
  · rintro tx (rfl | htx)
    · apply h.added
      rw [lookup_mapTx_eraseTx, if_pos hkey]
    · exact h.removed tx htx
  · intro other entry' hother hnot
    apply h.left other entry'
    · rw [lookup_mapTx_eraseTx, if_neg, hother]
      rintro rfl
      rw [hlookup] at hother
      cases hother
      exact hnot (Or.inl rfl)
    · exact fun hgone => hnot (Or.inr hgone)
  · intro other hother
    apply h.added
    rw [lookup_mapTx_eraseTx, hother, ite_self]
  · intro tx
    rw [List.mem_cons, h.mem_listed_iff]
  · apply List.nodup_cons.mpr
    constructor
    · intro hmem
      exact (hheld _ ((h.mem_listed_iff _).mp hmem)).1 rfl
    · exact h.nodup

/-- The loop takes out what is reached from the queue. -/
theorem removeLoop_removes (pool : CTxMemPool) (removed : List CTransaction)
    (txToRemove : List UInt256) (h : Consistent pool) :
    exists listed, (removeLoop true pool removed txToRemove).2 = removed ++ listed ∧
      Removes pool (Reached (fun parent tx => tx.SpendsOutput parent) pool.Holds
        fun tx => tx.hash ∈ txToRemove) listed (removeLoop true pool removed txToRemove).1 := by
  induction pool, removed, txToRemove using removeLoop.induct true with
  | case1 pool removed =>
      refine ⟨[], ?_, ?_⟩
      · rw [removeLoop, List.append_nil]
      · rw [removeLoop]
        exact removes_nothing fun tx => not_reached_of_noSeed fun _ _ => List.not_mem_nil
  | case2 pool removed hash rest hnone ih =>
      rcases ih h with ⟨listed, hlisted, hremoves⟩
      rw [removeLoop_of_none hnone]
      refine ⟨listed, hlisted, hremoves.congr fun tx => reached_congr fun tx htx => ?_⟩
      -- The hash at the front is that of no transaction in the pool.
      rw [List.mem_cons, or_iff_right]
      rintro rfl
      rcases htx with ⟨entry, hlookup, _⟩
      rw [hnone] at hlookup
      cases hlookup
  | case3 pool removed hash rest entry hsome ih =>
      have hkey := h.keyed hash entry hsome
      rw [removeLoop_of_some hsome]
      rw [dif_pos rfl] at ih
      rw [if_pos rfl]
      rcases ih (h.eraseTx hsome) with ⟨listed, hlisted, hremoves⟩
      refine ⟨entry.tx :: listed, ?_, (hremoves.cons hsome hkey).congr fun tx => ?_⟩
      · rw [hlisted, List.append_assoc, List.singleton_append]
      · have hpresent : (pool.eraseTx hash entry).Holds =
            fun tx => tx ≠ entry.tx ∧ pool.Holds tx :=
          funext fun tx => propext (holds_eraseTx_iff hsome hkey)
        rw [hpresent]
        apply reached_take_iff
        · rw [hkey]
          exact List.mem_cons_self
        · exact h.holds_entry hsome
        · intro tx htx hne
          have hfront : tx.hash ≠ hash := by
            rintro rfl
            exact hne (Holds.eq_of_hash htx hsome)
          rw [List.mem_append, List.mem_cons, or_iff_right hfront, h.mem_children_iff htx]
          unfold CTransaction.SpendsOutput
          rw [hkey]

/-!
# The whole removal
-/

theorem copyOf_of_some {tx : CTransaction} {entry : CTxMemPoolEntry}
    (h : pool.mapTx.lookup tx.hash = some entry) : pool.copyOf tx = entry.tx := by
  unfold copyOf
  rw [h]
  rfl

theorem copyOf_of_none {tx : CTransaction} (h : pool.mapTx.lookup tx.hash = none) :
    pool.copyOf tx = tx := by
  unfold copyOf
  rw [h]
  rfl

/-- What the queue starts with reaches the transaction itself and its descendants. -/
theorem Consistent.reached_iff (h : Consistent pool) (origTx tx : CTransaction) :
    Reached (fun parent tx => tx.SpendsOutput parent) pool.Holds
        (fun tx => tx.hash ∈ origTx.hash :: if true && !pool.exists? origTx.hash then
          pool.children origTx.hash origTx.vout.length else []) tx <->
      (pool.Holds tx ∧ tx.hash = origTx.hash) ∨ pool.Descends (pool.copyOf origTx) tx := by
  unfold exists? StdMap.contains
  cases hlookup : pool.mapTx.lookup origTx.hash with
  | none =>
      have habsent : forall tx, pool.Holds tx -> tx.hash ≠ origTx.hash := by
        rintro tx ⟨entry, hentry, _⟩ heq
        rw [heq, hlookup] at hentry
        cases hentry
      rw [copyOf_of_none hlookup, or_iff_right fun hself => habsent tx hself.1 hself.2]
      apply reached_congr
      intro tx htx
      rw [List.mem_cons, or_iff_right (habsent tx htx)]
      exact h.mem_children_iff htx origTx.hash origTx.vout.length
  | some entry =>
      have hkey := h.keyed origTx.hash entry hlookup
      have hsame : forall tx, pool.Holds tx -> (tx.hash = origTx.hash <-> tx = entry.tx) := by
        intro tx htx
        constructor
        · intro heq
          rw [← heq] at hlookup
          exact Holds.eq_of_hash htx hlookup
        · rintro rfl
          exact hkey
      rw [copyOf_of_some hlookup]
      have hseed : Reached (fun parent tx => tx.SpendsOutput parent) pool.Holds
          (fun tx => tx.hash ∈ [origTx.hash]) tx <->
          Reached (fun parent tx => tx.SpendsOutput parent) pool.Holds
            (fun tx => tx = entry.tx) tx :=
        reached_congr fun tx htx => by rw [List.mem_singleton, hsame tx htx]
      refine hseed.trans ((reached_single_iff (h.holds_entry hlookup)).trans ?_)
      apply or_congr_left
      constructor
      · rintro rfl
        exact ⟨h.holds_entry hlookup, hkey⟩
      · rintro ⟨htx, heq⟩
        exact (hsame tx htx).mp heq

theorem recursive_remove_exact (pool : CTxMemPool) (origTx : CTransaction)
    (removed : List CTransaction) (h : Consistent pool) :
    exists listed, (pool.remove origTx removed true).2 = removed ++ listed ∧
      Removes pool (fun tx => (pool.Holds tx ∧ tx.hash = origTx.hash) ∨
        pool.Descends (pool.copyOf origTx) tx) listed (pool.remove origTx removed true).1 := by
  rcases removeLoop_removes pool removed _ h with ⟨listed, hlisted, hremoves⟩
  exact ⟨listed, hlisted, hremoves.congr fun tx => (h.reached_iff origTx tx).symm⟩

end Removal

/-- Both inputs of the transaction in the pool spend this one. -/
def pairParent : CTransaction :=
  { hash := 3
    nVersion := 1
    vin := []
    vout := [CTxOut.make COIN [], CTxOut.make COIN []]
    nLockTime := 0 }

def pairPool : CTxMemPool := ({} : CTxMemPool).addUnchecked 5 pairEntry

theorem consistent_pairPool : Consistent pairPool :=
  (consistent_of_empty rfl rfl rfl).addUnchecked (mayAdd_pair rfl rfl)

/-- An absent parent takes its child along, once. -/
theorem recursive_remove_pairParent :
    Consistent pairPool ∧
      exists listed, (pairPool.remove pairParent [] true).2 = [] ++ listed ∧
        Removes pairPool (fun tx => (pairPool.Holds tx ∧ tx.hash = pairParent.hash) ∨
          pairPool.Descends (pairPool.copyOf pairParent) tx) listed
          (pairPool.remove pairParent [] true).1 :=
  ⟨consistent_pairPool, recursive_remove_exact pairPool pairParent [] consistent_pairPool⟩

end CTxMemPool

end Hbcur
