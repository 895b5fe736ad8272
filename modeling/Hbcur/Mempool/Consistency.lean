import Hbcur.Foundation.Run
import Hbcur.Mempool.State

/-!
# The three maps agree

Whatever is done to the pool, `mapNextTx` holds the inputs of its transactions and nothing
else, and `totalTxSize` is the sum of their sizes.
-/

namespace Hbcur

open Foundation

namespace CTxMemPool

structure Consistent (pool : CTxMemPool) : Prop where
  keyed : forall hash entry, pool.mapTx.lookup hash = some entry -> entry.tx.hash = hash
  inputs : forall hash entry i txin, pool.mapTx.lookup hash = some entry ->
    entry.tx.vin[i]? = some txin ->
    pool.mapNextTx.lookup txin.prevout = some { ptx := entry.tx, n := i }
  noOther : forall out next, pool.mapNextTx.lookup out = some next ->
    (exists entry, pool.mapTx.lookup next.ptx.hash = some entry ∧ entry.tx = next.ptx) ∧
      exists txin : CTxIn, next.ptx.vin[next.n]? = some txin ∧ txin.prevout = out
  noConflict : forall hash entry hash' entry' out, pool.mapTx.lookup hash = some entry ->
    pool.mapTx.lookup hash' = some entry' -> out ∈ entry.tx.prevouts ->
    out ∈ entry'.tx.prevouts -> hash = hash'
  total : pool.totalTxSize = StdMap.sumValues pool.mapTx CTxMemPoolEntry.nTxSize

theorem mem_prevouts {tx : CTransaction} {out : COutPoint} (h : out ∈ tx.prevouts) :
    exists (i : Nat) (txin : CTxIn), tx.vin[i]? = some txin ∧ txin.prevout = out := by
  rcases List.mem_map.mp h with ⟨txin, hmem, rfl⟩
  rcases List.mem_iff_getElem?.mp hmem with ⟨i, hi⟩
  exact ⟨i, txin, hi, rfl⟩

theorem mem_prevouts_of_getElem? {tx : CTransaction} {i : Nat} {txin : CTxIn}
    (h : tx.vin[i]? = some txin) : txin.prevout ∈ tx.prevouts :=
  List.mem_map_of_mem (List.mem_of_getElem? h)

section Consistent

variable {pool : CTxMemPool}

/-- An outpoint determines the transaction which spends it. -/
theorem Consistent.eq_of_spends (h : Consistent pool) {hash hash' : UInt256}
    {entry entry' : CTxMemPoolEntry} {out : COutPoint}
    (hlookup : pool.mapTx.lookup hash = some entry)
    (hlookup' : pool.mapTx.lookup hash' = some entry')
    (hmem : out ∈ entry.tx.prevouts) (hmem' : out ∈ entry'.tx.prevouts) : hash = hash' :=
  h.noConflict hash entry hash' entry' out hlookup hlookup' hmem hmem'

theorem Consistent.spender (h : Consistent pool) {hash : UInt256} {entry : CTxMemPoolEntry}
    {out : COutPoint} (hlookup : pool.mapTx.lookup hash = some entry)
    (hmem : out ∈ entry.tx.prevouts) :
    exists i, pool.mapNextTx.lookup out = some { ptx := entry.tx, n := i } := by
  rcases mem_prevouts hmem with ⟨i, txin, hi, rfl⟩
  exact ⟨i, h.inputs hash entry i txin hlookup hi⟩

theorem consistent_of_empty (htx : pool.mapTx = ∅) (hnext : pool.mapNextTx = ∅)
    (htotal : pool.totalTxSize = 0) : Consistent pool := by
  constructor
  · intro hash entry hlookup
    rw [htx] at hlookup
    cases hlookup
  · intro hash entry i txin hlookup _
    rw [htx] at hlookup
    cases hlookup
  · intro out next hlookup
    rw [hnext] at hlookup
    cases hlookup
  · intro hash entry hash' entry' out hlookup
    rw [htx] at hlookup
    cases hlookup
  · rw [htx, htotal]
    rfl

/-!
# Removing
-/

theorem lookup_mapTx_eraseTx (hash other : UInt256) (entry : CTxMemPoolEntry) :
    (pool.eraseTx hash entry).mapTx.lookup other =
      if other = hash then none else pool.mapTx.lookup other :=
  StdMap.lookup_erase_eq pool.mapTx other hash

theorem lookup_mapNextTx_eraseTx (hash : UInt256) (entry : CTxMemPoolEntry)
    (out : COutPoint) :
    (pool.eraseTx hash entry).mapNextTx.lookup out =
      if out ∈ entry.tx.prevouts then none else pool.mapNextTx.lookup out :=
  StdMap.lookup_eraseAll pool.mapNextTx out entry.tx.prevouts

theorem lookup_of_eraseTx {hash other : UInt256} {entry entry' : CTxMemPoolEntry}
    (h : (pool.eraseTx hash entry).mapTx.lookup other = some entry') :
    other ≠ hash ∧ pool.mapTx.lookup other = some entry' := by
  rw [lookup_mapTx_eraseTx] at h
  split_ifs at h with hne
  exact ⟨hne, h⟩

theorem Consistent.eraseTx (h : Consistent pool) {hash : UInt256} {entry : CTxMemPoolEntry}
    (hlookup : pool.mapTx.lookup hash = some entry) :
    Consistent (pool.eraseTx hash entry) := by
  constructor
  · intro other entry' hother
    exact h.keyed other entry' (lookup_of_eraseTx hother).2
  · intro other entry' i txin hother hi
    rcases lookup_of_eraseTx hother with ⟨hne, hother⟩
    rw [lookup_mapNextTx_eraseTx, if_neg, h.inputs other entry' i txin hother hi]
    intro hmem
    exact hne (h.eq_of_spends hother hlookup (mem_prevouts_of_getElem? hi) hmem)
  · intro out next hnext
    rw [lookup_mapNextTx_eraseTx] at hnext
    split_ifs at hnext with hmem
    rcases h.noOther out next hnext with ⟨⟨entry', hentry, htx⟩, txin, hi, hout⟩
    refine ⟨⟨entry', ?_, htx⟩, txin, hi, hout⟩
    rw [lookup_mapTx_eraseTx, if_neg]
    · exact hentry
    · intro heq
      -- The spender of an outpoint which is left is not the transaction erased.
      rw [heq, hlookup] at hentry
      cases hentry
      apply hmem
      rw [htx, ← hout]
      exact mem_prevouts_of_getElem? hi
  · intro hash1 entry1 hash2 entry2 out h1 h2
    exact h.noConflict hash1 entry1 hash2 entry2 out (lookup_of_eraseTx h1).2
      (lookup_of_eraseTx h2).2
  · have hsum := StdMap.sumValues_erase pool.mapTx hash entry CTxMemPoolEntry.nTxSize hlookup
    have htotal := h.total
    show pool.totalTxSize - entry.nTxSize =
      StdMap.sumValues (pool.mapTx.erase hash) CTxMemPoolEntry.nTxSize
    omega

/-- The priorities play no part. -/
theorem Consistent.withDeltas (h : Consistent pool) (deltas : StdMap UInt256 (Rat × Int)) :
    Consistent { pool with mapDeltas := deltas } :=
  ⟨h.keyed, h.inputs, h.noOther, h.noConflict, h.total⟩

/-!
# Adding
-/

/-- What holds of a transaction which is about to be added. -/
structure MayAdd (pool : CTxMemPool) (hash : UInt256) (entry : CTxMemPoolEntry) : Prop where
  keyed : entry.tx.hash = hash
  isNew : pool.exists? hash = false
  distinct : entry.tx.prevouts.Nodup
  unspent : forall out, out ∈ entry.tx.prevouts -> pool.mapNextTx.lookup out = none

theorem map_fst_inPoints (tx : CTransaction) :
    (inPoints tx).map Prod.fst = tx.prevouts := by
  unfold inPoints CTransaction.prevouts
  rw [List.map_map]
  change tx.vin.zipIdx.map (CTxIn.prevout ∘ Prod.fst) = _
  rw [← List.map_map, List.zipIdx_map_fst]

theorem mem_inPoints {tx : CTransaction} {i : Nat} {txin : CTxIn}
    (h : tx.vin[i]? = some txin) : (txin.prevout, { ptx := tx, n := i }) ∈ inPoints tx :=
  List.mem_map.mpr ⟨(txin, i), List.mk_mem_zipIdx_iff_getElem?.mpr h, rfl⟩

variable {hash : UInt256} {entry : CTxMemPoolEntry}

theorem lookup_mapTx_addUnchecked (other : UInt256) :
    (pool.addUnchecked hash entry).mapTx.lookup other =
      if other = hash then some entry else pool.mapTx.lookup other :=
  StdMap.lookup_insert_eq pool.mapTx other hash entry

theorem lookup_mapNextTx_addUnchecked_of_notMem {out : COutPoint}
    (h : out ∉ entry.tx.prevouts) :
    (pool.addUnchecked hash entry).mapNextTx.lookup out = pool.mapNextTx.lookup out := by
  rw [← map_fst_inPoints] at h
  exact StdMap.lookup_assignAll_of_notMem pool.mapNextTx out h

theorem lookup_mapNextTx_addUnchecked_self (hnodup : entry.tx.prevouts.Nodup) {i : Nat}
    {txin : CTxIn} (h : entry.tx.vin[i]? = some txin) :
    (pool.addUnchecked hash entry).mapNextTx.lookup txin.prevout =
      some { ptx := entry.tx, n := i } := by
  rw [← map_fst_inPoints] at hnodup
  exact StdMap.lookup_assignAll_of_mem pool.mapNextTx _ _ hnodup (mem_inPoints h)

theorem Consistent.addUnchecked (h : Consistent pool) (hadd : MayAdd pool hash entry) :
    Consistent (pool.addUnchecked hash entry) := by
  have hnew : pool.mapTx.lookup hash = none :=
    (StdMap.contains_eq_false_iff pool.mapTx hash).mp hadd.isNew
  have hfree : forall other entry' out, pool.mapTx.lookup other = some entry' ->
      out ∈ entry'.tx.prevouts -> out ∉ entry.tx.prevouts := by
    intro other entry' out hother hmem hmem'
    rcases h.spender hother hmem with ⟨i, hspent⟩
    rw [hadd.unspent out hmem'] at hspent
    cases hspent
  constructor
  · intro other entry' hother
    rw [lookup_mapTx_addUnchecked] at hother
    split_ifs at hother with heq
    · cases hother
      rw [heq]
      exact hadd.keyed
    · exact h.keyed other entry' hother
  · intro other entry' i txin hother hi
    rw [lookup_mapTx_addUnchecked] at hother
    split_ifs at hother with heq
    · cases hother
      exact lookup_mapNextTx_addUnchecked_self hadd.distinct hi
    · rw [lookup_mapNextTx_addUnchecked_of_notMem
        (hfree other entry' _ hother (mem_prevouts_of_getElem? hi))]
      exact h.inputs other entry' i txin hother hi
  · intro out next hnext
    by_cases hmem : out ∈ entry.tx.prevouts
    · rcases mem_prevouts hmem with ⟨i, txin, hi, rfl⟩
      rw [lookup_mapNextTx_addUnchecked_self hadd.distinct hi] at hnext
      cases hnext
      refine ⟨⟨entry, ?_, rfl⟩, txin, hi, rfl⟩
      rw [lookup_mapTx_addUnchecked, if_pos hadd.keyed]
    · rw [lookup_mapNextTx_addUnchecked_of_notMem hmem] at hnext
      rcases h.noOther out next hnext with ⟨⟨entry', hentry, htx⟩, hinput⟩
      refine ⟨⟨entry', ?_, htx⟩, hinput⟩
      rw [lookup_mapTx_addUnchecked, if_neg]
      · exact hentry
      · intro heq
        rw [heq, hnew] at hentry
        cases hentry
  · intro hash1 entry1 hash2 entry2 out h1 h2 hmem1 hmem2
    rw [lookup_mapTx_addUnchecked] at h1 h2
    split_ifs at h1 h2 with heq1 heq2 heq2
    · rw [heq1, heq2]
    · cases h1
      exact absurd hmem1 (hfree hash2 entry2 out h2 hmem2)
    · cases h2
      exact absurd hmem2 (hfree hash1 entry1 out h1 hmem1)
    · exact h.eq_of_spends h1 h2 hmem1 hmem2
  · have hsum := StdMap.sumValues_insert_new pool.mapTx hash entry CTxMemPoolEntry.nTxSize
      hadd.isNew
    have htotal := h.total
    show pool.totalTxSize + entry.nTxSize =
      StdMap.sumValues (pool.mapTx.insert hash entry) CTxMemPoolEntry.nTxSize
    omega

end Consistent

/-!
# Runs
-/

inductive Op where
  | addUnchecked (hash : UInt256) (entry : CTxMemPoolEntry)
  | remove (origTx : CTransaction) (fRecursive : Bool)
  | removeConflicts (tx : CTransaction)
  | removeCoinbaseSpends (pcoins : UInt256 -> Option CCoins) (nMemPoolHeight nMaturity : Nat)
  | removeForBlock (vtx : List CTransaction)
  | clear

def next (pool : CTxMemPool) : Op -> CTxMemPool
  | Op.addUnchecked hash entry => pool.addUnchecked hash entry
  | Op.remove origTx fRecursive => (pool.remove origTx [] fRecursive).1
  | Op.removeConflicts tx => (pool.removeConflicts tx []).1
  | Op.removeCoinbaseSpends pcoins nMemPoolHeight nMaturity =>
      pool.removeCoinbaseSpends pcoins nMemPoolHeight nMaturity
  | Op.removeForBlock vtx => (pool.removeForBlock vtx []).1
  | Op.clear => pool.clear

/-- Transactions are added only after the checks of `AcceptToMemoryPool`. -/
def OnlyChecked (pool : CTxMemPool) : Op -> Prop
  | Op.addUnchecked hash entry => MayAdd pool hash entry
  | _ => True

theorem Consistent.next {pool : CTxMemPool} (h : Consistent pool) (op : Op)
    (hchecked : OnlyChecked pool op) : Consistent (pool.next op) := by
  have herase : forall (pool : CTxMemPool) hash entry, Consistent pool ->
      pool.mapTx.lookup hash = some entry -> Consistent (pool.eraseTx hash entry) :=
    fun _ _ _ h hlookup => h.eraseTx hlookup
  cases op with
  | addUnchecked hash entry => exact h.addUnchecked hchecked
  | remove origTx fRecursive => exact remove_preserves herase pool origTx [] fRecursive h
  | removeConflicts tx => exact removeConflicts_preserves herase pool tx [] h
  | removeCoinbaseSpends pcoins nMemPoolHeight nMaturity =>
      exact removeEach_preserves herase _ pool h
  | removeForBlock vtx =>
      exact removeForBlock_preserves herase (fun _ _ h => h.withDeltas _)
        pool vtx [] h
  | clear => exact consistent_of_empty rfl rfl rfl

theorem consistent_along (ops : List Op) (hops : StepsSatisfy next OnlyChecked {} ops) :
    StatesSatisfy next Consistent {} ops :=
  statesSatisfy_of_steps Consistent (fun _ h => h) (fun _ op h hchecked => h.next op hchecked)
    ops {} (consistent_of_empty rfl rfl rfl) hops

/-- A transaction with two inputs. -/
def pairTx : CTransaction :=
  { hash := 5
    nVersion := 1
    vin := [{ prevout := { hash := 3, n := 0 }, scriptSig := [], nSequence := 0 },
      { prevout := { hash := 3, n := 1 }, scriptSig := [], nSequence := 0 }]
    vout := [{ nValue := COIN, scriptPubKey := [], nRounds := -10 }]
    nLockTime := 0 }

def pairEntry : CTxMemPoolEntry :=
  { tx := pairTx
    nTxSize := 101 }

def pairOps : List Op :=
  [Op.addUnchecked 5 pairEntry, Op.removeForBlock [pairTx], Op.clear,
    Op.addUnchecked 5 pairEntry, Op.remove pairTx true]

theorem mayAdd_pair {pool : CTxMemPool} (htx : pool.mapTx = ∅) (hnext : pool.mapNextTx = ∅) :
    MayAdd pool 5 pairEntry := by
  refine ⟨rfl, ?_, by decide, ?_⟩
  · rw [exists?, htx]
    rfl
  · intro out _
    rw [hnext]
    rfl

theorem consistent_along_pair : StatesSatisfy next Consistent {} pairOps :=
  consistent_along pairOps
    ⟨mayAdd_pair rfl rfl, trivial, trivial, mayAdd_pair rfl rfl, trivial, trivial⟩

end CTxMemPool

end Hbcur
