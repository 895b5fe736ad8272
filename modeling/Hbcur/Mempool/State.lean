import Hbcur.Coins.Entry
import Hbcur.Foundation.StdMap

/-!
# The memory pool

`CTxMemPool` of `txmempool.cpp`: the transactions by identifier, the outputs they
spend with the input that spends them, and the sum of their sizes.
-/

namespace Hbcur

open Foundation

/-- The pointer stands for the transaction in the pool which it points to. -/
structure CInPoint where
  ptx : CTransaction
  n : Nat
  deriving DecidableEq, Repr

structure CTxMemPoolEntry where
  tx : CTransaction
  nTxSize : Nat
  deriving DecidableEq, Repr

/-- The values of `mapDeltas` are a priority and a fee. -/
structure CTxMemPool where
  mapTx : StdMap UInt256 CTxMemPoolEntry := ∅
  mapNextTx : StdMap COutPoint CInPoint := ∅
  mapDeltas : StdMap UInt256 (Rat × Int) := ∅
  totalTxSize : Nat := 0

namespace CTxMemPool

def exists? (pool : CTxMemPool) (hash : UInt256) : Bool :=
  StdMap.contains pool.mapTx hash

/-- The inputs of a transaction as entries of `mapNextTx`. -/
def inPoints (tx : CTransaction) : List (COutPoint × CInPoint) :=
  tx.vin.zipIdx.map fun txin => (txin.1.prevout, { ptx := tx, n := txin.2 })

def addUnchecked (pool : CTxMemPool) (hash : UInt256) (entry : CTxMemPoolEntry) :
    CTxMemPool :=
  { pool with
    mapTx := pool.mapTx.insert hash entry
    mapNextTx := StdMap.assignAll pool.mapNextTx (inPoints entry.tx)
    totalTxSize := pool.totalTxSize + entry.nTxSize }

/-!
# Removal
-/

/-- What one round of the loop in `remove` does to the maps. -/
def eraseTx (pool : CTxMemPool) (hash : UInt256) (entry : CTxMemPoolEntry) : CTxMemPool :=
  { pool with
    mapTx := pool.mapTx.erase hash
    mapNextTx := StdMap.eraseAll pool.mapNextTx entry.tx.prevouts
    totalTxSize := pool.totalTxSize - entry.nTxSize }

/-- The transactions of the pool which spend one of the first outputs. -/
def children (pool : CTxMemPool) (hash : UInt256) (nOut : Nat) : List UInt256 :=
  (List.range nOut).filterMap fun i =>
    (pool.mapNextTx.lookup { hash := hash, n := i }).map fun next => next.ptx.hash

/-- The queue `txToRemove` is processed until it is empty. -/
def removeLoop (fRecursive : Bool) (pool : CTxMemPool) (removed : List CTransaction) :
    List UInt256 -> CTxMemPool × List CTransaction
  | [] => (pool, removed)
  | hash :: rest =>
      match _hlookup : pool.mapTx.lookup hash with
      | none => removeLoop fRecursive pool removed rest
      | some entry =>
          removeLoop fRecursive (pool.eraseTx hash entry) (removed ++ [entry.tx])
            (rest ++ if fRecursive then pool.children hash entry.tx.vout.length else [])
  termination_by txToRemove => (pool.mapTx.entries.length, txToRemove.length)
  decreasing_by
    · exact Prod.Lex.right _ (Nat.lt_succ_self _)
    · apply Prod.Lex.left _ _
      have hlength := StdMap.length_entries_erase pool.mapTx hash entry _hlookup
      simp only [eraseTx]
      omega

theorem removeLoop_of_none {fRecursive : Bool} {pool : CTxMemPool}
    {removed : List CTransaction} {hash : UInt256} {rest : List UInt256}
    (h : pool.mapTx.lookup hash = none) :
    removeLoop fRecursive pool removed (hash :: rest) =
      removeLoop fRecursive pool removed rest := by
  rw [removeLoop]
  split
  · rfl
  · rename_i entry hsome
    rw [h] at hsome
    cases hsome

theorem removeLoop_of_some {fRecursive : Bool} {pool : CTxMemPool}
    {removed : List CTransaction} {hash : UInt256} {rest : List UInt256}
    {entry : CTxMemPoolEntry} (h : pool.mapTx.lookup hash = some entry) :
    removeLoop fRecursive pool removed (hash :: rest) =
      removeLoop fRecursive (pool.eraseTx hash entry) (removed ++ [entry.tx])
        (rest ++ if fRecursive then pool.children hash entry.tx.vout.length else []) := by
  rw [removeLoop]
  split
  · rename_i hnone
    rw [h] at hnone
    cases hnone
  · rename_i entry' hsome
    rw [h] at hsome
    cases hsome
    rfl

def remove (pool : CTxMemPool) (origTx : CTransaction) (removed : List CTransaction)
    (fRecursive : Bool) : CTxMemPool × List CTransaction :=
  -- A transaction which is not in the pool may still have children there.
  removeLoop fRecursive pool removed
    (origTx.hash :: if fRecursive && !pool.exists? origTx.hash then
      pool.children origTx.hash origTx.vout.length else [])

/-!
# Removal of several transactions
-/

/-- Whether a coinbase or coinstake output cannot be spent yet; heights are unsigned. -/
def isImmature (coins : CCoins) (nMemPoolHeight nMaturity : Nat) : Bool :=
  (coins.fCoinBase || coins.fCoinStake) &&
    decide (CCoins.toUInt32 (nMemPoolHeight - coins.nHeight) < nMaturity)

/-- An input whose coins are gone, or came from a coinbase which is now immature. -/
def badInput (pool : CTxMemPool) (pcoins : UInt256 -> Option CCoins)
    (nMemPoolHeight nMaturity : Nat) (txin : CTxIn) : Bool :=
  !pool.exists? txin.prevout.hash &&
    match pcoins txin.prevout.hash with
    | none => true
    | some coins => isImmature coins nMemPoolHeight nMaturity

def removeEach (pool : CTxMemPool) (txs : List CTransaction) : CTxMemPool :=
  txs.foldl (fun pool tx => (pool.remove tx [] true).1) pool

/-- The coins are what `AccessCoins` finds under a transaction identifier. -/
def removeCoinbaseSpends (pool : CTxMemPool) (pcoins : UInt256 -> Option CCoins)
    (nMemPoolHeight nMaturity : Nat) : CTxMemPool :=
  removeEach pool ((pool.mapTx.entries.map fun e => e.2.tx).filter fun tx =>
    tx.vin.any (pool.badInput pcoins nMemPoolHeight nMaturity))

def removeConflict (tx : CTransaction) (found : CTxMemPool × List CTransaction)
    (txin : CTxIn) : CTxMemPool × List CTransaction :=
  match found.1.mapNextTx.lookup txin.prevout with
  | none => found
  | some next => if next.ptx.hash = tx.hash then found else found.1.remove next.ptx found.2 true

def removeConflicts (pool : CTxMemPool) (tx : CTransaction) (removed : List CTransaction) :
    CTxMemPool × List CTransaction :=
  tx.vin.foldl (removeConflict tx) (pool, removed)

def clearPrioritisation (pool : CTxMemPool) (hash : UInt256) : CTxMemPool :=
  { pool with mapDeltas := pool.mapDeltas.erase hash }

def removeForBlockTx (found : CTxMemPool × List CTransaction) (tx : CTransaction) :
    CTxMemPool × List CTransaction :=
  let pool := (found.1.remove tx [] false).1
  let found := pool.removeConflicts tx found.2
  (found.1.clearPrioritisation tx.hash, found.2)

def removeForBlock (pool : CTxMemPool) (vtx : List CTransaction)
    (conflicts : List CTransaction) : CTxMemPool × List CTransaction :=
  vtx.foldl removeForBlockTx (pool, conflicts)

def clear (pool : CTxMemPool) : CTxMemPool :=
  { pool with mapTx := ∅, mapNextTx := ∅, totalTxSize := 0 }

/-!
# Rules for removals

What holds whenever one present entry is erased holds of every removal.
-/

section Removal

variable {P : CTxMemPool -> Prop}
  (herase : forall pool hash entry, P pool -> pool.mapTx.lookup hash = some entry ->
    P (pool.eraseTx hash entry))
include herase

theorem removeLoop_preserves (fRecursive : Bool) (pool : CTxMemPool)
    (removed : List CTransaction) (txToRemove : List UInt256) (h : P pool) :
    P (removeLoop fRecursive pool removed txToRemove).1 := by
  induction pool, removed, txToRemove using removeLoop.induct fRecursive with
  | case1 pool removed =>
      rw [removeLoop]
      exact h
  | case2 pool removed hash rest hnone ih =>
      rw [removeLoop_of_none hnone]
      exact ih h
  | case3 pool removed hash rest entry hsome ih =>
      rw [removeLoop_of_some hsome]
      exact ih (herase pool hash entry h hsome)

theorem remove_preserves (pool : CTxMemPool) (origTx : CTransaction)
    (removed : List CTransaction) (fRecursive : Bool) (h : P pool) :
    P (pool.remove origTx removed fRecursive).1 :=
  removeLoop_preserves herase fRecursive pool removed _ h

theorem removeEach_preserves (txs : List CTransaction) (pool : CTxMemPool) (h : P pool) :
    P (pool.removeEach txs) := by
  unfold removeEach
  induction txs generalizing pool with
  | nil => exact h
  | cons tx rest ih => exact ih _ (remove_preserves herase pool tx [] true h)

theorem removeConflict_preserves (tx : CTransaction) (found : CTxMemPool × List CTransaction)
    (txin : CTxIn) (h : P found.1) : P (removeConflict tx found txin).1 := by
  unfold removeConflict
  split
  · exact h
  · split
    · exact h
    · exact remove_preserves herase _ _ _ _ h

theorem removeConflicts_preserves (pool : CTxMemPool) (tx : CTransaction)
    (removed : List CTransaction) (h : P pool) : P (pool.removeConflicts tx removed).1 := by
  unfold removeConflicts
  generalize tx.vin = vin
  induction vin generalizing pool removed with
  | nil => exact h
  | cons txin rest ih =>
      rw [List.foldl_cons]
      exact ih _ _ (removeConflict_preserves herase tx (pool, removed) txin h)

theorem removeForBlock_preserves
    (hclear : forall pool hash, P pool -> P (pool.clearPrioritisation hash))
    (pool : CTxMemPool) (vtx conflicts : List CTransaction) (h : P pool) :
    P (pool.removeForBlock vtx conflicts).1 := by
  unfold removeForBlock
  induction vtx generalizing pool conflicts with
  | nil => exact h
  | cons tx rest ih =>
      rw [List.foldl_cons]
      refine ih _ _ (hclear _ _ ?_)
      exact removeConflicts_preserves herase _ tx conflicts
        (remove_preserves herase pool tx [] false h)

end Removal

end CTxMemPool

end Hbcur
