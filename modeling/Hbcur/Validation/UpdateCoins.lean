import Hbcur.Coins.State
import Hbcur.Serialize.Undo

/-!
# Connecting and disconnecting the coins of a block

`UpdateCoins` and `DisconnectBlock` of `main.cpp`.  Connecting spends the inputs
of each transaction and adds its outputs; disconnecting goes through the block
backwards with the undo data.
-/

namespace Hbcur

variable {state : Type} [CoinsState state]

/-!
# Connecting
-/

/-- `Spend` through `ModifyCoins`; nothing when the source's assertion fails. -/
def spendInput (v : state) (out : COutPoint) : Option (CTxInUndo × state) :=
  match (coinsAt v out.hash).spend out.n with
  | none => none
  | some (undo, coins) => some (undo, assign v out.hash coins)

def spendInputs (v : state) : List COutPoint -> Option (List CTxInUndo × state)
  | [] => some ([], v)
  | out :: rest =>
      match spendInput v out with
      | none => none
      | some (undo, v') =>
          match spendInputs v' rest with
          | none => none
          | some (undos, v'') => some (undo :: undos, v'')

theorem spendInputs_cons {v v' : state} {out : COutPoint} {rest : List COutPoint}
    {undos : List CTxInUndo} (h : spendInputs v (out :: rest) = some (undos, v')) :
    exists undo v1 undos', spendInput v out = some (undo, v1) ∧
      spendInputs v1 rest = some (undos', v') ∧ undos = undo :: undos' := by
  rw [spendInputs] at h
  cases hone : spendInput v out with
  | none =>
      rw [hone] at h
      cases h
  | some result =>
      rcases result with ⟨undo, v1⟩
      simp only [hone] at h
      cases hrest : spendInputs v1 rest with
      | none =>
          rw [hrest] at h
          cases h
      | some result' =>
          rcases result' with ⟨undos', v2⟩
          simp only [hrest, Option.some.injEq, Prod.mk.injEq] at h
          rcases h with ⟨rfl, rfl⟩
          exact ⟨undo, v1, undos', rfl, hrest, rfl⟩

def updateCoins (v : state) (tx : CTransaction) (nHeight : Int) :
    Option (CTxUndo × state) :=
  match if tx.isCoinBase then some ([], v) else spendInputs v tx.prevouts with
  | none => none
  | some (vprevout, v') =>
      some ({ vprevout := vprevout }, assign v' tx.hash (CCoins.fromTx tx nHeight))

def updateCoinsAll (v : state) (nHeight : Int) :
    List CTransaction -> Option (List CTxUndo × state)
  | [] => some ([], v)
  | tx :: rest =>
      match updateCoins v tx nHeight with
      | none => none
      | some (txundo, v') =>
          match updateCoinsAll v' nHeight rest with
          | none => none
          | some (txundos, v'') => some (txundo :: txundos, v'')

theorem updateCoinsAll_cons {v v' : state} {nHeight : Int} {tx : CTransaction}
    {rest : List CTransaction} {undos : List CTxUndo}
    (h : updateCoinsAll v nHeight (tx :: rest) = some (undos, v')) :
    exists undo v1 undos', updateCoins v tx nHeight = some (undo, v1) ∧
      updateCoinsAll v1 nHeight rest = some (undos', v') ∧ undos = undo :: undos' := by
  rw [updateCoinsAll] at h
  cases hone : updateCoins v tx nHeight with
  | none =>
      rw [hone] at h
      cases h
  | some result =>
      rcases result with ⟨undo, v1⟩
      simp only [hone] at h
      cases hrest : updateCoinsAll v1 nHeight rest with
      | none =>
          rw [hrest] at h
          cases h
      | some result' =>
          rcases result' with ⟨undos', v2⟩
          simp only [hrest, Option.some.injEq, Prod.mk.injEq] at h
          rcases h with ⟨rfl, rfl⟩
          exact ⟨undo, v1, undos', rfl, hrest, rfl⟩

/-- The coins part of `ConnectBlock`: the undo data leaves out the first transaction. -/
def connectCoins (v : state) (block : CBlock) (nHeight : Int) :
    Option (CBlockUndo × state) :=
  match updateCoinsAll v nHeight block.vtx with
  | none => none
  | some (txundos, v') =>
      some ({ vtxundo := txundos.tail }, CoinsState.setBestBlock v' block.hash.val)

/-!
# Disconnecting

Each step returns whether it found everything as expected.
-/

/-- Check the outputs of a transaction against the block and remove them. -/
def removeOutputs (v : state) (tx : CTransaction) (nHeight : Int) : Bool × state :=
  let outs := (coinsAt v tx.hash).clearUnspendable
  let outsBlock := CCoins.fromTx tx nHeight
  let outs' := if outsBlock.nVersion < 0 then { outs with nVersion := outsBlock.nVersion }
    else outs
  (outs'.same outsBlock, assign v tx.hash CCoins.empty)

/-- The entry to which an output is given back, and whether it was in order. -/
def reopened (coins : CCoins) (undo : CTxInUndo) : Bool × CCoins :=
  if undo.nHeight ≠ 0 then
    (coins.isPruned,
      { fCoinBase := undo.fCoinBase
        nHeight := Serialize.wrapInt32 undo.nHeight
        nVersion := undo.nVersion })
  else (!coins.isPruned, coins)

def restoreInput (v : state) (out : COutPoint) (undo : CTxInUndo) : Bool × state :=
  let found := reopened (coinsAt v out.hash) undo
  (found.1 && !found.2.isAvailable out.n,
    assign v out.hash (found.2.putOutput out.n undo.txout))

/-- Restore the inputs of a transaction, the last one first. -/
def restoreInputs (v : state) : List (COutPoint × CTxInUndo) -> Bool × state
  | [] => (true, v)
  | (out, undo) :: rest =>
      match restoreInputs v rest with
      | (fClean, v') =>
          match restoreInput v' out undo with
          | (fClean', v'') => (fClean && fClean', v'')

/-- Undo one transaction; the first one of a block comes without undo data. -/
def disconnectTx (v : state) (nHeight : Int) (tx : CTransaction)
    (txundo : Option CTxUndo) : Option (Bool × state) :=
  match removeOutputs v tx nHeight with
  | (fClean, v') =>
      match txundo with
      | none => some (fClean, v')
      | some txundo =>
          if txundo.vprevout.length = tx.vin.length then
            match restoreInputs v' (tx.prevouts.zip txundo.vprevout) with
            | (fClean', v'') => some (fClean && fClean', v'')
          else none

/-- Undo transactions in reverse order. -/
def disconnectTxs (v : state) (nHeight : Int) :
    List (CTransaction × Option CTxUndo) -> Option (Bool × state)
  | [] => some (true, v)
  | (tx, txundo) :: rest =>
      match disconnectTxs v nHeight rest with
      | none => none
      | some (fClean, v') =>
          match disconnectTx v' nHeight tx txundo with
          | none => none
          | some (fClean', v'') => some (fClean && fClean', v'')

theorem disconnectTxs_cons {v v' : state} {nHeight : Int} {tx : CTransaction}
    {txundo : Option CTxUndo} {rest : List (CTransaction × Option CTxUndo)} {fClean : Bool}
    (h : disconnectTxs v nHeight ((tx, txundo) :: rest) = some (fClean, v')) :
    exists fCleanRest v1 fCleanOne, disconnectTxs v nHeight rest = some (fCleanRest, v1) ∧
      disconnectTx v1 nHeight tx txundo = some (fCleanOne, v') ∧
      fClean = (fCleanRest && fCleanOne) := by
  rw [disconnectTxs] at h
  cases hrest : disconnectTxs v nHeight rest with
  | none =>
      rw [hrest] at h
      cases h
  | some result =>
      rcases result with ⟨fCleanRest, v1⟩
      simp only [hrest] at h
      cases hone : disconnectTx v1 nHeight tx txundo with
      | none =>
          rw [hone] at h
          cases h
      | some result' =>
          rcases result' with ⟨fCleanOne, v2⟩
          simp only [hone, Option.some.injEq, Prod.mk.injEq] at h
          rcases h with ⟨rfl, rfl⟩
          exact ⟨fCleanRest, v1, fCleanOne, rfl, hone, rfl⟩

/--
`DisconnectBlock` with a flag to report to.  There is no result when the source
returns an error or when its assertion about the best block fails.
-/
def disconnectBlock (v : state) (block : CBlock) (pindexHash : BlockHash)
    (pprevHash : BlockHash) (nHeight : Int) (blockUndo : CBlockUndo) :
    Option (Bool × state) :=
  if pindexHash.val = CoinsState.getBestBlock v then
    if blockUndo.vtxundo.length + 1 = block.vtx.length then
      match disconnectTxs v nHeight
          (block.vtx.zip (none :: blockUndo.vtxundo.map some)) with
      | none => none
      | some (fClean, v') => some (fClean, CoinsState.setBestBlock v' pprevHash.val)
    else none
  else none

/-!
# The undo steps as one sequence

For the proofs the nested loops are flattened into one list of steps, each of
which restores an output or removes those of a transaction.
-/

inductive UndoStep where
  | restore (out : COutPoint) (undo : CTxInUndo)
  | remove (tx : CTransaction)

def undoStep (nHeight : Int) (v : state) : UndoStep -> Bool × state
  | UndoStep.restore out undo => restoreInput v out undo
  | UndoStep.remove tx => removeOutputs v tx nHeight

/-- Undo steps, the last one first. -/
def undoSteps (nHeight : Int) (v : state) : List UndoStep -> Bool × state
  | [] => (true, v)
  | u :: rest =>
      ((undoSteps nHeight v rest).1 && (undoStep nHeight (undoSteps nHeight v rest).2 u).1,
        (undoStep nHeight (undoSteps nHeight v rest).2 u).2)

/-- The undo steps which a transaction and its undo data amount to. -/
def undoStepsOfTx (tx : CTransaction) (txundo : Option CTxUndo) : List UndoStep :=
  (match txundo with
    | none => []
    | some txundo =>
        (tx.prevouts.zip txundo.vprevout).map fun pair =>
          UndoStep.restore pair.1 pair.2) ++ [UndoStep.remove tx]

def undoStepsOf (pairs : List (CTransaction × Option CTxUndo)) : List UndoStep :=
  pairs.flatMap fun pair => undoStepsOfTx pair.1 pair.2

end Hbcur
