import Hbcur.Validation.UndoRun

/-!
# A block as one sequence of steps

Connecting a block runs through the steps of its transactions, and disconnecting
it runs back through the steps which the undo data describes.
-/

namespace Hbcur

open Serialize CCoins

variable {state : Type} [CoinsState state]

/-!
# Connecting as a run of steps
-/

theorem stepsRun_append {nHeight : Int} {v v' v1 : state} {xs ys : List UndoStep}
    (hxs : StepsRun nHeight v xs v') (hys : StepsRun nHeight v' ys v1) :
    StepsRun nHeight v (xs ++ ys) v1 := by
  induction hxs with
  | nil => exact hys
  | spend hspend _ ih => exact StepsRun.spend hspend (ih hys)
  | create _ ih => exact StepsRun.create (ih hys)

theorem stepsRun_spendInputs (nHeight : Int) :
    forall (outs : List COutPoint) (v v' : state) (undos : List CTxInUndo),
      spendInputs v outs = some (undos, v') ->
      undos.length = outs.length ∧
        StepsRun nHeight v ((outs.zip undos).map fun pair =>
          UndoStep.restore pair.1 pair.2) v' := by
  intro outs
  induction outs with
  | nil =>
      intro v v' undos h
      cases h
      exact ⟨rfl, StepsRun.nil v⟩
  | cons out outs ih =>
      intro v v' undos h
      rcases spendInputs_cons h with ⟨undo, v1, undos', hspend, hrest, rfl⟩
      rcases ih v1 v' undos' hrest with ⟨hlength, hrun⟩
      exact ⟨by simp [hlength], StepsRun.spend hspend hrun⟩

/-- The undo data which disconnecting pairs with a transaction fits it. -/
def UndoFits (pair : CTransaction × Option CTxUndo) : Prop :=
  match pair.2 with
  | none => pair.1.isCoinBase = true
  | some txundo =>
      pair.1.isCoinBase = false ∧ txundo.vprevout.length = pair.1.vin.length

theorem length_prevouts (tx : CTransaction) : tx.prevouts.length = tx.vin.length :=
  List.length_map _

theorem stepsRun_updateCoins {nHeight : Int} {v v' : state} {tx : CTransaction}
    {txundo : CTxUndo} (h : updateCoins v tx nHeight = some (txundo, v')) :
    UndoFits (tx, if tx.isCoinBase then none else some txundo) ∧
      StepsRun nHeight v
        (undoStepsOfTx tx (if tx.isCoinBase then none else some txundo)) v' := by
  unfold updateCoins at h
  cases hbase : tx.isCoinBase with
  | true =>
      simp only [hbase, if_true, Option.some.injEq, Prod.mk.injEq] at h
      rcases h with ⟨_, rfl⟩
      exact ⟨hbase, StepsRun.create (StepsRun.nil _)⟩
  | false =>
      simp only [hbase, if_false, Bool.false_eq_true] at h
      cases hspend : spendInputs v tx.prevouts with
      | none =>
          rw [hspend] at h
          cases h
      | some result =>
          rcases result with ⟨vprevout, v1⟩
          simp only [hspend, Option.some.injEq, Prod.mk.injEq] at h
          rcases h with ⟨rfl, rfl⟩
          rcases stepsRun_spendInputs nHeight tx.prevouts v v1 vprevout hspend with
            ⟨hlength, hrun⟩
          rw [length_prevouts] at hlength
          exact ⟨⟨hbase, hlength⟩,
            stepsRun_append hrun (StepsRun.create (StepsRun.nil _))⟩

/-- The undo data which `DisconnectBlock` pairs with the transactions of a block. -/
def undoPairs (vtx : List CTransaction) (vtxundo : List CTxUndo) :
    List (CTransaction × Option CTxUndo) :=
  vtx.zip (none :: vtxundo.map some)

theorem stepsRun_updateCoinsAll (nHeight : Int) :
    forall (txs : List CTransaction) (v v' : state) (txundos : List CTxUndo),
      (forall tx, tx ∈ txs -> tx.isCoinBase = false) ->
      updateCoinsAll v nHeight txs = some (txundos, v') ->
      txundos.length = txs.length ∧
        (forall pair, pair ∈ txs.zip (txundos.map some) -> UndoFits pair) ∧
        StepsRun nHeight v (undoStepsOf (txs.zip (txundos.map some))) v' := by
  intro txs
  induction txs with
  | nil =>
      intro v v' txundos _ h
      cases h
      refine ⟨rfl, ?_, StepsRun.nil v⟩
      intro pair hmem
      cases hmem
  | cons tx txs ih =>
      intro v v' txundos hnot h
      rcases updateCoinsAll_cons h with ⟨txundo, v1, txundos', hone, hrest, rfl⟩
      rcases ih v1 v' txundos' (fun t hmem => hnot t (List.mem_cons_of_mem _ hmem))
        hrest with ⟨hlength, hfits, hrun⟩
      have hfirst := stepsRun_updateCoins hone
      rw [hnot tx List.mem_cons_self, if_neg Bool.false_ne_true] at hfirst
      refine ⟨by simp [hlength], ?_, ?_⟩
      · intro pair hmem
        rcases List.mem_cons.mp hmem with heq | hlater
        · rw [heq]
          exact hfirst.1
        · exact hfits pair hlater
      · exact stepsRun_append hfirst.2 hrun

/-- Connecting a block runs through the steps which its undo data undoes. -/
theorem stepsRun_connectCoins {v v1 : state} {block : CBlock} {nHeight : Int}
    {blockUndo : CBlockUndo} (hshape : block.CoinBaseFirst)
    (h : connectCoins v block nHeight = some (blockUndo, v1)) :
    exists v', v1 = CoinsState.setBestBlock v' block.hash.val ∧
      blockUndo.vtxundo.length + 1 = block.vtx.length ∧
      (forall pair, pair ∈ undoPairs block.vtx blockUndo.vtxundo -> UndoFits pair) ∧
      StepsRun nHeight v (undoStepsOf (undoPairs block.vtx blockUndo.vtxundo)) v' := by
  unfold CBlock.CoinBaseFirst at hshape
  unfold connectCoins at h
  cases hvtx : block.vtx with
  | nil =>
      rw [hvtx] at hshape
      exact absurd hshape id
  | cons first rest =>
      rw [hvtx] at hshape h
      rcases hshape with ⟨hfirst, hothers⟩
      cases hall : updateCoinsAll v nHeight (first :: rest) with
      | none =>
          rw [hall] at h
          cases h
      | some result =>
          rcases result with ⟨undos, v2⟩
          simp only [hall, Option.some.injEq, Prod.mk.injEq] at h
          rcases h with ⟨rfl, rfl⟩
          rcases updateCoinsAll_cons hall with ⟨txundo, v', txundos, hone, hrest, rfl⟩
          have hbase := stepsRun_updateCoins hone
          rw [hfirst, if_pos rfl] at hbase
          rcases stepsRun_updateCoinsAll nHeight rest v' v2 txundos hothers hrest with
            ⟨hlength, hfits, hrun⟩
          refine ⟨v2, rfl, by simp [hlength], ?_, ?_⟩
          · intro pair hmem
            rcases List.mem_cons.mp hmem with heq | hlater
            · rw [heq]
              exact hbase.1
            · exact hfits pair hlater
          · exact stepsRun_append hbase.2 hrun

/-!
# Disconnecting as a run of undo steps
-/

theorem undoSteps_append (nHeight : Int) (v : state) (xs ys : List UndoStep) :
    undoSteps nHeight v (xs ++ ys) =
      ((undoSteps nHeight v ys).1 && (undoSteps nHeight (undoSteps nHeight v ys).2 xs).1,
        (undoSteps nHeight (undoSteps nHeight v ys).2 xs).2) := by
  induction xs with
  | nil => simp [undoSteps]
  | cons x xs ih =>
      simp only [List.cons_append, undoSteps, ih, Bool.and_assoc]

theorem undoSteps_restoreInputs (nHeight : Int) (v : state) :
    forall pairs : List (COutPoint × CTxInUndo),
      undoSteps nHeight v (pairs.map fun pair => UndoStep.restore pair.1 pair.2) =
        restoreInputs v pairs := by
  intro pairs
  induction pairs with
  | nil => rfl
  | cons pair pairs ih =>
      rcases pair with ⟨out, undo⟩
      simp only [List.map_cons, undoSteps, restoreInputs, ih]
      rfl

theorem disconnectTx_eq (nHeight : Int) (v : state) {tx : CTransaction}
    {txundo : Option CTxUndo} (h : UndoFits (tx, txundo)) :
    disconnectTx v nHeight tx txundo =
      some (undoSteps nHeight v (undoStepsOfTx tx txundo)) := by
  unfold disconnectTx undoStepsOfTx
  rw [undoSteps_append]
  cases txundo with
  | none => simp [undoSteps, undoStep]
  | some txundo =>
      simp only [if_pos h.2, undoSteps_restoreInputs]
      simp [undoSteps, undoStep]

theorem disconnectTxs_eq (nHeight : Int) (v : state) :
    forall pairs : List (CTransaction × Option CTxUndo),
      (forall pair, pair ∈ pairs -> UndoFits pair) ->
      disconnectTxs v nHeight pairs = some (undoSteps nHeight v (undoStepsOf pairs)) := by
  intro pairs
  induction pairs with
  | nil =>
      intro _
      rfl
  | cons pair pairs ih =>
      intro h
      rcases pair with ⟨tx, txundo⟩
      have hrest := ih (fun p hmem => h p (List.mem_cons_of_mem _ hmem))
      have hone := disconnectTx_eq nHeight (undoSteps nHeight v (undoStepsOf pairs)).2
        (h (tx, txundo) List.mem_cons_self)
      simp only [disconnectTxs, hrest, hone]
      show some _ = some (undoSteps nHeight v
        (undoStepsOfTx tx txundo ++ undoStepsOf pairs))
      rw [undoSteps_append]

/-- Disconnecting only succeeds when the numbers of records match. -/
theorem lengths_of_disconnectTxs {nHeight : Int} {v : state} :
    forall (pairs : List (CTransaction × Option CTxUndo)) (result : Bool × state),
      disconnectTxs v nHeight pairs = some result ->
      forall tx txundo, (tx, some txundo) ∈ pairs ->
        txundo.vprevout.length = tx.vin.length := by
  intro pairs
  induction pairs with
  | nil =>
      intro result _ tx txundo hmem
      cases hmem
  | cons pair pairs ih =>
      intro result h tx txundo hmem
      rcases pair with ⟨tx', txundo'⟩
      rcases result with ⟨fClean, v'⟩
      rcases disconnectTxs_cons h with ⟨fCleanRest, v1, fCleanOne, hrest, hone, _⟩
      rcases List.mem_cons.mp hmem with heq | hlater
      · injection heq with htx hundo
        subst htx
        rw [← hundo] at hone
        unfold disconnectTx at hone
        by_cases hlength : txundo.vprevout.length = tx.vin.length
        · exact hlength
        · simp only [if_neg hlength] at hone
          cases hone
      · exact ih (fCleanRest, v1) hrest tx txundo hlater

/-!
# What the steps spend and create
-/

/-- The outputs which a block spends. -/
def CBlock.spentOutpoints (block : CBlock) : List COutPoint :=
  block.vtx.flatMap fun tx => if tx.isCoinBase then [] else tx.prevouts

theorem createdBy_append (xs ys : List UndoStep) :
    createdBy (xs ++ ys) = createdBy xs ++ createdBy ys :=
  List.filterMap_append

theorem spentBy_append (xs ys : List UndoStep) :
    spentBy (xs ++ ys) = spentBy xs ++ spentBy ys :=
  List.filterMap_append

theorem createdBy_restores (pairs : List (COutPoint × CTxInUndo)) :
    createdBy (pairs.map fun pair => UndoStep.restore pair.1 pair.2) = [] := by
  induction pairs with
  | nil => rfl
  | cons pair pairs ih => exact ih

theorem spentBy_restores (pairs : List (COutPoint × CTxInUndo)) :
    spentBy (pairs.map fun pair => UndoStep.restore pair.1 pair.2) =
      pairs.map Prod.fst := by
  induction pairs with
  | nil => rfl
  | cons pair pairs ih =>
      show pair.1 :: spentBy (pairs.map fun pair => UndoStep.restore pair.1 pair.2) =
        pair.1 :: pairs.map Prod.fst
      rw [ih]

theorem createdBy_undoStepsOfTx (tx : CTransaction) (txundo : Option CTxUndo) :
    createdBy (undoStepsOfTx tx txundo) = [tx.hash] := by
  unfold undoStepsOfTx
  rw [createdBy_append]
  cases txundo with
  | none => rfl
  | some txundo =>
      rw [createdBy_restores]
      rfl

theorem spentBy_undoStepsOfTx {tx : CTransaction} {txundo : Option CTxUndo}
    (h : UndoFits (tx, txundo)) :
    spentBy (undoStepsOfTx tx txundo) = if tx.isCoinBase then [] else tx.prevouts := by
  unfold undoStepsOfTx
  rw [spentBy_append]
  cases txundo with
  | none =>
      change tx.isCoinBase = true at h
      rw [if_pos h]
      rfl
  | some txundo =>
      rcases h with ⟨hbase, hlength⟩
      change tx.isCoinBase = false at hbase
      rw [spentBy_restores, hbase, if_neg Bool.false_ne_true]
      rw [List.map_fst_zip (by rw [length_prevouts]; exact Nat.le_of_eq hlength.symm)]
      exact List.append_nil _

theorem createdBy_undoStepsOf (pairs : List (CTransaction × Option CTxUndo)) :
    createdBy (undoStepsOf pairs) = pairs.map fun pair => pair.1.hash := by
  induction pairs with
  | nil => rfl
  | cons pair pairs ih =>
      show createdBy (undoStepsOfTx pair.1 pair.2 ++ undoStepsOf pairs) = _
      rw [createdBy_append, createdBy_undoStepsOfTx, ih]
      rfl

theorem spentBy_undoStepsOf (pairs : List (CTransaction × Option CTxUndo))
    (h : forall pair, pair ∈ pairs -> UndoFits pair) :
    spentBy (undoStepsOf pairs) = (pairs.map Prod.fst).flatMap fun tx =>
      if tx.isCoinBase then [] else tx.prevouts := by
  induction pairs with
  | nil => rfl
  | cons pair pairs ih =>
      show spentBy (undoStepsOfTx pair.1 pair.2 ++ undoStepsOf pairs) = _
      rw [spentBy_append, spentBy_undoStepsOfTx (h pair List.mem_cons_self),
        ih (fun p hmem => h p (List.mem_cons_of_mem _ hmem))]
      rfl

theorem map_fst_undoPairs {vtx : List CTransaction} {vtxundo : List CTxUndo}
    (h : vtxundo.length + 1 = vtx.length) : (undoPairs vtx vtxundo).map Prod.fst = vtx := by
  unfold undoPairs
  apply List.map_fst_zip
  simp only [List.length_cons, List.length_map]
  omega

theorem createdBy_undoPairs {vtx : List CTransaction} {vtxundo : List CTxUndo}
    (h : vtxundo.length + 1 = vtx.length) :
    createdBy (undoStepsOf (undoPairs vtx vtxundo)) = vtx.map CTransaction.hash := by
  have hcomp : (fun pair : CTransaction × Option CTxUndo => pair.1.hash) =
      CTransaction.hash ∘ Prod.fst := rfl
  rw [createdBy_undoStepsOf, hcomp, ← List.map_map, map_fst_undoPairs h]

theorem mem_remove_iff {pairs : List (CTransaction × Option CTxUndo)}
    {tx : CTransaction} :
    UndoStep.remove tx ∈ undoStepsOf pairs <-> tx ∈ pairs.map Prod.fst := by
  unfold undoStepsOf undoStepsOfTx
  simp only [List.mem_flatMap, List.mem_append, List.mem_singleton, List.mem_map]
  constructor
  · rintro ⟨pair, hpair, hsteps | hremove⟩
    · split at hsteps
      · cases hsteps
      · rcases List.mem_map.mp hsteps with ⟨_, _, hfalse⟩
        cases hfalse
    · injection hremove with htx
      exact ⟨pair, hpair, htx.symm⟩
  · rintro ⟨pair, hpair, rfl⟩
    exact ⟨pair, hpair, Or.inr rfl⟩

theorem mem_restore_iff {pairs : List (CTransaction × Option CTxUndo)}
    {out : COutPoint} {undo : CTxInUndo} :
    UndoStep.restore out undo ∈ undoStepsOf pairs <->
      exists tx txundo, (tx, some txundo) ∈ pairs ∧
        (out, undo) ∈ tx.prevouts.zip txundo.vprevout := by
  unfold undoStepsOf undoStepsOfTx
  simp only [List.mem_flatMap, List.mem_append, List.mem_singleton]
  constructor
  · rintro ⟨⟨tx, txundo⟩, hpair, hsteps | hfalse⟩
    · cases txundo with
      | none => cases hsteps
      | some txundo =>
          rcases List.mem_map.mp hsteps with ⟨⟨out', undo'⟩, hmem, heq⟩
          cases heq
          exact ⟨tx, txundo, hpair, hmem⟩
    · cases hfalse
  · rintro ⟨tx, txundo, hpair, hmem⟩
    refine ⟨(tx, some txundo), hpair, Or.inl ?_⟩
    exact List.mem_map.mpr ⟨(out, undo), hmem, rfl⟩

theorem mem_vtxundo_of_mem_undoPairs {vtx : List CTransaction} {vtxundo : List CTxUndo}
    {tx : CTransaction} {txundo : CTxUndo} (h : (tx, some txundo) ∈ undoPairs vtx vtxundo) :
    tx ∈ vtx ∧ txundo ∈ vtxundo := by
  rcases List.of_mem_zip h with ⟨htx, hundo⟩
  refine ⟨htx, ?_⟩
  rcases List.mem_cons.mp hundo with hfalse | hmem
  · cases hfalse
  · rcases List.mem_map.mp hmem with ⟨found, hfound, heq⟩
    cases heq
    exact hfound

/-- Every record of the undo data is used by some step. -/
theorem mem_restore_of_mem {vtx : List CTransaction} {vtxundo : List CTxUndo}
    (hlength : vtxundo.length + 1 = vtx.length)
    (hfits : forall pair, pair ∈ undoPairs vtx vtxundo -> UndoFits pair)
    {txundo : CTxUndo} (htxundo : txundo ∈ vtxundo) :
    (exists tx, tx ∈ vtx ∧ txundo.vprevout.length = tx.vin.length) ∧
      forall undo, undo ∈ txundo.vprevout ->
        exists out, UndoStep.restore out undo ∈ undoStepsOf (undoPairs vtx vtxundo) := by
  rcases List.mem_iff_getElem.mp htxundo with ⟨i, hi, hget⟩
  have hpair : (vtx.get ⟨i + 1, by omega⟩, some txundo) ∈ undoPairs vtx vtxundo := by
    apply List.mem_iff_getElem.mpr
    refine ⟨i + 1, by simp [undoPairs]; omega, ?_⟩
    simp [undoPairs, List.getElem_zip, hget]
  have hfit := hfits _ hpair
  refine ⟨⟨_, List.get_mem _ _, hfit.2⟩, ?_⟩
  intro undo hundo
  rcases List.mem_iff_getElem.mp hundo with ⟨j, hj, hgetj⟩
  have hbound : j < (vtx.get ⟨i + 1, by omega⟩).prevouts.length := by
    rw [length_prevouts]
    exact hfit.2 ▸ hj
  refine ⟨(vtx.get ⟨i + 1, by omega⟩).prevouts.get ⟨j, hbound⟩, ?_⟩
  apply mem_restore_iff.mpr
  refine ⟨_, txundo, hpair, ?_⟩
  apply List.mem_iff_getElem.mpr
  refine ⟨j, by simp only [List.length_zip]; omega, ?_⟩
  simp [List.getElem_zip, hgetj]

theorem restores_stored (outs : List COutPoint) :
    forall undos : List CTxInUndo,
      ((outs.zip (undos.map storedTxInUndo)).map fun pair =>
          UndoStep.restore pair.1 pair.2) =
        ((outs.zip undos).map fun pair => UndoStep.restore pair.1 pair.2).map
          storedStep := by
  induction outs with
  | nil =>
      intro undos
      rfl
  | cons out outs ih =>
      intro undos
      cases undos with
      | nil => rfl
      | cons undo undos =>
          simp only [List.map_cons, List.zip_cons_cons, ih undos, storedStep]

theorem undoStepsOf_stored (pairs : List (CTransaction × Option CTxUndo)) :
    undoStepsOf (pairs.map fun pair => (pair.1, pair.2.map storedTxUndo)) =
      (undoStepsOf pairs).map storedStep := by
  induction pairs with
  | nil => rfl
  | cons pair pairs ih =>
      rcases pair with ⟨tx, txundo⟩
      show undoStepsOfTx tx (txundo.map storedTxUndo) ++ undoStepsOf (pairs.map _) =
        (undoStepsOfTx tx txundo ++ undoStepsOf pairs).map storedStep
      rw [List.map_append, ih]
      congr 1
      unfold undoStepsOfTx
      cases txundo with
      | none => rfl
      | some txundo =>
          simp only [Option.map_some, storedTxUndo, restores_stored, List.map_append,
            List.map_cons, List.map_nil, storedStep]

theorem undoPairs_stored (vtx : List CTransaction) (vtxundo : List CTxUndo) :
    undoPairs vtx (vtxundo.map storedTxUndo) =
      (undoPairs vtx vtxundo).map fun pair => (pair.1, pair.2.map storedTxUndo) := by
  have hcons : (none : Option CTxUndo) :: (vtxundo.map storedTxUndo).map some =
      (none :: vtxundo.map some).map (Option.map storedTxUndo) := by
    simp
  unfold undoPairs
  rw [hcons, List.zip_map_right]
  rfl

end Hbcur
