import Hbcur.Validation.UndoSteps

/-!
# Taking all steps back

A run of steps forwards, together with the records it leaves, and the run
backwards through the records.  The invariants of this module hold along either
run: what each entry still holds of its outputs, that entries of the block have
no unspendable outputs, and that heights off the disk stay in range.
-/

namespace Hbcur

open Serialize CCoins

variable {state : Type} [CoinsState state]

/-- A run of forward steps and the records it leaves, in the order of the steps. -/
inductive StepsRun (nHeight : Int) : state -> List UndoStep -> state -> Prop where
  | nil (v : state) : StepsRun nHeight v [] v
  | spend {v v' v1 : state} {out : COutPoint} {undo : CTxInUndo} {log : List UndoStep} :
      spendInput v out = some (undo, v') -> StepsRun nHeight v' log v1 ->
      StepsRun nHeight v (UndoStep.restore out undo :: log) v1
  | create {v v1 : state} {tx : CTransaction} {log : List UndoStep} :
      StepsRun nHeight (assign v tx.hash (CCoins.fromTx tx nHeight)) log v1 ->
      StepsRun nHeight v (UndoStep.remove tx :: log) v1

/-- A record after it went through the disk. -/
def storedStep : UndoStep -> UndoStep
  | UndoStep.restore out undo => UndoStep.restore out (storedTxInUndo undo)
  | UndoStep.remove tx => UndoStep.remove tx

def spentBy (log : List UndoStep) : List COutPoint :=
  log.filterMap fun
    | UndoStep.restore out _ => some out
    | UndoStep.remove _ => none

def createdBy (log : List UndoStep) : List UInt256 :=
  log.filterMap fun
    | UndoStep.restore _ _ => none
    | UndoStep.remove tx => some tx.hash

/-- The transactions added on the way are such that `CheckTransaction` passes them. -/
def CheckedLog (log : List UndoStep) : Prop :=
  forall tx, UndoStep.remove tx ∈ log ->
    0 ≤ tx.nVersion ∧ forall out, out ∈ tx.vout -> 0 ≤ out.nValue

theorem checkedLog_of_cons {u : UndoStep} {log : List UndoStep}
    (h : CheckedLog (u :: log)) : CheckedLog log :=
  fun tx hmem => h tx (List.mem_cons_of_mem u hmem)

/-!
# What is left of each entry
-/

structure Tracks (entry : UInt256 -> CCoins) (spent : List COutPoint)
    (pending : List UInt256) (v : state) : Prop where
  pruned : forall txid, txid ∈ pending -> (coinsAt v txid).isPruned = true
  created : forall out, out ∈ spent -> out.hash ∉ pending
  outputs : forall txid, txid ∉ pending -> forall nPos, (coinsAt v txid).output? nPos =
    if { hash := txid, n := nPos } ∈ spent then none else (entry txid).output? nPos
  metadata : forall txid, txid ∉ pending -> (coinsAt v txid).isPruned = false ->
    (coinsAt v txid).metadata = (entry txid).metadata

section Tracking

variable [LawfulCoinsState state] {entry : UInt256 -> CCoins} {spent : List COutPoint}
  {pending : List UInt256} {v v' : state}

theorem not_pending_of_spendInput {out : COutPoint} {undo : CTxInUndo}
    (h : Tracks entry spent pending v) (hspend : spendInput v out = some (undo, v')) :
    out.hash ∉ pending := by
  intro hpending
  have hnone := (isPruned_iff _).mp (h.pruned out.hash hpending) out.n
  rw [(undo_of_spendInput hspend).1] at hnone
  cases hnone

theorem tracks_spend {out : COutPoint} {undo : CTxInUndo}
    (h : Tracks entry spent pending v) (hspend : spendInput v out = some (undo, v')) :
    Tracks entry (out :: spent) pending v' := by
  have hnot := not_pending_of_spendInput h hspend
  constructor
  · intro txid hpending
    have hne : txid ≠ out.hash := by
      intro heq
      exact hnot (heq ▸ hpending)
    rw [coinsAt_spendInput_other hspend hne]
    exact h.pruned txid hpending
  · intro other hother
    rcases List.mem_cons.mp hother with heq | hmem
    · rw [heq]
      exact hnot
    · exact h.created other hmem
  · intro txid hpending nPos
    by_cases heq : txid = out.hash
    · subst heq
      rw [output?_of_spendInput hspend, h.outputs out.hash hpending nPos]
      by_cases hn : nPos = out.n
      · rw [if_pos hn, if_pos (List.mem_cons.mpr (Or.inl (by rw [hn])))]
      · have hne : ({ hash := out.hash, n := nPos } : COutPoint) ≠ out := by
          intro hout
          exact hn (congrArg COutPoint.n hout)
        simp only [if_neg hn, List.mem_cons, hne, false_or]
    · have hne : ({ hash := txid, n := nPos } : COutPoint) ≠ out := by
        intro hout
        exact heq (congrArg COutPoint.hash hout)
      rw [coinsAt_spendInput_other hspend heq, h.outputs txid hpending nPos]
      simp only [List.mem_cons, hne, false_or]
  · intro txid hpending hpruned
    by_cases heq : txid = out.hash
    · subst heq
      rw [metadata_of_spendInput hspend hpruned]
      apply h.metadata out.hash hpending
      rw [isPruned_eq_false_iff]
      exact ⟨out.n, undo.txout, (undo_of_spendInput hspend).1⟩
    · rw [coinsAt_spendInput_other hspend heq] at hpruned ⊢
      exact h.metadata txid hpending hpruned

theorem tracks_create {tx : CTransaction} {nHeight : Int}
    (h : Tracks entry spent (tx.hash :: pending) v) (hnodup : tx.hash ∉ pending)
    (hentry : entry tx.hash = CCoins.fromTx tx nHeight) :
    Tracks entry spent pending (assign v tx.hash (CCoins.fromTx tx nHeight)) := by
  constructor
  · intro txid hpending
    have hne : txid ≠ tx.hash := by
      intro heq
      exact hnodup (heq ▸ hpending)
    rw [LawfulCoinsState.coinsAt_assign_other v tx.hash txid _ hne]
    exact h.pruned txid (List.mem_cons_of_mem _ hpending)
  · intro out hout hpending
    exact h.created out hout (List.mem_cons_of_mem _ hpending)
  · intro txid hpending nPos
    by_cases heq : txid = tx.hash
    · subst heq
      have hfresh : ({ hash := tx.hash, n := nPos } : COutPoint) ∉ spent := by
        intro hout
        exact h.created _ hout List.mem_cons_self
      rw [output?_assign, if_neg hfresh, hentry]
    · rw [LawfulCoinsState.coinsAt_assign_other v tx.hash txid _ heq]
      exact h.outputs txid (by simp [heq, hpending]) nPos
  · intro txid hpending hpruned
    by_cases heq : txid = tx.hash
    · subst heq
      rw [isPruned_assign] at hpruned
      rw [(agree_assign_self v tx.hash _).2 hpruned, hentry]
    · rw [LawfulCoinsState.coinsAt_assign_other v tx.hash txid _ heq] at hpruned ⊢
      exact h.metadata txid (by simp [heq, hpending]) hpruned

end Tracking

/-!
# When undo data is complete

The condition speaks about the entries from which a block spends, each as it was
before the first of its outputs was spent.
-/

/-- Every unspent output of the entry is among the spent ones. -/
def FullySpent (entry : UInt256 -> CCoins) (spent : List COutPoint) (txid : UInt256) :
    Prop :=
  forall nPos, (entry txid).output? nPos ≠ none -> { hash := txid, n := nPos } ∈ spent

def UndoComplete (entry : UInt256 -> CCoins) (spent : List COutPoint) : Prop :=
  forall out, out ∈ spent ->
    (forall txout, (entry out.hash).output? out.n = some txout ->
      storedTxOut txout = txout) ∧
    (FullySpent entry spent out.hash -> (entry out.hash).MetadataStored)

theorem metadataStored_of_metadata {a b : CCoins} (h : a.metadata = b.metadata)
    (hb : b.MetadataStored) : a.MetadataStored := by
  simp only [CCoins.metadata, Prod.mk.injEq] at h
  rcases h with ⟨_, hstake, hheight, hversion⟩
  exact ⟨hstake.trans hb.notCoinStake, hheight ▸ hb.height_pos, hheight ▸ hb.height_lt,
    hversion ▸ hb.version⟩

section Complete

variable [LawfulCoinsState state] {entry : UInt256 -> CCoins} {spent : List COutPoint}
  {pending : List UInt256} {v v' : state} {out : COutPoint} {undo : CTxInUndo}

theorem output?_of_tracks (h : Tracks entry spent pending v)
    (hspend : spendInput v out = some (undo, v')) :
    (entry out.hash).output? out.n = some undo.txout := by
  have hout := (undo_of_spendInput hspend).1
  rw [h.outputs out.hash (not_pending_of_spendInput h hspend)] at hout
  split at hout
  · cases hout
  · exact hout

theorem metadata_of_tracks (h : Tracks entry spent pending v)
    (hspend : spendInput v out = some (undo, v')) :
    (coinsAt v out.hash).metadata = (entry out.hash).metadata := by
  apply h.metadata out.hash (not_pending_of_spendInput h hspend)
  rw [isPruned_eq_false_iff]
  exact ⟨out.n, undo.txout, (undo_of_spendInput hspend).1⟩

/-- The last unspent output in the state is the last one of the entry to be spent. -/
theorem onlyOutput_iff_of_tracks (h : Tracks entry spent pending v)
    (hspend : spendInput v out = some (undo, v')) :
    (coinsAt v out.hash).OnlyOutput out.n <-> FullySpent entry (out :: spent) out.hash := by
  have houtputs := h.outputs out.hash (not_pending_of_spendInput h hspend)
  constructor
  · intro honly nPos hne
    by_cases hn : nPos = out.n
    · rw [hn]
      exact List.mem_cons_self
    · have hnone := honly nPos hn
      rw [houtputs nPos] at hnone
      split at hnone
      · rename_i hmem
        exact List.mem_cons_of_mem _ hmem
      · exact absurd hnone hne
  · intro hfull nPos hn
    rw [houtputs nPos]
    by_cases hnone : (entry out.hash).output? nPos = none
    · rw [hnone, ite_self]
    · rcases List.mem_cons.mp (hfull nPos hnone) with heq | hmem
      · exact absurd (congrArg COutPoint.n heq) hn
      · rw [if_pos hmem]

theorem restorable_of_undoComplete {all : List COutPoint}
    (h : Tracks entry spent pending v) (hspend : spendInput v out = some (undo, v'))
    (hcomplete : UndoComplete entry all) (hsub : out :: spent ⊆ all) :
    (coinsAt v out.hash).Restorable out.n := by
  intro txout htxout
  have hentry := output?_of_tracks h hspend
  have heq : undo.txout = txout := by
    rw [(undo_of_spendInput hspend).1] at htxout
    exact Option.some.inj htxout
  rcases hcomplete out (hsub List.mem_cons_self) with ⟨hstored, hmetadata⟩
  refine ⟨?_, ?_⟩
  · rw [← heq]
    exact hstored undo.txout hentry
  · intro honly
    apply metadataStored_of_metadata (metadata_of_tracks h hspend)
    apply hmetadata
    intro nPos hne
    exact hsub ((onlyOutput_iff_of_tracks h hspend).mp honly nPos hne)

end Complete

/-!
# Canonical entries along the runs
-/

section Canonical

variable [LawfulCoinsState state]

theorem stateCanonical_assign {v : state} (h : StateCanonical v) {txid : UInt256}
    {coins : CCoins} (hcoins : coins.isPruned = false -> coins.Canonical) :
    StateCanonical (assign v txid coins) := by
  intro other hpruned
  by_cases heq : other = txid
  · subst heq
    rw [isPruned_assign] at hpruned
    rw [LawfulCoinsState.coinsAt_assign_self v other coins hpruned]
    exact canonical_cleanup (hcoins hpruned)
  · rw [LawfulCoinsState.coinsAt_assign_other v txid other coins heq] at hpruned ⊢
    exact h other hpruned

theorem stateCanonical_of_run {nHeight : Int} {v v1 : state} {log : List UndoStep}
    (hrun : StepsRun nHeight v log v1) (hchecked : CheckedLog log)
    (h : StateCanonical v) : StateCanonical v1 := by
  induction hrun with
  | nil => exact h
  | spend hspend _ ih =>
      apply ih (checkedLog_of_cons hchecked)
      rcases spendInput_eq_some hspend with ⟨coins, hcoins, rfl⟩
      rcases (spend_eq_some_iff _ _ _ _).mp hcoins with ⟨txout, hout, _, _⟩
      apply stateCanonical_assign h
      intro _
      apply canonical_of_spend (h _ _) hcoins
      exact (isPruned_eq_false_iff _).mpr ⟨_, txout, hout⟩
  | create _ ih =>
      apply ih (checkedLog_of_cons hchecked)
      apply stateCanonical_assign h
      intro _
      exact canonical_fromTx nHeight (hchecked _ List.mem_cons_self).2

theorem stateCanonical_restoreInput {w : state} {out : COutPoint} {undo : CTxInUndo}
    (h : StateCanonical w) (hclean : (restoreInput w out undo).1 = true)
    (hnull : undo.txout.isNull = false) :
    StateCanonical (restoreInput w out undo).2 := by
  rw [restoreInput_snd]
  apply stateCanonical_assign h
  intro _
  apply canonical_putOutput
  · have hfound := (restoreInput_clean hclean).1
    by_cases hzero : undo.nHeight = 0
    · rw [reopened_of_no_height hzero] at hfound ⊢
      exact h out.hash (by simpa using hfound)
    · rw [reopened_of_height hzero]
      intro other hother
      cases hother
  · intro hfalse
    rw [hnull] at hfalse
    cases hfalse

theorem stateCanonical_removeOutputs {w : state} (tx : CTransaction) (nHeight : Int)
    (h : StateCanonical w) : StateCanonical (removeOutputs w tx nHeight).2 :=
  stateCanonical_assign h (fun _ => canonical_empty)

end Canonical

/-!
# Complete undo data is enough
-/

section Runs

variable [LawfulCoinsState state] {nHeight : Int} {entry : UInt256 -> CCoins}

/-- The entry of every transaction which the run adds is the one it adds. -/
def EntriesOf (nHeight : Int) (entry : UInt256 -> CCoins) (log : List UndoStep) : Prop :=
  forall tx, UndoStep.remove tx ∈ log -> entry tx.hash = CCoins.fromTx tx nHeight

theorem entriesOf_of_cons {u : UndoStep} {log : List UndoStep}
    (h : EntriesOf nHeight entry (u :: log)) : EntriesOf nHeight entry log :=
  fun tx hmem => h tx (List.mem_cons_of_mem u hmem)

theorem undoSteps_of_undoComplete {v v1 : state} {log : List UndoStep}
    (hrun : StepsRun nHeight v log v1) :
    forall (spent : List COutPoint), Tracks entry spent (createdBy log) v ->
      (createdBy log).Nodup -> CheckedLog log -> EntriesOf nHeight entry log ->
      UndoComplete entry (spentBy log ++ spent) ->
      forall w, StateAgree w v1 -> StateCanonical w ->
        (undoSteps nHeight w (log.map storedStep)).1 = true ∧
          StateAgree (undoSteps nHeight w (log.map storedStep)).2 v ∧
          StateCanonical (undoSteps nHeight w (log.map storedStep)).2 := by
  induction hrun with
  | nil =>
      intro spent _ _ _ _ _ w hagree hcanonical
      exact ⟨rfl, hagree, hcanonical⟩
  | @spend v v' v1 out undo log hspend _ ih =>
      intro spent htracks hnodup hchecked hentries hcomplete w hagree hcanonical
      have hall : UndoComplete entry (spentBy log ++ out :: spent) := by
        intro other hother
        have hmem : other ∈ spentBy (UndoStep.restore out undo :: log) ++ spent := by
          simp only [spentBy, List.filterMap_cons, List.cons_append, List.mem_append,
            List.mem_cons] at hother ⊢
          tauto
        rcases hcomplete other hmem with ⟨hstored, hmetadata⟩
        refine ⟨hstored, ?_⟩
        intro hfull
        apply hmetadata
        intro nPos hne
        have hspent := hfull nPos hne
        simp only [spentBy, List.filterMap_cons, List.cons_append, List.mem_append,
          List.mem_cons] at hspent ⊢
        tauto
      have hsub : out :: spent ⊆ spentBy log ++ out :: spent :=
        fun other hother => List.mem_append.mpr (Or.inr hother)
      have hrestorable := restorable_of_undoComplete htracks hspend hall hsub
      rcases ih (out :: spent) (tracks_spend htracks hspend) hnodup
          (checkedLog_of_cons hchecked) (entriesOf_of_cons hentries) hall w hagree
          hcanonical with ⟨hclean, hagree', hcanonical'⟩
      rcases restoreInput_of_spendInput hspend hagree' hrestorable with
        ⟨hcleanOne, hagreeOne⟩
      have hstored := (hrestorable undo.txout (undo_of_spendInput hspend).1).1
      have hnull : (storedTxInUndo undo).txout.isNull = false := by
        show (storedTxOut undo.txout).isNull = false
        rw [hstored]
        exact ((output?_eq_some_iff _ _ _).mp (undo_of_spendInput hspend).1).2
      refine ⟨?_, hagreeOne, stateCanonical_restoreInput hcanonical' hcleanOne hnull⟩
      exact Bool.and_eq_true_iff.mpr ⟨hclean, hcleanOne⟩
  | @create v v1 tx log _ ih =>
      intro spent htracks hnodup hchecked hentries hcomplete w hagree hcanonical
      have hcreated : createdBy (UndoStep.remove tx :: log) = tx.hash :: createdBy log := rfl
      rw [hcreated] at htracks hnodup
      rcases List.nodup_cons.mp hnodup with ⟨hnew, hnodup'⟩
      have htracks' := tracks_create htracks hnew (hentries tx List.mem_cons_self)
      rcases ih spent htracks' hnodup' (checkedLog_of_cons hchecked)
          (entriesOf_of_cons hentries) hcomplete w hagree hcanonical with
        ⟨hclean, hagree', hcanonical'⟩
      rcases hchecked tx List.mem_cons_self with ⟨hversion, hvalues⟩
      rcases removeOutputs_of_create hversion hvalues
          (htracks.pruned tx.hash List.mem_cons_self) hcanonical' hagree' with
        ⟨hcleanOne, hagreeOne⟩
      refine ⟨?_, hagreeOne, stateCanonical_removeOutputs tx nHeight hcanonical'⟩
      exact Bool.and_eq_true_iff.mpr ⟨hclean, hcleanOne⟩

/-!
# Entries of the block hold no unspendable outputs
-/

/-- The records for the given transactions hold spendable outputs. -/
def SpendableLog (txids : List UInt256) (log : List UndoStep) : Prop :=
  forall out undo, UndoStep.restore out undo ∈ log -> out.hash ∈ txids ->
    CScript.isUnspendable undo.txout.scriptPubKey = false

theorem spendable_of_run {v v1 : state} {log : List UndoStep}
    (hrun : StepsRun nHeight v log v1) (txids : List UInt256)
    (h : forall txid, txid ∈ txids -> (coinsAt v txid).Spendable) :
    SpendableLog txids log ∧
      forall txid, txid ∈ txids -> (coinsAt v1 txid).Spendable := by
  induction hrun with
  | nil =>
      refine ⟨?_, h⟩
      intro out undo hmem
      cases hmem
  | @spend v v' v1 out undo log hspend _ ih =>
      have hnext : forall txid, txid ∈ txids -> (coinsAt v' txid).Spendable := by
        intro txid hmem
        by_cases heq : txid = out.hash
        · subst heq
          intro nPos txout htxout
          rw [output?_of_spendInput hspend] at htxout
          split at htxout
          · cases htxout
          · exact h out.hash hmem nPos txout htxout
        · rw [coinsAt_spendInput_other hspend heq]
          exact h txid hmem
      rcases ih hnext with ⟨hlog, hend⟩
      refine ⟨?_, hend⟩
      intro other undo' hmem hhash
      rcases List.mem_cons.mp hmem with heq | hrest
      · injection heq with hout hundo
        subst hout hundo
        exact h other.hash hhash other.n _ (undo_of_spendInput hspend).1
      · exact hlog other undo' hrest hhash
  | @create v v1 tx log _ ih =>
      have hnext : forall txid, txid ∈ txids ->
          (coinsAt (assign v tx.hash (CCoins.fromTx tx nHeight)) txid).Spendable := by
        intro txid hmem
        by_cases heq : txid = tx.hash
        · subst heq
          exact spendable_of_agree (agree_assign_self v tx.hash _)
            (spendable_fromTx tx nHeight)
        · rw [LawfulCoinsState.coinsAt_assign_other v tx.hash txid _ heq]
          exact h txid hmem
      rcases ih hnext with ⟨hlog, hend⟩
      refine ⟨?_, hend⟩
      intro out undo hmem hhash
      rcases List.mem_cons.mp hmem with heq | hrest
      · cases heq
      · exact hlog out undo hrest hhash

theorem spendable_undoSteps (nHeight : Int) {txids : List UInt256} {w : state} :
    forall (log : List UndoStep), SpendableLog txids log ->
      (forall txid, txid ∈ txids -> (coinsAt w txid).Spendable) ->
      forall txid, txid ∈ txids ->
        (coinsAt (undoSteps nHeight w (log.map storedStep)).2 txid).Spendable := by
  intro log
  induction log with
  | nil =>
      intro _ h
      exact h
  | cons u log ih =>
      intro hlog h txid hmem
      have hrest := ih (fun out undo hin => hlog out undo (List.mem_cons_of_mem u hin)) h
      cases u with
      | restore out undo =>
          show (coinsAt (restoreInput _ out (storedTxInUndo undo)).2 txid).Spendable
          by_cases heq : txid = out.hash
          · subst heq
            intro nPos txout htxout
            rw [output?_restoreInput] at htxout
            split at htxout
            · have htx := Option.some.inj (Option.filter_eq_some_iff.mp htxout).1
              rw [← htx, txout_storedTxInUndo, scriptPubKey_storedTxOut]
              exact hlog out undo List.mem_cons_self hmem
            · by_cases hzero : (storedTxInUndo undo).nHeight = 0
              · rw [reopened_of_no_height hzero] at htxout
                exact hrest out.hash hmem nPos txout htxout
              · rw [output?_reopened_of_height hzero] at htxout
                cases htxout
          · rw [coinsAt_restoreInput_other _ out _ heq]
            exact hrest txid hmem
      | remove tx =>
          show (coinsAt (removeOutputs _ tx nHeight).2 txid).Spendable
          by_cases heq : txid = tx.hash
          · subst heq
            exact spendable_of_isPruned isPruned_removeOutputs
          · rw [coinsAt_removeOutputs_other heq]
            exact hrest txid hmem

/-!
# Complete undo data is needed
-/

/-- Heights which the disk format can carry. -/
def HeightsInRange (log : List UndoStep) : Prop :=
  forall out undo, UndoStep.restore out undo ∈ log -> undo.nHeight < 1073741824

theorem fullySpent_cons_of_no_more {log : List UndoStep} {spent : List COutPoint}
    {out : COutPoint} (hfull : FullySpent entry (spentBy log ++ out :: spent) out.hash)
    (hnone : forall other, other ∈ spentBy log -> other.hash ≠ out.hash) :
    FullySpent entry (out :: spent) out.hash := by
  intro nPos hne
  rcases List.mem_append.mp (hfull nPos hne) with hlog | hspent
  · exact absurd rfl (hnone { hash := out.hash, n := nPos } hlog)
  · exact hspent

/-- If undoing is clean and gives the entries back, then the undo data was complete. -/
theorem undoComplete_of_undoSteps {v v1 : state} {log : List UndoStep}
    (hrun : StepsRun nHeight v log v1) {txids : List UInt256} :
    forall (spent : List COutPoint), Tracks entry spent (createdBy log) v ->
      (createdBy log).Nodup -> CheckedLog log -> EntriesOf nHeight entry log ->
      HeightsInRange log -> SpendableLog txids log -> createdBy log ⊆ txids ->
      forall w, (forall txid, txid ∈ txids -> (coinsAt w txid).Spendable) ->
        (undoSteps nHeight w (log.map storedStep)).1 = true ->
        StateAgree (undoSteps nHeight w (log.map storedStep)).2 v ->
        StateAgree w v1 ∧
          forall out, out ∈ spentBy log ->
            (forall txout, (entry out.hash).output? out.n = some txout ->
              storedTxOut txout = txout) ∧
            (FullySpent entry (spentBy log ++ spent) out.hash ->
              (entry out.hash).MetadataStored) := by
  induction hrun with
  | nil =>
      intro spent _ _ _ _ _ _ _ w _ _ hagree
      refine ⟨hagree, ?_⟩
      intro out hout
      cases hout
  | @spend v v' v1 out undo log hspend _ ih =>
      intro spent htracks hnodup hchecked hentries hheights hspendable hsub w hw hclean hagree
      rcases Bool.and_eq_true_iff.mp hclean with ⟨hcleanRest, hcleanOne⟩
      have hheight := hheights out undo List.mem_cons_self
      rcases restorable_of_restoreInput hspend hheight hcleanOne hagree with
        ⟨hrestorable, hagreeRest⟩
      rcases ih (out :: spent) (tracks_spend htracks hspend) hnodup
          (checkedLog_of_cons hchecked) (entriesOf_of_cons hentries)
          (fun o u hmem => hheights o u (List.mem_cons_of_mem _ hmem))
          (fun o u hmem => hspendable o u (List.mem_cons_of_mem _ hmem)) hsub w hw
          hcleanRest hagreeRest with ⟨hend, hrest⟩
      refine ⟨hend, ?_⟩
      have hsplit : forall other, FullySpent entry
          (spentBy (UndoStep.restore out undo :: log) ++ spent) other ->
          FullySpent entry (spentBy log ++ out :: spent) other := by
        intro other hfull nPos hne
        have hmem := hfull nPos hne
        simp only [spentBy, List.filterMap_cons, List.cons_append, List.mem_append,
          List.mem_cons] at hmem ⊢
        tauto
      have hlast := hrestorable undo.txout (undo_of_spendInput hspend).1
      intro other hother
      rcases List.mem_cons.mp hother with heq | hlater
      · subst heq
        constructor
        · intro txout htxout
          rw [output?_of_tracks htracks hspend] at htxout
          cases htxout
          exact hlast.1
        · intro hfull
          -- the metadata is stored by the last of the spends of this entry
          by_cases hmore : exists later, later ∈ spentBy log ∧ later.hash = other.hash
          · rcases hmore with ⟨later, hin, hhash⟩
            rw [← hhash]
            exact (hrest later hin).2 (hhash ▸ hsplit other.hash hfull)
          · have honly := (onlyOutput_iff_of_tracks htracks hspend).mpr
              (fullySpent_cons_of_no_more (hsplit other.hash hfull)
                (fun o hin hhash => hmore ⟨o, hin, hhash⟩))
            exact metadataStored_of_metadata (metadata_of_tracks htracks hspend).symm
              (hlast.2 honly)
      · rcases hrest other hlater with ⟨hstored, hmetadata⟩
        exact ⟨hstored, fun hfull => hmetadata (hsplit other.hash hfull)⟩
  | @create v v1 tx log _ ih =>
      intro spent htracks hnodup hchecked hentries hheights hspendable hsub w hw hclean hagree
      have hcreated : createdBy (UndoStep.remove tx :: log) = tx.hash :: createdBy log := rfl
      rw [hcreated] at htracks hnodup hsub
      rcases List.nodup_cons.mp hnodup with ⟨hnew, hnodup'⟩
      rcases Bool.and_eq_true_iff.mp hclean with ⟨hcleanRest, hcleanOne⟩
      have hlogSpendable : SpendableLog txids log :=
        fun o u hmem => hspendable o u (List.mem_cons_of_mem _ hmem)
      have hself := spendable_undoSteps nHeight log hlogSpendable hw tx.hash
        (hsub List.mem_cons_self)
      have hagreeRest := agree_of_removeOutputs (hchecked tx List.mem_cons_self).1 hself
        hcleanOne hagree
      have htracks' := tracks_create htracks hnew (hentries tx List.mem_cons_self)
      rcases ih spent htracks' hnodup' (checkedLog_of_cons hchecked)
          (entriesOf_of_cons hentries)
          (fun o u hmem => hheights o u (List.mem_cons_of_mem _ hmem)) hlogSpendable
          (fun t hmem => hsub (List.mem_cons_of_mem _ hmem)) w hw hcleanRest
          hagreeRest with ⟨hend, hrest⟩
      exact ⟨hend, hrest⟩

/-!
# Heights, whatever the records

Undoing with any records off the disk gives an entry either no height or one that
an undo record can carry.
-/

def HeightStored (coins : CCoins) : Prop :=
  coins.isPruned = true ∨ 0 < coins.nHeight ∧ coins.nHeight < 1073741824

theorem heightStored_undoSteps {w : state} {txid : UInt256} :
    forall (log : List UndoStep), HeightsInRange log -> HeightStored (coinsAt w txid) ->
      (undoSteps nHeight w log).1 = true ->
      HeightStored (coinsAt (undoSteps nHeight w log).2 txid) := by
  intro log
  induction log with
  | nil =>
      intro _ h _
      exact h
  | cons u log ih =>
      intro hheights h hclean
      rcases Bool.and_eq_true_iff.mp hclean with ⟨hcleanRest, hcleanOne⟩
      have hrest := ih (fun o u' hmem => hheights o u' (List.mem_cons_of_mem _ hmem)) h
        hcleanRest
      cases u with
      | restore out undo =>
          show HeightStored (coinsAt (restoreInput _ out undo).2 txid)
          by_cases heq : txid = out.hash
          · subst heq
            cases hpruned : (coinsAt (restoreInput (undoSteps nHeight w log).2 out
                undo).2 out.hash).isPruned with
            | true => exact Or.inl hpruned
            | false =>
                right
                have hmeta := metadata_restoreInput hpruned
                have hfound := (restoreInput_clean hcleanOne).1
                simp only [CCoins.metadata, Prod.mk.injEq] at hmeta
                rw [hmeta.2.2.1]
                by_cases hzero : undo.nHeight = 0
                · rw [reopened_of_no_height hzero] at hfound ⊢
                  exact hrest.resolve_left (by simpa using hfound)
                · have hlt := hheights out undo List.mem_cons_self
                  rw [reopened_of_height hzero]
                  dsimp only
                  rw [wrapInt32_of_range _ (by omega) (by omega)]
                  omega
          · rw [coinsAt_restoreInput_other _ out _ heq]
            exact hrest
      | remove tx =>
          show HeightStored (coinsAt (removeOutputs _ tx nHeight).2 txid)
          by_cases heq : txid = tx.hash
          · subst heq
            exact Or.inl isPruned_removeOutputs
          · rw [coinsAt_removeOutputs_other heq]
            exact hrest

/-- A transaction whose outputs are found as expected has a height in range. -/
theorem heightStored_fromTx {w : state} {tx : CTransaction} :
    forall (log : List UndoStep), HeightsInRange log -> 0 ≤ tx.nVersion ->
      UndoStep.remove tx ∈ log -> HeightStored (coinsAt w tx.hash) ->
      (undoSteps nHeight w log).1 = true -> HeightStored (CCoins.fromTx tx nHeight) := by
  intro log
  induction log with
  | nil =>
      intro _ _ hmem
      cases hmem
  | cons u log ih =>
      intro hheights hversion hmem h hclean
      rcases Bool.and_eq_true_iff.mp hclean with ⟨hcleanRest, hcleanOne⟩
      have hheightsRest : HeightsInRange log :=
        fun o u' hin => hheights o u' (List.mem_cons_of_mem _ hin)
      rcases List.mem_cons.mp hmem with heq | hlater
      · subst heq
        have hrest := heightStored_undoSteps log hheightsRest h hcleanRest
        change (removeOutputs (undoSteps nHeight w log).2 tx nHeight).1 = true at hcleanOne
        rw [removeOutputs_fst hversion] at hcleanOne
        have hsame := agree_of_same hcleanOne
        cases hpruned : (CCoins.fromTx tx nHeight).isPruned with
        | true => exact Or.inl hpruned
        | false =>
            right
            have hmeta := hsame.2 hpruned
            simp only [CCoins.metadata, Prod.mk.injEq] at hmeta
            rw [← hmeta.2.2.1]
            apply hrest.resolve_left
            intro hwPruned
            have hclear := isPruned_clearUnspendable hwPruned
            rw [isPruned_eq_of_agree hsame, hpruned] at hclear
            cases hclear
      · exact ih hheightsRest hversion hlater h hcleanRest

end Runs

end Hbcur
