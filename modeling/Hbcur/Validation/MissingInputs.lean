import Hbcur.Validation.InTurn
import Hbcur.Validation.Rejection

/-!
# Blocks which are refused for their inputs

Of all the checks of `ConnectBlock` only the one of the inputs in the loop over the
transactions reports them as missing or spent.
-/

namespace Hbcur

open Foundation

/-- A failure other than that of missing inputs. -/
def InputsNotMissing (failure : Failure) : Prop :=
  failure ≠ Failure.dos {} 100 RejectCode.invalid "bad-txns-inputs-missingorspent"

theorem inputsNotMissing_refused {vstate : CValidationState}
    (h : vstate.strRejectReason ≠ "bad-txns-inputs-missingorspent") :
    InputsNotMissing (Failure.refused vstate) := by
  intro heq
  injection heq with hstate
  exact h (congrArg CValidationState.strRejectReason hstate)

theorem inputsNotMissing_dos {vstate : CValidationState} {level : Int} {code : RejectCode}
    {reason : String} {corruption : Bool} (h : reason ≠ "bad-txns-inputs-missingorspent") :
    InputsNotMissing (Failure.dos vstate level code reason corruption) :=
  inputsNotMissing_refused h

theorem inputsNotMissing_invalid {vstate : CValidationState} {code : RejectCode}
    {reason : String} (h : reason ≠ "bad-txns-inputs-missingorspent") :
    InputsNotMissing (Failure.invalid vstate code reason) :=
  inputsNotMissing_dos h

theorem inputsNotMissing_aborted : InputsNotMissing Failure.aborted := nofun

/-- The text of a failed script, whatever the error is. -/
theorem mandatory_ne (err : String) :
    "mandatory-script-verify-flag-failed (" ++ err ++ ")" ≠ "bad-txns-inputs-missingorspent" := by
  intro heq
  have hlist := congrArg String.toList heq
  rw [String.toList_append, String.toList_append] at hlist
  cases hlist

section Checks

variable {state : Type} [CoinsState state] {node : NodeState} {block : CBlock}

theorem ensures_checkTransaction (params : CChainParams) (tx : CTransaction) :
    Ensures InputsNotMissing (fun _ => True) (checkTransaction params {} tx) := by
  refine ensures_then (ensures_check (inputsNotMissing_dos (by decide))) fun _ => ?_
  refine ensures_then (ensures_check (inputsNotMissing_dos (by decide))) fun _ => ?_
  refine ensures_then (ensures_check (inputsNotMissing_dos (by decide))) fun _ => ?_
  refine ensures_then (ensures_accumulate (fun acc out => ?_) tx.vout 0) fun _ => ?_
  · refine ensures_then (ensures_check (inputsNotMissing_dos (by decide))) fun _ => ?_
    refine ensures_then (ensures_check (inputsNotMissing_dos (by decide))) fun _ => ?_
    refine ensures_then (ensures_check (inputsNotMissing_dos (by decide))) fun _ => ?_
    refine ensures_then (ensures_check (inputsNotMissing_dos (by decide))) fun _ => trivial
  · refine ensures_then (ensures_check (inputsNotMissing_dos (by decide))) fun _ => ?_
    unfold checkInputForm
    split_ifs
    · exact ensures_forEach (fun _ => ensures_check (inputsNotMissing_dos (by decide))) _
    · exact ensures_forEach (fun _ => ensures_check (inputsNotMissing_dos (by decide))) _

theorem ensures_checkBlockForm (fCheckPOW fCheckMerkleRoot : Bool) :
    Ensures InputsNotMissing (fun _ => True)
      (checkBlockForm node {} block fCheckPOW fCheckMerkleRoot) := by
  refine ensures_then (ensures_onlyIf ?_) fun _ => ?_
  · unfold checkBlockHeader require
    split_ifs
    · exact trivial
    · exact inputsNotMissing_dos (by decide)
  refine ensures_then (ensures_check (inputsNotMissing_invalid (by decide))) fun _ => ?_
  refine ensures_then (ensures_onlyIf ?_) fun _ => ?_
  · refine ensures_then (ensures_check (inputsNotMissing_dos (by decide))) fun _ => ?_
    exact ensures_check (inputsNotMissing_dos (by decide))
  refine ensures_then (ensures_check (inputsNotMissing_dos (by decide))) fun _ => ?_
  refine ensures_then (ensures_check (inputsNotMissing_dos (by decide))) fun _ => ?_
  refine ensures_then (ensures_forEach
    (fun _ => ensures_check (inputsNotMissing_dos (by decide))) _) fun _ => ?_
  refine ensures_onlyIf ?_
  refine ensures_then (ensures_check (inputsNotMissing_dos (by decide))) fun _ => ?_
  refine ensures_then (ensures_check (inputsNotMissing_dos (by decide))) fun _ => ?_
  exact ensures_forEach (fun _ => ensures_check (inputsNotMissing_dos (by decide))) _

theorem ensures_checkBlock (fCheckPOW fCheckMerkleRoot : Bool) :
    Ensures InputsNotMissing (fun _ => True)
      (checkBlock node {} block fCheckPOW fCheckMerkleRoot) := by
  rw [checkBlock_eq]
  refine ensures_then (ensures_checkBlockForm _ _) fun _ => ?_
  refine ensures_then (ensures_onlyIf (ensures_forEach (fun tx => ?_) _)) fun _ => ?_
  · refine ensures_onlyIf (ensures_forEach (fun txin => ?_) _)
    exact ensures_check (inputsNotMissing_dos (by decide))
  refine ensures_then ?_ fun _ => ?_
  · unfold checkPayee
    split
    · exact trivial
    · refine ensures_onlyIf (ensures_then (ensures_found inputsNotMissing_aborted) fun _ => ?_)
      exact ensures_check (inputsNotMissing_dos (by decide))
  refine ensures_then (ensures_forEach (ensures_checkTransaction node.params) _) fun _ => ?_
  exact ensures_check (inputsNotMissing_dos (by decide))

/-!
# The loop over the transactions
-/

theorem ensures_checkInputs (v : state) (tx : CTransaction) (fScriptChecks : Bool)
    (flags : ScriptFlags) :
    Ensures InputsNotMissing (fun _ => True)
      (checkInputs node {} v tx fScriptChecks flags) := by
  refine ensures_onlyIf ?_
  refine ensures_then (ensures_check (inputsNotMissing_invalid (by decide))) fun _ => ?_
  refine ensures_then (ensures_found inputsNotMissing_aborted) fun _ => ?_
  refine ensures_then (ensures_accumulate (fun acc txin => ?_) _ _) fun _ => ?_
  · refine ensures_then (ensures_check (inputsNotMissing_invalid (by decide))) fun _ => ?_
    refine ensures_then (ensures_found inputsNotMissing_aborted) fun _ => ?_
    exact ensures_then (ensures_check (inputsNotMissing_dos (by decide))) fun _ => trivial
  refine ensures_then (ensures_onlyIf ?_) fun _ => ?_
  · refine ensures_then (ensures_found inputsNotMissing_aborted) fun _ => ?_
    refine ensures_then (ensures_check (inputsNotMissing_dos (by decide))) fun _ => ?_
    refine ensures_then (ensures_check (inputsNotMissing_dos (by decide))) fun _ => ?_
    exact ensures_check (inputsNotMissing_dos (by decide))
  refine ensures_onlyIf (ensures_forEach (fun pair => ?_) _)
  refine ensures_then (ensures_found inputsNotMissing_aborted) fun _ => ?_
  split
  · exact trivial
  · split
    · exact inputsNotMissing_invalid (by decide)
    · exact inputsNotMissing_dos (mandatory_ne _)

theorem ensures_connectTx {ctx : ConnectContext} (hctx : ctx.vstate = {})
    {s : ConnectState state} {tx : CTransaction} (hinputs : haveInputs s.view tx = true) :
    Ensures InputsNotMissing (fun _ => True) (ctx.connectTx s tx) := by
  rcases ctx with ⟨node, vstate, nHeight, fScriptChecks, fStrictPayToScriptHash⟩
  simp only at hctx
  subst hctx
  refine ensures_then (ensures_check (inputsNotMissing_dos (by decide))) fun _ => ?_
  refine ensures_then ?_ fun _ => ?_
  · unfold ConnectContext.connectInputs
    split_ifs
    · exact trivial
    · refine ensures_then ?_ fun s' => ?_
      · unfold ConnectContext.addInputs
        rw [hinputs]
        refine ensures_then trivial fun _ => ?_
        refine ensures_then (ensures_check (inputsNotMissing_dos (by decide))) fun _ => ?_
        refine ensures_then (ensures_found inputsNotMissing_aborted) fun _ => ?_
        refine ensures_then ?_ fun _ => trivial
        unfold ConnectContext.addFee
        split_ifs
        · exact trivial
        · exact ensures_then (ensures_found inputsNotMissing_aborted) fun _ => trivial
      · exact ensures_then (ensures_checkInputs _ _ _ _) fun _ => trivial
  · refine ensures_then (ensures_found inputsNotMissing_aborted) fun _ => ?_
    exact ensures_then (ensures_found inputsNotMissing_aborted) fun _ => trivial

theorem ensures_connectLoop {ctx : ConnectContext} (hctx : ctx.vstate = {}) :
    forall (txs : List CTransaction) {s : ConnectState state} {v' : state},
      InTurn ctx.nHeight txs s.view v' ->
      Ensures InputsNotMissing (fun _ => True) (accumulate ctx.connectTx s txs) := by
  intro txs
  induction txs with
  | nil => exact fun _ => trivial
  | cons tx rest ih =>
      intro s v' h
      rcases h with ⟨hinputs, undo, v1, hupdate, hrest⟩
      cases hone : ctx.connectTx s tx with
      | error failure =>
          have herror := (ensures_connectTx hctx hinputs).of_error hone
          rw [accumulate, hone]
          exact herror
      | ok s1 =>
          rcases ctx.connectTx_coins hone with ⟨undo', hupdate'⟩
          rw [hupdate, Option.some.injEq, Prod.mk.injEq] at hupdate'
          rw [accumulate, hone]
          rw [hupdate'.2] at hrest
          exact ih hrest

/-- A block whose inputs are there in turn is not refused for them. -/
theorem connectBlock_inputsNotMissing {v v' : state} {pindex : PIndex}
    (h : InTurn pindex.nHeight block.vtx v v') (fJustCheck : Bool) :
    connectBlock node {} v block pindex fJustCheck ≠
      Except.error (Failure.dos {} 100 RejectCode.invalid "bad-txns-inputs-missingorspent") := by
  have hensures : Ensures InputsNotMissing (fun _ => True)
      (connectBlock node {} v block pindex fJustCheck) := by
    refine ensures_then (ensures_checkBlock _ _) fun _ => ?_
    refine ensures_then (ensures_check inputsNotMissing_aborted) fun _ => ?_
    refine ensures_ite (fun _ => ?_) fun _ => ?_
    · exact ensures_then (ensures_found inputsNotMissing_aborted) fun _ => trivial
    · refine ensures_then ?_ fun _ => ensures_ite (fun _ => trivial) fun _ => ?_
      · refine ensures_then (ensures_check (inputsNotMissing_dos (by decide))) fun _ => ?_
        refine ensures_then (ensures_check (inputsNotMissing_dos (by decide))) fun _ => ?_
        refine ensures_then (ensures_onlyIf (ensures_forEach
          (fun _ => ensures_check (inputsNotMissing_dos (by decide))) _)) fun _ => ?_
        refine ensures_then (ensures_connectLoop rfl block.vtx h) fun _ => ?_
        refine ensures_then (ensures_check (inputsNotMissing_refused (by decide))) fun _ => ?_
        refine ensures_then (ensures_found inputsNotMissing_aborted) fun _ => ?_
        refine ensures_then (ensures_check (inputsNotMissing_dos (by decide))) fun _ => ?_
        exact ensures_then (ensures_check (inputsNotMissing_dos (by decide))) fun _ => trivial
      · refine ensures_then (ensures_check (inputsNotMissing_refused (by decide))) fun _ => ?_
        refine ensures_then (ensures_check (inputsNotMissing_refused (by decide))) fun _ => ?_
        exact ensures_then (ensures_found inputsNotMissing_aborted) fun _ => trivial
  exact fun herror => hensures.of_error herror rfl

end Checks

end Hbcur
