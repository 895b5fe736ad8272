import Hbcur.Script.Operations

/-!
# Deleting an operation

`FindAndDelete` compares bytes, and only at the positions between operations.  For a pattern
which is an operation itself it takes out exactly the operations which are equal to it.
-/

namespace Hbcur
namespace Script

open Foundation

/-!
# The inner loop
-/

section Erasing

variable {b : CScript}

/-- More rounds than bytes are left make no difference. -/
theorem eraseHere_rounds (hb : b ≠ []) (pc : Nat) : forall (rounds rounds' : Nat)
    (script : CScript) (nFound : Nat), script.length < rounds -> script.length < rounds' ->
      eraseHere b pc rounds script nFound = eraseHere b pc rounds' script nFound := by
  have hpos : 0 < b.length := List.length_pos_iff.mpr hb
  intro rounds
  induction rounds with
  | zero =>
      intro rounds' script nFound h
      exact absurd h (Nat.not_lt_zero _)
  | succ rounds ih =>
      intro rounds' script nFound h h'
      cases rounds' with
      | zero => exact absurd h' (Nat.not_lt_zero _)
      | succ rounds' =>
          rw [eraseHere, eraseHere]
          by_cases hfits : b.length ≤ script.length - pc
          · have hshorter : (script.take pc ++ script.drop (pc + b.length)).length <
                script.length := by
              rw [List.length_append, List.length_take, List.length_drop]
              omega
            rw [if_pos hfits, if_pos hfits, slice_eq (by omega), ok_bind, ok_bind,
              ih rounds' _ _ (by omega) (by omega)]
          · rw [if_neg hfits, if_neg hfits]

theorem eraseHere_same (before rest : CScript) (rounds nFound : Nat) :
    eraseHere b before.length (rounds + 1) (before ++ (b ++ rest)) nFound =
      eraseHere b before.length rounds (before ++ rest) (nFound + 1) := by
  have hslice : slice (before ++ (b ++ rest)) before.length b.length = Except.ok b := by
    rw [slice_eq (by simp only [List.length_append]; omega), List.drop_left, List.take_left]
  have herased : (before ++ (b ++ rest)).take before.length ++
      (before ++ (b ++ rest)).drop (before.length + b.length) = before ++ rest := by
    rw [List.take_left, ← List.drop_drop, List.drop_left, List.drop_left]
  rw [eraseHere, if_pos (by simp only [List.length_append]; omega), hslice, ok_bind, if_pos rfl,
    herased]

theorem eraseHere_other {rest : CScript} (h : ¬ b <+: rest) (before : CScript)
    (rounds nFound : Nat) :
    eraseHere b before.length (rounds + 1) (before ++ rest) nFound =
      Except.ok (before ++ rest, nFound) := by
  rw [eraseHere]
  split_ifs with hfits
  · rw [slice_eq (by rw [List.length_append] at hfits ⊢; omega), ok_bind, List.drop_left,
      if_neg]
    intro heq
    exact h (heq ▸ List.take_prefix _ _)
  · rfl

end Erasing

/-!
# The outer loop
-/

/-- Whether an operation has the bytes of the pattern. -/
def Operation.isEqual (op b : Operation) : Bool := decide (op.bytes = b.bytes)

section Deleting

variable (b : Operation)

/-- What is left of the operations. -/
def withoutOperation (ops : List Operation) : List Operation :=
  ops.filter fun op => !op.isEqual b

def countOperation (ops : List Operation) : Nat := ops.countP fun op => op.isEqual b

variable {b}

theorem not_prefix_of_getOp_none {tail : CScript} (h : CScript.getOp tail = none) :
    ¬ b.bytes <+: tail := by
  rintro ⟨rest, rfl⟩
  rw [b.reads rest] at h
  cases h

theorem not_prefix_of_ne {op : Operation} (h : op.isEqual b = false) (rest : CScript) :
    ¬ b.bytes <+: op.bytes ++ rest := by
  rintro ⟨rest', hrest⟩
  have heq := Operation.eq_of_append_eq hrest
  unfold Operation.isEqual at h
  exact of_decide_eq_false h (congrArg Operation.bytes heq.symm)

/-- An occurrence is erased, and the round looks at the same position again. -/
theorem deleteLoop_same (before rest : CScript) {rounds : Nat} (nFound : Nat) :
    deleteLoop b.bytes (rounds + 1) (before ++ (b.bytes ++ rest)) before.length nFound =
      deleteLoop b.bytes (rounds + 1) (before ++ rest) before.length (nFound + 1) := by
  have hpos := b.length_pos
  rw [deleteLoop, deleteLoop, eraseHere_same, eraseHere_rounds b.bytes_ne_nil before.length
    _ ((before ++ rest).length + 1)]
  · simp only [List.length_append]
    omega
  · exact Nat.lt_succ_self _

theorem deleteLoop_stop {before tail : CScript} (h : CScript.getOp tail = none)
    (rounds nFound : Nat) :
    deleteLoop b.bytes (rounds + 1) (before ++ tail) before.length nFound =
      Except.ok (before ++ tail, nFound) := by
  rw [deleteLoop, eraseHere_other (not_prefix_of_getOp_none h), ok_bind]
  simp only
  rw [getOp2_none h, ok_bind]

theorem deleteLoop_other {op : Operation} (h : op.isEqual b = false) (before rest : CScript)
    (rounds nFound : Nat) :
    deleteLoop b.bytes (rounds + 1) (before ++ (op.bytes ++ rest)) before.length nFound =
      deleteLoop b.bytes rounds ((before ++ op.bytes) ++ rest) (before ++ op.bytes).length
        nFound := by
  rw [deleteLoop, eraseHere_other (not_prefix_of_ne h rest), ok_bind]
  simp only
  rw [getOp2_operation, ok_bind, List.append_assoc]

theorem deleteLoop_eq {script tail : CScript} {ops : List Operation}
    (h : Divided script ops tail) :
    forall (before : CScript) (rounds nFound : Nat), script.length < rounds ->
      deleteLoop b.bytes rounds (before ++ script) before.length nFound =
        Except.ok (before ++ (bytesOf (withoutOperation b ops) ++ tail),
          nFound + countOperation b ops) := by
  induction h with
  | @stop script hstop =>
      intro before rounds nFound hrounds
      cases rounds with
      | zero => exact absurd hrounds (Nat.not_lt_zero _)
      | succ rounds => exact deleteLoop_stop hstop rounds nFound
  | @next op rest tail ops hrest ih =>
      intro before rounds nFound hrounds
      have hpos := op.length_pos
      rw [List.length_append] at hrounds
      cases rounds with
      | zero => exact absurd hrounds (Nat.not_lt_zero _)
      | succ rounds =>
          unfold withoutOperation countOperation at ih ⊢
          cases hmatch : op.isEqual b with
          | true =>
              have heq : op.bytes = b.bytes := of_decide_eq_true hmatch
              rw [heq, deleteLoop_same, ih before (rounds + 1) (nFound + 1) (by omega),
                List.filter_cons_of_neg (by rw [hmatch]; decide),
                List.countP_cons_of_pos (by exact hmatch)]
              congr 2
              omega
          | false =>
              rw [deleteLoop_other hmatch, ih (before ++ op.bytes) rounds nFound (by omega),
                List.filter_cons_of_pos (by rw [hmatch]; decide),
                List.countP_cons_of_neg (by rw [hmatch]; decide), bytesOf_cons,
                List.append_assoc, List.append_assoc]

end Deleting

/-!
# The whole function
-/

theorem findAndDelete_bytes (b : Operation) (script : CScript) :
    findAndDelete script b.bytes =
      Except.ok (bytesOf (withoutOperation b (operations script)) ++ unread script,
        countOperation b (operations script)) := by
  unfold findAndDelete
  rw [if_neg b.bytes_ne_nil]
  have hloop := deleteLoop_eq (b := b) (divided_operations script) [] (script.length + 1) 0
    (Nat.lt_succ_self _)
  rw [Nat.zero_add] at hloop
  exact hloop

/-- A pattern which no operation is equal to leaves the script as it is. -/
theorem findAndDelete_of_absent {b : Operation} {script : CScript}
    (h : forall op, op ∈ operations script -> op.bytes ≠ b.bytes) :
    findAndDelete script b.bytes = Except.ok (script, 0) := by
  have hnone : forall op, op ∈ operations script -> ¬ op.isEqual b = true :=
    fun op hmem hmatch => h op hmem (of_decide_eq_true hmatch)
  have hkeep : withoutOperation b (operations script) = operations script := by
    apply List.filter_eq_self.mpr
    intro op hmem
    simp only [hnone op hmem, Bool.not_false]
  have hcount : countOperation b (operations script) = 0 :=
    List.countP_eq_zero.mpr hnone
  rw [findAndDelete_bytes, hkeep, hcount, ← (divided_operations script).eq_append]

/--
The operations which remain are those whose bytes differ from the pattern, in their order, and
behind them stays what cannot be read.
-/
theorem findAndDelete_eq_filter {b : CScript} {opcode : Nat} {vch : List UInt8}
    (hb : CScript.getOp b = some (opcode, vch, [])) (script : CScript) :
    script = bytesOf (operations script) ++ unread script ∧
      CScript.getOp (unread script) = none ∧
      findAndDelete script b =
        Except.ok
          (bytesOf ((operations script).filter fun op => decide (op.bytes ≠ b)) ++
              unread script,
            (operations script).countP fun op => decide (op.bytes = b)) := by
  have hdivided := divided_operations script
  refine ⟨hdivided.eq_append, hdivided.getOp_tail, ?_⟩
  rcases Operation.exists_of_getOp hb with ⟨op, rfl⟩
  rw [findAndDelete_bytes]
  unfold withoutOperation countOperation Operation.isEqual
  simp only [decide_not]

theorem findAndDelete_adjacent :
    findAndDelete [1, 5, 1, 5, 0x76, 1, 5, 2, 1, 5, 2, 1] [1, 5] =
      Except.ok ([0x76, 2, 1, 5, 2, 1], 3) := by
  have hpush : CScript.getOp [1, 5] = some (1, [5], []) := by decide
  have hfilter := findAndDelete_eq_filter hpush [1, 5, 1, 5, 0x76, 1, 5, 2, 1, 5, 2, 1]
  rw [hfilter.2.2]
  decide

end Script
end Hbcur
