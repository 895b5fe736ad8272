import Hbcur.Script.Interpreter
import Hbcur.Script.Operations

/-!
# Evaluation by operations

One round of `EvalScript` at a position between two operations, and its whole loop on a script
which is divided into operations.
-/

namespace Hbcur
namespace Script

open Foundation

/-- How an operation is read at a position. -/
def Operation.instruction (op : Operation) (pc : Nat) : Instruction :=
  { opcode := op.opcode, vch := op.vch, pc := pc }

section Rounds

variable (env : ScriptEnv) (flags : ScriptVerifyFlags)

/-- What a round which succeeds has tested and done. -/
structure Executes (script : CScript) (op : Operation) (pc : Nat) (m m' : Machine) : Prop where
  small : op.vch.length ≤ MAX_SCRIPT_ELEMENT_SIZE
  count_le : CScript.OP_16 < op.opcode -> countOp m.nOpCount op.opcode ≤ 201
  enabled : isDisabled op.opcode = false
  executed : execInstruction env flags script (op.instruction pc)
    { m with nOpCount := countOp m.nOpCount op.opcode } = Except.ok m'
  depth_le : m'.stack.length + m'.altstack.length ≤ 1000

theorem evalStep_eq_ok_iff {before rest : CScript} {op : Operation} {m m' : Machine} {pc : Nat} :
    evalStep env flags (before ++ (op.bytes ++ rest)) before.length m = Except.ok (pc, m') <->
      Executes env flags (before ++ (op.bytes ++ rest)) op (before ++ op.bytes).length m m' ∧
        pc = (before ++ op.bytes).length := by
  unfold evalStep
  rw [getOp2_operation]
  change (require _ _ >>= _) = _ <-> _
  simp only [bind_eq_ok_iff, require_eq_ok_iff, Bool.not_eq_true', decide_eq_false_iff_not,
    Bool.and_eq_false_iff, Nat.not_lt, gt_iff_lt, Except.ok.injEq, Prod.mk.injEq]
  constructor
  · rintro ⟨_, hsmall, _, hcount, _, henabled, next, hexecuted, _, hdepth, hpc, rfl⟩
    refine ⟨⟨hsmall, ?_, henabled, hexecuted, hdepth⟩, hpc.symm⟩
    intro hlarge
    exact hcount.resolve_left (Nat.not_le.mpr hlarge)
  · rintro ⟨h, rfl⟩
    exact ⟨(), h.small, (), or_iff_not_imp_left.mpr fun hlarge => h.count_le (Nat.not_le.mp hlarge),
      (), h.enabled, m', h.executed, (), h.depth_le, rfl, rfl⟩

/-- Where no operation can be read, evaluation fails. -/
theorem evalStep_none {before tail : CScript} (h : CScript.getOp tail = none) (m : Machine) :
    evalStep env flags (before ++ tail) before.length m =
      Except.error (Stop.error ScriptError.badOpcode) := by
  unfold evalStep
  rw [getOp2_none h]
  rfl

/-!
# The loop
-/

/-- The machine goes through some operations, which follow each other in a script. -/
inductive Runs (script : CScript) : Nat -> List Operation -> Machine -> Machine -> Prop where
  | done {pc : Nat} {m : Machine} : Runs script pc [] m m
  | next {pc : Nat} {op : Operation} {ops : List Operation} {m m' m'' : Machine} :
      Executes env flags script op (pc + op.bytes.length) m m' ->
      Runs script (pc + op.bytes.length) ops m' m'' -> Runs script pc (op :: ops) m m''

variable {env flags}

theorem Runs.concat {script : CScript} {pc : Nat} {ops : List Operation} {op : Operation}
    {m m' m'' : Machine} (h : Runs env flags script pc ops m m')
    (hlast : Executes env flags script op (pc + (bytesOf (ops ++ [op])).length) m' m'') :
    Runs env flags script pc (ops ++ [op]) m m'' := by
  induction h with
  | done =>
      rw [List.nil_append, bytesOf_cons, bytesOf_nil, List.append_nil] at hlast
      exact Runs.next hlast Runs.done
  | next hfirst _ ih =>
      rw [List.cons_append, bytesOf_cons, List.length_append, ← Nat.add_assoc] at hlast
      exact Runs.next hfirst (ih hlast)

theorem evalLoop_eq_ok_iff {script : CScript} {ops : List Operation} :
    forall {before tail : CScript} {rounds : Nat} {m m' : Machine},
      script = before ++ (bytesOf ops ++ tail) -> CScript.getOp tail = none ->
      (bytesOf ops ++ tail).length ≤ rounds ->
      (evalLoop env flags script rounds before.length m = Except.ok m' <->
        tail = [] ∧ Runs env flags script before.length ops m m') := by
  induction ops with
  | nil =>
      intro before tail rounds m m' hscript htail hrounds
      rw [bytesOf_nil, List.nil_append] at hscript hrounds
      have hpc : before.length < script.length <-> tail ≠ [] := by
        rw [hscript, List.length_append, ← List.length_pos_iff]
        omega
      have hend : Runs env flags script before.length [] m m' <-> m = m' := by
        constructor
        · intro hruns
          cases hruns
          rfl
        · rintro rfl
          exact Runs.done
      rw [hend]
      by_cases hnil : tail = []
      · have hstop : ¬ before.length < script.length := fun hlt => hpc.mp hlt hnil
        cases rounds with
        | zero =>
            rw [evalLoop, if_neg hstop, Except.ok.injEq]
            exact (and_iff_right hnil).symm
        | succ rounds =>
            rw [evalLoop, if_neg hstop, Except.ok.injEq]
            exact (and_iff_right hnil).symm
      · have hlength := List.length_pos_iff.mpr hnil
        cases rounds with
        | zero => omega
        | succ rounds =>
            rw [evalLoop, if_pos (hpc.mpr hnil), hscript, evalStep_none env flags htail]
            constructor
            · intro h
              cases h
            · intro h
              exact absurd h.1 hnil
  | cons op ops ih =>
      intro before tail rounds m m' hscript htail hrounds
      have hpos := op.length_pos
      rw [bytesOf_cons, List.append_assoc] at hscript
      rw [bytesOf_cons, List.append_assoc, List.length_append] at hrounds
      have hlt : before.length < script.length := by
        rw [hscript, List.length_append, List.length_append]
        omega
      have hnext : script = (before ++ op.bytes) ++ (bytesOf ops ++ tail) := by
        rw [hscript, List.append_assoc]
      cases rounds with
      | zero => omega
      | succ rounds =>
          rw [evalLoop, if_pos hlt, bind_eq_ok_iff]
          constructor
          · rintro ⟨⟨pc, middle⟩, hstep, hloop⟩
            rw [hscript, evalStep_eq_ok_iff, ← hscript] at hstep
            rcases hstep with ⟨hexecutes, rfl⟩
            rcases (ih hnext htail (by omega)).mp hloop with ⟨hnil, hruns⟩
            rw [List.length_append] at hexecutes hruns
            exact ⟨hnil, Runs.next hexecutes hruns⟩
          · rintro ⟨hnil, hruns⟩
            cases hruns with
            | @next _ _ _ _ middle _ hexecutes hrest =>
                refine ⟨⟨(before ++ op.bytes).length, middle⟩, ?_,
                  (ih hnext htail (by omega)).mpr ⟨hnil, ?_⟩⟩
                · rw [hscript, evalStep_eq_ok_iff, ← hscript, List.length_append]
                  exact ⟨hexecutes, rfl⟩
                · rw [List.length_append]
                  exact hrest

/-- `EvalScript` on a script of operations. -/
theorem evalScript_bytesOf_iff {ops : List Operation} {stack stack' : Stack} :
    evalScript env flags (bytesOf ops) stack = Except.ok stack' <->
      (bytesOf ops).length ≤ 10000 ∧
        exists m, Runs env flags (bytesOf ops) 0 ops (Machine.initial stack) m ∧
          m.vfExec = [] ∧ m.stack = stack' := by
  have hscript : bytesOf ops = [] ++ (bytesOf ops ++ []) := by
    rw [List.append_nil, List.nil_append]
  have hloop : forall m, evalLoop env flags (bytesOf ops) (bytesOf ops).length 0
      (Machine.initial stack) = Except.ok m <->
        Runs env flags (bytesOf ops) 0 ops (Machine.initial stack) m := by
    intro m
    have hiff := @evalLoop_eq_ok_iff env flags _ ops [] [] (bytesOf ops).length
      (Machine.initial stack) m hscript rfl (by rw [List.append_nil])
    rw [eq_self, true_and] at hiff
    exact hiff
  unfold evalScript evalBody
  simp only [bind_eq_ok_iff, catchAll_eq_ok_iff, require_eq_ok_iff, Bool.not_eq_true',
    decide_eq_false_iff_not, gt_iff_lt, Nat.not_lt, List.isEmpty_iff, Except.ok.injEq, hloop]
  constructor
  · rintro ⟨m, ⟨_, hsize, hruns⟩, _, hvfExec, hstack⟩
    exact ⟨hsize, m, hruns, hvfExec, hstack⟩
  · rintro ⟨hsize, m, hruns, hvfExec, hstack⟩
    exact ⟨m, ⟨(), hsize, hruns⟩, (), hvfExec, hstack⟩

end Rounds

/-!
# Pushes
-/

/-- What an operation up to `OP_16` pushes. -/
def Operation.pushed (op : Operation) : ValType :=
  if op.opcode ≤ CScript.OP_PUSHDATA4 then op.vch else serialize ((op.opcode : Int) - 0x50)

/-- An operation which pushes something, as the flags allow; `OP_RESERVED` does not. -/
structure Operation.IsPush (flags : ScriptVerifyFlags) (op : Operation) : Prop where
  opcode_le : op.opcode ≤ CScript.OP_16
  not_reserved : op.opcode ≠ 0x50
  small : op.vch.length ≤ MAX_SCRIPT_ELEMENT_SIZE
  minimal : op.opcode ≤ CScript.OP_PUSHDATA4 ->
    (hasAny flags SCRIPT_VERIFY_MINIMALDATA && !checkMinimalPush op.vch op.opcode) = false

section Pushes

variable {env : ScriptEnv} {flags : ScriptVerifyFlags} {script : CScript} {pc : Nat}
  {m m' : Machine}

theorem Executes.of_push {op : Operation} (h : Executes env flags script op pc m m')
    (hle : op.opcode ≤ CScript.OP_16) (hexec : m.vfExec.all id = true) :
    op.IsPush flags ∧ m' = { m with stack := op.pushed :: m.stack } := by
  have hcount : countOp m.nOpCount op.opcode = m.nOpCount := if_neg (Nat.not_lt.mpr hle)
  have hexecuted := h.executed
  rw [hcount] at hexecuted
  unfold execInstruction Operation.instruction at hexecuted
  simp only at hexecuted
  split_ifs at hexecuted with hpush hcond
  · unfold execPush at hexecuted
    rw [then_eq_ok_iff, require_eq_ok_iff, Bool.not_eq_true', Except.ok.injEq] at hexecuted
    have hpushed : op.pushed = op.vch := if_pos hpush.2
    refine ⟨⟨hle, ?_, h.small, fun _ => hexecuted.1⟩, ?_⟩
    · have hle := hpush.2
      unfold CScript.OP_PUSHDATA4 at hle
      omega
    · rw [hpushed]
      exact hexecuted.2.symm
  · have hlarge : ¬ op.opcode ≤ CScript.OP_PUSHDATA4 := fun hpush' => hpush ⟨hexec, hpush'⟩
    have hpushed : op.pushed = serialize ((op.opcode : Int) - 0x50) := if_neg hlarge
    unfold CScript.OP_PUSHDATA4 at hlarge
    unfold CScript.OP_16 at hle
    by_cases hreserved : op.opcode = 0x50
    · rw [hreserved] at hexecuted
      cases hexecuted
    · have hnumber : Opcode.ofNat op.opcode = Opcode.number ((op.opcode : Int) - 0x50) :=
        if_pos (by omega)
      rw [hnumber] at hexecuted
      refine ⟨⟨hle, hreserved, h.small, fun hpush' => absurd hpush' hlarge⟩, ?_⟩
      rw [hpushed]
      exact (Except.ok.inj hexecuted).symm
  · exact absurd (Or.inl hexec) hcond

theorem Operation.IsPush.executes {op : Operation} (h : op.IsPush flags)
    (hexec : m.vfExec.all id = true) (hdepth : m.stack.length + m.altstack.length < 1000) :
    Executes env flags script op pc m { m with stack := op.pushed :: m.stack } := by
  have hle := h.opcode_le
  have hcount : countOp m.nOpCount op.opcode = m.nOpCount := if_neg (Nat.not_lt.mpr hle)
  have hreserved := h.not_reserved
  refine ⟨h.small, fun hlarge => absurd hlarge (Nat.not_lt.mpr hle), ?_, ?_, ?_⟩
  · unfold CScript.OP_16 at hle
    unfold isDisabled
    simp only [Bool.or_eq_false_iff, Bool.and_eq_false_iff, decide_eq_false_iff_not,
      beq_eq_false_iff_ne]
    omega
  · rw [hcount]
    unfold execInstruction Operation.instruction Operation.pushed
    simp only
    by_cases hpush : op.opcode ≤ CScript.OP_PUSHDATA4
    · rw [if_pos ⟨hexec, hpush⟩, if_pos hpush]
      unfold execPush
      rw [h.minimal hpush]
      rfl
    · rw [if_neg (fun hboth => hpush hboth.2), if_pos (Or.inl hexec), if_neg hpush]
      unfold CScript.OP_PUSHDATA4 at hpush
      unfold CScript.OP_16 at hle
      have hnumber : Opcode.ofNat op.opcode = Opcode.number ((op.opcode : Int) - 0x50) :=
        if_pos (by omega)
      rw [hnumber]
      rfl
  · simp only [List.length_cons]
    omega

theorem Runs.of_pushes {pushes : List Operation} (h : Runs env flags script pc pushes m m')
    (hle : forall op, op ∈ pushes -> op.opcode ≤ CScript.OP_16) (hexec : m.vfExec.all id = true) :
    (forall op, op ∈ pushes -> op.IsPush flags) ∧
      m' = { m with stack := (pushes.map Operation.pushed).reverse ++ m.stack } := by
  induction h with
  | done => exact ⟨nofun, rfl⟩
  | next hexecutes _ ih =>
      rw [List.forall_mem_cons] at hle
      rcases hexecutes.of_push hle.1 hexec with ⟨hpush, hm⟩
      subst hm
      rcases ih hle.2 hexec with ⟨hpushes, heq⟩
      refine ⟨List.forall_mem_cons.mpr ⟨hpush, hpushes⟩, ?_⟩
      rw [heq, List.map_cons, List.reverse_cons, List.append_assoc]
      rfl

theorem runs_pushes {pushes : List Operation} (hpushes : forall op, op ∈ pushes -> op.IsPush flags)
    (hexec : m.vfExec.all id = true)
    (hdepth : m.stack.length + m.altstack.length + pushes.length ≤ 1000) :
    Runs env flags script pc pushes m
      { m with stack := (pushes.map Operation.pushed).reverse ++ m.stack } := by
  induction pushes generalizing m pc with
  | nil => exact Runs.done
  | cons op pushes ih =>
      rw [List.forall_mem_cons] at hpushes
      rw [List.length_cons] at hdepth
      have hrest := @ih (pc + op.bytes.length) { m with stack := op.pushed :: m.stack } hpushes.2
        hexec (by simp only [List.length_cons]; omega)
      rw [List.map_cons, List.reverse_cons, List.append_assoc]
      exact Runs.next (hpushes.1.executes hexec (by omega)) hrest

end Pushes

theorem isPushOnlyFrom_bytesOf {pushes : List Operation}
    (hle : forall op, op ∈ pushes -> op.opcode ≤ CScript.OP_16) :
    forall {before : CScript} {rounds : Nat}, (bytesOf pushes).length ≤ rounds ->
      isPushOnlyFrom (before ++ bytesOf pushes) rounds before.length = Except.ok true := by
  induction pushes with
  | nil =>
      intro before rounds _
      rw [bytesOf_nil, List.append_nil]
      cases rounds with
      | zero => rw [isPushOnlyFrom, if_neg (Nat.lt_irrefl _)]
      | succ rounds => rw [isPushOnlyFrom, if_neg (Nat.lt_irrefl _)]
  | cons op pushes ih =>
      intro before rounds hrounds
      have hpos := op.length_pos
      rw [List.forall_mem_cons] at hle
      rw [bytesOf_cons, List.length_append] at hrounds
      cases rounds with
      | zero => omega
      | succ rounds =>
          have hlt : before.length < (before ++ bytesOf (op :: pushes)).length := by
            rw [bytesOf_cons, List.length_append, List.length_append]
            omega
          have hrest := @ih hle.2 (before ++ op.bytes) rounds (by omega)
          rw [isPushOnlyFrom, if_pos hlt, bytesOf_cons, getOp2_operation, ok_bind]
          simp only
          rw [if_neg (Nat.not_lt.mpr hle.1), ← List.append_assoc]
          exact hrest

theorem checkPushOnly_bytesOf {pushes : List Operation}
    (hle : forall op, op ∈ pushes -> op.opcode ≤ CScript.OP_16) :
    checkPushOnly (bytesOf pushes) = Except.ok () := by
  have honly := @isPushOnlyFrom_bytesOf pushes hle [] _ (Nat.le_refl _)
  unfold checkPushOnly isPushOnly
  rw [List.nil_append, List.length_nil] at honly
  rw [honly]
  rfl

end Script
end Hbcur
