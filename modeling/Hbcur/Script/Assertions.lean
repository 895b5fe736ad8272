import Hbcur.Script.Safety

/-!
# The assertions of script numbers

The sums and negations of `CScriptNum` are asserted not to overflow.  Operands have at most four
bytes, so that no run of `EvalScript` fails an assertion, whatever the stack is which it starts
with, and the results of arithmetic have at most five bytes.
-/

namespace Hbcur
namespace Script

open Foundation

/-- No assertion fails. -/
def Asserts {result : Type} (x : Except Stop result) : Prop :=
  Ensures (fun stop => stop ≠ Stop.aborted) (fun _ => True) x

variable {result result' : Type}

theorem Asserts.ne_aborted {x : Except Stop result} (h : Asserts x) :
    x ≠ Except.error Stop.aborted :=
  fun hx => h.of_error hx rfl

theorem Asserts.of_ensures {fails : Stop -> Prop} {returns : result -> Prop}
    {x : Except Stop result} (h : Ensures fails returns x) (haborted : ¬ fails Stop.aborted) :
    Asserts x := by
  refine (h.imp_fails fun stop hstop => ?_).mono (fun _ _ => trivial)
  rintro rfl
  exact haborted hstop

@[simp]
theorem asserts_ok (r : result) : Asserts (Except.ok r) := trivial

@[simp]
theorem asserts_error {stop : Stop} (h : stop ≠ Stop.aborted) :
    Asserts (Except.error stop : Except Stop result) := h

@[simp]
theorem asserts_require {cond : Bool} {stop : Stop} (h : stop ≠ Stop.aborted) :
    Asserts (require cond stop) :=
  ensures_check h

@[simp]
theorem asserts_expect {found : Option result} {stop : Stop} (h : stop ≠ Stop.aborted) :
    Asserts (expect found stop) :=
  ensures_found h

theorem asserts_bind {x : Except Stop result} {f : result -> Except Stop result'}
    (hx : Asserts x) (hf : forall r, Asserts (f r)) : Asserts (x >>= f) :=
  ensures_then hx hf

@[simp]
theorem asserts_bind_iff {x : Except Stop result} {f : result -> Except Stop result'} :
    Asserts (x >>= f) <-> Asserts x ∧ forall r, x = Except.ok r -> Asserts (f r) := by
  cases x with
  | error stop =>
      constructor
      · intro h
        exact ⟨h, nofun⟩
      · intro h
        exact h.1
  | ok r =>
      constructor
      · intro h
        refine ⟨trivial, ?_⟩
        rintro r' hr
        cases hr
        exact h
      · intro h
        exact h.2 r rfl

@[simp]
theorem asserts_ite_iff {cond : Prop} [Decidable cond] {x y : Except Stop result} :
    Asserts (if cond then x else y) <-> (cond -> Asserts x) ∧ (¬ cond -> Asserts y) := by
  by_cases h : cond <;> simp [h]

/-!
# The stack
-/

section Stacks

variable {stack : Stack} {fRequireMinimal : Bool}

@[simp]
theorem asserts_stacktop (i : Nat) : Asserts (stacktop stack i) := by
  simp [stacktop]

@[simp]
theorem asserts_needs (n : Nat) : Asserts (needs stack n) := by
  simp [needs]

@[simp]
theorem asserts_popstack : Asserts (popstack stack) := by
  cases stack with
  | nil => exact nofun
  | cons vch rest => exact trivial

@[simp]
theorem asserts_popTimes (n : Nat) : Asserts (popTimes n stack) := by
  induction n generalizing stack with
  | zero => exact trivial
  | succ n ih => exact asserts_bind asserts_popstack fun _ => ih

@[simp]
theorem asserts_swapTop (i j : Nat) : Asserts (swapTop stack i j) := by
  simp [swapTop]

@[simp]
theorem asserts_eraseTop (i : Nat) : Asserts (eraseTop stack i) := by
  simp [eraseTop]

@[simp]
theorem asserts_insertTop (i : Nat) (vch : ValType) : Asserts (insertTop stack i vch) := by
  simp [insertTop]

@[simp]
theorem asserts_verifyTop (fSuccess : Bool) (e : ScriptError) :
    Asserts (verifyTop fSuccess e stack) := by
  simp [verifyTop]

@[simp]
theorem asserts_verifyIf (fVerify fSuccess : Bool) (e : ScriptError) :
    Asserts (verifyIf fVerify fSuccess e stack) := by
  simp [verifyIf]

theorem asserts_execStack (op : StackOp) : Asserts (execStack stack op) := by
  cases op <;> simp [execStack, execEqual]

/-!
# Numbers
-/

/-- An operand is read in four bytes, wherever it lies. -/
theorem ensures_operand (i : Nat) :
    Ensures (fun stop => stop ≠ Stop.aborted) IsOperand (numberAt fRequireMinimal stack i) := by
  refine ensures_bind (asserts_stacktop i) (fun vch _ => ?_)
  refine (ensures_scriptNum vch fRequireMinimal).imp_fails (fun stop hstop => ?_)
  rintro rfl
  exact hstop

@[simp]
theorem asserts_numberAt (i : Nat) : Asserts (numberAt fRequireMinimal stack i) :=
  (ensures_operand i).mono fun _ _ => trivial

theorem asserts_execPick (fRoll : Bool) : Asserts (execPick fRequireMinimal fRoll stack) := by
  simp [execPick, takeOut]

theorem asserts_applyUnary {bn : Int} (h : IsOperand bn) (op : UnaryOp) :
    Asserts (applyUnary bn op) :=
  Asserts.of_ensures (ensures_applyUnary h op) id

theorem asserts_execUnary (op : UnaryOp) : Asserts (execUnary fRequireMinimal op stack) := by
  unfold execUnary
  refine asserts_bind (asserts_needs 1) (fun _ => ?_)
  refine ensures_bind (ensures_operand 1) (fun bn hbn => ?_)
  refine asserts_bind (asserts_applyUnary hbn op) (fun r => ?_)
  exact asserts_bind asserts_popstack (fun rest => asserts_ok _)

theorem asserts_execBinary (op : BinaryOp) : Asserts (execBinary fRequireMinimal op stack) := by
  simp [execBinary]

theorem asserts_execWithin : Asserts (execWithin fRequireMinimal stack) := by
  simp [execWithin]

end Stacks

/-!
# Hashes and signatures
-/

section Exec

variable (env : ScriptEnv) (flags : ScriptVerifyFlags) {stack : Stack} {script : CScript}

theorem asserts_execHash (op : HashOp) : Asserts (execHash env op stack) := by
  simp [execHash]

@[simp]
theorem asserts_checkEncodings (vchSig vchPubKey : ValType) :
    Asserts (checkEncodings flags vchSig vchPubKey) :=
  Asserts.of_ensures (ensures_checkEncodings flags vchSig vchPubKey) id

@[simp]
theorem asserts_scriptFrom (pbegincodehash : Nat) :
    Asserts (scriptFrom script pbegincodehash) := by
  simp [scriptFrom]

@[simp]
theorem asserts_deleteSignature (scriptCode : CScript) (vchSig : ValType) :
    Asserts (findAndDelete scriptCode (pushBytes vchSig)) :=
  Asserts.of_ensures (ensures_deleteSignature scriptCode vchSig) id

theorem asserts_execCheckSig (fVerify : Bool) (pbegincodehash : Nat) :
    Asserts (execCheckSig env flags fVerify script pbegincodehash stack) := by
  simp [execCheckSig]

@[simp]
theorem asserts_dropSignatures (left : Nat) :
    forall isig scriptCode, Asserts (dropSignatures stack left isig scriptCode) := by
  induction left with
  | zero => exact fun _ _ => trivial
  | succ left ih =>
      intro isig scriptCode
      simp [dropSignatures, ih]

@[simp]
theorem asserts_multiSigLoop (scriptCode : CScript) (nKeysCount : Nat) :
    forall nSigsCount ikey isig, Asserts
      (multiSigLoop env flags scriptCode stack nKeysCount nSigsCount ikey isig) := by
  induction nKeysCount with
  | zero =>
      intro nSigsCount ikey isig
      unfold multiSigLoop
      simp
  | succ nKeysCount ih =>
      intro nSigsCount ikey isig
      unfold multiSigLoop
      simp [ih]

theorem asserts_execCheckMultiSig (fVerify : Bool) (pbegincodehash nOpCount : Nat) :
    Asserts (execCheckMultiSig env flags fVerify script pbegincodehash nOpCount stack) := by
  simp [execCheckMultiSig]

/-!
# Runs
-/

theorem asserts_onStack {m : Machine} {x : Except Stop Stack} (h : Asserts x) :
    Asserts (onStack m x) :=
  asserts_bind h fun _ => asserts_ok _

theorem asserts_execOp (pc : Nat) (fExec : Bool) (m : Machine) (opcode : Opcode) :
    Asserts (execOp env flags script pc fExec m opcode) := by
  cases opcode with
  | number n => exact asserts_ok _
  | nop => exact asserts_ok _
  | upgradableNop => simp [execOp]
  | opIf => simp [execOp, execIf]
  | opNotIf => simp [execOp, execIf]
  | opElse => cases hexec : m.vfExec <;> simp [execOp, execElse, hexec]
  | opEndIf => cases hexec : m.vfExec <;> simp [execOp, execEndIf, hexec]
  | verify => exact asserts_onStack (by simp [execVerify])
  | opReturn => exact nofun
  | toAltStack => simp [execOp, execToAltStack]
  | fromAltStack => simp [execOp, execFromAltStack]
  | stack op => exact asserts_onStack (asserts_execStack op)
  | pick => exact asserts_onStack (asserts_execPick false)
  | roll => exact asserts_onStack (asserts_execPick true)
  | unary op => exact asserts_onStack (asserts_execUnary op)
  | binary op => exact asserts_onStack (asserts_execBinary op)
  | within => exact asserts_onStack asserts_execWithin
  | hash op => exact asserts_onStack (asserts_execHash env op)
  | codeSeparator => exact asserts_ok _
  | checkSig => exact asserts_onStack (asserts_execCheckSig env flags false _)
  | checkSigVerify => exact asserts_onStack (asserts_execCheckSig env flags true _)
  | checkMultiSig =>
      exact asserts_bind (asserts_execCheckMultiSig env flags false _ _) fun _ => asserts_ok _
  | checkMultiSigVerify =>
      exact asserts_bind (asserts_execCheckMultiSig env flags true _ _) fun _ => asserts_ok _
  | unknown => exact nofun

theorem asserts_execInstruction (instruction : Instruction) (m : Machine) :
    Asserts (execInstruction env flags script instruction m) := by
  unfold execInstruction
  refine ensures_ite (fun _ => ?_) (fun _ => ensures_ite (fun _ => ?_) (fun _ => trivial))
  · exact asserts_bind (asserts_require nofun) fun _ => asserts_ok _
  · exact asserts_execOp env flags _ _ _ _

theorem asserts_evalStep (pc : Nat) (m : Machine) : Asserts (evalStep env flags script pc m) := by
  unfold evalStep
  refine asserts_bind (Asserts.of_ensures ensures_getOp2 id) (fun found => ?_)
  simp [asserts_execInstruction]

theorem asserts_evalLoop (rounds : Nat) :
    forall pc m, Asserts (evalLoop env flags script rounds pc m) := by
  induction rounds with
  | zero =>
      intro pc m
      simp [evalLoop]
  | succ rounds ih =>
      intro pc m
      simp [evalLoop, asserts_evalStep, ih]

theorem asserts_catchAll {x : Except Stop Machine} (h : Asserts x) : Asserts (catchAll x) := by
  cases x with
  | ok m => exact h
  | error stop =>
      cases stop with
      | error serror => exact h
      | scriptNum what =>
          show Stop.error ScriptError.unknownError ≠ Stop.aborted
          exact nofun
      | outOfRange =>
          show Stop.error ScriptError.unknownError ≠ Stop.aborted
          exact nofun
      | aborted => exact h
      | unfinished => exact h

theorem asserts_evalScript (stack : Stack) : Asserts (evalScript env flags script stack) := by
  have hbody : Asserts (evalBody env flags script stack) := by
    simp [evalBody, asserts_evalLoop]
  exact asserts_bind (asserts_catchAll hbody) (fun m => by simp)

/-- The positions and machines which an evaluation goes through. -/
inductive Reaches (script : CScript) (stack : Stack) : Nat -> Machine -> Prop where
  | start : Reaches script stack 0 (Machine.initial stack)
  | next {pc pc' : Nat} {m m' : Machine} (hreaches : Reaches script stack pc m)
      (hpc : pc < script.length) (hstep : evalStep env flags script pc m = Except.ok (pc', m')) :
      Reaches script stack pc' m'

end Exec

/-!
# The results of arithmetic
-/

section Results

variable {fRequireMinimal : Bool} {stack stack' rest : Stack}

theorem length_le_of_natAbs {r : Int} (h : r.natAbs ≤ 8589934592) : (serialize r).length ≤ 5 :=
  (length_serialize_le_iff (by omega) 4).mpr (by omega)

theorem IsOperand.natAbs_lt {bn : Int} (h : IsOperand bn) : bn.natAbs < 4294967296 := by
  unfold IsOperand at h
  omega

theorem exists_unaryResult {bn : Int} (h : IsOperand bn) (op : UnaryOp) :
    exists r, applyUnary bn op = Except.ok r ∧ (serialize r).length ≤ 5 := by
  have hsize := h.natAbs_lt
  rcases exists_applyUnary h op with ⟨r, hr, hle⟩
  exact ⟨r, hr, length_le_of_natAbs (by omega)⟩

theorem natAbs_applyBinary_le (bn1 bn2 : Int) (op : BinaryOp) :
    (applyBinary bn1 bn2 op).natAbs ≤ bn1.natAbs + bn2.natAbs + 1 := by
  cases op with
  | add => exact (Int.natAbs_add_le bn1 bn2).trans (Nat.le_succ _)
  | sub => exact (Int.natAbs_sub_le bn1 bn2).trans (Nat.le_succ _)
  | min =>
      show (if bn1 < bn2 then bn1 else bn2).natAbs ≤ _
      split_ifs <;> omega
  | max =>
      show (if bn1 > bn2 then bn1 else bn2).natAbs ≤ _
      split_ifs <;> omega
  | _ => exact (natAbs_ofBool_le _).trans (Nat.le_add_left _ _)

theorem length_binaryResult {bn1 bn2 : Int} (h1 : IsOperand bn1) (h2 : IsOperand bn2)
    (op : BinaryOp) : (serialize (applyBinary bn1 bn2 op)).length ≤ 5 := by
  have hsize1 := h1.natAbs_lt
  have hsize2 := h2.natAbs_lt
  have hle := natAbs_applyBinary_le bn1 bn2 op
  exact length_le_of_natAbs (by omega)

/-- What an arithmetic instruction leaves on the stack, in at most five bytes. -/
def LeavesResult (fRequireMinimal : Bool) (stack stack' : Stack) : Opcode -> Prop
  | Opcode.unary op => exists bn r, numberAt fRequireMinimal stack 1 = Except.ok bn ∧
      applyUnary bn op = Except.ok r ∧ (serialize r).length ≤ 5 ∧
      stack' = serialize r :: stack.drop 1
  | Opcode.binary op => exists bn1 bn2, numberAt fRequireMinimal stack 2 = Except.ok bn1 ∧
      numberAt fRequireMinimal stack 1 = Except.ok bn2 ∧
      (serialize (applyBinary bn1 bn2 op)).length ≤ 5 ∧
      stack' = if op = BinaryOp.numEqualVerify then stack.drop 2
        else serialize (applyBinary bn1 bn2 op) :: stack.drop 2
  | Opcode.within => exists b, (boolBytes b).length ≤ 5 ∧ stack' = boolBytes b :: stack.drop 3
  | _ => True

theorem popstack_eq_ok (h : popstack stack = Except.ok rest) : rest = stack.drop 1 := by
  cases stack with
  | nil => cases h
  | cons vch tail => exact (Except.ok.inj h).symm

theorem popTimes_eq_ok (n : Nat) :
    forall {stack : Stack}, popTimes n stack = Except.ok rest -> rest = stack.drop n := by
  induction n with
  | zero =>
      intro stack h
      exact (Except.ok.inj h).symm
  | succ n ih =>
      intro stack h
      rcases bind_eq_ok_iff.mp h with ⟨tail, htail, hrest⟩
      rw [ih hrest, popstack_eq_ok htail, List.drop_drop, Nat.add_comm]

theorem leavesResult_execUnary {op : UnaryOp}
    (h : execUnary fRequireMinimal op stack = Except.ok stack') :
    LeavesResult fRequireMinimal stack stack' (Opcode.unary op) := by
  rcases then_eq_ok_iff.mp h with ⟨-, h⟩
  rcases bind_eq_ok_iff.mp h with ⟨bn, hbn, h⟩
  rcases bind_eq_ok_iff.mp h with ⟨r, hr, h⟩
  rcases bind_eq_ok_iff.mp h with ⟨rest, hrest, h⟩
  rcases exists_unaryResult ((ensures_operand 1).of_ok hbn) op with ⟨r', hr', hlength⟩
  rw [hr, Except.ok.injEq] at hr'
  subst hr'
  exact ⟨bn, r, hbn, hr, hlength, by rw [← Except.ok.inj h, popstack_eq_ok hrest]⟩

theorem verifyIf_result {op : BinaryOp} {b : Bool} {vch : ValType}
    (h : verifyIf (op == BinaryOp.numEqualVerify) b ScriptError.numEqualVerify (vch :: rest) =
      Except.ok stack') :
    stack' = if op = BinaryOp.numEqualVerify then rest else vch :: rest := by
  by_cases hop : op = BinaryOp.numEqualVerify
  · rw [if_pos hop]
    subst hop
    cases b with
    | false => cases h
    | true => exact (Except.ok.inj h).symm
  · have hbeq : (op == BinaryOp.numEqualVerify) = false := beq_eq_false_iff_ne.mpr hop
    rw [if_neg hop]
    rw [hbeq] at h
    exact (Except.ok.inj h).symm

theorem leavesResult_execBinary {op : BinaryOp}
    (h : execBinary fRequireMinimal op stack = Except.ok stack') :
    LeavesResult fRequireMinimal stack stack' (Opcode.binary op) := by
  rcases then_eq_ok_iff.mp h with ⟨-, h⟩
  rcases bind_eq_ok_iff.mp h with ⟨bn1, hbn1, h⟩
  rcases bind_eq_ok_iff.mp h with ⟨bn2, hbn2, h⟩
  rcases bind_eq_ok_iff.mp h with ⟨rest, hrest, h⟩
  have hlength := length_binaryResult ((ensures_operand 2).of_ok hbn1)
    ((ensures_operand 1).of_ok hbn2) op
  exact ⟨bn1, bn2, hbn1, hbn2, hlength, by rw [verifyIf_result h, popTimes_eq_ok 2 hrest]⟩

theorem leavesResult_execWithin (h : execWithin fRequireMinimal stack = Except.ok stack') :
    LeavesResult fRequireMinimal stack stack' Opcode.within := by
  rcases then_eq_ok_iff.mp h with ⟨-, h⟩
  rcases bind_eq_ok_iff.mp h with ⟨bn1, hbn1, h⟩
  rcases bind_eq_ok_iff.mp h with ⟨bn2, hbn2, h⟩
  rcases bind_eq_ok_iff.mp h with ⟨bn3, hbn3, h⟩
  rcases bind_eq_ok_iff.mp h with ⟨rest, hrest, h⟩
  refine ⟨_, ?_, by rw [← Except.ok.inj h, popTimes_eq_ok 3 hrest]⟩
  cases (decide (bn2 ≤ bn1) && decide (bn1 < bn3)) <;> decide

end Results

section Steps

variable {env : ScriptEnv} {flags : ScriptVerifyFlags} {script : CScript}

theorem onStack_eq_ok {m m' : Machine} {x : Except Stop Stack}
    (h : onStack m x = Except.ok m') : x = Except.ok m'.stack := by
  rcases bind_eq_ok_iff.mp h with ⟨stack, hstack, h⟩
  rw [hstack, ← Except.ok.inj h]

theorem leavesResult_execOp {pc : Nat} {fExec : Bool} {m m' : Machine} {opcode : Opcode}
    (h : execOp env flags script pc fExec m opcode = Except.ok m') :
    LeavesResult (hasAny flags SCRIPT_VERIFY_MINIMALDATA) m.stack m'.stack opcode := by
  cases opcode with
  | unary op => exact leavesResult_execUnary (onStack_eq_ok h)
  | binary op => exact leavesResult_execBinary (onStack_eq_ok h)
  | within => exact leavesResult_execWithin (onStack_eq_ok h)
  | _ => exact trivial

/-- The opcodes which push the bytes after them have no body in the switch. -/
theorem ofNat_of_push {opcode : Nat} (h : opcode ≤ CScript.OP_PUSHDATA4) :
    Opcode.ofNat opcode = Opcode.unknown := by
  have hall : forall push : Fin 79, Opcode.ofNat push = Opcode.unknown := by decide
  exact hall ⟨opcode, Nat.lt_succ_of_le h⟩

theorem leavesResult_execInstruction {instruction : Instruction} {m m' : Machine}
    (hexec : m.vfExec.all id = true)
    (h : execInstruction env flags script instruction m = Except.ok m') :
    LeavesResult (hasAny flags SCRIPT_VERIFY_MINIMALDATA) m.stack m'.stack
      (Opcode.ofNat instruction.opcode) := by
  unfold execInstruction at h
  rw [hexec] at h
  by_cases hpush : instruction.opcode ≤ CScript.OP_PUSHDATA4
  · rw [ofNat_of_push hpush]
    exact trivial
  · simp only [hpush, and_false, if_false, true_or, if_true] at h
    exact leavesResult_execOp h

/-- What a round leaves which executes the instruction it reads. -/
theorem leavesResult_evalStep {pc pc' : Nat} {m m' : Machine} {instruction : Instruction}
    (hread : getOp2 script pc = Except.ok (some instruction)) (hexec : m.vfExec.all id = true)
    (h : evalStep env flags script pc m = Except.ok (pc', m')) :
    LeavesResult (hasAny flags SCRIPT_VERIFY_MINIMALDATA) m.stack m'.stack
      (Opcode.ofNat instruction.opcode) := by
  unfold evalStep at h
  rw [hread] at h
  rcases then_eq_ok_iff.mp h with ⟨-, h⟩
  rcases then_eq_ok_iff.mp h with ⟨-, h⟩
  rcases then_eq_ok_iff.mp h with ⟨-, h⟩
  rcases bind_eq_ok_iff.mp h with ⟨next, hnext, h⟩
  rcases then_eq_ok_iff.mp h with ⟨-, h⟩
  rw [Except.ok.injEq, Prod.mk.injEq] at h
  rw [← h.2]
  exact @leavesResult_execInstruction env flags script instruction
    { m with nOpCount := countOp m.nOpCount instruction.opcode } next hexec hnext

end Steps

/--
Encoder, decoder and minimality test agree on the numbers of at most four bytes, and in every
evaluation the assertions hold and arithmetic leaves at most five bytes.
-/
theorem scriptNumbers_exact :
    (forall n : Int, n.natAbs < 2 ^ 31 -> scriptNum (serialize n) true = Except.ok n) ∧
    (forall vch : ValType, vch.length ≤ nMaxNumSize ->
      ((exists n, scriptNum vch true = Except.ok n) <->
        exists n : Int, n.natAbs < 2 ^ 31 ∧ vch = serialize n)) ∧
    (forall vch fRequireMinimal bn, scriptNum vch fRequireMinimal = Except.ok bn ->
      (forall op, exists r, applyUnary bn op = Except.ok r ∧ (serialize r).length ≤ 5) ∧
      forall vch' bn' op, scriptNum vch' fRequireMinimal = Except.ok bn' ->
        (serialize (applyBinary bn bn' op)).length ≤ 5) ∧
    forall env flags script stack,
      evalScript env flags script stack ≠ Except.error Stop.aborted ∧
      forall pc m, Reaches env flags script stack pc m ->
        evalStep env flags script pc m ≠ Except.error Stop.aborted ∧
        forall instruction pc' m', getOp2 script pc = Except.ok (some instruction) ->
          m.vfExec.all id = true -> evalStep env flags script pc m = Except.ok (pc', m') ->
          LeavesResult (hasAny flags SCRIPT_VERIFY_MINIMALDATA) m.stack m'.stack
            (Opcode.ofNat instruction.opcode) := by
  refine ⟨fun n hn => scriptNum_serialize hn true, ?_, ?_, ?_⟩
  · intro vch hlen
    rw [← minimal_iff_serialized hlen]
    constructor
    · rintro ⟨n, hn⟩
      exact (scriptNum_eq_ok_iff.mp hn).2.1
    · intro hminimal
      exact ⟨setVch vch, scriptNum_eq_ok_iff.mpr ⟨hlen, hminimal, rfl⟩⟩
  · intro vch fRequireMinimal bn hbn
    have hoperand : IsOperand bn := (ensures_scriptNum vch fRequireMinimal).of_ok hbn
    constructor
    · exact exists_unaryResult hoperand
    · intro vch' bn' op hbn'
      exact length_binaryResult hoperand ((ensures_scriptNum vch' fRequireMinimal).of_ok hbn') op
  · intro env flags script stack
    constructor
    · exact (asserts_evalScript env flags stack).ne_aborted
    · intro pc m _
      constructor
      · exact (asserts_evalStep env flags pc m).ne_aborted
      · intro instruction pc' m' hread hexec hstep
        exact leavesResult_evalStep hread hexec hstep

/-- The limits of operands, whose sum needs a fifth byte. -/
theorem scriptNumbers_exact_limits :
    scriptNum (serialize (-2147483647)) true = Except.ok (-2147483647) ∧
      (exists n : Int, n.natAbs < 2 ^ 31 ∧ [0xff, 0x80] = serialize n) ∧
      (serialize (applyBinary 2147483647 2147483647 BinaryOp.add)).length ≤ 5 ∧
      evalScript zeroEnv STANDARD_SCRIPT_VERIFY_FLAGS [0x8b] [[0xff, 0xff, 0xff, 0x7f]] ≠
        Except.error Stop.aborted := by
  have h := scriptNumbers_exact
  refine ⟨h.1 (-2147483647) (by decide), ?_, ?_, ?_⟩
  · exact (h.2.1 [0xff, 0x80] (by decide)).mp ⟨-255, by decide⟩
  · exact (h.2.2.1 [0xff, 0xff, 0xff, 0x7f] true 2147483647 (by decide)).2 _ _ _
      (show scriptNum [0xff, 0xff, 0xff, 0x7f] true = _ by decide)
  · exact (h.2.2.2 _ _ _ _).1

end Script
end Hbcur
