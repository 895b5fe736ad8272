import Hbcur.Foundation.Traced
import Hbcur.Script.Interpreter

/-!
# Counting the checks of signatures

The interpreter once more, where the calls of the checker are written down.  The functions which
cannot call it are taken over as they are; the others take the same steps, so that the result is
the same.
-/

namespace Hbcur
namespace Script

open Foundation

/-- A call of `CheckSig`. -/
structure SigCall where
  vchSig : ValType
  vchPubKey : ValType
  scriptCode : CScript
  deriving DecidableEq, Repr

abbrev Counted (result : Type) := Traced SigCall Stop result

namespace Counted

open Traced

variable (env : ScriptEnv) (flags : ScriptVerifyFlags)

def checkSig (vchSig vchPubKey : ValType) (scriptCode : CScript) : Counted Bool :=
  ask ⟨vchSig, vchPubKey, scriptCode⟩ (env.checkSig vchSig vchPubKey scriptCode)

/-!
# The operations on signatures
-/

def execCheckSig (fVerify : Bool) (script : CScript) (pbegincodehash : Nat) (stack : Stack) :
    Counted Stack := do
  lift (needs stack 2)
  let vchSig ← lift (stacktop stack 2)
  let vchPubKey ← lift (stacktop stack 1)
  let scriptCode ← lift (scriptFrom script pbegincodehash)
  let (scriptCode, _) ← lift (findAndDelete scriptCode (pushBytes vchSig))
  lift (checkEncodings flags vchSig vchPubKey)
  let fSuccess ← checkSig env vchSig vchPubKey scriptCode
  let stack ← lift (popTimes 2 stack)
  lift (verifyIf fVerify fSuccess ScriptError.checkSigVerify (boolBytes fSuccess :: stack))

def multiSigLoop (scriptCode : CScript) (stack : Stack) :
    Nat -> Nat -> Nat -> Nat -> Counted Bool
  | nKeysCount, nSigsCount, ikey, isig =>
      if nSigsCount = 0 then lift (Except.ok true)
      else
        match nKeysCount with
        | 0 => lift (Except.error Stop.unfinished)
        | nKeysCount + 1 => do
            let vchSig ← lift (stacktop stack isig)
            let vchPubKey ← lift (stacktop stack ikey)
            lift (checkEncodings flags vchSig vchPubKey)
            let fOk ← checkSig env vchSig vchPubKey scriptCode
            let nSigsCount := if fOk then nSigsCount - 1 else nSigsCount
            let isig := if fOk then isig + 1 else isig
            if nSigsCount > nKeysCount then lift (Except.ok false)
            else multiSigLoop scriptCode stack nKeysCount nSigsCount (ikey + 1) isig

def execCheckMultiSig (fVerify : Bool) (script : CScript) (pbegincodehash nOpCount : Nat)
    (stack : Stack) : Counted (Stack × Nat) := do
  let fRequireMinimal := hasAny flags SCRIPT_VERIFY_MINIMALDATA
  lift (needs stack 1)
  let bn ← lift (numberAt fRequireMinimal stack 1)
  let nKeysCount := getInt bn
  lift (require (!(decide (nKeysCount < 0) || decide (nKeysCount > 20)))
    (Stop.error ScriptError.pubKeyCount))
  let nOpCount := nOpCount + nKeysCount.toNat
  lift (require (!decide (nOpCount > 201)) (Stop.error ScriptError.opCount))
  let i := 2 + nKeysCount.toNat
  lift (needs stack i)
  let bn ← lift (numberAt fRequireMinimal stack i)
  let nSigsCount := getInt bn
  lift (require (!(decide (nSigsCount < 0) || decide (nSigsCount > nKeysCount)))
    (Stop.error ScriptError.sigCount))
  let isig := i + 1
  let i := isig + nSigsCount.toNat
  lift (needs stack i)
  let scriptCode ← lift (scriptFrom script pbegincodehash)
  let scriptCode ← lift (dropSignatures stack nSigsCount.toNat isig scriptCode)
  let fSuccess ←
    multiSigLoop env flags scriptCode stack nKeysCount.toNat nSigsCount.toNat 2 isig
  let stack ← lift (popTimes (i - 1) stack)
  lift (needs stack 1)
  let vchDummy ← lift (stacktop stack 1)
  lift (require (!(hasAny flags SCRIPT_VERIFY_NULLDUMMY && !vchDummy.isEmpty))
    (Stop.error ScriptError.sigNullDummy))
  let stack ← lift (popstack stack)
  let stack ← lift
    (verifyIf fVerify fSuccess ScriptError.checkMultiSigVerify (boolBytes fSuccess :: stack))
  lift (Except.ok (stack, nOpCount))

/-!
# Evaluation
-/

def onStack (m : Machine) (result : Counted Stack) : Counted Machine := do
  let stack ← result
  lift (Except.ok { m with stack := stack })

def onCounter (m : Machine) (result : Counted (Stack × Nat)) : Counted Machine := do
  let (stack, nOpCount) ← result
  lift (Except.ok { m with stack := stack, nOpCount := nOpCount })

def execOp (script : CScript) (pc : Nat) (fExec : Bool) (m : Machine) : Opcode -> Counted Machine
  | Opcode.checkSig => onStack m
      (execCheckSig env flags false script m.pbegincodehash m.stack)
  | Opcode.checkSigVerify => onStack m
      (execCheckSig env flags true script m.pbegincodehash m.stack)
  | Opcode.checkMultiSig => onCounter m
      (execCheckMultiSig env flags false script m.pbegincodehash m.nOpCount m.stack)
  | Opcode.checkMultiSigVerify => onCounter m
      (execCheckMultiSig env flags true script m.pbegincodehash m.nOpCount m.stack)
  | opcode => lift (Script.execOp env flags script pc fExec m opcode)

def execInstruction (script : CScript) (instruction : Instruction) (m : Machine) :
    Counted Machine :=
  let fExec := m.vfExec.all id
  if fExec ∧ instruction.opcode ≤ CScript.OP_PUSHDATA4 then lift (execPush flags instruction m)
  else if fExec ∨ (OP_IF ≤ instruction.opcode ∧ instruction.opcode ≤ OP_ENDIF) then
    execOp env flags script instruction.pc fExec m (Opcode.ofNat instruction.opcode)
  else lift (Except.ok m)

def evalStep (script : CScript) (pc : Nat) (m : Machine) : Counted (Nat × Machine) := do
  let found ← lift (getOp2 script pc)
  let instruction ← lift (expect found (Stop.error ScriptError.badOpcode))
  lift (require (!decide (instruction.vch.length > MAX_SCRIPT_ELEMENT_SIZE))
    (Stop.error ScriptError.pushSize))
  let nOpCount := countOp m.nOpCount instruction.opcode
  lift (require (!(decide (instruction.opcode > CScript.OP_16) && decide (nOpCount > 201)))
    (Stop.error ScriptError.opCount))
  lift (require (!isDisabled instruction.opcode) (Stop.error ScriptError.disabledOpcode))
  let m ← execInstruction env flags script instruction { m with nOpCount := nOpCount }
  lift (require (!decide (m.stack.length + m.altstack.length > 1000))
    (Stop.error ScriptError.stackSize))
  lift (Except.ok (instruction.pc, m))

def evalLoop (script : CScript) : Nat -> Nat -> Machine -> Counted Machine
  | 0, pc, m =>
      lift (if pc < script.length then Except.error Stop.unfinished else Except.ok m)
  | rounds + 1, pc, m =>
      if pc < script.length then do
        let (pc, m) ← evalStep env flags script pc m
        evalLoop script rounds pc m
      else lift (Except.ok m)

def evalBody (script : CScript) (stack : Stack) : Counted Machine := do
  lift (require (!decide (script.length > 10000)) (Stop.error ScriptError.scriptSize))
  evalLoop env flags script script.length 0 (Machine.initial stack)

def catchAll (x : Counted Machine) : Counted Machine := ⟨x.calls, Script.catchAll x.value⟩

def evalScript (script : CScript) (stack : Stack) : Counted Stack := do
  let m ← catchAll (evalBody env flags script stack)
  lift (require m.vfExec.isEmpty (Stop.error ScriptError.unbalancedConditional))
  lift (Except.ok m.stack)

/-!
# Verification
-/

def verifyScriptHash (scriptSig : CScript) (stackCopy : Stack) : Counted Unit := do
  lift (checkPushOnly scriptSig)
  match stackCopy with
  | [] => lift (Except.error Stop.aborted)
  | pubKeySerialized :: rest => do
      let stack ← evalScript env flags pubKeySerialized rest
      lift (finalCheck stack)

def verifyScript (scriptSig scriptPubKey : CScript) : Counted Unit := do
  lift (onlyIf (hasAny flags SCRIPT_VERIFY_SIGPUSHONLY) (checkPushOnly scriptSig))
  let stackCopy ← evalScript env flags scriptSig []
  let stack ← evalScript env flags scriptPubKey stackCopy
  lift (finalCheck stack)
  if hasAny flags SCRIPT_VERIFY_P2SH && CScript.isPayToScriptHash scriptPubKey then
    verifyScriptHash env flags scriptSig stackCopy
  else lift (Except.ok ())

/-!
# The results are those of the interpreter
-/

theorem value_checkSig_bind {result : Type} (vchSig vchPubKey : ValType) (scriptCode : CScript)
    (f : Bool -> Counted result) :
    (checkSig env vchSig vchPubKey scriptCode >>= f).value =
      (f (env.checkSig vchSig vchPubKey scriptCode)).value := rfl

theorem value_execCheckSig (fVerify : Bool) (script : CScript) (pbegincodehash : Nat)
    (stack : Stack) :
    (execCheckSig env flags fVerify script pbegincodehash stack).value =
      Script.execCheckSig env flags fVerify script pbegincodehash stack := by
  unfold execCheckSig Script.execCheckSig
  refine value_lift_bind fun _ => ?_
  refine value_lift_bind fun vchSig => ?_
  refine value_lift_bind fun vchPubKey => ?_
  refine value_lift_bind fun _ => ?_
  refine value_lift_bind fun _ => ?_
  refine value_lift_bind fun _ => ?_
  rw [value_checkSig_bind]
  exact value_lift_bind fun _ => rfl

theorem value_multiSigLoop (scriptCode : CScript) (stack : Stack) (nKeysCount : Nat) :
    forall nSigsCount ikey isig : Nat,
      (multiSigLoop env flags scriptCode stack nKeysCount nSigsCount ikey isig).value =
        Script.multiSigLoop env flags scriptCode stack nKeysCount nSigsCount ikey isig := by
  induction nKeysCount with
  | zero =>
      intro nSigsCount ikey isig
      unfold multiSigLoop Script.multiSigLoop
      split
      · rfl
      · rfl
  | succ nKeysCount ih =>
      intro nSigsCount ikey isig
      unfold multiSigLoop Script.multiSigLoop
      split
      · rfl
      · refine value_lift_bind fun vchSig => ?_
        refine value_lift_bind fun vchPubKey => ?_
        refine value_lift_bind fun _ => ?_
        rw [value_checkSig_bind]
        simp only
        generalize env.checkSig vchSig vchPubKey scriptCode = fOk
        generalize (if fOk = true then nSigsCount - 1 else nSigsCount) = left
        generalize (if fOk = true then isig + 1 else isig) = next
        split
        · rfl
        · exact ih left (ikey + 1) next

theorem value_execCheckMultiSig (fVerify : Bool) (script : CScript)
    (pbegincodehash nOpCount : Nat) (stack : Stack) :
    (execCheckMultiSig env flags fVerify script pbegincodehash nOpCount stack).value =
      Script.execCheckMultiSig env flags fVerify script pbegincodehash nOpCount stack := by
  unfold execCheckMultiSig Script.execCheckMultiSig
  refine value_lift_bind fun _ => ?_
  refine value_lift_bind fun bnKeys => ?_
  refine value_lift_bind fun _ => ?_
  refine value_lift_bind fun _ => ?_
  refine value_lift_bind fun _ => ?_
  refine value_lift_bind fun bnSigs => ?_
  refine value_lift_bind fun _ => ?_
  refine value_lift_bind fun _ => ?_
  refine value_lift_bind fun _ => ?_
  refine value_lift_bind fun scriptCode => ?_
  refine value_bind (value_multiSigLoop env flags _ _ _ _ _ _) fun fSuccess => ?_
  refine value_lift_bind fun _ => ?_
  refine value_lift_bind fun _ => ?_
  refine value_lift_bind fun vchDummy => ?_
  refine value_lift_bind fun _ => ?_
  refine value_lift_bind fun _ => ?_
  exact value_lift_bind fun _ => rfl

theorem value_execOp (script : CScript) (pc : Nat) (fExec : Bool) (m : Machine)
    (opcode : Opcode) :
    (execOp env flags script pc fExec m opcode).value =
      Script.execOp env flags script pc fExec m opcode := by
  cases opcode with
  | checkSig => exact value_bind (value_execCheckSig env flags _ _ _ _) fun _ => rfl
  | checkSigVerify => exact value_bind (value_execCheckSig env flags _ _ _ _) fun _ => rfl
  | checkMultiSig =>
      exact value_bind (value_execCheckMultiSig env flags _ _ _ _ _) fun _ => rfl
  | checkMultiSigVerify =>
      exact value_bind (value_execCheckMultiSig env flags _ _ _ _ _) fun _ => rfl
  -- the other instructions are taken over
  | _ => rfl

theorem value_execInstruction (script : CScript) (instruction : Instruction) (m : Machine) :
    (execInstruction env flags script instruction m).value =
      Script.execInstruction env flags script instruction m := by
  unfold execInstruction Script.execInstruction
  simp only
  split
  · rfl
  · split
    · exact value_execOp env flags script _ _ m _
    · rfl

theorem value_evalStep (script : CScript) (pc : Nat) (m : Machine) :
    (evalStep env flags script pc m).value = Script.evalStep env flags script pc m := by
  unfold evalStep Script.evalStep
  refine value_lift_bind fun _ => ?_
  refine value_lift_bind fun instruction => ?_
  refine value_lift_bind fun _ => ?_
  refine value_lift_bind fun _ => ?_
  refine value_lift_bind fun _ => ?_
  refine value_bind (value_execInstruction env flags script instruction _) fun _ => ?_
  exact value_lift_bind fun _ => rfl

theorem value_evalLoop (script : CScript) (rounds : Nat) : forall (pc : Nat) (m : Machine),
    (evalLoop env flags script rounds pc m).value =
      Script.evalLoop env flags script rounds pc m := by
  induction rounds with
  | zero =>
      intro pc m
      rfl
  | succ rounds ih =>
      intro pc m
      unfold evalLoop Script.evalLoop
      split
      · exact value_bind (value_evalStep env flags script pc m) fun next => ih next.1 next.2
      · rfl

theorem value_evalScript (script : CScript) (stack : Stack) :
    (evalScript env flags script stack).value = Script.evalScript env flags script stack := by
  have hbody : (evalBody env flags script stack).value = Script.evalBody env flags script stack :=
    value_lift_bind fun _ => value_evalLoop env flags script _ 0 _
  have hcaught : (catchAll (evalBody env flags script stack)).value =
      Script.catchAll (Script.evalBody env flags script stack) := congrArg Script.catchAll hbody
  exact value_bind hcaught fun _ => value_lift_bind fun _ => rfl

theorem value_verifyScriptHash (scriptSig : CScript) (stackCopy : Stack) :
    (verifyScriptHash env flags scriptSig stackCopy).value =
      Script.verifyScriptHash env flags scriptSig stackCopy := by
  unfold verifyScriptHash Script.verifyScriptHash
  refine value_lift_bind fun _ => ?_
  cases stackCopy with
  | nil => rfl
  | cons pubKeySerialized rest =>
      exact value_bind (value_evalScript env flags pubKeySerialized rest) fun _ => rfl

theorem value_verifyScript (scriptSig scriptPubKey : CScript) :
    (verifyScript env flags scriptSig scriptPubKey).value =
      Script.verifyScript env flags scriptSig scriptPubKey := by
  unfold verifyScript Script.verifyScript
  refine value_lift_bind fun _ => ?_
  refine value_bind (value_evalScript env flags scriptSig []) fun stackCopy => ?_
  refine value_bind (value_evalScript env flags scriptPubKey stackCopy) fun stack => ?_
  refine value_lift_bind fun _ => ?_
  unfold onlyIf
  split
  · exact value_verifyScriptHash env flags scriptSig stackCopy
  · rfl

end Counted

end Script
end Hbcur
