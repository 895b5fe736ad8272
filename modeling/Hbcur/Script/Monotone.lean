import Hbcur.Script.Interpreter

/-!
# Fewer flags

A script which verifies under some flags verifies under every part of them.  The two runs
take the same steps as long as the one with more flags does not fail, so that each function
which reads the flags only has to succeed whenever it does with more of them.
-/

namespace Hbcur
namespace Script

open Foundation

/-!
# Parts of the interpreter
-/

theorem SucceedsWith.onStack (m : Machine) {x y : Except Stop Stack}
    (hxy : SucceedsWith x y) : SucceedsWith (onStack m x) (onStack m y) :=
  SucceedsWith.bind hxy (fun _ => SucceedsWith.refl _)

section Flags

variable {f g : ScriptVerifyFlags} (h : FlagSubset f g) (env : ScriptEnv)

include h

/-!
# The instructions which read the flags
-/

theorem FlagSubset.numberAt (stack : Stack) (i : Nat) :
    SucceedsWith (numberAt (Script.hasAny g SCRIPT_VERIFY_MINIMALDATA) stack i)
      (numberAt (Script.hasAny f SCRIPT_VERIFY_MINIMALDATA) stack i) :=
  SucceedsWith.bind (SucceedsWith.refl _) (fun vch => succeedsWith_scriptNum vch h.hasAny)

theorem FlagSubset.execPick (fRoll : Bool) (stack : Stack) :
    SucceedsWith (execPick (Script.hasAny g SCRIPT_VERIFY_MINIMALDATA) fRoll stack)
      (execPick (Script.hasAny f SCRIPT_VERIFY_MINIMALDATA) fRoll stack) := by
  unfold Script.execPick
  refine SucceedsWith.bind (SucceedsWith.refl _) (fun _ => ?_)
  exact SucceedsWith.bind (h.numberAt stack 1) (fun _ => SucceedsWith.refl _)

theorem FlagSubset.execUnary (op : UnaryOp) (stack : Stack) :
    SucceedsWith (execUnary (Script.hasAny g SCRIPT_VERIFY_MINIMALDATA) op stack)
      (execUnary (Script.hasAny f SCRIPT_VERIFY_MINIMALDATA) op stack) := by
  unfold Script.execUnary
  refine SucceedsWith.bind (SucceedsWith.refl _) (fun _ => ?_)
  exact SucceedsWith.bind (h.numberAt stack 1) (fun _ => SucceedsWith.refl _)

theorem FlagSubset.execBinary (op : BinaryOp) (stack : Stack) :
    SucceedsWith (execBinary (Script.hasAny g SCRIPT_VERIFY_MINIMALDATA) op stack)
      (execBinary (Script.hasAny f SCRIPT_VERIFY_MINIMALDATA) op stack) := by
  unfold Script.execBinary
  refine SucceedsWith.bind (SucceedsWith.refl _) (fun _ => ?_)
  refine SucceedsWith.bind (h.numberAt stack 2) (fun _ => ?_)
  exact SucceedsWith.bind (h.numberAt stack 1) (fun _ => SucceedsWith.refl _)

theorem FlagSubset.execWithin (stack : Stack) :
    SucceedsWith (execWithin (Script.hasAny g SCRIPT_VERIFY_MINIMALDATA) stack)
      (execWithin (Script.hasAny f SCRIPT_VERIFY_MINIMALDATA) stack) := by
  unfold Script.execWithin
  refine SucceedsWith.bind (SucceedsWith.refl _) (fun _ => ?_)
  refine SucceedsWith.bind (h.numberAt stack 3) (fun _ => ?_)
  refine SucceedsWith.bind (h.numberAt stack 2) (fun _ => ?_)
  exact SucceedsWith.bind (h.numberAt stack 1) (fun _ => SucceedsWith.refl _)

theorem FlagSubset.checkEncodings (vchSig vchPubKey : ValType) :
    SucceedsWith (checkEncodings g vchSig vchPubKey) (checkEncodings f vchSig vchPubKey) :=
  SucceedsWith.bind (h.checkSignatureEncoding vchSig)
    (fun _ => h.checkPubKeyEncoding vchPubKey)

theorem FlagSubset.execCheckSig (fVerify : Bool) (script : CScript) (pbegincodehash : Nat)
    (stack : Stack) :
    SucceedsWith (execCheckSig env g fVerify script pbegincodehash stack)
      (execCheckSig env f fVerify script pbegincodehash stack) := by
  unfold Script.execCheckSig
  refine SucceedsWith.bind (SucceedsWith.refl _) (fun _ => ?_)
  refine SucceedsWith.bind (SucceedsWith.refl _) (fun vchSig => ?_)
  refine SucceedsWith.bind (SucceedsWith.refl _) (fun vchPubKey => ?_)
  refine SucceedsWith.bind (SucceedsWith.refl _) (fun _ => ?_)
  refine SucceedsWith.bind (SucceedsWith.refl _) (fun _ => ?_)
  exact SucceedsWith.bind (h.checkEncodings vchSig vchPubKey) (fun _ => SucceedsWith.refl _)

theorem FlagSubset.multiSigLoop (scriptCode : CScript) (stack : Stack) (nKeysCount : Nat) :
    forall nSigsCount ikey isig : Nat,
      SucceedsWith (multiSigLoop env g scriptCode stack nKeysCount nSigsCount ikey isig)
        (multiSigLoop env f scriptCode stack nKeysCount nSigsCount ikey isig) := by
  induction nKeysCount with
  | zero =>
      intro nSigsCount ikey isig
      exact SucceedsWith.refl _
  | succ nKeysCount ih =>
      intro nSigsCount ikey isig
      unfold Script.multiSigLoop
      apply SucceedsWith.ite (SucceedsWith.refl _)
      refine SucceedsWith.bind (SucceedsWith.refl _) (fun vchSig => ?_)
      refine SucceedsWith.bind (SucceedsWith.refl _) (fun vchPubKey => ?_)
      refine SucceedsWith.bind (h.checkEncodings vchSig vchPubKey) (fun _ => ?_)
      exact SucceedsWith.ite (SucceedsWith.refl _) (ih _ _ _)

theorem FlagSubset.execCheckMultiSig (fVerify : Bool) (script : CScript)
    (pbegincodehash nOpCount : Nat) (stack : Stack) :
    SucceedsWith (execCheckMultiSig env g fVerify script pbegincodehash nOpCount stack)
      (execCheckMultiSig env f fVerify script pbegincodehash nOpCount stack) := by
  unfold Script.execCheckMultiSig
  refine SucceedsWith.bind (SucceedsWith.refl _) (fun _ => ?_)
  refine SucceedsWith.bind (h.numberAt stack _) (fun nKeysCount => ?_)
  refine SucceedsWith.bind (SucceedsWith.refl _) (fun _ => ?_)
  refine SucceedsWith.bind (SucceedsWith.refl _) (fun _ => ?_)
  refine SucceedsWith.bind (SucceedsWith.refl _) (fun _ => ?_)
  refine SucceedsWith.bind (h.numberAt stack _) (fun nSigsCount => ?_)
  refine SucceedsWith.bind (SucceedsWith.refl _) (fun _ => ?_)
  refine SucceedsWith.bind (SucceedsWith.refl _) (fun _ => ?_)
  refine SucceedsWith.bind (SucceedsWith.refl _) (fun _ => ?_)
  refine SucceedsWith.bind (SucceedsWith.refl _) (fun _ => ?_)
  refine SucceedsWith.bind (h.multiSigLoop env _ _ _ _ _ _) (fun fSuccess => ?_)
  refine SucceedsWith.bind (SucceedsWith.refl _) (fun _ => ?_)
  refine SucceedsWith.bind (SucceedsWith.refl _) (fun _ => ?_)
  refine SucceedsWith.bind (SucceedsWith.refl _) (fun vchDummy => ?_)
  exact SucceedsWith.bind (h.require _ _ _) (fun _ => SucceedsWith.refl _)

/-!
# One instruction
-/

theorem FlagSubset.execOp (script : CScript) (pc : Nat) (fExec : Bool) (m : Machine)
    (opcode : Opcode) :
    SucceedsWith (execOp env g script pc fExec m opcode)
      (execOp env f script pc fExec m opcode) := by
  cases opcode with
  | upgradableNop =>
      refine SucceedsWith.bind (SucceedsWith.require ?_) (fun _ => SucceedsWith.refl _)
      rw [Bool.not_eq_true', Bool.not_eq_true', ← Bool.not_eq_true, ← Bool.not_eq_true]
      exact mt h.hasAny
  | pick => exact SucceedsWith.onStack m (h.execPick false m.stack)
  | roll => exact SucceedsWith.onStack m (h.execPick true m.stack)
  | unary op => exact SucceedsWith.onStack m (h.execUnary op m.stack)
  | binary op => exact SucceedsWith.onStack m (h.execBinary op m.stack)
  | within => exact SucceedsWith.onStack m (h.execWithin m.stack)
  | checkSig => exact SucceedsWith.onStack m (h.execCheckSig env false script _ m.stack)
  | checkSigVerify => exact SucceedsWith.onStack m (h.execCheckSig env true script _ m.stack)
  | checkMultiSig =>
      exact SucceedsWith.bind (h.execCheckMultiSig env false script _ _ m.stack)
        (fun _ => SucceedsWith.refl _)
  | checkMultiSigVerify =>
      exact SucceedsWith.bind (h.execCheckMultiSig env true script _ _ m.stack)
        (fun _ => SucceedsWith.refl _)
  -- the other instructions do not read the flags
  | _ => exact SucceedsWith.refl _

theorem FlagSubset.execInstruction (script : CScript) (instruction : Instruction)
    (m : Machine) :
    SucceedsWith (execInstruction env g script instruction m)
      (execInstruction env f script instruction m) := by
  unfold Script.execInstruction
  refine SucceedsWith.ite ?_ (SucceedsWith.ite (h.execOp env script _ _ m _) ?_)
  · exact SucceedsWith.bind (h.require _ _ _) (fun _ => SucceedsWith.refl _)
  · exact SucceedsWith.refl _

/-!
# The loop
-/

theorem FlagSubset.evalStep (script : CScript) (pc : Nat) (m : Machine) :
    SucceedsWith (evalStep env g script pc m) (evalStep env f script pc m) := by
  unfold Script.evalStep
  refine SucceedsWith.bind (SucceedsWith.refl _) (fun _ => ?_)
  refine SucceedsWith.bind (SucceedsWith.refl _) (fun instruction => ?_)
  refine SucceedsWith.bind (SucceedsWith.refl _) (fun _ => ?_)
  refine SucceedsWith.bind (SucceedsWith.refl _) (fun _ => ?_)
  refine SucceedsWith.bind (SucceedsWith.refl _) (fun _ => ?_)
  exact SucceedsWith.bind (h.execInstruction env script instruction _)
    (fun _ => SucceedsWith.refl _)

theorem FlagSubset.evalLoop (script : CScript) (rounds : Nat) :
    forall (pc : Nat) (m : Machine),
      SucceedsWith (evalLoop env g script rounds pc m) (evalLoop env f script rounds pc m) := by
  induction rounds with
  | zero =>
      intro pc m
      exact SucceedsWith.refl _
  | succ rounds ih =>
      intro pc m
      unfold Script.evalLoop
      refine SucceedsWith.ite ?_ (SucceedsWith.refl _)
      exact SucceedsWith.bind (h.evalStep env script pc m) (fun next => ih next.1 next.2)

theorem FlagSubset.evalBody (script : CScript) (stack : Stack) :
    SucceedsWith (evalBody env g script stack) (evalBody env f script stack) :=
  SucceedsWith.bind (SucceedsWith.refl _) (fun _ => h.evalLoop env script _ 0 _)

theorem FlagSubset.evalScript (script : CScript) (stack : Stack) :
    SucceedsWith (evalScript env g script stack) (evalScript env f script stack) := by
  refine SucceedsWith.bind ?_ (fun _ => SucceedsWith.refl _)
  intro m hm
  rw [catchAll_eq_ok_iff] at hm ⊢
  exact h.evalBody env script stack m hm

theorem FlagSubset.verifyScriptHash (scriptSig : CScript) (stackCopy : Stack) :
    SucceedsWith (verifyScriptHash env g scriptSig stackCopy)
      (verifyScriptHash env f scriptSig stackCopy) := by
  unfold Script.verifyScriptHash
  refine SucceedsWith.bind (SucceedsWith.refl _) (fun _ => ?_)
  cases stackCopy with
  | nil => exact SucceedsWith.refl _
  | cons pubKeySerialized rest =>
      exact SucceedsWith.bind (h.evalScript env pubKeySerialized rest)
        (fun _ => SucceedsWith.refl _)

theorem FlagSubset.verifyScript (scriptSig scriptPubKey : CScript) :
    SucceedsWith (verifyScript env g scriptSig scriptPubKey)
      (verifyScript env f scriptSig scriptPubKey) := by
  refine SucceedsWith.bind (SucceedsWith.onlyIf h.hasAny (SucceedsWith.refl _)) (fun _ => ?_)
  refine SucceedsWith.bind (h.evalScript env scriptSig []) (fun stackCopy => ?_)
  refine SucceedsWith.bind (h.evalScript env scriptPubKey stackCopy) (fun stack => ?_)
  refine SucceedsWith.bind (SucceedsWith.refl _) (fun _ => ?_)
  refine SucceedsWith.onlyIf ?_ (h.verifyScriptHash env scriptSig stackCopy)
  rw [Bool.and_eq_true, Bool.and_eq_true]
  exact And.imp_left h.hasAny

end Flags

end Script
end Hbcur
