import Hbcur.Script.Counted
import Hbcur.Script.Evaluation

/-!
# Signature operations bound the work

Evaluation calls `CheckSig` at most as often as `GetSigOpCount` says, whatever the stack holds.
The accurate count of a multisignature trusts the opcode before it, and rightly so: if the one is
executed then so is the other, and has pushed the number of keys.
-/

namespace Hbcur
namespace Script

open Foundation CScript

namespace Counted

open Traced

variable {env : ScriptEnv} {flags : ScriptVerifyFlags} {script : CScript}

/-!
# The operations on signatures
-/

theorem atMost_checkSig (vchSig vchPubKey : ValType) (scriptCode : CScript) :
    AtMost 1 (checkSig env vchSig vchPubKey scriptCode) := Nat.le_refl 1

theorem atMost_execCheckSig (fVerify : Bool) (pbegincodehash : Nat) (stack : Stack) :
    AtMost 1 (execCheckSig env flags fVerify script pbegincodehash stack) := by
  unfold execCheckSig
  refine atMost_lift_bind fun _ _ => ?_
  refine atMost_lift_bind fun vchSig _ => ?_
  refine atMost_lift_bind fun vchPubKey _ => ?_
  refine atMost_lift_bind fun _ _ => ?_
  refine atMost_lift_bind fun _ _ => ?_
  refine atMost_lift_bind fun _ _ => ?_
  refine (atMost_checkSig vchSig vchPubKey _).bind_lift fun fSuccess => ?_
  exact atMost_lift_bind fun _ _ => atMost_lift 0 _

/-- Each round takes a key. -/
theorem atMost_multiSigLoop (scriptCode : CScript) (stack : Stack) (nKeysCount : Nat) :
    forall nSigsCount ikey isig : Nat,
      AtMost nKeysCount
        (multiSigLoop env flags scriptCode stack nKeysCount nSigsCount ikey isig) := by
  induction nKeysCount with
  | zero =>
      intro nSigsCount ikey isig
      unfold multiSigLoop
      split
      · exact atMost_lift 0 _
      · exact atMost_lift 0 _
  | succ nKeysCount ih =>
      intro nSigsCount ikey isig
      unfold multiSigLoop
      split
      · exact atMost_lift _ _
      · refine atMost_lift_bind fun vchSig _ => ?_
        refine atMost_lift_bind fun vchPubKey _ => ?_
        refine atMost_lift_bind fun _ _ => ?_
        rw [Nat.add_comm]
        refine (atMost_checkSig vchSig vchPubKey scriptCode).bind fun fOk _ => ?_
        simp only
        generalize (if fOk = true then nSigsCount - 1 else nSigsCount) = left
        generalize (if fOk = true then isig + 1 else isig) = next
        split
        · exact atMost_lift _ _
        · exact ih left (ikey + 1) next

theorem atMost_execCheckMultiSig {bound : Nat} (fVerify : Bool) (pbegincodehash nOpCount : Nat)
    (stack : Stack)
    (hkeys : forall bn, numberAt (hasAny flags SCRIPT_VERIFY_MINIMALDATA) stack 1 = Except.ok bn ->
      getInt bn ≤ 20 -> (getInt bn).toNat ≤ bound) :
    AtMost bound
      (execCheckMultiSig env flags fVerify script pbegincodehash nOpCount stack) := by
  unfold execCheckMultiSig
  refine atMost_lift_bind fun _ _ => ?_
  refine atMost_lift_bind fun bnKeys hbn => ?_
  refine atMost_lift_bind fun _ hcount => ?_
  refine atMost_lift_bind fun _ _ => ?_
  refine atMost_lift_bind fun _ _ => ?_
  refine atMost_lift_bind fun bnSigs _ => ?_
  refine atMost_lift_bind fun _ _ => ?_
  refine atMost_lift_bind fun _ _ => ?_
  refine atMost_lift_bind fun _ _ => ?_
  refine atMost_lift_bind fun scriptCode _ => ?_
  have hle : (getInt bnKeys).toNat ≤ bound := by
    rw [require_eq_ok_iff, Bool.not_eq_true', Bool.or_eq_false_iff, decide_eq_false_iff_not,
      decide_eq_false_iff_not] at hcount
    exact hkeys bnKeys hbn (Int.not_lt.mp hcount.2)
  refine ((atMost_multiSigLoop scriptCode stack _ _ _ _).mono hle).bind_lift fun fSuccess => ?_
  refine atMost_lift_bind fun _ _ => ?_
  refine atMost_lift_bind fun _ _ => ?_
  refine atMost_lift_bind fun vchDummy _ => ?_
  refine atMost_lift_bind fun _ _ => ?_
  refine atMost_lift_bind fun _ _ => ?_
  exact atMost_lift_bind fun _ _ => atMost_lift 0 _

/-!
# One instruction
-/

/-- What `GetSigOpCount` assumes about a multisignature. -/
def keysBound (fAccurate : Bool) (lastOpcode : Nat) : Nat :=
  if fAccurate ∧ OP_1 ≤ lastOpcode ∧ lastOpcode ≤ OP_16 then lastOpcode - (OP_1 - 1) else 20

def workOf (keys : Nat) : Opcode -> Nat
  | Opcode.checkSig => 1
  | Opcode.checkSigVerify => 1
  | Opcode.checkMultiSig => keys
  | Opcode.checkMultiSigVerify => keys
  | _ => 0

theorem workOf_other (keys : Nat) {opcode : Nat} (h : opcode < OP_CHECKSIG ∨
    OP_CHECKMULTISIGVERIFY < opcode) : workOf keys (Opcode.ofNat opcode) = 0 := by
  unfold OP_CHECKSIG OP_CHECKMULTISIGVERIFY at h
  unfold Opcode.ofNat
  split_ifs
  · rfl
  · unfold Opcode.ofFlow
    split <;> rfl
  · unfold Opcode.ofStack
    split <;> rfl
  · unfold Opcode.ofNumeric
    split <;> rfl
  · rfl
  · unfold Opcode.ofCrypto
    split <;> first | rfl | omega

theorem workOf_ofNat (fAccurate : Bool) (lastOpcode opcode : Nat) :
    workOf (keysBound fAccurate lastOpcode) (Opcode.ofNat opcode) =
      sigOpsOf fAccurate lastOpcode opcode := by
  by_cases hother : opcode < OP_CHECKSIG ∨ OP_CHECKMULTISIGVERIFY < opcode
  · rw [workOf_other _ hother]
    unfold OP_CHECKSIG OP_CHECKMULTISIGVERIFY at hother
    unfold sigOpsOf OP_CHECKSIG OP_CHECKSIGVERIFY OP_CHECKMULTISIG OP_CHECKMULTISIGVERIFY
    rw [if_neg (by omega), if_neg (by omega)]
  · unfold OP_CHECKSIG OP_CHECKMULTISIGVERIFY at hother
    have hfour : opcode = 0xac ∨ opcode = 0xad ∨ opcode = 0xae ∨ opcode = 0xaf := by omega
    rcases hfour with rfl | rfl | rfl | rfl
    · rfl
    · rfl
    · rfl
    · rfl

/-- After an `OP_1` to `OP_16` which was executed, the number is on top. -/
def Announced (lastOpcode : Nat) (m : Machine) : Prop :=
  OP_1 ≤ lastOpcode -> lastOpcode ≤ OP_16 -> m.vfExec.all id = true ->
    exists rest, m.stack = serialize ((lastOpcode : Int) - 0x50) :: rest

theorem Announced.keys_le {lastOpcode : Nat} {m : Machine} (h : Announced lastOpcode m)
    (hexec : m.vfExec.all id = true) (fAccurate fRequireMinimal : Bool) {bn : Int}
    (hbn : numberAt fRequireMinimal m.stack 1 = Except.ok bn) (hle : getInt bn ≤ 20) :
    (getInt bn).toNat ≤ keysBound fAccurate lastOpcode := by
  unfold keysBound
  split
  case isFalse => omega
  case isTrue hlast =>
    rcases h hlast.2.1 hlast.2.2 hexec with ⟨rest, hstack⟩
    have hmin := hlast.2.1
    have hmax := hlast.2.2
    unfold OP_1 at hmin
    unfold OP_16 at hmax
    have hsize : ((lastOpcode : Int) - 0x50).natAbs < 2 ^ 31 := by omega
    have hsmall := scriptNum_serialize hsize fRequireMinimal
    rw [hstack] at hbn
    change scriptNum (serialize ((lastOpcode : Int) - 0x50)) fRequireMinimal = _ at hbn
    rw [hsmall, Except.ok.injEq] at hbn
    rw [← hbn]
    unfold getInt OP_1
    split_ifs <;> omega

theorem atMost_execOp {keys pc : Nat} {fExec : Bool} {m : Machine} (opcode : Opcode)
    (hkeys : forall bn,
      numberAt (hasAny flags SCRIPT_VERIFY_MINIMALDATA) m.stack 1 = Except.ok bn ->
        getInt bn ≤ 20 -> (getInt bn).toNat ≤ keys) :
    AtMost (workOf keys opcode) (execOp env flags script pc fExec m opcode) := by
  cases opcode with
  | checkSig => exact (atMost_execCheckSig _ _ _).bind_lift fun _ => atMost_lift 0 _
  | checkSigVerify => exact (atMost_execCheckSig _ _ _).bind_lift fun _ => atMost_lift 0 _
  | checkMultiSig =>
      exact (atMost_execCheckMultiSig _ _ _ _ hkeys).bind_lift fun _ => atMost_lift 0 _
  | checkMultiSigVerify =>
      exact (atMost_execCheckMultiSig _ _ _ _ hkeys).bind_lift fun _ => atMost_lift 0 _
  | _ => exact atMost_lift 0 _

theorem atMost_execInstruction {lastOpcode : Nat} {m : Machine} (h : Announced lastOpcode m)
    (fAccurate : Bool) (instruction : Instruction) :
    AtMost (sigOpsOf fAccurate lastOpcode instruction.opcode)
      (execInstruction env flags script instruction m) := by
  unfold execInstruction
  simp only
  split
  · exact atMost_lift _ _
  · split
    case isTrue hcond =>
      rw [← workOf_ofNat]
      cases hexec : m.vfExec.all id with
      | true =>
          exact atMost_execOp _ fun bn hbn hle => h.keys_le hexec fAccurate _ hbn hle
      | false =>
          -- only the conditionals are executed then
          have hrange := hcond.resolve_left (by rw [hexec]; exact Bool.false_ne_true)
          unfold OP_IF OP_ENDIF at hrange
          have hnone : forall keys, workOf keys (Opcode.ofNat instruction.opcode) = 0 :=
            fun keys => workOf_other keys (by unfold OP_CHECKSIG; omega)
          rw [hnone, ← hnone 20]
          exact atMost_execOp _ fun bn _ hle => by omega
    case isFalse => exact atMost_lift _ _

/-!
# The loop
-/

theorem announced_of_executes {op : Operation} {pc : Nat} {m m' : Machine}
    (h : Executes env flags script op pc m m') : Announced op.opcode m' := by
  intro hmin hmax hexec
  unfold OP_1 at hmin
  cases hbefore : m.vfExec.all id with
  | true =>
      have hpush := (h.of_push hmax hbefore).2
      exists m.stack
      rw [hpush, Operation.pushed, if_neg (by unfold OP_PUSHDATA4; omega)]
  | false =>
      have hexecuted := h.executed
      unfold OP_16 at hmax
      unfold Script.execInstruction Operation.instruction at hexecuted
      simp only at hexecuted
      rw [hbefore, if_neg (fun hboth => Bool.false_ne_true hboth.1),
        if_neg (by unfold OP_IF OP_ENDIF; simp only [Bool.false_eq_true, false_or]; omega),
        Except.ok.injEq] at hexecuted
      rw [← hexecuted] at hexec
      exact nomatch hbefore.symm.trans hexec

theorem atMost_evalStep {lastOpcode : Nat} {m : Machine} (h : Announced lastOpcode m)
    (fAccurate : Bool) (before : CScript) (op : Operation) (rest : CScript) :
    AtMost (sigOpsOf fAccurate lastOpcode op.opcode)
      (evalStep env flags (before ++ (op.bytes ++ rest)) before.length m) := by
  unfold evalStep
  refine atMost_lift_bind fun found hfound => ?_
  rw [getOp2_operation, Except.ok.injEq] at hfound
  subst hfound
  refine atMost_lift_bind fun instruction hinstruction => ?_
  rw [expect_eq_ok_iff, Option.some_inj] at hinstruction
  subst hinstruction
  refine atMost_lift_bind fun _ _ => ?_
  refine atMost_lift_bind fun _ _ => ?_
  refine atMost_lift_bind fun _ _ => ?_
  have hcounted : Announced lastOpcode { m with nOpCount := countOp m.nOpCount op.opcode } := h
  refine (atMost_execInstruction hcounted fAccurate _).bind_lift fun _ => ?_
  exact atMost_lift_bind fun _ _ => atMost_lift 0 _

theorem atMost_evalStep_none {before tail : CScript} (h : CScript.getOp tail = none)
    (m : Machine) : AtMost 0 (evalStep env flags (before ++ tail) before.length m) := by
  unfold evalStep
  refine atMost_lift_bind fun found hfound => ?_
  rw [getOp2_none h, Except.ok.injEq] at hfound
  subst hfound
  refine atMost_lift_bind fun instruction hinstruction => ?_
  cases hinstruction

theorem atMost_evalLoop (fAccurate : Bool) (rounds : Nat) :
    forall (lastOpcode : Nat) (before tail : CScript) (m : Machine),
      script = before ++ tail -> Announced lastOpcode m ->
      AtMost (sigOpsFrom fAccurate rounds lastOpcode tail)
        (evalLoop env flags script rounds before.length m) := by
  induction rounds with
  | zero =>
      intro lastOpcode before tail m _ _
      exact atMost_lift _ _
  | succ rounds ih =>
      intro lastOpcode before tail m hscript hannounced
      subst hscript
      rw [sigOpsFrom, evalLoop]
      by_cases hpc : before.length < (before ++ tail).length
      · rw [if_pos hpc]
        cases hop : CScript.getOp tail with
        | none =>
            have hnothing := @AtMost.bind _ _ _ _ 0 0 _
              (fun next => evalLoop env flags (before ++ tail) rounds next.1 next.2)
              (@atMost_evalStep_none env flags before tail hop m)
            apply hnothing
            intro next hnext
            rw [value_evalStep, evalStep_none env flags hop] at hnext
            cases hnext
        | some read =>
            rcases read with ⟨opcode, vch, rest⟩
            rcases reads_of_getOp hop with ⟨bytes, rfl, hreads⟩
            refine (atMost_evalStep hannounced fAccurate before
              ⟨bytes, opcode, vch, hreads⟩ rest).bind ?_
            rintro ⟨pc, m'⟩ hnext
            rw [value_evalStep] at hnext
            rcases (evalStep_eq_ok_iff env flags).mp hnext with ⟨hexecutes, rfl⟩
            exact ih opcode (before ++ bytes) rest m' (List.append_assoc _ _ _).symm
              (announced_of_executes hexecutes)
      · rw [if_neg hpc]
        exact atMost_lift _ _

/-- Both counts bound the calls of an evaluation. -/
theorem atMost_evalScript (fAccurate : Bool) (script : CScript) (stack : Stack) :
    AtMost (getSigOpCount script fAccurate) (evalScript env flags script stack) := by
  have hstart : Announced OP_INVALIDOPCODE (Machine.initial stack) :=
    fun _ hle => absurd hle (by decide)
  have hbody : AtMost (getSigOpCount script fAccurate) (evalBody env flags script stack) :=
    atMost_lift_bind fun _ _ =>
      atMost_evalLoop fAccurate script.length OP_INVALIDOPCODE [] script _ rfl hstart
  have hcaught : AtMost (getSigOpCount script fAccurate)
      (catchAll (evalBody env flags script stack)) := hbody
  exact hcaught.bind_lift fun _ => atMost_lift_bind fun _ _ => atMost_lift 0 _

/-!
# The script which is pushed last
-/

/-- A number leaves nothing to count. -/
theorem getSigOpCount_pushed {op : Operation} (h : op.IsPush flags) :
    getSigOpCount op.pushed true ≤ getSigOpCount op.vch true := by
  by_cases hsmall : op.opcode ≤ OP_PUSHDATA4
  · rw [Operation.pushed, if_pos hsmall]
  · have hmax := h.opcode_le
    have hreserved := h.not_reserved
    have hzero : forall n : Fin 18, n.val ≠ 1 ->
        getSigOpCount (serialize (((n.val + 0x4f : Nat) : Int) - 0x50)) true = 0 := by decide
    rw [Operation.pushed, if_neg hsmall]
    unfold OP_16 at hmax
    unfold OP_PUSHDATA4 at hsmall
    have hnumber := hzero ⟨op.opcode - 0x4f, by omega⟩ (by simp only; omega)
    have hopcode : op.opcode - 0x4f + 0x4f = op.opcode := by omega
    simp only [hopcode] at hnumber
    rw [hnumber]
    exact Nat.zero_le _

theorem lastPush_of_isPushOnly (rounds : Nat) :
    forall (data : List UInt8) (before tail : CScript), script = before ++ tail ->
      isPushOnlyFrom script rounds before.length = Except.ok true ->
        exists last, lastPush rounds data tail = some last := by
  induction rounds with
  | zero =>
      intro data before tail hscript h
      subst hscript
      cases tail with
      | nil => exact ⟨data, rfl⟩
      | cons byte tail =>
          rw [isPushOnlyFrom, if_pos (by rw [List.length_append, List.length_cons]; omega)] at h
          cases h
  | succ rounds ih =>
      intro data before tail hscript h
      subst hscript
      cases hop : CScript.getOp tail with
      | none =>
          cases tail with
          | nil => exact ⟨data, rfl⟩
          | cons byte tail =>
              rw [isPushOnlyFrom, if_pos (by rw [List.length_append, List.length_cons]; omega),
                getOp2_none hop] at h
              cases h
      | some read =>
          rcases read with ⟨opcode, vch, rest⟩
          rcases reads_of_getOp hop with ⟨bytes, rfl, hreads⟩
          have hpos := (⟨bytes, opcode, vch, hreads⟩ : Operation).length_pos
          have hread := getOp2_operation before ⟨bytes, opcode, vch, hreads⟩ rest
          have hlast := lastPush_operation rounds data ⟨bytes, opcode, vch, hreads⟩ rest
          simp only at hpos hread hlast
          rw [isPushOnlyFrom, if_pos (by rw [List.length_append, List.length_append]; omega),
            hread, ok_bind] at h
          simp only at h
          rw [hlast]
          split at h
          · cases h
          case isFalse hle =>
            rw [if_neg hle]
            exact ih vch (before ++ bytes) rest (List.append_assoc _ _ _).symm h

theorem getSigOpCount_le_with {scriptSig scriptPubKey pubKeySerialized : CScript} {rest : Stack}
    (hp2sh : isPayToScriptHash scriptPubKey = true)
    (hpushOnly : checkPushOnly scriptSig = Except.ok ())
    (heval : Script.evalScript env flags scriptSig [] = Except.ok (pubKeySerialized :: rest)) :
    getSigOpCount pubKeySerialized true ≤ getSigOpCountWith scriptPubKey scriptSig := by
  have honly : isPushOnly scriptSig = Except.ok true := by
    unfold checkPushOnly at hpushOnly
    rw [bind_eq_ok_iff] at hpushOnly
    rcases hpushOnly with ⟨fPushOnly, hok, htrue⟩
    rw [require_eq_ok_iff] at htrue
    rw [hok, htrue]
  rcases lastPush_of_isPushOnly scriptSig.length [] [] scriptSig rfl honly with ⟨last, hlast⟩
  rcases exists_pushes_of_lastPush hlast with ⟨pushes, hpushes, rfl⟩
  rcases evalScript_bytesOf_iff.mp heval with ⟨_, m, hruns, _, hstack⟩
  rcases hruns.of_pushes hpushes rfl with ⟨hall, rfl⟩
  change (pushes.map Operation.pushed).reverse ++ [] = pubKeySerialized :: rest at hstack
  rw [List.append_nil] at hstack
  unfold getSigOpCountWith
  rw [if_pos hp2sh, lastPush_bytesOf [] hpushes (Nat.le_refl _)]
  -- the last operation has pushed the script
  rcases List.eq_nil_or_concat' pushes with rfl | ⟨others, op, rfl⟩
  · cases hstack
  · rw [List.map_append, List.reverse_append, List.map_singleton, List.reverse_singleton,
      List.singleton_append, List.cons.injEq] at hstack
    rw [← hstack.1, List.map_append, List.map_singleton, List.getLastD_concat]
    exact getSigOpCount_pushed (hall op (List.mem_append_right _ List.mem_cons_self))

/-!
# Verification
-/

theorem atMost_verifyScriptHash {scriptSig scriptPubKey : CScript} {stackCopy : Stack}
    (hp2sh : isPayToScriptHash scriptPubKey = true)
    (heval : Script.evalScript env flags scriptSig [] = Except.ok stackCopy) :
    AtMost (getSigOpCountWith scriptPubKey scriptSig)
      (verifyScriptHash env flags scriptSig stackCopy) := by
  unfold verifyScriptHash
  refine atMost_lift_bind fun _ hpushOnly => ?_
  cases stackCopy with
  | nil => exact atMost_lift _ _
  | cons pubKeySerialized rest =>
      have hle := getSigOpCount_le_with hp2sh hpushOnly heval
      exact ((atMost_evalScript true pubKeySerialized rest).mono hle).bind_lift fun _ =>
        atMost_lift 0 _

variable (env flags) in
/--
Verification calls `CheckSig` at most as often as the two scripts count signature operations,
and the script which is pushed last, where it is evaluated.
-/
theorem calls_verifyScript_le (scriptSig scriptPubKey : CScript) :
    (verifyScript env flags scriptSig scriptPubKey).value =
        Script.verifyScript env flags scriptSig scriptPubKey ∧
      (verifyScript env flags scriptSig scriptPubKey).calls.length ≤
        getSigOpCount scriptSig false + getSigOpCount scriptPubKey false +
          if hasAny flags SCRIPT_VERIFY_P2SH && isPayToScriptHash scriptPubKey then
            getSigOpCountWith scriptPubKey scriptSig
          else 0 := by
  refine ⟨value_verifyScript env flags scriptSig scriptPubKey, ?_⟩
  change AtMost _ _
  unfold verifyScript
  refine atMost_lift_bind fun _ _ => ?_
  rw [Nat.add_assoc]
  refine (atMost_evalScript false scriptSig []).bind fun stackCopy hcopy => ?_
  rw [value_evalScript] at hcopy
  refine (atMost_evalScript false scriptPubKey stackCopy).bind fun stack _ => ?_
  refine atMost_lift_bind fun _ _ => ?_
  split
  case isTrue happlied =>
    rw [Bool.and_eq_true] at happlied
    exact atMost_verifyScriptHash happlied.2 hcopy
  case isFalse => exact atMost_lift 0 _

end Counted

end Script
end Hbcur
