import Hbcur.Script.Encoding
import Hbcur.Script.Opcode

/-!
# The script interpreter

`EvalScript` and `VerifyScript` of `script/interpreter.cpp`.  A stack is the list of its
elements from the top down, so that `stacktop(-i)` is the element at `i - 1`.
-/

namespace Hbcur
namespace Script

open Foundation

abbrev Stack := List ValType

/-- The result of a hash function with a fixed output size. -/
abbrev Digest (size : Nat) := { bytes : List UInt8 // bytes.length = size }

/-- The hash functions, and the signature checker which is passed in. -/
structure ScriptEnv where
  ripemd160 : List UInt8 -> Digest 20
  sha1 : List UInt8 -> Digest 20
  sha256 : List UInt8 -> Digest 32
  hash160 : List UInt8 -> Digest 20
  hash256 : List UInt8 -> Digest 32
  checkSig : ValType -> ValType -> CScript -> Bool

/-- The functions which hash to zeros, and a checker which accepts every signature. -/
def zeroEnv : ScriptEnv where
  ripemd160 := fun _ => ⟨List.replicate 20 0, rfl⟩
  sha1 := fun _ => ⟨List.replicate 20 0, rfl⟩
  sha256 := fun _ => ⟨List.replicate 32 0, rfl⟩
  hash160 := fun _ => ⟨List.replicate 20 0, rfl⟩
  hash256 := fun _ => ⟨List.replicate 32 0, rfl⟩
  checkSig := fun _ _ _ => true

/-!
# The stack
-/

def stacktop (stack : Stack) (i : Nat) : Except Stop ValType :=
  expect stack[i - 1]? Stop.outOfRange

def popstack : Stack -> Except Stop Stack
  | [] => Except.error Stop.outOfRange
  | _ :: rest => Except.ok rest

def popTimes : Nat -> Stack -> Except Stop Stack
  | 0, stack => Except.ok stack
  | n + 1, stack => do
      let stack ← popstack stack
      popTimes n stack

/-- `swap(stacktop(-i), stacktop(-j))` -/
def swapTop (stack : Stack) (i j : Nat) : Except Stop Stack := do
  let vch1 ← stacktop stack i
  let vch2 ← stacktop stack j
  Except.ok ((stack.set (i - 1) vch2).set (j - 1) vch1)

/-- `stack.erase(stack.end() - i)` -/
def eraseTop (stack : Stack) (i : Nat) : Except Stop Stack := do
  let _ ← stacktop stack i
  Except.ok (stack.eraseIdx (i - 1))

/-- `stack.insert(stack.end() - i, vch)` -/
def insertTop (stack : Stack) (i : Nat) (vch : ValType) : Except Stop Stack := do
  require (decide (i ≤ stack.length)) Stop.outOfRange
  Except.ok (stack.insertIdx i vch)

/-- The test of the depth which comes before every access. -/
def needs (stack : Stack) (n : Nat) : Except Stop Unit :=
  require (!decide (stack.length < n)) (Stop.error ScriptError.invalidStackOperation)

/-- Replace a result on top by nothing, or fail for it. -/
def verifyTop (fSuccess : Bool) (e : ScriptError) (stack : Stack) : Except Stop Stack :=
  if fSuccess then popstack stack else Except.error (Stop.error e)

/-- The `VERIFY` variant of an operation which has pushed its result. -/
def verifyIf (fVerify fSuccess : Bool) (e : ScriptError) (stack : Stack) : Except Stop Stack :=
  if fVerify then verifyTop fSuccess e stack else Except.ok stack

/-- `OP_EQUAL` and `OP_EQUALVERIFY`. -/
def execEqual (fVerify : Bool) (stack : Stack) : Except Stop Stack := do
  needs stack 2
  let vch1 ← stacktop stack 2
  let vch2 ← stacktop stack 1
  let fEqual := vch1 == vch2
  let stack ← popTimes 2 stack
  verifyIf fVerify fEqual ScriptError.equalVerify (boolBytes fEqual :: stack)

def execStack (stack : Stack) : StackOp -> Except Stop Stack
  | StackOp.drop2 => do
      needs stack 2
      popTimes 2 stack
  | StackOp.dup2 => do
      needs stack 2
      let vch1 ← stacktop stack 2
      let vch2 ← stacktop stack 1
      Except.ok (vch2 :: vch1 :: stack)
  | StackOp.dup3 => do
      needs stack 3
      let vch1 ← stacktop stack 3
      let vch2 ← stacktop stack 2
      let vch3 ← stacktop stack 1
      Except.ok (vch3 :: vch2 :: vch1 :: stack)
  | StackOp.over2 => do
      needs stack 4
      let vch1 ← stacktop stack 4
      let vch2 ← stacktop stack 3
      Except.ok (vch2 :: vch1 :: stack)
  | StackOp.rot2 => do
      needs stack 6
      let vch1 ← stacktop stack 6
      let vch2 ← stacktop stack 5
      let stack ← eraseTop stack 6
      let stack ← eraseTop stack 5
      Except.ok (vch2 :: vch1 :: stack)
  | StackOp.swap2 => do
      needs stack 4
      let stack ← swapTop stack 4 2
      swapTop stack 3 1
  | StackOp.ifDup => do
      needs stack 1
      let vch ← stacktop stack 1
      Except.ok (if castToBool vch then vch :: stack else stack)
  | StackOp.depth => Except.ok (serialize stack.length :: stack)
  | StackOp.drop => do
      needs stack 1
      popstack stack
  | StackOp.dup => do
      needs stack 1
      let vch ← stacktop stack 1
      Except.ok (vch :: stack)
  | StackOp.nip => do
      needs stack 2
      eraseTop stack 2
  | StackOp.over => do
      needs stack 2
      let vch ← stacktop stack 2
      Except.ok (vch :: stack)
  | StackOp.rot => do
      needs stack 3
      let stack ← swapTop stack 3 2
      swapTop stack 2 1
  | StackOp.swap => do
      needs stack 2
      swapTop stack 2 1
  | StackOp.tuck => do
      needs stack 2
      let vch ← stacktop stack 1
      insertTop stack 2 vch
  | StackOp.size => do
      needs stack 1
      let vch ← stacktop stack 1
      Except.ok (serialize vch.length :: stack)
  | StackOp.equal => execEqual false stack
  | StackOp.equalVerify => execEqual true stack

/-!
# Numbers
-/

/-- `CScriptNum(stacktop(-i), fRequireMinimal)` -/
def numberAt (fRequireMinimal : Bool) (stack : Stack) (i : Nat) : Except Stop Int := do
  let vch ← stacktop stack i
  scriptNum vch fRequireMinimal

/-- `OP_ROLL` also takes the element out. -/
def takeOut (fRoll : Bool) (stack : Stack) (i : Nat) : Except Stop Stack :=
  if fRoll then eraseTop stack i else Except.ok stack

/-- `OP_PICK` and `OP_ROLL`. -/
def execPick (fRequireMinimal fRoll : Bool) (stack : Stack) : Except Stop Stack := do
  needs stack 2
  let bn ← numberAt fRequireMinimal stack 1
  let n := getInt bn
  let stack ← popstack stack
  require (!(decide (n < 0) || decide (n ≥ stack.length)))
    (Stop.error ScriptError.invalidStackOperation)
  let vch ← stacktop stack (n.toNat + 1)
  let stack ← takeOut fRoll stack (n.toNat + 1)
  Except.ok (vch :: stack)

def applyUnary (bn : Int) : UnaryOp -> Except Stop Int
  | UnaryOp.add1 => addAssign bn 1
  | UnaryOp.sub1 => subAssign bn 1
  | UnaryOp.negate => negate bn
  | UnaryOp.abs => if bn < 0 then negate bn else Except.ok bn
  | UnaryOp.not => Except.ok (ofBool (bn == 0))
  | UnaryOp.notEqual0 => Except.ok (ofBool (!(bn == 0)))

def execUnary (fRequireMinimal : Bool) (op : UnaryOp) (stack : Stack) : Except Stop Stack := do
  needs stack 1
  let bn ← numberAt fRequireMinimal stack 1
  let bn ← applyUnary bn op
  let stack ← popstack stack
  Except.ok (serialize bn :: stack)

def applyBinary (bn1 bn2 : Int) : BinaryOp -> Int
  | BinaryOp.add => bn1 + bn2
  | BinaryOp.sub => bn1 - bn2
  | BinaryOp.boolAnd => ofBool (!(bn1 == 0) && !(bn2 == 0))
  | BinaryOp.boolOr => ofBool (!(bn1 == 0) || !(bn2 == 0))
  | BinaryOp.numEqual => ofBool (bn1 == bn2)
  | BinaryOp.numEqualVerify => ofBool (bn1 == bn2)
  | BinaryOp.numNotEqual => ofBool (!(bn1 == bn2))
  | BinaryOp.lessThan => ofBool (decide (bn1 < bn2))
  | BinaryOp.greaterThan => ofBool (decide (bn1 > bn2))
  | BinaryOp.lessThanOrEqual => ofBool (decide (bn1 ≤ bn2))
  | BinaryOp.greaterThanOrEqual => ofBool (decide (bn1 ≥ bn2))
  | BinaryOp.min => if bn1 < bn2 then bn1 else bn2
  | BinaryOp.max => if bn1 > bn2 then bn1 else bn2

def execBinary (fRequireMinimal : Bool) (op : BinaryOp) (stack : Stack) :
    Except Stop Stack := do
  needs stack 2
  let bn1 ← numberAt fRequireMinimal stack 2
  let bn2 ← numberAt fRequireMinimal stack 1
  let stack ← popTimes 2 stack
  let result := serialize (applyBinary bn1 bn2 op)
  verifyIf (op == BinaryOp.numEqualVerify) (castToBool result) ScriptError.numEqualVerify
    (result :: stack)

def execWithin (fRequireMinimal : Bool) (stack : Stack) : Except Stop Stack := do
  needs stack 3
  let bn1 ← numberAt fRequireMinimal stack 3
  let bn2 ← numberAt fRequireMinimal stack 2
  let bn3 ← numberAt fRequireMinimal stack 1
  let stack ← popTimes 3 stack
  Except.ok (boolBytes (decide (bn2 ≤ bn1) && decide (bn1 < bn3)) :: stack)

/-!
# Hashes and signatures
-/

section Exec

variable (env : ScriptEnv)

def hashOf (vch : ValType) : HashOp -> ValType
  | HashOp.ripemd160 => (env.ripemd160 vch).val
  | HashOp.sha1 => (env.sha1 vch).val
  | HashOp.sha256 => (env.sha256 vch).val
  | HashOp.hash160 => (env.hash160 vch).val
  | HashOp.hash256 => (env.hash256 vch).val

def execHash (op : HashOp) (stack : Stack) : Except Stop Stack := do
  needs stack 1
  let vch ← stacktop stack 1
  let stack ← popstack stack
  Except.ok (hashOf env vch op :: stack)

variable (flags : ScriptVerifyFlags)

def checkEncodings (vchSig vchPubKey : ValType) : Except Stop Unit := do
  checkSignatureEncoding vchSig flags
  checkPubKeyEncoding vchPubKey flags

/-- `CScript(pbegincodehash, pend)`, the part of the script after the last code separator. -/
def scriptFrom (script : CScript) (pbegincodehash : Nat) : Except Stop CScript :=
  if pbegincodehash ≤ script.length then Except.ok (script.drop pbegincodehash)
  else Except.error Stop.outOfRange

/-- `OP_CHECKSIG` and `OP_CHECKSIGVERIFY`. -/
def execCheckSig (fVerify : Bool) (script : CScript) (pbegincodehash : Nat) (stack : Stack) :
    Except Stop Stack := do
  needs stack 2
  let vchSig ← stacktop stack 2
  let vchPubKey ← stacktop stack 1
  let scriptCode ← scriptFrom script pbegincodehash
  let (scriptCode, _) ← findAndDelete scriptCode (pushBytes vchSig)
  checkEncodings flags vchSig vchPubKey
  let fSuccess := env.checkSig vchSig vchPubKey scriptCode
  let stack ← popTimes 2 stack
  verifyIf fVerify fSuccess ScriptError.checkSigVerify (boolBytes fSuccess :: stack)

/-- Drop the signatures at `isig` and below from the code. -/
def dropSignatures (stack : Stack) : Nat -> Nat -> CScript -> Except Stop CScript
  | 0, _, scriptCode => Except.ok scriptCode
  | left + 1, isig, scriptCode => do
      let vchSig ← stacktop stack isig
      let (scriptCode, _) ← findAndDelete scriptCode (pushBytes vchSig)
      dropSignatures stack left (isig + 1) scriptCode

/-- The loop over the keys, which are left in the number of the first argument. -/
def multiSigLoop (scriptCode : CScript) (stack : Stack) :
    Nat -> Nat -> Nat -> Nat -> Except Stop Bool
  | nKeysCount, nSigsCount, ikey, isig =>
      if nSigsCount = 0 then Except.ok true
      else
        match nKeysCount with
        | 0 => Except.error Stop.unfinished
        | nKeysCount + 1 => do
            let vchSig ← stacktop stack isig
            let vchPubKey ← stacktop stack ikey
            checkEncodings flags vchSig vchPubKey
            let fOk := env.checkSig vchSig vchPubKey scriptCode
            let nSigsCount := if fOk then nSigsCount - 1 else nSigsCount
            let isig := if fOk then isig + 1 else isig
            if nSigsCount > nKeysCount then Except.ok false
            else multiSigLoop scriptCode stack nKeysCount nSigsCount (ikey + 1) isig

/-- `OP_CHECKMULTISIG`: the stack afterwards, and the number of counted operations. -/
def execCheckMultiSig (fVerify : Bool) (script : CScript) (pbegincodehash nOpCount : Nat)
    (stack : Stack) : Except Stop (Stack × Nat) := do
  let fRequireMinimal := hasAny flags SCRIPT_VERIFY_MINIMALDATA
  needs stack 1
  let bn ← numberAt fRequireMinimal stack 1
  let nKeysCount := getInt bn
  require (!(decide (nKeysCount < 0) || decide (nKeysCount > 20)))
    (Stop.error ScriptError.pubKeyCount)
  let nOpCount := nOpCount + nKeysCount.toNat
  require (!decide (nOpCount > 201)) (Stop.error ScriptError.opCount)
  let i := 2 + nKeysCount.toNat
  needs stack i
  let bn ← numberAt fRequireMinimal stack i
  let nSigsCount := getInt bn
  require (!(decide (nSigsCount < 0) || decide (nSigsCount > nKeysCount)))
    (Stop.error ScriptError.sigCount)
  let isig := i + 1
  let i := isig + nSigsCount.toNat
  needs stack i
  let scriptCode ← scriptFrom script pbegincodehash
  let scriptCode ← dropSignatures stack nSigsCount.toNat isig scriptCode
  let fSuccess ← multiSigLoop env flags scriptCode stack nKeysCount.toNat nSigsCount.toNat 2 isig
  let stack ← popTimes (i - 1) stack
  -- one argument too many is consumed
  needs stack 1
  let vchDummy ← stacktop stack 1
  require (!(hasAny flags SCRIPT_VERIFY_NULLDUMMY && !vchDummy.isEmpty))
    (Stop.error ScriptError.sigNullDummy)
  let stack ← popstack stack
  let stack ←
    verifyIf fVerify fSuccess ScriptError.checkMultiSigVerify (boolBytes fSuccess :: stack)
  Except.ok (stack, nOpCount)

/-!
# One instruction
-/

structure Machine where
  stack : Stack
  altstack : Stack
  -- the innermost condition first
  vfExec : List Bool
  pbegincodehash : Nat
  nOpCount : Nat

/-- An instruction which only works on the stack. -/
def onStack (m : Machine) (result : Except Stop Stack) : Except Stop Machine := do
  let stack ← result
  Except.ok { m with stack := stack }

/-- `OP_IF` and `OP_NOTIF`. -/
def execIf (fNot fExec : Bool) (m : Machine) : Except Stop Machine :=
  if fExec then do
    require (!decide (m.stack.length < 1)) (Stop.error ScriptError.unbalancedConditional)
    let vch ← stacktop m.stack 1
    let fValue := if fNot then !castToBool vch else castToBool vch
    let stack ← popstack m.stack
    Except.ok { m with stack := stack, vfExec := fValue :: m.vfExec }
  else Except.ok { m with vfExec := false :: m.vfExec }

def execElse (m : Machine) : Except Stop Machine :=
  match m.vfExec with
  | [] => Except.error (Stop.error ScriptError.unbalancedConditional)
  | fValue :: rest => Except.ok { m with vfExec := (!fValue) :: rest }

def execEndIf (m : Machine) : Except Stop Machine :=
  match m.vfExec with
  | [] => Except.error (Stop.error ScriptError.unbalancedConditional)
  | _ :: rest => Except.ok { m with vfExec := rest }

def execVerify (stack : Stack) : Except Stop Stack := do
  needs stack 1
  let vch ← stacktop stack 1
  verifyTop (castToBool vch) ScriptError.verify stack

def execToAltStack (m : Machine) : Except Stop Machine := do
  needs m.stack 1
  let vch ← stacktop m.stack 1
  let stack ← popstack m.stack
  Except.ok { m with stack := stack, altstack := vch :: m.altstack }

def execFromAltStack (m : Machine) : Except Stop Machine := do
  require (!decide (m.altstack.length < 1)) (Stop.error ScriptError.invalidAltStackOperation)
  let vch ← stacktop m.altstack 1
  let altstack ← popstack m.altstack
  Except.ok { m with stack := vch :: m.stack, altstack := altstack }

/-- The switch, where `pc` is the position after the opcode. -/
def execOp (script : CScript) (pc : Nat) (fExec : Bool) (m : Machine) :
    Opcode -> Except Stop Machine
  | Opcode.number n => Except.ok { m with stack := serialize n :: m.stack }
  | Opcode.nop => Except.ok m
  | Opcode.upgradableNop => do
      require (!hasAny flags SCRIPT_VERIFY_DISCOURAGE_UPGRADABLE_NOPS)
        (Stop.error ScriptError.discourageUpgradableNops)
      Except.ok m
  | Opcode.opIf => execIf false fExec m
  | Opcode.opNotIf => execIf true fExec m
  | Opcode.opElse => execElse m
  | Opcode.opEndIf => execEndIf m
  | Opcode.verify => onStack m (execVerify m.stack)
  | Opcode.opReturn => Except.error (Stop.error ScriptError.opReturn)
  | Opcode.toAltStack => execToAltStack m
  | Opcode.fromAltStack => execFromAltStack m
  | Opcode.stack op => onStack m (execStack m.stack op)
  | Opcode.pick => onStack m
      (execPick (hasAny flags SCRIPT_VERIFY_MINIMALDATA) false m.stack)
  | Opcode.roll => onStack m (execPick (hasAny flags SCRIPT_VERIFY_MINIMALDATA) true m.stack)
  | Opcode.unary op => onStack m
      (execUnary (hasAny flags SCRIPT_VERIFY_MINIMALDATA) op m.stack)
  | Opcode.binary op => onStack m
      (execBinary (hasAny flags SCRIPT_VERIFY_MINIMALDATA) op m.stack)
  | Opcode.within => onStack m (execWithin (hasAny flags SCRIPT_VERIFY_MINIMALDATA) m.stack)
  | Opcode.hash op => onStack m (execHash env op m.stack)
  | Opcode.codeSeparator => Except.ok { m with pbegincodehash := pc }
  | Opcode.checkSig => onStack m
      (execCheckSig env flags false script m.pbegincodehash m.stack)
  | Opcode.checkSigVerify => onStack m
      (execCheckSig env flags true script m.pbegincodehash m.stack)
  | Opcode.checkMultiSig => do
      let (stack, nOpCount) ←
        execCheckMultiSig env flags false script m.pbegincodehash m.nOpCount m.stack
      Except.ok { m with stack := stack, nOpCount := nOpCount }
  | Opcode.checkMultiSigVerify => do
      let (stack, nOpCount) ←
        execCheckMultiSig env flags true script m.pbegincodehash m.nOpCount m.stack
      Except.ok { m with stack := stack, nOpCount := nOpCount }
  | Opcode.unknown => Except.error (Stop.error ScriptError.badOpcode)

/-!
# The loop
-/

def MAX_SCRIPT_ELEMENT_SIZE : Nat := 520

def execPush (instruction : Instruction) (m : Machine) : Except Stop Machine := do
  require (!(hasAny flags SCRIPT_VERIFY_MINIMALDATA &&
    !checkMinimalPush instruction.vch instruction.opcode)) (Stop.error ScriptError.minimalData)
  Except.ok { m with stack := instruction.vch :: m.stack }

def execInstruction (script : CScript) (instruction : Instruction) (m : Machine) :
    Except Stop Machine :=
  let fExec := m.vfExec.all id
  if fExec ∧ instruction.opcode ≤ CScript.OP_PUSHDATA4 then execPush flags instruction m
  else if fExec ∨ (OP_IF ≤ instruction.opcode ∧ instruction.opcode ≤ OP_ENDIF) then
    execOp env flags script instruction.pc fExec m (Opcode.ofNat instruction.opcode)
  else Except.ok m

/-- The counter of operations after an opcode. -/
def countOp (nOpCount opcode : Nat) : Nat :=
  if opcode > CScript.OP_16 then nOpCount + 1 else nOpCount

/-- One round of the loop, with the position at which it ends. -/
def evalStep (script : CScript) (pc : Nat) (m : Machine) : Except Stop (Nat × Machine) := do
  let found ← getOp2 script pc
  let instruction ← expect found (Stop.error ScriptError.badOpcode)
  require (!decide (instruction.vch.length > MAX_SCRIPT_ELEMENT_SIZE))
    (Stop.error ScriptError.pushSize)
  let nOpCount := countOp m.nOpCount instruction.opcode
  require (!(decide (instruction.opcode > CScript.OP_16) && decide (nOpCount > 201)))
    (Stop.error ScriptError.opCount)
  require (!isDisabled instruction.opcode) (Stop.error ScriptError.disabledOpcode)
  let m ← execInstruction env flags script instruction { m with nOpCount := nOpCount }
  require (!decide (m.stack.length + m.altstack.length > 1000))
    (Stop.error ScriptError.stackSize)
  Except.ok (instruction.pc, m)

def evalLoop (script : CScript) : Nat -> Nat -> Machine -> Except Stop Machine
  | 0, pc, m => if pc < script.length then Except.error Stop.unfinished else Except.ok m
  | rounds + 1, pc, m =>
      if pc < script.length then do
        let (pc, m) ← evalStep env flags script pc m
        evalLoop script rounds pc m
      else Except.ok m

def Machine.initial (stack : Stack) : Machine :=
  { stack := stack, altstack := [], vfExec := [], pbegincodehash := 0, nOpCount := 0 }

/-- What `EvalScript` does inside its `try`, with the test of the size before it. -/
def evalBody (script : CScript) (stack : Stack) : Except Stop Machine := do
  require (!decide (script.length > 10000)) (Stop.error ScriptError.scriptSize)
  evalLoop env flags script script.length 0 (Machine.initial stack)

/-- The `catch` of everything which is thrown. -/
def catchAll : Except Stop Machine -> Except Stop Machine
  | Except.error (Stop.scriptNum _) => Except.error (Stop.error ScriptError.unknownError)
  | Except.error Stop.outOfRange => Except.error (Stop.error ScriptError.unknownError)
  | other => other

/-- What is caught is a failure already. -/
theorem catchAll_eq_ok_iff {x : Except Stop Machine} {m : Machine} :
    catchAll x = Except.ok m <-> x = Except.ok m := by
  cases x with
  | ok _ => exact Iff.rfl
  | error stop =>
      constructor
      · intro hcaught
        cases stop <;> cases hcaught
      · nofun

/-- `EvalScript`: the stack where it returns true. -/
def evalScript (script : CScript) (stack : Stack) : Except Stop Stack := do
  let m ← catchAll (evalBody env flags script stack)
  require m.vfExec.isEmpty (Stop.error ScriptError.unbalancedConditional)
  Except.ok m.stack

/-!
# Verification
-/

/-- `IsPushOnly`, whose loop reads at least a byte in each round. -/
def isPushOnlyFrom (script : CScript) : Nat -> Nat -> Except Stop Bool
  | 0, pc => if pc < script.length then Except.error Stop.unfinished else Except.ok true
  | rounds + 1, pc =>
      if pc < script.length then do
        let found ← getOp2 script pc
        match found with
        | none => Except.ok false
        | some instruction =>
            if instruction.opcode > CScript.OP_16 then Except.ok false
            else isPushOnlyFrom script rounds instruction.pc
      else Except.ok true

def isPushOnly (script : CScript) : Except Stop Bool := isPushOnlyFrom script script.length 0

def checkPushOnly (scriptSig : CScript) : Except Stop Unit := do
  let fPushOnly ← isPushOnly scriptSig
  require fPushOnly (Stop.error ScriptError.sigPushOnly)

/-- The two tests of a final stack. -/
def finalCheck (stack : Stack) : Except Stop Unit :=
  match stack with
  | [] => Except.error (Stop.error ScriptError.evalFalse)
  | top :: _ => require (castToBool top) (Stop.error ScriptError.evalFalse)

/-- The script which `scriptSig` has pushed last is evaluated on the rest of its stack. -/
def verifyScriptHash (scriptSig : CScript) (stackCopy : Stack) : Except Stop Unit := do
  checkPushOnly scriptSig
  match stackCopy with
  | [] => Except.error Stop.aborted
  | pubKeySerialized :: rest => do
      let stack ← evalScript env flags pubKeySerialized rest
      finalCheck stack

/-- `VerifyScript`, which returns true where this succeeds. -/
def verifyScript (scriptSig scriptPubKey : CScript) : Except Stop Unit := do
  onlyIf (hasAny flags SCRIPT_VERIFY_SIGPUSHONLY) (checkPushOnly scriptSig)
  let stackCopy ← evalScript env flags scriptSig []
  let stack ← evalScript env flags scriptPubKey stackCopy
  finalCheck stack
  onlyIf (hasAny flags SCRIPT_VERIFY_P2SH && CScript.isPayToScriptHash scriptPubKey)
    (verifyScriptHash env flags scriptSig stackCopy)

end Exec

end Script
end Hbcur
