import Mathlib.Data.List.Basic

/-!
# Opcodes

The opcodes of `script/script.h` by what `EvalScript` does with them.  Opcodes which share a
body of its switch are one constructor with a parameter.
-/

namespace Hbcur
namespace Script

inductive StackOp where
  | drop2
  | dup2
  | dup3
  | over2
  | rot2
  | swap2
  | ifDup
  | depth
  | drop
  | dup
  | nip
  | over
  | rot
  | swap
  | tuck
  | size
  | equal
  | equalVerify
  deriving DecidableEq, Repr

inductive UnaryOp where
  | add1
  | sub1
  | negate
  | abs
  | not
  | notEqual0
  deriving DecidableEq, Repr

inductive BinaryOp where
  | add
  | sub
  | boolAnd
  | boolOr
  | numEqual
  | numEqualVerify
  | numNotEqual
  | lessThan
  | greaterThan
  | lessThanOrEqual
  | greaterThanOrEqual
  | min
  | max
  deriving DecidableEq, Repr

inductive HashOp where
  | ripemd160
  | sha1
  | sha256
  | hash160
  | hash256
  deriving DecidableEq, Repr

inductive Opcode where
  -- `OP_1NEGATE` and `OP_1` to `OP_16`
  | number (n : Int)
  | nop
  -- `OP_NOP1` to `OP_NOP10`
  | upgradableNop
  | opIf
  | opNotIf
  | opElse
  | opEndIf
  | verify
  | opReturn
  | toAltStack
  | fromAltStack
  | stack (op : StackOp)
  | pick
  | roll
  | unary (op : UnaryOp)
  | binary (op : BinaryOp)
  | within
  | hash (op : HashOp)
  | codeSeparator
  | checkSig
  | checkSigVerify
  | checkMultiSig
  | checkMultiSigVerify
  -- everything without a body of its own
  | unknown
  deriving DecidableEq, Repr

namespace Opcode

def ofFlow (opcode : Nat) : Opcode :=
  match opcode with
  | 0x61 => nop
  | 0x63 => opIf
  | 0x64 => opNotIf
  | 0x67 => opElse
  | 0x68 => opEndIf
  | 0x69 => verify
  | 0x6a => opReturn
  | _ => unknown

def ofStack (opcode : Nat) : Opcode :=
  match opcode with
  | 0x6b => toAltStack
  | 0x6c => fromAltStack
  | 0x6d => stack StackOp.drop2
  | 0x6e => stack StackOp.dup2
  | 0x6f => stack StackOp.dup3
  | 0x70 => stack StackOp.over2
  | 0x71 => stack StackOp.rot2
  | 0x72 => stack StackOp.swap2
  | 0x73 => stack StackOp.ifDup
  | 0x74 => stack StackOp.depth
  | 0x75 => stack StackOp.drop
  | 0x76 => stack StackOp.dup
  | 0x77 => stack StackOp.nip
  | 0x78 => stack StackOp.over
  | 0x79 => pick
  | 0x7a => roll
  | 0x7b => stack StackOp.rot
  | 0x7c => stack StackOp.swap
  | 0x7d => stack StackOp.tuck
  | 0x82 => stack StackOp.size
  | 0x87 => stack StackOp.equal
  | 0x88 => stack StackOp.equalVerify
  | _ => unknown

def ofNumeric (opcode : Nat) : Opcode :=
  match opcode with
  | 0x8b => unary UnaryOp.add1
  | 0x8c => unary UnaryOp.sub1
  | 0x8f => unary UnaryOp.negate
  | 0x90 => unary UnaryOp.abs
  | 0x91 => unary UnaryOp.not
  | 0x92 => unary UnaryOp.notEqual0
  | 0x93 => binary BinaryOp.add
  | 0x94 => binary BinaryOp.sub
  | 0x9a => binary BinaryOp.boolAnd
  | 0x9b => binary BinaryOp.boolOr
  | 0x9c => binary BinaryOp.numEqual
  | 0x9d => binary BinaryOp.numEqualVerify
  | 0x9e => binary BinaryOp.numNotEqual
  | 0x9f => binary BinaryOp.lessThan
  | 0xa0 => binary BinaryOp.greaterThan
  | 0xa1 => binary BinaryOp.lessThanOrEqual
  | 0xa2 => binary BinaryOp.greaterThanOrEqual
  | 0xa3 => binary BinaryOp.min
  | 0xa4 => binary BinaryOp.max
  | 0xa5 => within
  | _ => unknown

def ofCrypto (opcode : Nat) : Opcode :=
  match opcode with
  | 0xa6 => hash HashOp.ripemd160
  | 0xa7 => hash HashOp.sha1
  | 0xa8 => hash HashOp.sha256
  | 0xa9 => hash HashOp.hash160
  | 0xaa => hash HashOp.hash256
  | 0xab => codeSeparator
  | 0xac => checkSig
  | 0xad => checkSigVerify
  | 0xae => checkMultiSig
  | 0xaf => checkMultiSigVerify
  | _ => unknown

/-- What the switch does with an opcode. -/
def ofNat (opcode : Nat) : Opcode :=
  if opcode = 0x4f ∨ (0x51 ≤ opcode ∧ opcode ≤ 0x60) then number ((opcode : Int) - 0x50)
  else if opcode < 0x6b then ofFlow opcode
  else if opcode < 0x8b then ofStack opcode
  else if opcode < 0xa6 then ofNumeric opcode
  else if 0xb0 ≤ opcode ∧ opcode ≤ 0xb9 then upgradableNop
  else ofCrypto opcode

end Opcode

def OP_IF : Nat := 0x63
def OP_ENDIF : Nat := 0x68

/-- The opcodes which fail even where they are not executed. -/
def isDisabled (opcode : Nat) : Bool :=
  -- `OP_CAT`, `OP_SUBSTR`, `OP_LEFT`, `OP_RIGHT`
  (decide (0x7e ≤ opcode) && decide (opcode ≤ 0x81)) ||
    -- `OP_INVERT`, `OP_AND`, `OP_OR`, `OP_XOR`
    (decide (0x83 ≤ opcode) && decide (opcode ≤ 0x86)) ||
    -- `OP_2MUL`, `OP_2DIV`
    opcode == 0x8d || opcode == 0x8e ||
    -- `OP_MUL`, `OP_DIV`, `OP_MOD`, `OP_LSHIFT`, `OP_RSHIFT`
    (decide (0x95 ≤ opcode) && decide (opcode ≤ 0x99))

end Script
end Hbcur
