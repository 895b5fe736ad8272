import Hbcur.Primitives.Transaction
import Hbcur.Serialize.Integers

/-!
# Counting signature operations

The script reader of `script/script.h` and the sigop counts built on it.  A loop
over a script is given as many rounds as the script has bytes; the reader takes
at least one byte each time, so the rounds never run out.
-/

namespace Hbcur
namespace CScript

open Serialize

def OP_PUSHDATA1 : Nat := 0x4c
def OP_PUSHDATA2 : Nat := 0x4d
def OP_PUSHDATA4 : Nat := 0x4e
def OP_1 : Nat := 0x51
def OP_16 : Nat := 0x60
def OP_EQUAL : UInt8 := 0x87
def OP_HASH160 : UInt8 := 0xa9
def OP_CHECKSIG : Nat := 0xac
def OP_CHECKSIGVERIFY : Nat := 0xad
def OP_CHECKMULTISIG : Nat := 0xae
def OP_CHECKMULTISIGVERIFY : Nat := 0xaf
def OP_INVALIDOPCODE : Nat := 0xff

/-- The length of an immediate operand, read from what follows the opcode. -/
def pushSize (opcode : Nat) (pc : CScript) : Option (Nat × CScript) :=
  if opcode < OP_PUSHDATA1 then some (opcode, pc)
  else if opcode = OP_PUSHDATA1 then readLE 1 pc
  else if opcode = OP_PUSHDATA2 then readLE 2 pc
  else readLE 4 pc

/-- `GetOp2`: the opcode, its operand and the rest of the script. -/
def getOp : CScript -> Option (Nat × List UInt8 × CScript)
  | [] => none
  | byte :: pc =>
      if byte.toNat ≤ OP_PUSHDATA4 then
        match pushSize byte.toNat pc with
        | none => none
        | some (nSize, pc') =>
            if pc'.length < nSize then none
            else some (byte.toNat, pc'.take nSize, pc'.drop nSize)
      else some (byte.toNat, [], pc)

def sigOpsOf (fAccurate : Bool) (lastOpcode opcode : Nat) : Nat :=
  if opcode = OP_CHECKSIG ∨ opcode = OP_CHECKSIGVERIFY then 1
  else if opcode = OP_CHECKMULTISIG ∨ opcode = OP_CHECKMULTISIGVERIFY then
    if fAccurate ∧ OP_1 ≤ lastOpcode ∧ lastOpcode ≤ OP_16 then lastOpcode - (OP_1 - 1)
    else 20
  else 0

def sigOpsFrom (fAccurate : Bool) : Nat -> Nat -> CScript -> Nat
  | 0, _, _ => 0
  | rounds + 1, lastOpcode, pc =>
      match getOp pc with
      | none => 0
      | some (opcode, _, pc') =>
          sigOpsOf fAccurate lastOpcode opcode + sigOpsFrom fAccurate rounds opcode pc'

def getSigOpCount (script : CScript) (fAccurate : Bool) : Nat :=
  sigOpsFrom fAccurate script.length OP_INVALIDOPCODE script

def isPayToScriptHash (script : CScript) : Bool :=
  script.length == 23 && script[0]? == some OP_HASH160 && script[1]? == some 0x14 &&
    script[22]? == some OP_EQUAL

/-- The last item which a script of pushes only leaves on the stack. -/
def lastPush : Nat -> List UInt8 -> CScript -> Option (List UInt8)
  | _, data, [] => some data
  | 0, _, _ => none
  | rounds + 1, _, pc =>
      match getOp pc with
      | none => none
      | some (opcode, data, pc') => if opcode > OP_16 then none else lastPush rounds data pc'

/-- `GetSigOpCount` of an output together with the script that spends it. -/
def getSigOpCountWith (scriptPubKey scriptSig : CScript) : Nat :=
  if isPayToScriptHash scriptPubKey then
    match lastPush scriptSig.length [] scriptSig with
    | none => 0
    | some data => getSigOpCount data true
  else getSigOpCount scriptPubKey true

/-!
# The rounds suffice
-/

theorem length_of_readLE {width n : Nat} {bytes rest : List UInt8}
    (h : readLE width bytes = some (n, rest)) : rest.length ≤ bytes.length := by
  unfold readLE at h
  split at h
  · cases h
  · rename_i taken bytes' hread
    cases h
    unfold Foundation.readExactly at hread
    split_ifs at hread
    cases hread
    rw [List.length_drop]
    exact Nat.sub_le _ _

theorem length_of_pushSize {opcode nSize : Nat} {pc pc' : CScript}
    (h : pushSize opcode pc = some (nSize, pc')) : pc'.length ≤ pc.length := by
  unfold pushSize at h
  split_ifs at h
  · cases h
    exact Nat.le_refl _
  · exact length_of_readLE h
  · exact length_of_readLE h
  · exact length_of_readLE h

theorem length_of_getOp {pc pc' : CScript} {opcode : Nat} {data : List UInt8}
    (h : getOp pc = some (opcode, data, pc')) : pc'.length < pc.length := by
  cases pc with
  | nil =>
      cases h
  | cons byte pc =>
      rw [getOp] at h
      split_ifs at h with hpush
      · split at h
        · cases h
        · rename_i nSize rest hsize
          split_ifs at h with hshort
          cases h
          have hle := length_of_pushSize hsize
          rw [List.length_drop, List.length_cons]
          omega
      · cases h
        rw [List.length_cons]
        exact Nat.lt_succ_self _

end CScript

/-!
# Sigops of a transaction
-/

def getLegacySigOpCount (tx : CTransaction) : Nat :=
  (tx.vin.map fun txin => CScript.getSigOpCount txin.scriptSig false).sum +
    (tx.vout.map fun txout => CScript.getSigOpCount txout.scriptPubKey false).sum

end Hbcur
