import Hbcur.Foundation.Checks
import Hbcur.Script.SigOps

/-!
# Reading a script

`GetOp2` and `FindAndDelete` of `script/script.h` with iterators as positions.  Every access
to the bytes of a script tests its bounds, and ends the computation if they are missed.
-/

namespace Hbcur
namespace Script

open Foundation Serialize

/-!
# How evaluation ends
-/

inductive ScriptError where
  | unknownError
  | evalFalse
  | opReturn
  | scriptSize
  | pushSize
  | opCount
  | stackSize
  | sigCount
  | pubKeyCount
  | verify
  | equalVerify
  | checkMultiSigVerify
  | checkSigVerify
  | numEqualVerify
  | badOpcode
  | disabledOpcode
  | invalidStackOperation
  | invalidAltStackOperation
  | unbalancedConditional
  | sigHashType
  | sigDer
  | minimalData
  | sigPushOnly
  | sigHighS
  | sigNullDummy
  | pubKeyType
  | discourageUpgradableNops
  deriving DecidableEq, Repr

/-- The messages of `scriptnum_error`. -/
inductive ScriptNumError where
  | overflow
  | nonMinimal
  deriving DecidableEq, Repr

/--
How evaluation stops: it returns false with an error, `CScriptNum` throws, an access out of
range throws or is undefined, an assertion fails, or a loop needs more rounds than it is given.
-/
inductive Stop where
  | error (serror : ScriptError)
  | scriptNum (what : ScriptNumError)
  | outOfRange
  | aborted
  | unfinished
  deriving DecidableEq, Repr

/-- The stops which are meant to happen. -/
def Stop.Expected : Stop -> Prop
  | Stop.error _ => True
  | Stop.scriptNum _ => True
  | _ => False

/-- A computation which cannot stop at all. -/
def Never (_ : Stop) : Prop := False

theorem Never.elim (stop : Stop) (h : Never stop) : stop.Expected := False.elim h

/-!
# Accesses
-/

def byteAt (script : CScript) (pc : Nat) : Except Stop UInt8 :=
  expect script[pc]? Stop.outOfRange

/-- The bytes from a position on. -/
def slice (script : CScript) (pc n : Nat) : Except Stop (List UInt8) :=
  if pc + n ≤ script.length then Except.ok ((script.drop pc).take n)
  else Except.error Stop.outOfRange

/-!
# Instructions
-/

structure Instruction where
  opcode : Nat
  vch : List UInt8
  pc : Nat
  deriving DecidableEq, Repr

/-- The length of an operand as a word, and the position behind it. -/
def readSize (script : CScript) (pc width : Nat) : Except Stop (Option (Nat × Nat)) :=
  if script.length - pc < width then Except.ok none
  else do
    let word ← slice script pc width
    Except.ok (some (valueLE word, pc + width))

def operandSize (script : CScript) (opcode pc : Nat) : Except Stop (Option (Nat × Nat)) :=
  if opcode < CScript.OP_PUSHDATA1 then Except.ok (some (opcode, pc))
  else if opcode = CScript.OP_PUSHDATA1 then readSize script pc 1
  else if opcode = CScript.OP_PUSHDATA2 then readSize script pc 2
  else readSize script pc 4

/-- `GetOp2`: nothing where it returns false. -/
def getOp2 (script : CScript) (pc : Nat) : Except Stop (Option Instruction) :=
  if script.length ≤ pc then Except.ok none
  else do
    let byte ← byteAt script pc
    if byte.toNat ≤ CScript.OP_PUSHDATA4 then do
      let size ← operandSize script byte.toNat (pc + 1)
      match size with
      | none => Except.ok none
      | some (nSize, pc') =>
          if script.length - pc' < nSize then Except.ok none
          else do
            let vch ← slice script pc' nSize
            Except.ok (some { opcode := byte.toNat, vch := vch, pc := pc' + nSize })
    else Except.ok (some { opcode := byte.toNat, vch := [], pc := pc + 1 })

/-!
# Deleting a pattern
-/

/-- The inner loop of `FindAndDelete`, which erases the pattern while it stands at `pc`. -/
def eraseHere (b : CScript) (pc : Nat) : Nat -> CScript -> Nat -> Except Stop (CScript × Nat)
  | 0, _, _ => Except.error Stop.unfinished
  | rounds + 1, script, nFound =>
      if b.length ≤ script.length - pc then do
        let here ← slice script pc b.length
        if here = b then
          eraseHere b pc rounds (script.take pc ++ script.drop (pc + b.length)) (nFound + 1)
        else Except.ok (script, nFound)
      else Except.ok (script, nFound)

def deleteLoop (b : CScript) : Nat -> CScript -> Nat -> Nat -> Except Stop (CScript × Nat)
  | 0, _, _, _ => Except.error Stop.unfinished
  | rounds + 1, script, pc, nFound => do
      let (script', nFound') ← eraseHere b pc (script.length + 1) script nFound
      let next ← getOp2 script' pc
      match next with
      | none => Except.ok (script', nFound')
      | some instruction => deleteLoop b rounds script' instruction.pc nFound'

/-- `FindAndDelete`: the script afterwards, and how often the pattern was found. -/
def findAndDelete (script b : CScript) : Except Stop (CScript × Nat) :=
  if b = [] then Except.ok (script, 0) else deleteLoop b (script.length + 1) script 0 0

/-!
# The accesses are in bounds
-/

section Bounds

variable {script b : CScript} {pc : Nat}

theorem slice_eq {n : Nat} (h : pc + n ≤ script.length) :
    slice script pc n = Except.ok ((script.drop pc).take n) := if_pos h

theorem suffix_of_readLE {width n : Nat} {bytes rest : List UInt8}
    (h : readLE width bytes = some (n, rest)) : rest <:+ bytes := by
  unfold readLE readExactly at h
  split_ifs at h
  · cases h
    exact List.drop_suffix _ _

theorem suffix_of_pushSize {opcode nSize : Nat} {bytes rest : CScript}
    (h : CScript.pushSize opcode bytes = some (nSize, rest)) : rest <:+ bytes := by
  unfold CScript.pushSize at h
  split_ifs at h
  · cases h
    exact List.suffix_refl _
  · exact suffix_of_readLE h
  · exact suffix_of_readLE h
  · exact suffix_of_readLE h

/-- The operand size which `pushSize` reads from what is left of the script. -/
def restSize (script : CScript) (found : Option (Nat × CScript)) : Option (Nat × Nat) :=
  found.map (fun read => (read.1, script.length - read.2.length))

theorem readSize_eq (hpc : pc ≤ script.length) (width : Nat) :
    readSize script pc width = Except.ok (restSize script (readLE width (script.drop pc))) := by
  unfold readSize readLE readExactly
  rw [List.length_drop]
  by_cases h : script.length - pc < width
  · rw [if_pos h, if_neg (Nat.not_le.mpr h)]
    rfl
  · have hle : width ≤ script.length - pc := Nat.not_lt.mp h
    rw [if_neg h, if_pos hle, slice_eq (by omega)]
    simp only [restSize, Option.map_some, List.length_drop]
    show Except.ok _ = Except.ok _
    congr 3
    omega

theorem operandSize_eq (hpc : pc ≤ script.length) (opcode : Nat) :
    operandSize script opcode pc =
      Except.ok (restSize script (CScript.pushSize opcode (script.drop pc))) := by
  unfold operandSize CScript.pushSize
  split_ifs
  · simp only [restSize, Option.map_some, List.length_drop]
    congr 3
    omega
  · exact readSize_eq hpc 1
  · exact readSize_eq hpc 2
  · exact readSize_eq hpc 4

/-- Reading at a position is reading from what is left there. -/
theorem getOp2_eq (script : CScript) (pc : Nat) :
    getOp2 script pc = Except.ok ((CScript.getOp (script.drop pc)).map (fun read =>
      { opcode := read.1, vch := read.2.1, pc := script.length - read.2.2.length })) := by
  unfold getOp2
  by_cases hend : script.length ≤ pc
  · rw [if_pos hend, List.drop_eq_nil_of_le hend]
    rfl
  · have hpc : pc < script.length := Nat.not_le.mp hend
    have hbyte : byteAt script pc = Except.ok script[pc] := by
      unfold byteAt
      rw [List.getElem?_eq_getElem hpc]
      rfl
    rw [if_neg hend, hbyte, List.drop_eq_getElem_cons hpc, CScript.getOp]
    change (if script[pc].toNat ≤ CScript.OP_PUSHDATA4 then _ else _) = _
    by_cases hpush : script[pc].toNat ≤ CScript.OP_PUSHDATA4
    · rw [if_pos hpush, if_pos hpush, operandSize_eq (by omega)]
      cases hsize : CScript.pushSize script[pc].toNat (script.drop (pc + 1)) with
      | none => rfl
      | some read =>
          rcases read with ⟨nSize, rest⟩
          have hsuffix : rest <:+ script :=
            (suffix_of_pushSize hsize).trans (List.drop_suffix _ _)
          have hlength := hsuffix.length_le
          have hdrop : script.drop (script.length - rest.length) = rest :=
            (List.suffix_iff_eq_drop.mp hsuffix).symm
          have hleft : script.length - (script.length - rest.length) = rest.length := by omega
          change (if script.length - (script.length - rest.length) < nSize then _ else _) = _
          rw [hleft]
          simp only
          by_cases hshort : rest.length < nSize
          · rw [if_pos hshort, if_pos hshort]
            rfl
          · rw [if_neg hshort, if_neg hshort, slice_eq (by omega), hdrop]
            simp only [Option.map_some, List.length_drop]
            show Except.ok _ = Except.ok _
            congr 3
            omega
    · rw [if_neg hpush, if_neg hpush]
      simp only [Option.map_some, List.length_drop]
      congr 3
      omega

theorem getOp2_bounds {instruction : Instruction}
    (h : getOp2 script pc = Except.ok (some instruction)) :
    pc < instruction.pc ∧ instruction.pc ≤ script.length := by
  rw [getOp2_eq, Except.ok.injEq, Option.map_eq_some_iff] at h
  rcases h with ⟨⟨opcode, vch, rest⟩, hop, rfl⟩
  have hlt := CScript.length_of_getOp hop
  rw [List.length_drop] at hlt
  simp only
  omega

theorem ensures_getOp2 :
    Ensures Never (fun found => forall instruction, found = some instruction ->
      pc < instruction.pc ∧ instruction.pc ≤ script.length) (getOp2 script pc) := by
  have heq := getOp2_eq script pc
  rw [heq]
  intro instruction hfound
  rw [hfound] at heq
  exact getOp2_bounds heq

/-- Each round of the inner loop makes the script shorter. -/
theorem ensures_eraseHere (hb : b ≠ []) (rounds : Nat) :
    forall (script : CScript) (nFound : Nat), script.length < rounds ->
      Ensures Never (fun r : CScript × Nat => r.1.length ≤ script.length)
        (eraseHere b pc rounds script nFound) := by
  have hpos : 0 < b.length := List.length_pos_iff.mpr hb
  induction rounds with
  | zero =>
      intro script nFound h
      exact absurd h (Nat.not_lt_zero _)
  | succ rounds ih =>
      intro script nFound h
      rw [eraseHere]
      refine ensures_ite (fun hfits => ?_) (fun _ => ensures_ok (Nat.le_refl _))
      rw [slice_eq (by omega)]
      change Ensures Never _ (if (script.drop pc).take b.length = b then _ else _)
      refine ensures_ite (fun _ => ?_) (fun _ => ensures_ok (Nat.le_refl _))
      have hshorter : (script.take pc ++ script.drop (pc + b.length)).length < script.length := by
        rw [List.length_append, List.length_take, List.length_drop]
        omega
      exact (ih _ _ (by omega)).mono (fun r hr => hr.trans hshorter.le)

theorem ensures_deleteLoop (hb : b ≠ []) (rounds : Nat) :
    forall (script : CScript) (pc nFound : Nat), script.length - pc < rounds ->
      Ensures Never (fun _ => True) (deleteLoop b rounds script pc nFound) := by
  induction rounds with
  | zero =>
      intro script pc nFound h
      exact absurd h (Nat.not_lt_zero _)
  | succ rounds ih =>
      intro script pc nFound h
      rw [deleteLoop]
      apply ensures_bind (ensures_eraseHere hb (script.length + 1) script nFound (by omega))
      rintro ⟨script', nFound'⟩ hshorter
      apply ensures_bind ensures_getOp2
      intro next hnext
      cases next with
      | none => exact trivial
      | some instruction =>
          have hpc := hnext instruction rfl
          simp only at hshorter
          exact ih script' instruction.pc nFound' (by omega)

/-- `FindAndDelete` ends, and all its accesses are in bounds. -/
theorem ensures_findAndDelete : Ensures Never (fun _ => True) (findAndDelete script b) := by
  unfold findAndDelete
  refine ensures_ite (fun _ => trivial) (fun hb => ?_)
  exact ensures_deleteLoop hb (script.length + 1) script 0 0 (by omega)

end Bounds

end Script
end Hbcur
