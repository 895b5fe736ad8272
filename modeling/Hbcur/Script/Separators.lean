import Hbcur.Script.Deletion

/-!
# Code separators

What is signed of a script are its instructions without the code separators.
`SerializeScriptCode` of `script/interpreter.cpp` writes the parts between them in a second
pass, where `FindAndDelete` erases them one after the other.
-/

namespace Hbcur
namespace Script

open Serialize Foundation

def OP_CODESEPARATOR : Nat := 0xab

/-!
# The two passes
-/

/-- Where `GetOp2` leaves the position when it returns false. -/
def stoppedAt (script : CScript) (pc : Nat) : Except Stop Nat :=
  if script.length ≤ pc then Except.ok pc
  else do
    let byte ← byteAt script pc
    let size ← operandSize script byte.toNat (pc + 1)
    match size with
    | none => Except.ok (pc + 1)
    | some (_, pc') => Except.ok pc'

def countSeparators (scriptCode : CScript) : Nat -> Nat -> Nat -> Except Stop Nat
  | 0, _, _ => Except.error Stop.unfinished
  | rounds + 1, it, nCodeSeparators => do
      let next ← getOp2 scriptCode it
      match next with
      | none => Except.ok nCodeSeparators
      | some instruction =>
          countSeparators scriptCode rounds instruction.pc
            (if instruction.opcode = OP_CODESEPARATOR then nCodeSeparators + 1
              else nCodeSeparators)

/-- The parts in front of a separator, and the positions after the second pass. -/
def writeParts (scriptCode : CScript) :
    Nat -> Nat -> Nat -> List UInt8 -> Except Stop (Nat × Nat × List UInt8)
  | 0, _, _, _ => Except.error Stop.unfinished
  | rounds + 1, it, itBegin, s => do
      let next ← getOp2 scriptCode it
      match next with
      | none => do
          let it ← stoppedAt scriptCode it
          Except.ok (it, itBegin, s)
      | some instruction =>
          if instruction.opcode = OP_CODESEPARATOR then do
            let part ← slice scriptCode itBegin (instruction.pc - itBegin - 1)
            writeParts scriptCode rounds instruction.pc instruction.pc (s ++ part)
          else writeParts scriptCode rounds instruction.pc itBegin s

/-- What follows the last separator. -/
def lastPart (scriptCode : CScript) (it itBegin : Nat) : Except Stop (List UInt8) :=
  if itBegin ≠ scriptCode.length then slice scriptCode itBegin (it - itBegin)
  else Except.ok []

def serializeScriptCode (scriptCode : CScript) : Except Stop (List UInt8) := do
  let nCodeSeparators ← countSeparators scriptCode (scriptCode.length + 1) 0 0
  let (it, itBegin, s) ← writeParts scriptCode (scriptCode.length + 1) 0 0
    (writeCompactSize (scriptCode.length - nCodeSeparators))
  let part ← lastPart scriptCode it itBegin
  Except.ok (s ++ part)

/-!
# The instructions of a script
-/

/-- `GetOp` reads the script to its end. -/
inductive Parsed : CScript -> Prop where
  | done : Parsed []
  | next {script rest : CScript} {opcode : Nat} {vch : List UInt8}
      (hop : CScript.getOp script = some (opcode, vch, rest)) (hrest : Parsed rest) :
      Parsed script

/-- A script, what remains of it without its code separators, and how many these are. -/
inductive Stripped : CScript -> CScript -> Nat -> Prop where
  | done : Stripped [] [] 0
  | separator {rest stripped : CScript} {n : Nat} (hrest : Stripped rest stripped n) :
      Stripped (UInt8.ofNat OP_CODESEPARATOR :: rest) stripped (n + 1)
  | keep {byte : UInt8} {operand rest stripped : CScript} {n : Nat} {vch : List UInt8}
      (hbyte : byte ≠ UInt8.ofNat OP_CODESEPARATOR)
      (hop : CScript.getOp (byte :: operand ++ rest) = some (byte.toNat, vch, rest))
      (hrest : Stripped rest stripped n) :
      Stripped (byte :: operand ++ rest) (byte :: operand ++ stripped) n

theorem toNat_ne {byte : UInt8} (h : byte ≠ UInt8.ofNat OP_CODESEPARATOR) :
    byte.toNat ≠ OP_CODESEPARATOR := by
  intro heq
  apply h
  rw [← heq, UInt8.ofNat_toNat]

/-- An opcode above the pushes has no operand. -/
theorem getOp_separator (rest : CScript) :
    CScript.getOp (UInt8.ofNat OP_CODESEPARATOR :: rest) =
      some (OP_CODESEPARATOR, [], rest) := rfl

theorem Parsed.exists_stripped {script : CScript} (h : Parsed script) :
    exists stripped n, Stripped script stripped n := by
  induction h with
  | done => exact ⟨[], 0, Stripped.done⟩
  | @next script rest opcode vch hop hrest ih =>
      rcases ih with ⟨stripped, n, hstripped⟩
      cases script with
      | nil => cases hop
      | cons byte bytes =>
          by_cases hbyte : byte = UInt8.ofNat OP_CODESEPARATOR
          · subst hbyte
            rw [getOp_separator] at hop
            cases hop
            exact ⟨stripped, n + 1, Stripped.separator hstripped⟩
          · rcases suffix_of_getOp hop with ⟨rfl, operand, rfl⟩
            exact ⟨_, n, Stripped.keep hbyte hop hstripped⟩

namespace Stripped

variable {script stripped : CScript} {n : Nat}

theorem length_eq (h : Stripped script stripped n) : stripped.length + n = script.length := by
  induction h with
  | done => rfl
  | separator hrest ih =>
      rw [List.length_cons]
      omega
  | keep hbyte hop hrest ih =>
      rw [List.length_append, List.length_append]
      omega

/-!
# Erasing the separators
-/

def codeSeparator : Operation where
  bytes := [UInt8.ofNat OP_CODESEPARATOR]
  opcode := OP_CODESEPARATOR
  vch := []
  reads := getOp_separator

/-- The operations of the script without those which separate. -/
theorem operations_eq (h : Stripped script stripped n) :
    bytesOf (withoutOperation codeSeparator (operations script)) ++ unread script = stripped ∧
      countOperation codeSeparator (operations script) = n := by
  induction h with
  | done => exact ⟨rfl, rfl⟩
  | @separator rest stripped n hrest ih =>
      have hops : operations (UInt8.ofNat OP_CODESEPARATOR :: rest) =
          codeSeparator :: operations rest := operations_append codeSeparator rest
      have hunread : unread (UInt8.ofNat OP_CODESEPARATOR :: rest) = unread rest :=
        unread_append codeSeparator rest
      have hequal : codeSeparator.isEqual codeSeparator = true := decide_eq_true rfl
      unfold withoutOperation countOperation at ih ⊢
      rw [hops, hunread, List.filter_cons_of_neg (by rw [hequal]; decide),
        List.countP_cons_of_pos (by exact hequal), ih.2]
      exact ⟨ih.1, rfl⟩
  | @keep byte operand rest stripped n vch hbyte hop hrest ih =>
      have hexists : exists op : Operation, op.bytes = byte :: operand := by
        rcases reads_of_getOp hop with ⟨bytes, hbytes, hreads⟩
        exact ⟨⟨bytes, byte.toNat, vch, hreads⟩, (List.append_cancel_right hbytes).symm⟩
      rcases hexists with ⟨op, hbytes⟩
      have hother : op.isEqual codeSeparator = false := by
        refine decide_eq_false fun heq => hbyte ?_
        rw [hbytes] at heq
        exact List.head_eq_of_cons_eq heq
      unfold withoutOperation countOperation at ih ⊢
      rw [← hbytes, operations_append, unread_append,
        List.filter_cons_of_pos (by rw [hother]; rfl),
        List.countP_cons_of_neg (by rw [hother]; decide), bytesOf_cons, List.append_assoc, ih.1]
      exact ⟨rfl, ih.2⟩

theorem findAndDelete_eq (h : Stripped script stripped n) :
    findAndDelete script [UInt8.ofNat OP_CODESEPARATOR] = Except.ok (stripped, n) := by
  have hdeleted := findAndDelete_bytes codeSeparator script
  rw [h.operations_eq.1, h.operations_eq.2] at hdeleted
  exact hdeleted

/-!
# Reading past the separators
-/

theorem getOp2_append {script rest : CScript} {opcode : Nat} {vch : List UInt8}
    (before : CScript) (h : CScript.getOp script = some (opcode, vch, rest)) :
    getOp2 (before ++ script) before.length = Except.ok (some
      { opcode := opcode, vch := vch, pc := (before ++ script).length - rest.length }) := by
  rw [getOp2_eq, List.drop_left, h]
  rfl

theorem getOp2_separator (before rest : CScript) :
    getOp2 (before ++ UInt8.ofNat OP_CODESEPARATOR :: rest) before.length = Except.ok (some
      { opcode := OP_CODESEPARATOR, vch := [], pc := before.length + 1 }) := by
  rw [getOp2_append before (getOp_separator rest), List.length_append, List.length_cons]
  congr 3
  omega

theorem getOp2_keep {byte : UInt8} {operand rest : CScript} {vch : List UInt8}
    (before : CScript)
    (h : CScript.getOp (byte :: operand ++ rest) = some (byte.toNat, vch, rest)) :
    getOp2 (before ++ (byte :: operand ++ rest)) before.length = Except.ok (some
      { opcode := byte.toNat, vch := vch, pc := (before ++ byte :: operand).length }) := by
  rw [getOp2_append before h, ← List.append_assoc, @List.length_append _ _ rest,
    Nat.add_sub_cancel]

theorem getOp2_end (script : CScript) : getOp2 script script.length = Except.ok none :=
  if_pos (Nat.le_refl _)

/-!
# Writing the parts between the separators
-/

theorem slice_append (before bytes : CScript) {n : Nat} (h : n ≤ bytes.length) :
    slice (before ++ bytes) before.length n = Except.ok (bytes.take n) := by
  rw [slice_eq (by rw [List.length_append]; omega), List.drop_left]

theorem countSeparators_eq (h : Stripped script stripped n) :
    forall (before : CScript) (rounds count : Nat), script.length < rounds ->
      countSeparators (before ++ script) rounds before.length count =
        Except.ok (count + n) := by
  induction h with
  | done =>
      intro before rounds count hrounds
      cases rounds with
      | zero => exact absurd hrounds (Nat.lt_irrefl 0)
      | succ rounds =>
          rw [countSeparators, List.append_nil, getOp2_end]
          rfl
  | @separator rest stripped n hrest ih =>
      intro before rounds count hrounds
      cases rounds with
      | zero => exact absurd hrounds (Nat.not_lt_zero _)
      | succ rounds =>
          have hloop := ih (before ++ [UInt8.ofNat OP_CODESEPARATOR]) rounds (count + 1)
            (Nat.lt_of_succ_lt_succ hrounds)
          rw [List.append_assoc, List.length_append] at hloop
          rw [countSeparators, getOp2_separator, Nat.add_comm n 1, ← Nat.add_assoc]
          exact hloop
  | @keep byte operand rest stripped n vch hbyte hop hrest ih =>
      intro before rounds count hrounds
      cases rounds with
      | zero => exact absurd hrounds (Nat.not_lt_zero _)
      | succ rounds =>
          have hshorter : rest.length < rounds := by
            rw [List.length_append, List.length_cons] at hrounds
            omega
          have hloop := ih (before ++ byte :: operand) rounds count hshorter
          rw [List.append_assoc] at hloop
          rw [countSeparators, getOp2_keep before hop]
          change countSeparators _ rounds _
            (if byte.toNat = OP_CODESEPARATOR then count + 1 else count) = _
          rw [if_neg (toNat_ne hbyte)]
          exact hloop

/--
The second pass behind a part which is kept and not written yet: where it ends, that part
has grown to the end of the script.
-/
theorem writeParts_eq (h : Stripped script stripped n) :
    forall (before kept : CScript) (rounds : Nat) (s : List UInt8), script.length < rounds ->
      exists before' kept' s', before' ++ kept' = before ++ (kept ++ script) ∧
        s' ++ kept' = s ++ (kept ++ stripped) ∧
        writeParts (before ++ (kept ++ script)) rounds (before ++ kept).length before.length s =
          Except.ok ((before ++ (kept ++ script)).length, before'.length, s') := by
  induction h with
  | done =>
      intro before kept rounds s hrounds
      cases rounds with
      | zero => exact absurd hrounds (Nat.lt_irrefl 0)
      | succ rounds =>
          refine ⟨before, kept, s, ?_, ?_, ?_⟩
          · rw [List.append_nil]
          · rw [List.append_nil]
          · rw [writeParts, List.append_nil]
            have hstop : stoppedAt (before ++ kept) (before ++ kept).length =
                Except.ok (before ++ kept).length := if_pos (Nat.le_refl _)
            rw [getOp2_end]
            change (stoppedAt (before ++ kept) (before ++ kept).length >>= fun it => _) = _
            rw [hstop]
            rfl
  | @separator rest stripped n hrest ih =>
      intro before kept rounds s hrounds
      cases rounds with
      | zero => exact absurd hrounds (Nat.not_lt_zero _)
      | succ rounds =>
          -- the kept part is written, and the next one starts behind the separator
          have hshorter : rest.length < rounds := Nat.lt_of_succ_lt_succ hrounds
          rcases ih (before ++ (kept ++ [UInt8.ofNat OP_CODESEPARATOR])) [] rounds (s ++ kept)
            hshorter with ⟨before', kept', s', hscript, hwritten, hloop⟩
          simp only [List.nil_append, List.append_nil, List.append_assoc,
            List.singleton_append] at hscript hwritten hloop
          refine ⟨before', kept', s', hscript, hwritten, ?_⟩
          have hpart : slice (before ++ (kept ++ UInt8.ofNat OP_CODESEPARATOR :: rest))
              before.length ((before ++ kept).length + 1 - before.length - 1) =
                Except.ok kept := by
            have hlength : (before ++ kept).length + 1 - before.length - 1 = kept.length := by
              rw [List.length_append]
              omega
            rw [hlength, slice_append _ _ (by rw [List.length_append]; omega), List.take_left]
          have hnext : (before ++ (kept ++ [UInt8.ofNat OP_CODESEPARATOR])).length =
              (before ++ kept).length + 1 := by
            rw [← List.append_assoc, List.length_append, List.length_singleton]
          rw [hnext] at hloop
          rw [← List.append_assoc before] at hpart hloop ⊢
          rw [writeParts, getOp2_separator]
          change (slice _ before.length _ >>= fun part => _) = _
          rw [hpart]
          exact hloop
  | @keep byte operand rest stripped n vch hbyte hop hrest ih =>
      intro before kept rounds s hrounds
      cases rounds with
      | zero => exact absurd hrounds (Nat.not_lt_zero _)
      | succ rounds =>
          have hshorter : rest.length < rounds := by
            rw [List.length_append, List.length_cons] at hrounds
            omega
          rcases ih before (kept ++ byte :: operand) rounds s hshorter with
            ⟨before', kept', s', hscript, hwritten, hloop⟩
          rw [List.append_assoc kept] at hscript hwritten hloop
          refine ⟨before', kept', s', hscript, hwritten, ?_⟩
          rw [← List.append_assoc before, ← List.append_assoc before] at hloop
          rw [← List.append_assoc before, writeParts, getOp2_keep _ hop]
          change (if byte.toNat = OP_CODESEPARATOR then _ else _) = _
          rw [if_neg (toNat_ne hbyte)]
          exact hloop

theorem lastPart_eq (before kept : CScript) :
    lastPart (before ++ kept) (before ++ kept).length before.length = Except.ok kept := by
  unfold lastPart
  have hlength : (before ++ kept).length - before.length = kept.length := by
    rw [List.length_append]
    omega
  split_ifs with hsome
  · rw [hlength, slice_append _ _ (Nat.le_refl _), List.take_length]
  · have hnil : kept = [] := by
      apply List.eq_nil_of_length_eq_zero
      omega
    rw [hnil]

/-- What is written is the script without its separators, after its length. -/
theorem serializeScriptCode_eq (h : Stripped script stripped n) :
    serializeScriptCode script = Except.ok (writeCompactSize stripped.length ++ stripped) := by
  have hrounds := Nat.lt_succ_self script.length
  have hcount := h.countSeparators_eq [] (script.length + 1) 0 hrounds
  have hlength : script.length - n = stripped.length := by
    rw [← h.length_eq]
    omega
  rcases h.writeParts_eq [] [] (script.length + 1) (writeCompactSize stripped.length) hrounds
    with ⟨before, kept, s, hscript, hwritten, hparts⟩
  simp only [List.nil_append, List.length_nil, Nat.zero_add] at hcount hscript hwritten hparts
  unfold serializeScriptCode
  rw [hcount]
  change (writeParts script (script.length + 1) 0 0 (writeCompactSize (script.length - n)) >>=
    fun parts => _) = _
  rw [hlength, hparts]
  change (lastPart script script.length before.length >>= fun part => _) = _
  rw [← hscript, lastPart_eq, ← hwritten]
  rfl

end Stripped

end Script
end Hbcur
