import Hbcur.Script.Reader

/-!
# The operations of a script

`GetOp` reads the same operation whatever follows its bytes, so that a script is the
concatenation of its operations and of a part which cannot be read.  `FindAndDelete` takes out
those operations which are equal to its pattern.
-/

namespace Hbcur
namespace Script

open Foundation Serialize

/-!
# What is read does not depend on what follows
-/

theorem reads_of_readLE {width n : Nat} {bytes rest : List UInt8}
    (h : readLE width bytes = some (n, rest)) :
    exists word, bytes = word ++ rest ∧ Reads (readLE width) word n := by
  unfold readLE readExactly at h
  split_ifs at h with hwidth
  · cases h
    exists bytes.take width
    constructor
    · exact (List.take_append_drop width bytes).symm
    · intro rest'
      have hread := reads_readExactly (bytes.take width) rest'
      rw [List.length_take_of_le hwidth] at hread
      unfold readLE
      rw [hread]

theorem reads_of_pushSize {opcode nSize : Nat} {bytes rest : CScript}
    (h : CScript.pushSize opcode bytes = some (nSize, rest)) :
    exists word, bytes = word ++ rest ∧ Reads (CScript.pushSize opcode) word nSize := by
  have hlong : forall width : Nat, readLE width bytes = some (nSize, rest) ->
      (forall word, CScript.pushSize opcode word = readLE width word) ->
      exists word, bytes = word ++ rest ∧ Reads (CScript.pushSize opcode) word nSize := by
    intro width hread heq
    rcases reads_of_readLE hread with ⟨word, hword, hreads⟩
    exists word
    constructor
    · exact hword
    · intro rest'
      rw [heq]
      exact hreads rest'
  unfold CScript.pushSize at h
  split_ifs at h with hshort hone htwo
  · cases h
    exists []
    constructor
    · rfl
    · intro rest'
      exact if_pos hshort
  · exact hlong 1 h fun word => (if_neg hshort).trans (if_pos hone)
  · exact hlong 2 h fun word => (if_neg hshort).trans ((if_neg hone).trans (if_pos htwo))
  · exact hlong 4 h fun word => (if_neg hshort).trans ((if_neg hone).trans (if_neg htwo))

theorem reads_of_getOp {script rest : CScript} {opcode : Nat} {vch : List UInt8}
    (h : CScript.getOp script = some (opcode, vch, rest)) :
    exists bytes, script = bytes ++ rest ∧
      forall rest', CScript.getOp (bytes ++ rest') = some (opcode, vch, rest') := by
  cases script with
  | nil => cases h
  | cons byte pc =>
      rw [CScript.getOp] at h
      split_ifs at h with hpush
      · split at h
        · cases h
        · rename_i nSize pc' hsize
          split_ifs at h with hfits
          cases h
          rcases reads_of_pushSize hsize with ⟨word, rfl, hreads⟩
          have hle : nSize ≤ pc'.length := Nat.not_lt.mp hfits
          exists byte :: (word ++ pc'.take nSize)
          constructor
          · rw [List.cons_append, List.append_assoc, List.take_append_drop]
          · intro rest'
            rw [List.cons_append, List.append_assoc, CScript.getOp, if_pos hpush,
              hreads (pc'.take nSize ++ rest')]
            have hlength : (pc'.take nSize).length = nSize := List.length_take_of_le hle
            simp only
            rw [if_neg (by rw [List.length_append]; omega), List.take_left' hlength,
              List.drop_left' hlength]
      · cases h
        exists [byte]
        constructor
        · rfl
        · intro rest'
          rw [List.singleton_append, CScript.getOp, if_neg hpush]

theorem suffix_of_getOp {byte : UInt8} {bytes rest : CScript} {opcode : Nat}
    {vch : List UInt8} (h : CScript.getOp (byte :: bytes) = some (opcode, vch, rest)) :
    opcode = byte.toNat ∧ rest <:+ bytes := by
  rw [CScript.getOp] at h
  split_ifs at h with hpush
  · cases hsize : CScript.pushSize byte.toNat bytes with
    | none =>
        rw [hsize] at h
        cases h
    | some read =>
        rw [hsize] at h
        simp only at h
        split_ifs at h with hshort
        cases h
        exact ⟨rfl, (List.drop_suffix _ _).trans (suffix_of_pushSize hsize)⟩
  · cases h
    exact ⟨rfl, List.suffix_refl _⟩

/-!
# Operations
-/

/-- Bytes which are read as one operation. -/
structure Operation where
  bytes : CScript
  opcode : Nat
  vch : List UInt8
  reads : forall rest, CScript.getOp (bytes ++ rest) = some (opcode, vch, rest)

namespace Operation

theorem length_pos (op : Operation) : 0 < op.bytes.length := by
  have hlt := CScript.length_of_getOp (op.reads [])
  rw [List.append_nil] at hlt
  exact Nat.zero_lt_of_lt hlt

theorem bytes_ne_nil (op : Operation) : op.bytes ≠ [] :=
  List.length_pos_iff.mp op.length_pos

/-- The bytes determine the operation. -/
theorem ext_bytes {op op' : Operation} (h : op.bytes = op'.bytes) : op = op' := by
  have hread := op.reads []
  rw [h, op'.reads [], Option.some.injEq, Prod.mk.injEq, Prod.mk.injEq] at hread
  rcases hread with ⟨hopcode, hvch, _⟩
  cases op
  cases op'
  cases h
  cases hopcode
  cases hvch
  rfl

/-- Two operations at one place are the same. -/
theorem eq_of_append_eq {op op' : Operation} {rest rest' : CScript}
    (h : op.bytes ++ rest = op'.bytes ++ rest') : op = op' := by
  have hread := op.reads rest
  rw [h, op'.reads rest', Option.some.injEq, Prod.mk.injEq, Prod.mk.injEq] at hread
  rw [hread.2.2] at h
  exact ext_bytes (List.append_cancel_right h)

/-- An operation starts with its opcode. -/
theorem exists_bytes_eq (op : Operation) :
    exists byte operand, op.bytes = byte :: operand ∧ byte.toNat = op.opcode := by
  have hread := op.reads []
  rw [List.append_nil] at hread
  cases hbytes : op.bytes with
  | nil => exact absurd hbytes op.bytes_ne_nil
  | cons byte operand =>
      rw [hbytes] at hread
      exact ⟨byte, operand, rfl, (suffix_of_getOp hread).1.symm⟩

/-- Where an opcode is an operation by itself, there is no other one with that opcode. -/
theorem eq_of_single {op single : Operation} {byte : UInt8} (hsingle : single.bytes = [byte])
    (h : op.opcode = single.opcode) : op = single := by
  rcases op.exists_bytes_eq with ⟨first, operand, hbytes, hfirst⟩
  rcases single.exists_bytes_eq with ⟨other, _, hother, hopcode⟩
  rw [hsingle, List.cons.injEq] at hother
  rw [h, ← hopcode, ← hother.1, UInt8.toNat_inj] at hfirst
  have happend : op.bytes ++ [] = single.bytes ++ operand := by
    rw [hbytes, hsingle, hfirst, List.append_nil]
    rfl
  exact eq_of_append_eq happend

/-- A script which is read to its end at once. -/
theorem exists_of_getOp {b : CScript} {opcode : Nat} {vch : List UInt8}
    (h : CScript.getOp b = some (opcode, vch, [])) :
    exists op : Operation, op.bytes = b := by
  rcases reads_of_getOp h with ⟨bytes, hbytes, hreads⟩
  rw [List.append_nil] at hbytes
  exact ⟨⟨bytes, opcode, vch, hreads⟩, hbytes.symm⟩

end Operation

/-- The first operation of a script, and what follows it. -/
def readOperation (script : CScript) : Option (Operation × CScript) :=
  match h : CScript.getOp script with
  | none => none
  | some (opcode, vch, rest) =>
      some
        ({ bytes := script.take (script.length - rest.length)
           opcode := opcode
           vch := vch
           reads := by
             rcases reads_of_getOp h with ⟨bytes, rfl, hreads⟩
             rw [List.length_append, Nat.add_sub_cancel, List.take_left]
             exact hreads }, rest)

theorem readOperation_of_none {script : CScript} (h : CScript.getOp script = none) :
    readOperation script = none := by
  unfold readOperation
  split
  · rfl
  · rename_i hread
    rw [h] at hread
    cases hread

theorem readOperation_append (op : Operation) (rest : CScript) :
    readOperation (op.bytes ++ rest) = some (op, rest) := by
  unfold readOperation
  split
  · rename_i hread
    rw [op.reads rest] at hread
    cases hread
  · rename_i opcode vch rest' hread
    rw [op.reads rest] at hread
    cases hread
    rw [Option.some.injEq, Prod.mk.injEq]
    constructor
    · apply Operation.ext_bytes
      simp only [List.length_append, Nat.add_sub_cancel]
      exact List.take_left
    · rfl

def operationsFrom : Nat -> CScript -> List Operation
  | 0, _ => []
  | rounds + 1, script =>
      match readOperation script with
      | none => []
      | some (op, rest) => op :: operationsFrom rounds rest

/-- The operations of a script up to where `GetOp` fails. -/
def operations (script : CScript) : List Operation := operationsFrom script.length script

/-- The bytes of some operations one after the other. -/
def bytesOf (ops : List Operation) : CScript := ops.flatMap Operation.bytes

@[simp] theorem bytesOf_nil : bytesOf [] = [] := rfl

@[simp] theorem bytesOf_cons (op : Operation) (ops : List Operation) :
    bytesOf (op :: ops) = op.bytes ++ bytesOf ops := List.flatMap_cons

@[simp] theorem bytesOf_append (ops ops' : List Operation) :
    bytesOf (ops ++ ops') = bytesOf ops ++ bytesOf ops' := List.flatMap_append

/-- The part behind the operations. -/
def unread (script : CScript) : CScript := script.drop (bytesOf (operations script)).length

/-!
# Dividing a script
-/

/-- A script, its operations and the part which cannot be read. -/
inductive Divided : CScript -> List Operation -> CScript -> Prop where
  | stop {script : CScript} (h : CScript.getOp script = none) : Divided script [] script
  | next {op : Operation} {rest tail : CScript} {ops : List Operation}
      (hrest : Divided rest ops tail) : Divided (op.bytes ++ rest) (op :: ops) tail

namespace Divided

variable {script tail : CScript} {ops : List Operation}

theorem eq_append (h : Divided script ops tail) : script = bytesOf ops ++ tail := by
  induction h with
  | stop h => rfl
  | next hrest ih => rw [bytesOf_cons, List.append_assoc, ← ih]

theorem getOp_tail (h : Divided script ops tail) : CScript.getOp tail = none := by
  induction h with
  | stop h => exact h
  | next hrest ih => exact ih

theorem operationsFrom_eq (h : Divided script ops tail) :
    forall {rounds : Nat}, script.length ≤ rounds -> operationsFrom rounds script = ops := by
  induction h with
  | stop h =>
      intro rounds _
      cases rounds with
      | zero => rfl
      | succ rounds => rw [operationsFrom, readOperation_of_none h]
  | @next op rest tail ops hrest ih =>
      intro rounds hrounds
      have hpos := op.length_pos
      rw [List.length_append] at hrounds
      cases rounds with
      | zero => omega
      | succ rounds =>
          rw [operationsFrom, readOperation_append]
          simp only
          rw [ih (by omega)]

theorem operations_eq (h : Divided script ops tail) : operations script = ops :=
  h.operationsFrom_eq (Nat.le_refl _)

theorem unread_eq (h : Divided script ops tail) : unread script = tail := by
  unfold unread
  rw [h.operations_eq, h.eq_append, List.drop_left]

end Divided

theorem exists_divided (script : CScript) : exists ops tail, Divided script ops tail := by
  induction hlength : script.length using Nat.strong_induction_on generalizing script with
  | _ length ih =>
      subst hlength
      cases hop : CScript.getOp script with
      | none => exact ⟨[], script, Divided.stop hop⟩
      | some read =>
          rcases read with ⟨opcode, vch, rest⟩
          have hlt := CScript.length_of_getOp hop
          rcases reads_of_getOp hop with ⟨bytes, rfl, hreads⟩
          rcases ih rest.length hlt rest rfl with ⟨ops, tail, hrest⟩
          have hnext := @Divided.next ⟨bytes, opcode, vch, hreads⟩ _ _ _ hrest
          exact ⟨_, tail, hnext⟩

theorem divided_operations (script : CScript) :
    Divided script (operations script) (unread script) := by
  rcases exists_divided script with ⟨ops, tail, h⟩
  rw [h.operations_eq, h.unread_eq]
  exact h

theorem operations_append (op : Operation) (rest : CScript) :
    operations (op.bytes ++ rest) = op :: operations rest :=
  (Divided.next (divided_operations rest)).operations_eq

theorem unread_append (op : Operation) (rest : CScript) :
    unread (op.bytes ++ rest) = unread rest :=
  (Divided.next (divided_operations rest)).unread_eq

theorem operations_bytesOf (ops : List Operation) : operations (bytesOf ops) = ops := by
  induction ops with
  | nil => rfl
  | cons op ops ih => rw [bytesOf_cons, operations_append, ih]

/-!
# Scripts of pushes only
-/

theorem lastPush_operation (rounds : Nat) (data : List UInt8) (op : Operation)
    (rest : CScript) :
    CScript.lastPush (rounds + 1) data (op.bytes ++ rest) =
      if op.opcode > CScript.OP_16 then none else CScript.lastPush rounds op.vch rest := by
  rcases op.exists_bytes_eq with ⟨byte, operand, hbytes, _⟩
  have hread := op.reads rest
  rw [hbytes, List.cons_append] at hread
  rw [hbytes, List.cons_append, CScript.lastPush, hread]
  intro hnil
  cases hnil

theorem lastPush_bytesOf {pushes : List Operation} :
    forall {rounds : Nat} (data : List UInt8),
      (forall op, op ∈ pushes -> op.opcode ≤ CScript.OP_16) ->
      (bytesOf pushes).length ≤ rounds ->
      CScript.lastPush rounds data (bytesOf pushes) =
        some ((pushes.map Operation.vch).getLastD data) := by
  induction pushes with
  | nil =>
      intro rounds data _ _
      cases rounds <;> rfl
  | cons op pushes ih =>
      intro rounds data hpushes hrounds
      have hpos := op.length_pos
      rw [bytesOf_cons, List.length_append] at hrounds
      cases rounds with
      | zero => omega
      | succ rounds =>
          rw [bytesOf_cons, lastPush_operation,
            if_neg (Nat.not_lt.mpr (hpushes op List.mem_cons_self)),
            ih op.vch (fun other hmem => hpushes other (List.mem_cons_of_mem _ hmem)) (by omega),
            List.map_cons, List.getLastD_cons]

theorem exists_pushes_of_lastPush : forall {rounds : Nat} {data last : List UInt8}
    {script : CScript}, CScript.lastPush rounds data script = some last ->
      exists pushes : List Operation, (forall op, op ∈ pushes -> op.opcode ≤ CScript.OP_16) ∧
        script = bytesOf pushes := by
  intro rounds
  induction rounds with
  | zero =>
      intro data last script h
      cases script with
      | nil => exact ⟨[], nofun, rfl⟩
      | cons byte rest => cases h
  | succ rounds ih =>
      intro data last script h
      cases hop : CScript.getOp script with
      | none =>
          cases script with
          | nil => exact ⟨[], nofun, rfl⟩
          | cons byte rest =>
              rw [CScript.lastPush, hop] at h
              · cases h
              · intro hnil
                cases hnil
      | some read =>
          rcases read with ⟨opcode, vch, rest⟩
          rcases reads_of_getOp hop with ⟨bytes, rfl, hreads⟩
          have hstep := lastPush_operation rounds data ⟨bytes, opcode, vch, hreads⟩ rest
          rw [hstep] at h
          split_ifs at h with hlarge
          rcases ih h with ⟨pushes, hpushes, rfl⟩
          exact ⟨⟨bytes, opcode, vch, hreads⟩ :: pushes,
            List.forall_mem_cons.mpr ⟨Nat.not_lt.mp hlarge, hpushes⟩, rfl⟩

/-!
# Lengths
-/

theorem length_le_of_readLE {width n : Nat} {bytes rest : List UInt8}
    (h : readLE width bytes = some (n, rest)) : bytes.length ≤ rest.length + width := by
  unfold readLE readExactly at h
  split_ifs at h with hwidth
  · cases h
    rw [List.length_drop]
    omega

theorem length_le_of_pushSize {opcode nSize : Nat} {pc pc' : CScript}
    (h : CScript.pushSize opcode pc = some (nSize, pc')) : pc.length ≤ pc'.length + 4 := by
  unfold CScript.pushSize at h
  split_ifs at h
  · cases h
    exact Nat.le_add_right _ _
  · have hle := length_le_of_readLE h
    omega
  · have hle := length_le_of_readLE h
    omega
  · exact length_le_of_readLE h

/-- An opcode and at most four bytes of a size stand before the operand. -/
theorem Operation.length_le (op : Operation) : op.bytes.length ≤ op.vch.length + 5 := by
  have hread := op.reads []
  rw [List.append_nil] at hread
  rcases op.exists_bytes_eq with ⟨byte, operand, hbytes, _⟩
  rw [hbytes, CScript.getOp] at hread
  rw [hbytes, List.length_cons]
  split_ifs at hread with hpush
  · split at hread
    · cases hread
    · rename_i nSize rest hsize
      split_ifs at hread with hshort
      simp only [Option.some.injEq, Prod.mk.injEq] at hread
      have hle := length_le_of_pushSize hsize
      have hdrop := congrArg List.length hread.2.2
      rw [List.length_drop, List.length_nil] at hdrop
      rw [← hread.2.1, List.length_take]
      omega
  · simp only [Option.some.injEq, Prod.mk.injEq] at hread
    rw [hread.2.2, List.length_nil]
    omega

/-- Only a push has an operand. -/
theorem Operation.opcode_le_of_vch (op : Operation) (h : op.vch ≠ []) :
    op.opcode ≤ CScript.OP_PUSHDATA4 := by
  have hread := op.reads []
  rw [List.append_nil] at hread
  rcases op.exists_bytes_eq with ⟨byte, operand, hbytes, hbyte⟩
  rw [hbytes, CScript.getOp, hbyte] at hread
  by_contra hlarge
  rw [if_neg hlarge, Option.some.injEq, Prod.mk.injEq, Prod.mk.injEq] at hread
  exact h hread.2.1.symm

theorem length_bytesOf_le {ops : List Operation} {n : Nat}
    (h : forall op, op ∈ ops -> op.vch.length ≤ n) :
    (bytesOf ops).length ≤ ops.length * (n + 5) := by
  induction ops with
  | nil => exact Nat.zero_le _
  | cons op ops ih =>
      rw [List.forall_mem_cons] at h
      have hop := op.length_le
      have hfirst := h.1
      have hrest := ih h.2
      rw [bytesOf_cons, List.length_append, List.length_cons, Nat.succ_mul]
      omega

/-!
# Positions between operations
-/

theorem getOp2_none {before tail : CScript} (h : CScript.getOp tail = none) :
    getOp2 (before ++ tail) before.length = Except.ok none := by
  rw [getOp2_eq, List.drop_left, h]
  rfl

theorem getOp2_operation (before : CScript) (op : Operation) (rest : CScript) :
    getOp2 (before ++ (op.bytes ++ rest)) before.length = Except.ok (some
      { opcode := op.opcode, vch := op.vch, pc := (before ++ op.bytes).length }) := by
  rw [getOp2_eq, List.drop_left, op.reads rest, ← List.append_assoc,
    @List.length_append _ _ rest, Option.map_some]
  simp only [Nat.add_sub_cancel]

end Script
end Hbcur
