import Hbcur.Script.Encoding
import Hbcur.Script.Operations

/-!
# Building a script

The operators `<<` of `CScript` in `script/script.h`, which append an opcode, a number or a byte
string, and the loop over `GetOp` which reads all of it back.
-/

namespace Hbcur

open Foundation Serialize

/-- `CScript() << n`. -/
def pushInt64 (n : Int) : CScript :=
  if n = -1 ∨ (1 ≤ n ∧ n ≤ 16) then [UInt8.ofNat (n + 0x50).toNat]
  else if n = 0 then [UInt8.ofNat Script.OP_0]
  else Script.pushBytes (Script.serialize n)

namespace Script

/-!
# Items
-/

inductive Item where
  | opcode (n : Nat)
  | number (n : Int)
  | bytes (b : List UInt8)
  deriving DecidableEq, Repr

namespace Item

/-- What `operator<<` appends; an invalid opcode is not one of the arguments below. -/
def toScript : Item -> CScript
  | opcode n => [UInt8.ofNat n]
  | number n => pushInt64 n
  | bytes b => pushBytes b

/-- An opcode behind the pushes, or a number of `int64_t` which can be negated. -/
def Valid : Item -> Prop
  | opcode n => CScript.OP_PUSHDATA4 < n ∧ n ≤ 0xff
  | number n => -9223372036854775808 < n ∧ n < 9223372036854775808
  | bytes _ => True

instance : DecidablePred Valid := fun item =>
  match item with
  | opcode _ => inferInstanceAs (Decidable (_ ∧ _))
  | number _ => inferInstanceAs (Decidable (_ ∧ _))
  | bytes _ => inferInstanceAs (Decidable True)

/-- The opcode of a push of some bytes. -/
def pushOpcode (size : Nat) : Nat :=
  if size < CScript.OP_PUSHDATA1 then size
  else if size ≤ 0xff then CScript.OP_PUSHDATA1
  else if size ≤ 0xffff then CScript.OP_PUSHDATA2
  else CScript.OP_PUSHDATA4

/-- The opcode and the data which `GetOp` returns for an item. -/
def parsed : Item -> Nat × List UInt8
  | opcode n => (n, [])
  | number n =>
      if n = -1 then (OP_1NEGATE, [])
      else if n = 0 then (OP_0, [])
      else if 1 ≤ n ∧ n ≤ 16 then ((n + (CScript.OP_1 - 1)).toNat, [])
      else ((serialize n).length, serialize n)
  | bytes b => (pushOpcode b.length, b)

end Item

/-- A script to which the items are appended one after the other. -/
def build (items : List Item) : CScript :=
  items.foldl (fun script item => script ++ item.toScript) []

/-!
# Reading with a cast

`GetOp2` casts what is left of the script to `unsigned int` before it compares.
-/

def uint32 (n : Nat) : Nat := n % 4294967296

def getOp2Cast (script : CScript) (pc : Nat) : Except Stop (Option Instruction) :=
  if script.length ≤ pc then Except.ok none
  else do
    let byte ← byteAt script pc
    if byte.toNat ≤ CScript.OP_PUSHDATA4 then do
      let size ← operandSize script byte.toNat (pc + 1)
      match size with
      | none => Except.ok none
      | some (nSize, pc') =>
          if uint32 (script.length - pc') < nSize then Except.ok none
          else do
            let vch ← slice script pc' nSize
            Except.ok (some { opcode := byte.toNat, vch := vch, pc := pc' + nSize })
    else Except.ok (some { opcode := byte.toNat, vch := [], pc := pc + 1 })

/-- `while (script.GetOp(pc, opcode, vch))`: what is read, and where the loop ends. -/
def getOpsFrom (script : CScript) :
    Nat -> Nat -> List (Nat × List UInt8) -> Except Stop (List (Nat × List UInt8) × Nat)
  | 0, _, _ => Except.error Stop.unfinished
  | rounds + 1, pc, ops => do
      let next ← getOp2Cast script pc
      match next with
      | none => Except.ok (ops, pc)
      | some instruction =>
          getOpsFrom script rounds instruction.pc (ops ++ [(instruction.opcode, instruction.vch)])

def getOps (script : CScript) : Except Stop (List (Nat × List UInt8) × Nat) :=
  getOpsFrom script (script.length + 1) 0 []

theorem uint32_of_lt {n : Nat} (h : n < 4294967296) : uint32 n = n := Nat.mod_eq_of_lt h

theorem getOp2Cast_eq {script : CScript} (h : script.length < 4294967296) (pc : Nat) :
    getOp2Cast script pc = getOp2 script pc := by
  unfold getOp2Cast getOp2
  split_ifs with hend
  · rfl
  · refine bind_congr fun byte => ?_
    split_ifs with hpush
    · refine bind_congr fun size => ?_
      cases size with
      | none => rfl
      | some found =>
          change (if uint32 (script.length - found.2) < found.1 then _ else _) =
            (if script.length - found.2 < found.1 then _ else _)
          rw [uint32_of_lt (Nat.lt_of_le_of_lt (Nat.sub_le _ _) h)]
    · rfl

end Script

/-!
# Reading one item
-/

namespace CScript

theorem getOp_pushBytes {b : List UInt8} (h : b.length < OP_PUSHDATA1) (rest : CScript) :
    getOp (UInt8.ofNat b.length :: (b ++ rest)) = some (b.length, b, rest) := by
  have hbyte : (UInt8.ofNat b.length).toNat = b.length :=
    Script.toNat_byte (Nat.le_of_lt (h.trans (by decide)))
  have hpush : b.length ≤ OP_PUSHDATA4 := by
    unfold OP_PUSHDATA1 at h
    unfold OP_PUSHDATA4
    omega
  rw [getOp, hbyte, if_pos hpush, pushSize, if_pos h]
  simp only
  rw [if_neg (by rw [List.length_append]; omega), List.take_left, List.drop_left]

/-- A push with its length in a word of its own. -/
theorem getOp_pushSized {opcode width : Nat} {b : List UInt8}
    (hopcode : opcode ≤ OP_PUSHDATA4) (hlength : b.length < 256 ^ width)
    (hsize : pushSize opcode = readLE width) (rest : CScript) :
    getOp (UInt8.ofNat opcode :: (writeLE width b.length ++ (b ++ rest))) =
      some (opcode, b, rest) := by
  have hbyte : (UInt8.ofNat opcode).toNat = opcode :=
    Script.toNat_byte (hopcode.trans (by decide))
  rw [getOp, hbyte, if_pos hopcode, hsize, reads_writeLE hlength]
  simp only
  rw [if_neg (by rw [List.length_append]; omega), List.take_left, List.drop_left]

end CScript

namespace Script

/-- The push of a byte string reads as its opcode and the bytes, whatever its length. -/
theorem getOp_push {b : List UInt8} (h : b.length < 4294967296) (rest : CScript) :
    CScript.getOp (pushBytes b ++ rest) = some (Item.pushOpcode b.length, b, rest) := by
  unfold pushBytes Item.pushOpcode
  split_ifs with hshort hone htwo
  · exact CScript.getOp_pushBytes hshort rest
  · have hword : [UInt8.ofNat b.length] = writeLE 1 b.length := by
      rw [writeLE, writeLE, Nat.mod_eq_of_lt (by omega)]
    rw [List.append_assoc, List.cons_append, hword]
    exact CScript.getOp_pushSized (by decide) (by omega) rfl rest
  · rw [List.append_assoc, List.cons_append]
    exact CScript.getOp_pushSized (by decide) (by omega) rfl rest
  · rw [List.append_assoc, List.cons_append]
    exact CScript.getOp_pushSized (by decide) (by omega) rfl rest

theorem length_le_pushBytes (b : List UInt8) : b.length < (pushBytes b).length := by
  unfold pushBytes
  rw [List.length_append]
  split_ifs <;> simp

theorem getOp_singleton {n : Nat} (hlow : CScript.OP_PUSHDATA4 < n) (hhigh : n ≤ 0xff)
    (rest : CScript) : CScript.getOp ([UInt8.ofNat n] ++ rest) = some (n, [], rest) := by
  rw [List.singleton_append, CScript.getOp, toNat_byte hhigh, if_neg (Nat.not_le.mpr hlow)]

end Script

theorem length_pushInt64 (n : Int) :
    1 ≤ (pushInt64 n).length ∧ (pushInt64 n).length ≤ 10 := by
  unfold pushInt64
  split_ifs
  · exact ⟨Nat.le_refl 1, by simp⟩
  · exact ⟨Nat.le_refl 1, by simp⟩
  · have hlength := Script.length_serialize n
    unfold Script.pushBytes CScript.OP_PUSHDATA1
    rw [if_pos (by omega), List.length_append, List.length_singleton]
    omega

namespace Script

/-!
# Items as operations
-/

theorem length_serialize_lt (n : Int) : (serialize n).length < CScript.OP_PUSHDATA1 := by
  have hle := length_serialize n
  unfold CScript.OP_PUSHDATA1
  omega

/-- A small number is put as an opcode of its own, and any other one as a byte string. -/
theorem getOp_number (n : Int) (rest : CScript) :
    CScript.getOp (pushInt64 n ++ rest) =
      some ((Item.number n).parsed.1, (Item.number n).parsed.2, rest) := by
  unfold pushInt64 Item.parsed
  by_cases hneg : n = -1
  · subst hneg
    rfl
  · by_cases hzero : n = 0
    · subst hzero
      exact CScript.getOp_pushBytes (b := []) (by decide) rest
    · by_cases hsmall : 1 ≤ n ∧ n ≤ 16
      · have hopcode : (n + 0x50).toNat = (n + (CScript.OP_1 - 1)).toNat := rfl
        rw [if_pos (Or.inr hsmall)]
        simp only [if_neg hneg, if_neg hzero, if_pos hsmall]
        rw [hopcode]
        apply getOp_singleton
        · unfold CScript.OP_PUSHDATA4 CScript.OP_1
          omega
        · unfold CScript.OP_1
          omega
      · have hlength := length_serialize_lt n
        rw [if_neg (by omega), if_neg hzero, getOp_push (by
          unfold CScript.OP_PUSHDATA1 at hlength
          omega)]
        simp only [if_neg hneg, if_neg hzero, if_neg hsmall]
        unfold Item.pushOpcode
        rw [if_pos hlength]

/-- A number is always a push, by an opcode up to `OP_16`. -/
theorem parsed_number_le (n : Int) : (Item.number n).parsed.1 ≤ CScript.OP_16 := by
  have hlength := length_serialize_lt n
  unfold CScript.OP_PUSHDATA1 at hlength
  simp only [Item.parsed, CScript.OP_16, OP_1NEGATE, OP_0, CScript.OP_1]
  split_ifs <;> simp only <;> omega

namespace Item

theorem getOp_toScript {item : Item} (hvalid : item.Valid)
    (hlength : item.toScript.length < 4294967296) (rest : CScript) :
    CScript.getOp (item.toScript ++ rest) = some (item.parsed.1, item.parsed.2, rest) := by
  cases item with
  | opcode n => exact getOp_singleton hvalid.1 hvalid.2 rest
  | number n => exact getOp_number n rest
  | bytes b => exact getOp_push (Nat.lt_trans (length_le_pushBytes b) hlength) rest

/-- What is appended for an item, as an operation. -/
def toOperation (item : Item) (hvalid : item.Valid)
    (hlength : item.toScript.length < 4294967296) : Operation where
  bytes := item.toScript
  opcode := item.parsed.1
  vch := item.parsed.2
  reads := getOp_toScript hvalid hlength

end Item

theorem foldl_append (items : List Item) (script : CScript) :
    items.foldl (fun script item => script ++ item.toScript) script =
      script ++ items.flatMap Item.toScript := by
  induction items generalizing script with
  | nil => rw [List.foldl_nil, List.flatMap_nil, List.append_nil]
  | cons item rest ih => rw [List.foldl_cons, ih, List.flatMap_cons, List.append_assoc]

theorem build_eq_flatMap (items : List Item) : build items = items.flatMap Item.toScript := by
  unfold build
  rw [foldl_append, List.nil_append]

theorem build_cons (item : Item) (items : List Item) :
    build (item :: items) = item.toScript ++ build items := by
  rw [build_eq_flatMap, build_eq_flatMap, List.flatMap_cons]

/-!
# Reading all items
-/

/-- One item is read at the position behind the items before it. -/
theorem getOp2Cast_item {before rest : CScript} {item : Item} (hvalid : item.Valid)
    (hlength : (before ++ (item.toScript ++ rest)).length < 4294967296) :
    getOp2Cast (before ++ (item.toScript ++ rest)) before.length = Except.ok (some
      { opcode := item.parsed.1, vch := item.parsed.2
        pc := (before ++ item.toScript).length }) := by
  have hitem : item.toScript.length < 4294967296 := by
    rw [List.length_append, List.length_append] at hlength
    omega
  rw [getOp2Cast_eq hlength]
  exact getOp2_operation before (item.toOperation hvalid hitem) rest

theorem getOpsFrom_build (items : List Item) : forall (before : CScript) (rounds : Nat)
    (ops : List (Nat × List UInt8)), (forall item, item ∈ items -> item.Valid) ->
      (before ++ build items).length < 4294967296 -> items.length < rounds ->
      getOpsFrom (before ++ build items) rounds before.length ops =
        Except.ok (ops ++ items.map Item.parsed, (before ++ build items).length) := by
  induction items with
  | nil =>
      intro before rounds ops _ hlength hrounds
      cases rounds with
      | zero => exact absurd hrounds (Nat.not_lt_zero _)
      | succ rounds =>
          have hnil : before ++ build [] = before := List.append_nil before
          have hend : getOp2Cast before before.length = Except.ok none :=
            if_pos (Nat.le_refl _)
          rw [hnil, getOpsFrom, hend, List.map_nil, List.append_nil]
          rfl
  | cons item items ih =>
      intro before rounds ops hvalid hlength hrounds
      cases rounds with
      | zero => exact absurd hrounds (Nat.not_lt_zero _)
      | succ rounds =>
          rw [build_cons] at hlength ⊢
          have hnext := ih (before ++ item.toScript) rounds (ops ++ [item.parsed])
            (fun other hmem => hvalid other (List.mem_cons_of_mem _ hmem))
            (by rw [List.append_assoc]; exact hlength) (Nat.lt_of_succ_lt_succ hrounds)
          rw [List.append_assoc, List.append_assoc, List.singleton_append] at hnext
          rw [getOpsFrom, getOp2Cast_item (hvalid item List.mem_cons_self) hlength, ok_bind]
          exact hnext

theorem length_toScript_pos (item : Item) : 0 < item.toScript.length := by
  cases item with
  | opcode n => exact Nat.one_pos
  | number n => exact (length_pushInt64 n).1
  | bytes b => exact Nat.zero_lt_of_lt (length_le_pushBytes b)

theorem length_le_build (items : List Item) : items.length ≤ (build items).length := by
  induction items with
  | nil => exact Nat.le_refl 0
  | cons item items ih =>
      have hpos := length_toScript_pos item
      rw [build_cons, List.length_append, List.length_cons]
      omega

/-- Reading returns the items in order, and stops at the end of the script. -/
theorem getOps_build {items : List Item} (hvalid : forall item, item ∈ items -> item.Valid)
    (hlength : (build items).length < 4294967296) :
    getOps (build items) = Except.ok (items.map Item.parsed, (build items).length) :=
  getOpsFrom_build items [] _ [] hvalid hlength (Nat.lt_succ_of_le (length_le_build items))

theorem getOps_build_three :
    getOps (build [Item.opcode 0x76, Item.number (-1000), Item.bytes (List.replicate 80 7)]) =
      Except.ok ([(0x76, []), (2, [0xe8, 0x83]), (0x4c, List.replicate 80 7)], 86) :=
  getOps_build (by decide) (by decide)

end Script
end Hbcur
