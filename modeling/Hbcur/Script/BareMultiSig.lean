import Hbcur.Script.Deletion
import Hbcur.Script.Evaluation
import Hbcur.Script.MultiSig
import Hbcur.Script.Templates

/-!
# Spending a bare multisignature

What `VerifyScript` says about a script which pushes an empty dummy and some values, where as
many signatures are asked for.
-/

namespace Hbcur
namespace Script

open Foundation

/-!
# Flags about encodings
-/

/-- The flags under which signatures, keys or pushes have to be encoded in one way. -/
def ENCODING_FLAGS : ScriptVerifyFlags :=
  SCRIPT_VERIFY_STRICTENC ||| SCRIPT_VERIFY_DERSIG ||| SCRIPT_VERIFY_LOW_S |||
    SCRIPT_VERIFY_MINIMALDATA

section Flags

variable {flags mask : ScriptVerifyFlags} (hflags : hasAny flags ENCODING_FLAGS = false)

include hflags

theorem hasAny_of_encoding (hmask : FlagSubset mask ENCODING_FLAGS) :
    hasAny flags mask = false := by
  unfold hasAny at hflags ⊢
  rw [Bool.not_eq_false', beq_iff_eq] at hflags ⊢
  rw [← hmask, BitVec.and_comm mask, ← BitVec.and_assoc, hflags]
  exact BitVec.zero_and

theorem checkSignatureEncoding_ok (vchSig : ValType) :
    checkSignatureEncoding vchSig flags = Except.ok () := by
  unfold checkSignatureEncoding
  split_ifs with hempty
  · rfl
  · have hder : hasAny flags
        (SCRIPT_VERIFY_DERSIG ||| SCRIPT_VERIFY_LOW_S ||| SCRIPT_VERIFY_STRICTENC) = false :=
      hasAny_of_encoding hflags (by decide)
    have hlow : hasAny flags SCRIPT_VERIFY_LOW_S = false := hasAny_of_encoding hflags (by decide)
    have hstrict : hasAny flags SCRIPT_VERIFY_STRICTENC = false :=
      hasAny_of_encoding hflags (by decide)
    rw [hder, hlow, hstrict]
    rfl

theorem checkPubKeyEncoding_ok (vchPubKey : ValType) :
    checkPubKeyEncoding vchPubKey flags = Except.ok () := by
  have hstrict : hasAny flags SCRIPT_VERIFY_STRICTENC = false :=
    hasAny_of_encoding hflags (by decide)
  unfold checkPubKeyEncoding
  rw [hstrict]
  rfl

theorem isPush_of_vch {op : Operation} (hle : op.opcode ≤ CScript.OP_16)
    (hreserved : op.opcode ≠ 0x50) (hsmall : op.vch.length ≤ MAX_SCRIPT_ELEMENT_SIZE) :
    op.IsPush flags := by
  have hminimal : hasAny flags SCRIPT_VERIFY_MINIMALDATA = false :=
    hasAny_of_encoding hflags (by decide)
  refine ⟨hle, hreserved, hsmall, fun _ => ?_⟩
  rw [hminimal, Bool.false_and]

end Flags

/-!
# Pushing values
-/

theorem pushOpcode_le (size : Nat) : Item.pushOpcode size ≤ CScript.OP_PUSHDATA4 := by
  unfold Item.pushOpcode
  split_ifs with hshort
  · exact (Nat.le_of_lt hshort).trans (by decide)
  · decide
  · decide
  · decide

/-- The push of some bytes, as an operation which pushes them. -/
theorem exists_push {flags : ScriptVerifyFlags} (hflags : hasAny flags ENCODING_FLAGS = false)
    {b : ValType} (hsmall : b.length ≤ MAX_SCRIPT_ELEMENT_SIZE) :
    exists op : Operation, op.bytes = pushBytes b ∧ op.pushed = b ∧ op.IsPush flags := by
  have hlength : b.length < 4294967296 := by
    unfold MAX_SCRIPT_ELEMENT_SIZE at hsmall
    omega
  have hle := pushOpcode_le b.length
  refine ⟨⟨pushBytes b, Item.pushOpcode b.length, b, getOp_push hlength⟩, rfl, if_pos hle,
    isPush_of_vch hflags (hle.trans (by decide)) ?_ hsmall⟩
  unfold CScript.OP_PUSHDATA4 at hle
  simp only
  omega

theorem exists_pushes {flags : ScriptVerifyFlags} (hflags : hasAny flags ENCODING_FLAGS = false)
    {values : List ValType} (hsmall : SmallElements values) :
    exists pushes : List Operation, bytesOf pushes = values.flatMap pushBytes ∧
      pushes.map Operation.pushed = values ∧ forall op, op ∈ pushes -> op.IsPush flags := by
  induction values with
  | nil => exact ⟨[], rfl, rfl, nofun⟩
  | cons b values ih =>
      rcases exists_push hflags (hsmall b List.mem_cons_self) with
        ⟨op, hbytes, hpushed, hpush⟩
      rcases ih (fun other hmem => hsmall other (List.mem_cons_of_mem _ hmem)) with
        ⟨pushes, hbytes', hpushed', hpush'⟩
      refine ⟨op :: pushes, ?_, ?_, List.forall_mem_cons.mpr ⟨hpush, hpush'⟩⟩
      · rw [bytesOf_cons, hbytes, hbytes', List.flatMap_cons]
      · rw [List.map_cons, hpushed, hpushed']

/-- A script which pushes a few values leaves them on the stack. -/
theorem evalScript_pushBytes (env : ScriptEnv) {flags : ScriptVerifyFlags}
    (hflags : hasAny flags ENCODING_FLAGS = false) {values : List ValType}
    (hsmall : SmallElements values) (hfew : values.length ≤ 19) :
    evalScript env flags (values.flatMap pushBytes) [] = Except.ok values.reverse ∧
      checkPushOnly (values.flatMap pushBytes) = Except.ok () := by
  rcases exists_pushes hflags hsmall with ⟨pushes, hbytes, hpushed, hpush⟩
  have hcount : pushes.length = values.length := by rw [← hpushed, List.length_map]
  have hsize : (bytesOf pushes).length ≤ 10000 := by
    have hle := @length_bytesOf_le pushes MAX_SCRIPT_ELEMENT_SIZE (fun op hmem => (hpush op hmem).small)
    have hmul := Nat.mul_le_mul_right (MAX_SCRIPT_ELEMENT_SIZE + 5) (hcount.trans_le hfew)
    exact (hle.trans hmul).trans (by decide)
  rw [← hbytes]
  constructor
  · refine evalScript_bytesOf_iff.mpr ⟨hsize, _, runs_pushes hpush rfl ?_, rfl, ?_⟩
    · change 0 + 0 + pushes.length ≤ 1000
      omega
    · rw [hpushed]
      exact List.append_nil _
  · exact checkPushOnly_bytesOf fun op hmem => (hpush op hmem).opcode_le

/-!
# The script with the keys
-/

/-- As many signatures as `m` under some keys are asked for. -/
structure BareMultiSig where
  m : Nat
  keys : List Operation
  one_le : 1 ≤ m
  le_length : m ≤ keys.length
  length_le : keys.length ≤ 16
  isPubKey : forall key, key ∈ keys -> key.IsPubKey

theorem bytes_smallNumber {n : Nat} (hn : n ≤ 16) (hpos : 1 ≤ n) :
    (smallNumber n hn).bytes = [UInt8.ofNat (0x50 + n)] := by
  change [UInt8.ofNat (encodeOpN n)] = _
  rw [encodeOpN_of_pos hpos]

theorem pushed_smallNumber {n : Nat} (hn : n ≤ 16) (hpos : 1 ≤ n) :
    (smallNumber n hn).pushed = serialize (n : Int) := by
  have hopcode : (smallNumber n hn).opcode = 0x50 + n := encodeOpN_of_pos hpos
  have hlarge : ¬ (smallNumber n hn).opcode ≤ CScript.OP_PUSHDATA4 := by
    rw [hopcode]
    unfold CScript.OP_PUSHDATA4
    omega
  unfold Operation.pushed
  rw [if_neg hlarge, hopcode]
  congr 1
  omega

theorem Operation.IsPubKey.pushed_eq {key : Operation} (h : key.IsPubKey) :
    key.opcode ≤ CScript.OP_PUSHDATA4 ∧ key.pushed = key.vch := by
  have hle : key.opcode ≤ CScript.OP_PUSHDATA4 := by
    apply key.opcode_le_of_vch
    intro hnil
    have hlength := h.1
    rw [hnil, List.length_nil] at hlength
    omega
  exact ⟨hle, if_pos hle⟩

section Allowed

variable {flags : ScriptVerifyFlags} (hflags : hasAny flags ENCODING_FLAGS = false)

include hflags

theorem isPush_smallNumber {n : Nat} (hn : n ≤ 16) (hpos : 1 ≤ n) :
    (smallNumber n hn).IsPush flags := by
  have hopcode : (smallNumber n hn).opcode = 0x50 + n := encodeOpN_of_pos hpos
  refine isPush_of_vch hflags ?_ ?_ (Nat.zero_le _)
  · rw [hopcode]
    unfold CScript.OP_16
    omega
  · rw [hopcode]
    omega

theorem isPush_pubKey {key : Operation} (h : key.IsPubKey) : key.IsPush flags := by
  have hle := h.pushed_eq.1
  have hlength := h.2
  refine isPush_of_vch hflags (hle.trans (by decide)) ?_ ?_
  · unfold CScript.OP_PUSHDATA4 at hle
    omega
  · unfold MAX_SCRIPT_ELEMENT_SIZE
    omega

end Allowed

/-- Signatures which the code does not push are not found in it. -/
theorem dropSignatures_absent {stack : Stack} {code : CScript} {run : List ValType} :
    forall {isig : Nat}, run <+: stack.drop isig ->
      (forall sig, sig ∈ run -> findAndDelete code (pushBytes sig) = Except.ok (code, 0)) ->
      dropSignatures stack run.length (isig + 1) code = Except.ok code := by
  induction run with
  | nil =>
      intro isig _ _
      rfl
  | cons sig run ih =>
      intro isig hrun habsent
      rw [List.forall_mem_cons] at habsent
      rw [List.length_cons, dropSignatures, stacktop_of_run hrun, ok_bind, habsent.1, ok_bind]
      exact ih (run_tail hrun) habsent.2

theorem findAndDelete_push {script : CScript} {sig : ValType}
    (hsmall : sig.length ≤ MAX_SCRIPT_ELEMENT_SIZE)
    (h : forall op, op ∈ operations script -> op.bytes ≠ pushBytes sig) :
    findAndDelete script (pushBytes sig) = Except.ok (script, 0) := by
  rcases @exists_push SCRIPT_VERIFY_NONE rfl sig hsmall with ⟨push, hbytes, _⟩
  rw [← hbytes] at h ⊢
  exact findAndDelete_of_absent h

def checkMultiSig : Operation := literal CScript.OP_CHECKMULTISIG (by decide) (by decide)

namespace BareMultiSig

variable (form : BareMultiSig)

def script : CScript :=
  [UInt8.ofNat (0x50 + form.m)] ++ bytesOf form.keys ++
    [UInt8.ofNat (0x50 + form.keys.length), 0xae]

def pubkeys : List ValType := form.keys.map Operation.vch

theorem m_le : form.m ≤ 16 := form.le_length.trans form.length_le

theorem one_le_length : 1 ≤ form.keys.length := form.one_le.trans form.le_length

theorem length_pubkeys : form.pubkeys.length = form.keys.length := List.length_map _

/-- A number, the keys and their number. -/
def pushes : List Operation :=
  smallNumber form.m form.m_le :: (form.keys ++ [smallNumber form.keys.length form.length_le])

theorem script_eq_bytesOf : form.script = bytesOf (form.pushes ++ [checkMultiSig]) := by
  unfold script pushes
  rw [bytesOf_append, bytesOf_cons, bytesOf_append, bytesOf_cons, bytesOf_cons, bytesOf_nil,
    bytes_smallNumber _ form.one_le, bytes_smallNumber _ form.one_le_length, List.append_nil,
    List.append_assoc, List.append_assoc, List.append_assoc]
  rfl

theorem length_script_le : form.script.length ≤ 10000 := by
  have hkeys := form.length_le
  have hbytes := length_bytesOf_le fun key hmem => (form.isPubKey key hmem).2
  unfold script
  rw [List.length_append, List.length_append, List.length_singleton, List.length_cons,
    List.length_singleton]
  omega

/-- An empty byte string is not pushed in it. -/
theorem bytes_ne_pushBytes_nil :
    forall op, op ∈ operations form.script -> op.bytes ≠ pushBytes [] := by
  intro op hmem hbytes
  have hread := op.reads []
  rw [hbytes] at hread
  have hzero : CScript.getOp (pushBytes [] ++ []) = some (0, [], []) := rfl
  rw [hzero, Option.some.injEq, Prod.mk.injEq, Prod.mk.injEq] at hread
  have hnumber : forall {n : Nat} (hn : n ≤ 16), 1 ≤ n -> op ≠ smallNumber n hn := by
    intro n hn hone heq
    have hopcode : op.opcode = encodeOpN n := congrArg Operation.opcode heq
    rw [← hread.1, encodeOpN_of_pos hone] at hopcode
    omega
  rw [form.script_eq_bytesOf, operations_bytesOf] at hmem
  rcases List.mem_append.mp hmem with hpush | hlast
  · rcases List.mem_cons.mp hpush with hfirst | hpush
    · exact hnumber _ form.one_le hfirst
    · rcases List.mem_append.mp hpush with hkey | hcount
      · have hlength := (form.isPubKey op hkey).1
        rw [← hread.2.1, List.length_nil] at hlength
        omega
      · exact hnumber _ form.one_le_length (List.mem_singleton.mp hcount)
  · have hopcode : op.opcode = CScript.OP_CHECKMULTISIG :=
      congrArg Operation.opcode (List.mem_singleton.mp hlast)
    rw [← hread.1] at hopcode
    cases hopcode

theorem isPayToScriptHash_script : CScript.isPayToScriptHash form.script = false := by
  apply isPayToScriptHash_of_firstOp
  rw [form.script_eq_bytesOf]
  unfold pushes
  rw [List.cons_append, bytesOf_cons, firstOp_append]
  change some (encodeOpN form.m, ([] : List UInt8)) ≠ _
  have hbound := encodeOpN_le form.m_le
  intro h
  rw [Option.some.injEq, Prod.mk.injEq] at h
  omega

/-!
# Evaluating it
-/

/-- What the keys and their numbers leave on the stack, above some values and a dummy. -/
def stackOver (values : List ValType) : Stack :=
  multiSigStack (serialize (form.keys.length : Int)) (serialize (form.m : Int)) form.pubkeys
    values [[]]

theorem pushed_pushes (values : List ValType) :
    (form.pushes.map Operation.pushed).reverse ++ (values.reverse ++ [[]]) =
      form.stackOver values := by
  have hmap : form.keys.map Operation.pushed = form.pubkeys :=
    List.map_congr_left fun key hmem => (form.isPubKey key hmem).pushed_eq.2
  unfold pushes stackOver multiSigStack
  rw [List.map_cons, List.map_append, List.map_cons, List.map_nil, hmap,
    pushed_smallNumber _ form.one_le, pushed_smallNumber _ form.one_le_length]
  simp only [List.reverse_cons, List.reverse_append, List.reverse_nil, List.nil_append,
    List.cons_append, List.append_assoc]

section Evaluating

variable {form} {env : ScriptEnv} {flags : ScriptVerifyFlags} {values : List ValType}
  (hflags : hasAny flags ENCODING_FLAGS = false) (hvalues : values.length = form.m)
  (habsent : forall sig, sig ∈ values ->
    findAndDelete form.script (pushBytes sig) = Except.ok (form.script, 0))

include hflags

theorem isPush_of_mem {op : Operation} (h : op ∈ form.pushes) : op.IsPush flags := by
  rcases List.mem_cons.mp h with rfl | hmem
  · exact isPush_smallNumber hflags _ form.one_le
  · rcases List.mem_append.mp hmem with hkey | hlast
    · exact isPush_pubKey hflags (form.isPubKey op hkey)
    · rw [List.mem_singleton.mp hlast]
      exact isPush_smallNumber hflags _ form.one_le_length

include hvalues habsent

/-- The operation at the end matches the values with the keys. -/
theorem executes_checkMultiSig (pc : Nat) :
    exists nOpCount, Executes env flags form.script checkMultiSig pc
      { Machine.initial [] with stack := form.stackOver values }
      { Machine.initial [] with
        stack := [boolBytes (matchGreedily (fun sig key => env.checkSig sig key form.script)
          values.reverse form.pubkeys.reverse)]
        nOpCount := nOpCount } := by
  have hlength := form.length_pubkeys
  have hle := form.le_length
  have hmax := form.length_le
  have hrun : values.reverse <+: (form.stackOver values).drop (form.pubkeys.length + 2) :=
    sigs_run
  have hdrop := dropSignatures_absent hrun
    (fun sig hmem => habsent sig (List.mem_reverse.mp hmem))
  rw [List.length_reverse] at hdrop
  have hexec := @execCheckMultiSig_eq env flags (serialize (form.keys.length : Int))
    (serialize (form.m : Int)) form.pubkeys values [] form.script form.script form.script 0 1 []
    (by rw [hlength]; exact scriptNum_serialize (by omega) _)
    (by rw [hvalues]; exact scriptNum_serialize (by omega) _)
    (by omega) (by omega) (by omega) (by unfold scriptFrom; rw [if_pos (Nat.zero_le _)]; rfl)
    hdrop (fun key _ => checkPubKeyEncoding_ok hflags key)
    (fun sig _ => checkSignatureEncoding_ok hflags sig) (Bool.and_false _)
  refine ⟨1 + form.pubkeys.length, Nat.zero_le _, fun _ => ?_, rfl, ?_, ?_⟩
  · change 1 ≤ 201
    decide
  · change (execCheckMultiSig env flags false form.script 0 1 (form.stackOver values) >>= _) = _
    unfold stackOver
    rw [hexec]
    rfl
  · change 1 + 0 ≤ 1000
    decide

theorem evalScript_script :
    evalScript env flags form.script (values.reverse ++ [[]]) = Except.ok
      [boolBytes (matchGreedily (fun sig key => env.checkSig sig key form.script)
        values.reverse form.pubkeys.reverse)] := by
  have hle := form.le_length
  have hmax := form.length_le
  have hcount : form.pushes.length = form.keys.length + 2 := by
    unfold pushes
    rw [List.length_cons, List.length_append, List.length_singleton]
  have hruns := @runs_pushes env flags form.script 0 (Machine.initial (values.reverse ++ [[]]))
    form.pushes (fun op hmem => isPush_of_mem hflags hmem) rfl (by
      change (values.reverse ++ [[]]).length + 0 + _ ≤ 1000
      rw [hcount, List.length_append, List.length_reverse, List.length_singleton]
      omega)
  have hstack : (form.pushes.map Operation.pushed).reverse ++
      (Machine.initial (values.reverse ++ [[]])).stack = form.stackOver values :=
    form.pushed_pushes values
  rw [hstack] at hruns
  rcases @executes_checkMultiSig form env flags values hflags hvalues habsent
    (0 + (bytesOf (form.pushes ++ [checkMultiSig])).length) with ⟨nOpCount, hexecutes⟩
  have hall := hruns.concat hexecutes
  have hsize := form.length_script_le
  rw [form.script_eq_bytesOf] at hsize hall ⊢
  exact evalScript_bytesOf_iff.mpr ⟨hsize, _, hall, rfl, rfl⟩

/-- As many values as are asked for succeed exactly if they are signatures in the key order. -/
theorem verifyScript_script_iff (hsmall : SmallElements values) :
    verifyScript env flags (([] :: values).flatMap pushBytes) form.script = Except.ok () <->
      List.SublistForall₂ (fun sig key => env.checkSig sig key form.script = true) values
        form.pubkeys := by
  have hm := form.m_le
  have hall : SmallElements ([] :: values) := SmallElements.cons (Nat.zero_le _) hsmall
  have hfew : ([] :: values).length ≤ 19 := by
    rw [List.length_cons]
    omega
  rcases evalScript_pushBytes env hflags hall hfew with ⟨hsig, honly⟩
  rw [List.reverse_cons] at hsig
  have hkey := @evalScript_script form env flags values hflags hvalues habsent
  have hpush : onlyIf (hasAny flags SCRIPT_VERIFY_SIGPUSHONLY)
      (checkPushOnly (([] :: values).flatMap pushBytes)) = Except.ok () := by
    unfold onlyIf
    rw [honly, ite_self]
  rw [← sublistForall₂_reverse_iff, ← matchGreedily_iff]
  unfold verifyScript
  rw [hpush, ok_bind, hsig, ok_bind, hkey, ok_bind, form.isPayToScriptHash_script, Bool.and_false]
  cases matchGreedily (fun sig key => env.checkSig sig key form.script) values.reverse
      form.pubkeys.reverse with
  | true => exact iff_of_true rfl rfl
  | false => exact iff_of_false nofun Bool.false_ne_true

end Evaluating

end BareMultiSig

end Script
end Hbcur
