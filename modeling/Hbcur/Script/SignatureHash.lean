import Hbcur.Script.Encoding
import Hbcur.Script.Separators
import Hbcur.Serialize.Bytes

/-!
# The hash which is signed

`SignatureHash` of `script/interpreter.cpp` writes a transaction with its inputs and outputs
blanked on the way, and `SignatureHashOld` of `test/sighash_tests.cpp` is the algorithm it
replaces, which blanks them in a copy.  Both hash the same bytes.
-/

namespace Hbcur
namespace Script

open Serialize Foundation

/-!
# Hash types
-/

def fAnyoneCanPay (nHashType : BitVec 32) : Bool :=
  !(nHashType &&& BitVec.ofNat 32 SIGHASH_ANYONECANPAY == 0)

def fHashSingle (nHashType : BitVec 32) : Bool :=
  nHashType &&& 0x1f == BitVec.ofNat 32 SIGHASH_SINGLE

def fHashNone (nHashType : BitVec 32) : Bool :=
  nHashType &&& 0x1f == BitVec.ofNat 32 SIGHASH_NONE

theorem fHashSingle_of_fHashNone {nHashType : BitVec 32} (h : fHashNone nHashType = true) :
    fHashSingle nHashType = false := by
  unfold fHashNone at h
  unfold fHashSingle
  rw [beq_iff_eq.mp h]
  decide

/-!
# Writing on the way

`CTransactionSignatureSerializer`.
-/

section Serializer

variable (txTo : CTransaction) (scriptCode : CScript) (nIn : Nat) (nHashType : BitVec 32)

def serializeInputScript (nInput : Nat) : Except Stop (List UInt8) :=
  if nInput ≠ nIn then Except.ok (writeBytes []) else serializeScriptCode scriptCode

def serializeInput (nInput : Nat) : Except Stop (List UInt8) := do
  let nInput := if fAnyoneCanPay nHashType then nIn else nInput
  let txin ← expect txTo.vin[nInput]? Stop.outOfRange
  let script ← serializeInputScript scriptCode nIn nInput
  let nSequence :=
    if nInput ≠ nIn ∧ (fHashSingle nHashType || fHashNone nHashType) then 0
    else txin.nSequence
  Except.ok (txin.prevout.serialize ++ script ++ writeLE 4 nSequence)

def serializeOutput (nOutput : Nat) : Except Stop (List UInt8) :=
  if fHashSingle nHashType ∧ nOutput ≠ nIn then Except.ok CTxOut.null.serialize
  else do
    let out ← expect txTo.vout[nOutput]? Stop.outOfRange
    Except.ok out.serialize

/-- Write a number of items, from an index on. -/
def writeEach (write : Nat -> Except Stop (List UInt8)) : Nat -> Nat -> Except Stop (List UInt8)
  | 0, _ => Except.ok []
  | left + 1, i => do
      let bytes ← write i
      let rest ← writeEach write left (i + 1)
      Except.ok (bytes ++ rest)

def nInputs : Nat := if fAnyoneCanPay nHashType then 1 else txTo.vin.length

def nOutputs : Nat :=
  if fHashNone nHashType then 0
  else if fHashSingle nHashType then nIn + 1 else txTo.vout.length

def serializeTx : Except Stop (List UInt8) := do
  let inputs ←
    writeEach (serializeInput txTo scriptCode nIn nHashType) (nInputs txTo nHashType) 0
  let outputs ←
    writeEach (serializeOutput txTo nIn nHashType) (nOutputs txTo nIn nHashType) 0
  Except.ok (writeInt 4 txTo.nVersion ++
    (writeCompactSize (nInputs txTo nHashType) ++ inputs) ++
    (writeCompactSize (nOutputs txTo nIn nHashType) ++ outputs) ++ writeLE 4 txTo.nLockTime)

variable (hash : List UInt8 -> UInt256)

def signatureHash : Except Stop UInt256 :=
  if nIn ≥ txTo.vin.length then Except.ok 1
  else if fHashSingle nHashType ∧ nIn ≥ txTo.vout.length then Except.ok 1
  else do
    let ss ← serializeTx txTo scriptCode nIn nHashType
    Except.ok (hash (ss ++ writeLE 4 nHashType.toNat))

/-!
# Blanking a copy
-/

/-- The scripts of all inputs are cleared, and that of the one which is signed is set. -/
def blankScripts (scriptCode : CScript) (vin : List CTxIn) : List CTxIn :=
  (vin.map (fun txin => { txin with scriptSig := [] })).modify nIn
    (fun txin => { txin with scriptSig := scriptCode })

/-- The others may be updated at will. -/
def clearSequences (vin : List CTxIn) : List CTxIn :=
  vin.mapIdx (fun i txin => if i ≠ nIn then { txin with nSequence := 0 } else txin)

def blankOutputs (nOut : Nat) (vout : List CTxOut) : List CTxOut :=
  (vout.take (nOut + 1)).mapIdx (fun i out => if i < nOut then CTxOut.null else out)

/-- `vin[0] = vin[nIn]` and `vin.resize(1)`, for a hash type which asks for it. -/
def onlySigned (vin : List CTxIn) : Except Stop (List CTxIn) :=
  if fAnyoneCanPay nHashType then do
    let txin ← expect vin[nIn]? Stop.outOfRange
    Except.ok ((vin.set 0 txin).take 1)
  else Except.ok vin

def hashCopy (vin : List CTxIn) (vout : List CTxOut) : Except Stop UInt256 := do
  let vin ← onlySigned nIn nHashType vin
  let txTmp : CTransaction := { txTo with vin := vin, vout := vout }
  Except.ok (hash (txTmp.serialize ++ writeLE 4 nHashType.toNat))

/-- The outputs and the sequence numbers are blanked by the type. -/
def hashByType (vin : List CTxIn) : Except Stop UInt256 :=
  if fHashNone nHashType then hashCopy txTo nIn nHashType hash (clearSequences nIn vin) []
  else if fHashSingle nHashType then
    if nIn ≥ txTo.vout.length then Except.ok 1
    else hashCopy txTo nIn nHashType hash (clearSequences nIn vin)
      (blankOutputs nIn txTo.vout)
  else hashCopy txTo nIn nHashType hash vin txTo.vout

def signatureHashOld : Except Stop UInt256 :=
  if nIn ≥ txTo.vin.length then Except.ok 1
  else do
    let (scriptCode, _) ← findAndDelete scriptCode [UInt8.ofNat OP_CODESEPARATOR]
    hashByType txTo nIn nHashType hash (blankScripts nIn scriptCode txTo.vin)

/-!
# The two write the same
-/

theorem writeEach_eq {item : Type} {write : Nat -> Except Stop (List UInt8)}
    {serialized : item -> List UInt8} (xs : List item) :
    forall k, (forall i (hi : i < xs.length), write (k + i) = Except.ok (serialized xs[i])) ->
      writeEach write xs.length k = Except.ok (xs.flatMap serialized) := by
  induction xs with
  | nil =>
      intro k _
      rfl
  | cons x xs ih =>
      intro k h
      have hfirst : write k = Except.ok (serialized x) := h 0 (Nat.succ_pos _)
      have hrest := ih (k + 1) (fun i hi => by
        rw [Nat.add_assoc, Nat.add_comm 1 i]
        exact h (i + 1) (Nat.succ_lt_succ hi))
      rw [List.length_cons, writeEach, hfirst]
      change (writeEach write xs.length (k + 1) >>= fun rest => _) = _
      rw [hrest]
      rfl

/-- An input as it is signed, with the script in its place and the others blanked. -/
def signedInput (stripped : CScript) (i : Nat) (txin : CTxIn) : CTxIn :=
  { prevout := txin.prevout
    scriptSig := if i = nIn then stripped else []
    nSequence := if i ≠ nIn ∧ (fHashSingle nHashType || fHashNone nHashType) then 0
      else txin.nSequence }

def signedInputs (stripped : CScript) : List CTxIn :=
  txTo.vin.mapIdx (signedInput nIn nHashType stripped)

def signedOutputs : List CTxOut :=
  if fHashNone nHashType then []
  else if fHashSingle nHashType then blankOutputs nIn txTo.vout
  else txTo.vout

variable {txTo scriptCode nIn nHashType} {stripped : CScript} {n : Nat}

theorem serializeInputScript_eq (h : Stripped scriptCode stripped n) (i : Nat) :
    serializeInputScript scriptCode nIn i =
      Except.ok (writeBytes (if i = nIn then stripped else [])) := by
  unfold serializeInputScript
  by_cases hi : i = nIn
  · rw [if_neg (not_not_intro hi), if_pos hi]
    exact h.serializeScriptCode_eq
  · rw [if_pos hi, if_neg hi]

theorem serializeInput_eq (h : Stripped scriptCode stripped n) {nInput i : Nat} {txin : CTxIn}
    (hindex : (if fAnyoneCanPay nHashType then nIn else nInput) = i)
    (htxin : txTo.vin[i]? = some txin) :
    serializeInput txTo scriptCode nIn nHashType nInput =
      Except.ok (signedInput nIn nHashType stripped i txin).serialize := by
  unfold serializeInput
  rw [hindex]
  change (expect txTo.vin[i]? Stop.outOfRange >>= fun txin => _) = _
  rw [htxin]
  change (serializeInputScript scriptCode nIn i >>= fun script => _) = _
  rw [serializeInputScript_eq h]
  rfl

theorem getElem_signedInputs {i : Nat} (hi : i < (signedInputs txTo nIn nHashType stripped).length)
    (hi' : i < txTo.vin.length) :
    (signedInputs txTo nIn nHashType stripped)[i] =
      signedInput nIn nHashType stripped i txTo.vin[i] := List.getElem_mapIdx

theorem take_one_set {item : Type} {xs : List item} (hxs : xs ≠ []) (x : item) :
    (xs.set 0 x).take 1 = [x] := by
  cases xs with
  | nil => exact absurd rfl hxs
  | cons _ _ => rfl

/-- All inputs are written, or the one which is signed. -/
theorem inputs_eq (h : Stripped scriptCode stripped n) (hin : nIn < txTo.vin.length)
    {vin : List CTxIn}
    (hvin : onlySigned nIn nHashType (signedInputs txTo nIn nHashType stripped) =
      Except.ok vin) :
    vin.length = nInputs txTo nHashType ∧
    writeEach (serializeInput txTo scriptCode nIn nHashType) vin.length 0 =
      Except.ok (vin.flatMap CTxIn.serialize) := by
  unfold onlySigned at hvin
  unfold nInputs
  have hlength : (signedInputs txTo nIn nHashType stripped).length = txTo.vin.length :=
    List.length_mapIdx
  cases hany : fAnyoneCanPay nHashType with
  | true =>
      have hin' : nIn < (signedInputs txTo nIn nHashType stripped).length := by
        rw [hlength]
        exact hin
      rw [hany, if_pos rfl, List.getElem?_eq_getElem hin', getElem_signedInputs hin' hin] at hvin
      have hone : vin = [signedInput nIn nHashType stripped nIn txTo.vin[nIn]] := by
        rw [← Except.ok.inj hvin]
        exact take_one_set (List.ne_nil_of_length_pos (Nat.zero_lt_of_lt hin')) _
      subst hone
      refine ⟨rfl, writeEach_eq _ 0 (fun i hi => ?_)⟩
      have hzero : i = 0 := Nat.lt_one_iff.mp hi
      subst hzero
      exact serializeInput_eq h (if_pos hany) (List.getElem?_eq_getElem hin)
  | false =>
      rw [hany] at hvin
      cases hvin
      refine ⟨hlength, writeEach_eq _ 0 (fun i hi => ?_)⟩
      have hi' : i < txTo.vin.length := by rw [← hlength]; exact hi
      rw [Nat.zero_add, getElem_signedInputs hi hi']
      refine serializeInput_eq h ?_ (List.getElem?_eq_getElem hi')
      rw [hany]
      rfl

theorem length_blankOutputs (hout : nIn < txTo.vout.length) :
    (blankOutputs nIn txTo.vout).length = nIn + 1 := by
  unfold blankOutputs
  rw [List.length_mapIdx, List.length_take]
  omega

theorem getElem_blankOutputs {i : Nat} (hle : i ≤ nIn) (hlt : nIn < txTo.vout.length)
    {hi : i < (blankOutputs nIn txTo.vout).length} :
    (blankOutputs nIn txTo.vout)[i] = if i < nIn then CTxOut.null else txTo.vout[i] := by
  apply List.getElem_mapIdx.trans
  rw [List.getElem_take]

theorem outputs_eq (hout : fHashSingle nHashType = true -> nIn < txTo.vout.length) :
    (signedOutputs txTo nIn nHashType).length = nOutputs txTo nIn nHashType ∧
    writeEach (serializeOutput txTo nIn nHashType) (signedOutputs txTo nIn nHashType).length 0 =
      Except.ok ((signedOutputs txTo nIn nHashType).flatMap CTxOut.serialize) := by
  unfold signedOutputs nOutputs
  cases hnone : fHashNone nHashType with
  | true => exact ⟨rfl, rfl⟩
  | false =>
      simp only [Bool.false_eq_true, if_false]
      cases hsingle : fHashSingle nHashType with
      | true =>
          have hlt := hout hsingle
          refine ⟨length_blankOutputs hlt, writeEach_eq _ 0 (fun i hi => ?_)⟩
          have hle : i ≤ nIn := by
            have hlength := length_blankOutputs hlt
            simp only [if_true] at hi
            omega
          simp only [if_true]
          rw [Nat.zero_add, getElem_blankOutputs hle hlt]
          unfold serializeOutput
          rw [hsingle]
          by_cases hi' : i = nIn
          · rw [if_neg (fun hcond => hcond.2 hi'), if_neg (by omega),
              List.getElem?_eq_getElem (by omega)]
            rfl
          · rw [if_pos ⟨rfl, hi'⟩, if_pos (by omega)]
      | false =>
          refine ⟨rfl, writeEach_eq _ 0 (fun i hi => ?_)⟩
          unfold serializeOutput
          simp only [Bool.false_eq_true, if_false] at hi ⊢
          rw [hsingle, Nat.zero_add, if_neg (fun hcond => Bool.false_ne_true hcond.1),
            List.getElem?_eq_getElem hi]
          rfl

/-- Writing on the way is writing the copy. -/
theorem serializeTx_eq (h : Stripped scriptCode stripped n) (hin : nIn < txTo.vin.length)
    (hout : fHashSingle nHashType = true -> nIn < txTo.vout.length) {vin : List CTxIn}
    (hvin : onlySigned nIn nHashType (signedInputs txTo nIn nHashType stripped) =
      Except.ok vin) :
    serializeTx txTo scriptCode nIn nHashType =
      Except.ok ({ txTo with vin := vin, vout := signedOutputs txTo nIn nHashType } :
        CTransaction).serialize := by
  rcases inputs_eq h hin hvin with ⟨hinlength, hinputs⟩
  rcases outputs_eq hout with ⟨houtlength, houtputs⟩
  rw [hinlength] at hinputs
  rw [houtlength] at houtputs
  unfold serializeTx
  rw [hinputs]
  change (writeEach _ _ 0 >>= fun outputs => _) = _
  rw [houtputs, ← hinlength, ← houtlength]
  rfl

/-!
# The copy
-/

theorem getElem?_blankScripts (stripped : CScript) (vin : List CTxIn) (i : Nat) :
    (blankScripts nIn stripped vin)[i]? = vin[i]?.map (fun txin =>
      { txin with scriptSig := if i = nIn then stripped else [] }) := by
  unfold blankScripts
  rw [List.getElem?_modify, List.getElem?_map]
  cases vin[i]? with
  | none => rfl
  | some txin =>
      by_cases h : i = nIn
      · simp [h]
      · simp [h, Ne.symm h]

/-- The inputs of the copy, before all but one may be dropped. -/
theorem clearSequences_blankScripts (stripped : CScript)
    (hclear : (fHashSingle nHashType || fHashNone nHashType) = true) :
    clearSequences nIn (blankScripts nIn stripped txTo.vin) =
      signedInputs txTo nIn nHashType stripped := by
  unfold clearSequences signedInputs signedInput
  rw [hclear]
  refine List.ext_getElem? (fun i => ?_)
  rw [List.getElem?_mapIdx, List.getElem?_mapIdx, getElem?_blankScripts, Option.map_map]
  refine congrFun (congrArg Option.map (funext fun txin => ?_)) _
  by_cases h : i = nIn
  · simp [h]
  · simp [h]

theorem blankScripts_eq (stripped : CScript)
    (hclear : (fHashSingle nHashType || fHashNone nHashType) = false) :
    blankScripts nIn stripped txTo.vin = signedInputs txTo nIn nHashType stripped := by
  unfold signedInputs signedInput
  rw [hclear]
  refine List.ext_getElem? (fun i => ?_)
  rw [List.getElem?_mapIdx, getElem?_blankScripts]
  refine congrFun (congrArg Option.map (funext fun txin => ?_)) _
  simp

/-- The copy is hashed with the outputs which are signed. -/
theorem hashByType_eq {hash : List UInt8 -> UInt256} (stripped : CScript)
    (hout : fHashSingle nHashType = true -> nIn < txTo.vout.length) :
    hashByType txTo nIn nHashType hash (blankScripts nIn stripped txTo.vin) =
      hashCopy txTo nIn nHashType hash (signedInputs txTo nIn nHashType stripped)
        (signedOutputs txTo nIn nHashType) := by
  unfold hashByType signedOutputs
  cases hnone : fHashNone nHashType with
  | true =>
      rw [clearSequences_blankScripts stripped (by rw [hnone, Bool.or_true])]
      rfl
  | false =>
      cases hsingle : fHashSingle nHashType with
      | true =>
          simp only [Bool.false_eq_true, if_false, if_true]
          rw [if_neg (Nat.not_le.mpr (hout hsingle)),
            clearSequences_blankScripts stripped (by rw [hsingle, Bool.true_or])]
      | false =>
          rw [blankScripts_eq stripped (by rw [hsingle, hnone, Bool.or_false])]
          rfl

theorem hashByType_one {hash : List UInt8 -> UInt256} (stripped : CScript)
    (hsingle : fHashSingle nHashType = true) (hout : nIn ≥ txTo.vout.length) :
    hashByType txTo nIn nHashType hash (blankScripts nIn stripped txTo.vin) =
      Except.ok 1 := by
  unfold hashByType
  rw [if_neg ?_, if_pos hsingle, if_pos hout]
  intro hnone
  rw [fHashSingle_of_fHashNone hnone] at hsingle
  cases hsingle

theorem exists_onlySigned (hin : nIn < txTo.vin.length) (stripped : CScript) :
    exists vin, onlySigned nIn nHashType (signedInputs txTo nIn nHashType stripped) =
      Except.ok vin := by
  unfold onlySigned
  have hin' : nIn < (signedInputs txTo nIn nHashType stripped).length := by
    unfold signedInputs
    rw [List.length_mapIdx]
    exact hin
  cases fAnyoneCanPay nHashType with
  | true =>
      rw [if_pos rfl, List.getElem?_eq_getElem hin']
      exact ⟨_, rfl⟩
  | false => exact ⟨_, rfl⟩

/--
For every script which `GetOp` reads to its end, the hash of what is written on the way is
the hash of the blanked copy, and neither computation fails.  Both are 1 where the input does
not exist, or the output of the same index for `SIGHASH_SINGLE`.
-/
theorem signatureHash_eq_old (txTo : CTransaction) (scriptCode : CScript) (nIn : Nat)
    (nHashType : BitVec 32) (hash : List UInt8 -> UInt256) (hparsed : Parsed scriptCode) :
    exists sighash,
      signatureHash txTo scriptCode nIn nHashType hash = Except.ok sighash ∧
      signatureHashOld txTo scriptCode nIn nHashType hash = Except.ok sighash ∧
      ((nIn ≥ txTo.vin.length ∨ (fHashSingle nHashType = true ∧ nIn ≥ txTo.vout.length)) ->
        sighash = 1) := by
  rcases hparsed.exists_stripped with ⟨stripped, n, hstripped⟩
  unfold signatureHash signatureHashOld
  by_cases hin : nIn ≥ txTo.vin.length
  · rw [if_pos hin, if_pos hin]
    exact ⟨1, rfl, rfl, fun _ => rfl⟩
  · rw [if_neg hin, if_neg hin, hstripped.findAndDelete_eq]
    change exists sighash, _ ∧
      hashByType txTo nIn nHashType hash (blankScripts nIn stripped txTo.vin) = _ ∧ _
    by_cases hsingle : fHashSingle nHashType = true ∧ nIn ≥ txTo.vout.length
    · rw [if_pos hsingle, hashByType_one stripped hsingle.1 hsingle.2]
      exact ⟨1, rfl, rfl, fun _ => rfl⟩
    · have hin' := Nat.not_le.mp hin
      have hout : fHashSingle nHashType = true -> nIn < txTo.vout.length :=
        fun h => Nat.not_le.mp (fun hle => hsingle ⟨h, hle⟩)
      rcases exists_onlySigned hin' stripped with ⟨vin, hvin⟩
      rw [if_neg hsingle, serializeTx_eq hstripped hin' hout hvin, hashByType_eq stripped hout]
      unfold hashCopy
      rw [hvin]
      refine ⟨_, rfl, rfl, ?_⟩
      rintro (hmissing | hmissing)
      · exact absurd hmissing hin
      · exact absurd hmissing hsingle

end Serializer

/-- A transaction of two inputs and two outputs. -/
def twoInputs : CTransaction where
  hash := 0
  nVersion := 1
  vin :=
    [{ prevout := { hash := 1, n := 0 }, scriptSig := [0x51], nSequence := 7 },
      { prevout := { hash := 2, n := 1 }, scriptSig := [], nSequence := 8 }]
  vout := [CTxOut.make 5 [0x51], CTxOut.make 6 []]
  nLockTime := 9

/-- The bytes of an operand may look like separators. -/
theorem signatureHash_eq_old_single :
    exists sighash,
      signatureHash twoInputs [0xab, 0x02, 0xab, 0xab, 0xab, 0xac] 1 0x83
          (fun bytes => BitVec.ofNat 256 (valueLE bytes)) = Except.ok sighash ∧
      signatureHashOld twoInputs [0xab, 0x02, 0xab, 0xab, 0xab, 0xac] 1 0x83
          (fun bytes => BitVec.ofNat 256 (valueLE bytes)) = Except.ok sighash ∧
      ((1 ≥ twoInputs.vin.length ∨
        (fHashSingle 0x83 = true ∧ 1 ≥ twoInputs.vout.length)) -> sighash = 1) :=
  signatureHash_eq_old twoInputs _ 1 0x83 _
    (Parsed.next rfl (Parsed.next rfl (Parsed.next rfl (Parsed.next rfl Parsed.done))))

end Script
end Hbcur
