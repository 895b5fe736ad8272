import Hbcur.Script.Number

/-!
# Encodings and flags

The checks of `script/interpreter.cpp` which depend on the script verification flags, with
`CheckSignatureElement` of `eccryptoverify.cpp`.
-/

namespace Hbcur
namespace Script

open Foundation

/-!
# Flags
-/

abbrev ScriptVerifyFlags := BitVec 32

def SCRIPT_VERIFY_NONE : ScriptVerifyFlags := 0
def SCRIPT_VERIFY_P2SH : ScriptVerifyFlags := 1 <<< 0
def SCRIPT_VERIFY_STRICTENC : ScriptVerifyFlags := 1 <<< 1
def SCRIPT_VERIFY_DERSIG : ScriptVerifyFlags := 1 <<< 2
def SCRIPT_VERIFY_LOW_S : ScriptVerifyFlags := 1 <<< 3
def SCRIPT_VERIFY_NULLDUMMY : ScriptVerifyFlags := 1 <<< 4
def SCRIPT_VERIFY_SIGPUSHONLY : ScriptVerifyFlags := 1 <<< 5
def SCRIPT_VERIFY_MINIMALDATA : ScriptVerifyFlags := 1 <<< 6
def SCRIPT_VERIFY_DISCOURAGE_UPGRADABLE_NOPS : ScriptVerifyFlags := 1 <<< 7

def MANDATORY_SCRIPT_VERIFY_FLAGS : ScriptVerifyFlags := SCRIPT_VERIFY_P2SH

def STANDARD_SCRIPT_VERIFY_FLAGS : ScriptVerifyFlags :=
  MANDATORY_SCRIPT_VERIFY_FLAGS ||| SCRIPT_VERIFY_DERSIG ||| SCRIPT_VERIFY_STRICTENC |||
    SCRIPT_VERIFY_MINIMALDATA ||| SCRIPT_VERIFY_NULLDUMMY |||
    SCRIPT_VERIFY_DISCOURAGE_UPGRADABLE_NOPS

def STANDARD_NOT_MANDATORY_VERIFY_FLAGS : ScriptVerifyFlags :=
  STANDARD_SCRIPT_VERIFY_FLAGS &&& ~~~ MANDATORY_SCRIPT_VERIFY_FLAGS

/-- `(flags & mask) != 0` -/
def hasAny (flags mask : ScriptVerifyFlags) : Bool := !(flags &&& mask == 0)

/-- All flags of the first set are in the second. -/
def FlagSubset (f g : ScriptVerifyFlags) : Prop := f &&& g = f

instance (f g : ScriptVerifyFlags) : Decidable (FlagSubset f g) :=
  inferInstanceAs (Decidable (_ = _))

theorem FlagSubset.hasAny {f g : ScriptVerifyFlags} (h : FlagSubset f g)
    {mask : ScriptVerifyFlags} (hf : hasAny f mask = true) : hasAny g mask = true := by
  unfold Script.hasAny at hf ⊢
  rw [Bool.not_eq_true', beq_eq_false_iff_ne] at hf ⊢
  intro hzero
  apply hf
  rw [← h, BitVec.and_assoc, hzero]
  exact BitVec.and_zero

/-!
# Truth values
-/

/-- Zero may have a sign, in the last byte. -/
def castToBool : ValType -> Bool
  | [] => false
  | [last] => !(last == 0) && !(last == 0x80)
  | byte :: rest => !(byte == 0) || castToBool rest

def vchFalse : ValType := []

def vchTrue : ValType := [1]

def boolBytes (b : Bool) : ValType := if b then vchTrue else vchFalse

/-!
# Public keys and signatures
-/

def isCompressedOrUncompressedPubKey (vchPubKey : ValType) : Bool :=
  if vchPubKey.length < 33 then false
  else if vchPubKey.getD 0 0 == 0x04 then vchPubKey.length == 65
  else if vchPubKey.getD 0 0 == 0x02 || vchPubKey.getD 0 0 == 0x03 then vchPubKey.length == 33
  else false

def isValidSignatureEncoding (sig : List UInt8) : Bool :=
  let lenR := (sig.getD 3 0).toNat
  let lenS := (sig.getD (5 + lenR) 0).toNat
  if sig.length < 9 then false
  else if sig.length > 73 then false
  else if !(sig.getD 0 0 == 0x30) then false
  else if (sig.getD 1 0).toNat ≠ sig.length - 3 then false
  else if 5 + lenR ≥ sig.length then false
  else if lenR + lenS + 7 ≠ sig.length then false
  else if !(sig.getD 2 0 == 0x02) then false
  else if lenR = 0 then false
  else if !(sig.getD 4 0 &&& 0x80 == 0) then false
  else if lenR > 1 ∧ sig.getD 4 0 = 0x00 ∧ sig.getD 5 0 &&& 0x80 = 0 then false
  else if !(sig.getD (lenR + 4) 0 == 0x02) then false
  else if lenS = 0 then false
  else if !(sig.getD (lenR + 6) 0 &&& 0x80 == 0) then false
  else if lenS > 1 ∧ sig.getD (lenR + 6) 0 = 0x00 ∧ sig.getD (lenR + 7) 0 &&& 0x80 = 0 then false
  else true

/-- The number of a big-endian byte string, by which `CompareBigEndian` compares. -/
def valueBE (bytes : List UInt8) : Nat := Serialize.valueLE bytes.reverse

/-- Half of the order of the generator of the curve, rounded down. -/
def maxModHalfOrder : Nat :=
  0x7FFFFFFFFFFFFFFFFFFFFFFFFFFFFFFF5D576E7357A4501DDFE92F46681B20A0

/-- The order of the generator, less one. -/
def maxModOrder : Nat :=
  0xFFFFFFFFFFFFFFFFFFFFFFFFFFFFFFFEBAAEDCE6AF48A03BBFD25E8CD0364140

def checkSignatureElement (vch : List UInt8) (half : Bool) : Bool :=
  decide (0 < valueBE vch) &&
    decide (valueBE vch ≤ if half then maxModHalfOrder else maxModOrder)

def isLowDERSignature (vchSig : ValType) : Except Stop Unit := do
  require (isValidSignatureEncoding vchSig) (Stop.error ScriptError.sigDer)
  let nLenR := (vchSig.getD 3 0).toNat
  let nLenS := (vchSig.getD (5 + nLenR) 0).toNat
  require (checkSignatureElement ((vchSig.drop (6 + nLenR)).take nLenS) true)
    (Stop.error ScriptError.sigHighS)

def SIGHASH_ALL : Nat := 1
def SIGHASH_NONE : Nat := 2
def SIGHASH_SINGLE : Nat := 3
def SIGHASH_ANYONECANPAY : Nat := 0x80

def isDefinedHashtypeSignature (vchSig : ValType) : Bool :=
  match vchSig.getLast? with
  | none => false
  | some last =>
      let nHashType := (last &&& ~~~ (UInt8.ofNat SIGHASH_ANYONECANPAY)).toNat
      !(decide (nHashType < SIGHASH_ALL) || decide (nHashType > SIGHASH_SINGLE))

/-- An empty signature passes, so that there is a compact way to give an invalid one. -/
def checkSignatureEncoding (vchSig : ValType) (flags : ScriptVerifyFlags) : Except Stop Unit :=
  if vchSig = [] then Except.ok ()
  else do
    require (!(hasAny flags
        (SCRIPT_VERIFY_DERSIG ||| SCRIPT_VERIFY_LOW_S ||| SCRIPT_VERIFY_STRICTENC) &&
      !isValidSignatureEncoding vchSig)) (Stop.error ScriptError.sigDer)
    onlyIf (hasAny flags SCRIPT_VERIFY_LOW_S) (isLowDERSignature vchSig)
    require (!(hasAny flags SCRIPT_VERIFY_STRICTENC && !isDefinedHashtypeSignature vchSig))
      (Stop.error ScriptError.sigHashType)

def checkPubKeyEncoding (vchPubKey : ValType) (flags : ScriptVerifyFlags) : Except Stop Unit :=
  require (!(hasAny flags SCRIPT_VERIFY_STRICTENC &&
    !isCompressedOrUncompressedPubKey vchPubKey)) (Stop.error ScriptError.pubKeyType)

/-!
# Pushes
-/

def OP_0 : Nat := 0x00
def OP_1NEGATE : Nat := 0x4f

def checkMinimalPush (data : ValType) (opcode : Nat) : Bool :=
  match data with
  | [] => opcode == OP_0
  | [byte] =>
      if 1 ≤ byte.toNat ∧ byte.toNat ≤ 16 then opcode == CScript.OP_1 + (byte.toNat - 1)
      else if byte = 0x81 then opcode == OP_1NEGATE
      else opcode == 1
  | _ =>
      if data.length ≤ 75 then opcode == data.length
      else if data.length ≤ 255 then opcode == CScript.OP_PUSHDATA1
      else if data.length ≤ 65535 then opcode == CScript.OP_PUSHDATA2
      else true

/-- The script which pushes some bytes, `operator<<` on an empty script. -/
def pushBytes (b : List UInt8) : CScript :=
  (if b.length < CScript.OP_PUSHDATA1 then [UInt8.ofNat b.length]
    else if b.length ≤ 0xff then [UInt8.ofNat CScript.OP_PUSHDATA1, UInt8.ofNat b.length]
    else if b.length ≤ 0xffff then
      UInt8.ofNat CScript.OP_PUSHDATA2 :: Serialize.writeLE 2 b.length
    else UInt8.ofNat CScript.OP_PUSHDATA4 :: Serialize.writeLE 4 b.length) ++ b

theorem toNat_byte {n : Nat} (h : n ≤ 0xff) : (UInt8.ofNat n).toNat = n := by
  rw [UInt8.toNat_ofNat_of_lt']
  exact Nat.lt_succ_of_le h

/-!
# The checks only fail for errors
-/

theorem ensures_isLowDERSignature (vchSig : ValType) :
    Ensures Stop.Expected (fun _ => True) (isLowDERSignature vchSig) := by
  unfold isLowDERSignature
  refine ensures_require_bind trivial (fun _ => ?_)
  exact (ensures_require trivial).mono (fun _ _ => trivial)

theorem ensures_checkSignatureEncoding (vchSig : ValType) (flags : ScriptVerifyFlags) :
    Ensures Stop.Expected (fun _ => True) (checkSignatureEncoding vchSig flags) := by
  unfold checkSignatureEncoding
  refine ensures_ite (fun _ => trivial) (fun _ => ?_)
  refine ensures_require_bind trivial (fun _ => ?_)
  have hlow : Ensures Stop.Expected (fun _ => True)
      (onlyIf (hasAny flags SCRIPT_VERIFY_LOW_S) (isLowDERSignature vchSig)) := by
    unfold onlyIf
    exact ensures_ite (fun _ => ensures_isLowDERSignature vchSig) (fun _ => trivial)
  refine ensures_bind hlow (fun _ _ => ?_)
  exact (ensures_require trivial).mono (fun _ _ => trivial)

theorem ensures_checkPubKeyEncoding (vchPubKey : ValType) (flags : ScriptVerifyFlags) :
    Ensures Stop.Expected (fun _ => True) (checkPubKeyEncoding vchPubKey flags) :=
  (ensures_require trivial).mono (fun _ _ => trivial)

/-!
# Fewer flags, fewer failures
-/

section Flags

variable {f g : ScriptVerifyFlags}

/-- A check which is made under some flags. -/
theorem FlagSubset.require (h : FlagSubset f g) (mask : ScriptVerifyFlags) (check : Bool)
    (e : Stop) :
    SucceedsWith (require (!(Script.hasAny g mask && !check)) e)
      (require (!(Script.hasAny f mask && !check)) e) := by
  apply SucceedsWith.require
  cases hf : Script.hasAny f mask with
  | false => exact fun _ => rfl
  | true =>
      rw [h.hasAny hf]
      exact id

theorem FlagSubset.checkSignatureEncoding (h : FlagSubset f g) (vchSig : ValType) :
    SucceedsWith (checkSignatureEncoding vchSig g) (checkSignatureEncoding vchSig f) := by
  unfold Script.checkSignatureEncoding
  apply SucceedsWith.ite (SucceedsWith.refl _)
  refine SucceedsWith.bind (h.require _ _ _) (fun _ => ?_)
  refine SucceedsWith.bind (SucceedsWith.onlyIf h.hasAny (SucceedsWith.refl _)) (fun _ => ?_)
  exact h.require _ _ _

theorem FlagSubset.checkPubKeyEncoding (h : FlagSubset f g) (vchPubKey : ValType) :
    SucceedsWith (checkPubKeyEncoding vchPubKey g) (checkPubKeyEncoding vchPubKey f) :=
  h.require _ _ _

end Flags

end Script
end Hbcur
