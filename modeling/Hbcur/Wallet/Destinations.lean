import Hbcur.Script.Templates
import Hbcur.Wallet.BlockSignature
import Hbcur.Foundation.Matching
import Hbcur.Script.Interpreter
import Hbcur.Script.SignatureHash

/-!
# Destinations

`ExtractDestination`, `GetScriptForDestination` and `GetScriptForMultisig` of
`script/standard.cpp`, next to the scripts which `Solver` accepts.
-/

namespace Hbcur

open Foundation Script Serialize

namespace UInt160

/-- `ToByteVector` -/
def toBytes (x : UInt160) : List UInt8 := writeLE 20 x.toNat

theorem length_toBytes (x : UInt160) : x.toBytes.length = 20 := length_writeLE 20 x.toNat

theorem ofBytes_toBytes (x : UInt160) : ofBytes x.toBytes = some x := by
  have hlt : x.toNat < 256 ^ 20 := x.isLt
  unfold ofBytes
  rw [if_pos x.length_toBytes]
  unfold toBytes
  rw [valueLE_writeLE 20 x.toNat hlt, BitVec.ofNat_toNat, BitVec.setWidth_eq]

end UInt160

inductive CTxDestination where
  | none
  | keyID (id : UInt160)
  | scriptID (id : UInt160)
  deriving DecidableEq, Repr

def getScriptForDestination : CTxDestination -> CScript
  | CTxDestination.none => []
  | CTxDestination.keyID id =>
      [UInt8.ofNat OP_DUP, CScript.OP_HASH160] ++ pushBytes id.toBytes ++
        [UInt8.ofNat OP_EQUALVERIFY, UInt8.ofNat CScript.OP_CHECKSIG]
  | CTxDestination.scriptID id =>
      [CScript.OP_HASH160] ++ pushBytes id.toBytes ++ [CScript.OP_EQUAL]

/-- `ExtractDestination`: nothing where it returns false. -/
def extractDestination (hash160 : List UInt8 -> UInt160) (scriptPubKey : CScript) :
    Option CTxDestination :=
  match solver scriptPubKey with
  | some (Script.TxnOutType.pubKey, vch :: _) =>
      let pubKey := CPubKey.set vch
      if pubKey.isValid then some (CTxDestination.keyID (hash160 pubKey.vch)) else none
  | some (Script.TxnOutType.pubKeyHash, vch :: _) =>
      (UInt160.ofBytes vch).map CTxDestination.keyID
  | some (Script.TxnOutType.scriptHash, vch :: _) =>
      (UInt160.ofBytes vch).map CTxDestination.scriptID
  | _ => none

/-- `GetScriptForMultisig`; nothing where an assertion of `EncodeOP_N` fails. -/
def getScriptForMultisig (nRequired : Int) (keys : List CPubKey) : Option CScript :=
  if 0 ≤ nRequired ∧ nRequired ≤ 16 ∧ keys.length ≤ 16 then
    some ([UInt8.ofNat (encodeOpN nRequired.toNat)] ++
      keys.flatMap (fun key => pushBytes key.vch) ++
      [UInt8.ofNat (encodeOpN keys.length), UInt8.ofNat CScript.OP_CHECKMULTISIG])
  else none

/-!
# The scripts are standard
-/

/-- A push of some bytes, as an operation. -/
def pushOperation (b : List UInt8) (h : b.length < 4294967296) : Operation where
  bytes := pushBytes b
  opcode := Item.pushOpcode b.length
  vch := b
  reads := getOp_push h

theorem pushBytes_short {b : List UInt8} (h : b.length < CScript.OP_PUSHDATA1) :
    pushBytes b = UInt8.ofNat b.length :: b := by
  unfold pushBytes
  rw [if_pos h]
  rfl

section Destinations

variable (hash160 : List UInt8 -> UInt160)

theorem extractDestination_keyID (id : UInt160) :
    extractDestination hash160 (getScriptForDestination (CTxDestination.keyID id)) =
      some (CTxDestination.keyID id) := by
  have hlength := id.length_toBytes
  have hform : StandardForm (getScriptForDestination (CTxDestination.keyID id))
      Script.TxnOutType.pubKeyHash [id.toBytes] :=
    @StandardForm.pubKeyHash (pushOperation id.toBytes (by omega)) hlength
  unfold extractDestination
  rw [solver_iff_standardForm.mpr hform]
  simp only
  rw [UInt160.ofBytes_toBytes, Option.map_some]

theorem extractDestination_scriptID (id : UInt160) :
    extractDestination hash160 (getScriptForDestination (CTxDestination.scriptID id)) =
      some (CTxDestination.scriptID id) := by
  have hlength := id.length_toBytes
  have hpush : pushBytes id.toBytes = 0x14 :: id.toBytes := by
    rw [pushBytes_short (by rw [hlength]; decide), hlength]
    rfl
  have hform : StandardForm (getScriptForDestination (CTxDestination.scriptID id))
      Script.TxnOutType.scriptHash [id.toBytes] := by
    change StandardForm
      ([CScript.OP_HASH160] ++ pushBytes id.toBytes ++ [CScript.OP_EQUAL]) _ _
    rw [hpush]
    exact StandardForm.scriptHash hlength
  unfold extractDestination
  rw [solver_iff_standardForm.mpr hform]
  simp only
  rw [UInt160.ofBytes_toBytes, Option.map_some]

end Destinations

namespace CPubKey

/-- A public key which is valid has one of two sizes. -/
theorem length_of_isValid {key : CPubKey} (h : key.isValid = true) :
    33 ≤ key.vch.length ∧ key.vch.length ≤ 65 := by
  have hlength := key.length_eq
  unfold isValid at h
  rw [decide_eq_true_eq] at h
  cases hvch : key.vch with
  | nil =>
      rw [hvch] at h
      exact absurd h (Nat.lt_irrefl 0)
  | cons chHeader rest =>
      rw [hvch] at hlength h
      change _ = getLen chHeader.toNat at hlength
      rw [hlength] at h ⊢
      unfold getLen at h ⊢
      split_ifs at h ⊢ <;> omega

end CPubKey

theorem exists_pushes {keys : List CPubKey} (h : forall key, key ∈ keys -> key.isValid = true) :
    exists ops : List Operation, (forall op, op ∈ ops -> op.IsPubKey) ∧
      bytesOf ops = keys.flatMap (fun key => pushBytes key.vch) ∧
      ops.map Operation.vch = keys.map CPubKey.vch ∧ ops.length = keys.length := by
  induction keys with
  | nil => exact ⟨[], nofun, rfl, rfl, rfl⟩
  | cons key keys ih =>
      have hsize := CPubKey.length_of_isValid (h key List.mem_cons_self)
      rcases ih (fun other hmem => h other (List.mem_cons_of_mem _ hmem)) with
        ⟨ops, hops, hbytes, hvch, hcount⟩
      refine ⟨pushOperation key.vch (by omega) :: ops, List.forall_mem_cons.mpr ⟨hsize, hops⟩,
        ?_, ?_, ?_⟩
      · rw [bytesOf_cons, hbytes, List.flatMap_cons]
        rfl
      · rw [List.map_cons, List.map_cons, hvch]
        rfl
      · rw [List.length_cons, List.length_cons, hcount]

theorem solver_getScriptForMultisig {m : Nat} {keys : List CPubKey} (hpos : 1 ≤ m)
    (hle : m ≤ keys.length) (hmax : keys.length ≤ 16)
    (hkeys : forall key, key ∈ keys -> key.isValid = true) :
    exists script, getScriptForMultisig m keys = some script ∧
      solver script = some (Script.TxnOutType.multiSig,
        [UInt8.ofNat m] :: keys.map CPubKey.vch ++ [[UInt8.ofNat keys.length]]) := by
  rcases exists_pushes hkeys with ⟨ops, hops, hbytes, hvch, hcount⟩
  have hform := StandardForm.multiSig hpos (hcount.symm ▸ hle) (hcount.symm ▸ hmax) hops
  rw [hbytes, hvch, hcount] at hform
  refine ⟨_, if_pos ⟨Int.natCast_nonneg m, by omega, hmax⟩, ?_⟩
  rw [Int.toNat_natCast, encodeOpN_of_pos hpos, encodeOpN_of_pos (hpos.trans hle)]
  exact solver_iff_standardForm.mpr hform

/--
`Solver` accepts exactly the standard forms, the scripts for key and script identifiers give
these back, and the scripts for several keys give back the number required and the keys.
-/
theorem solver_templates (hash160 : List UInt8 -> UInt160) :
    (forall script type vSolutions,
      solver script = some (type, vSolutions) <-> StandardForm script type vSolutions) ∧
    (forall id, extractDestination hash160 (getScriptForDestination (CTxDestination.keyID id)) =
      some (CTxDestination.keyID id)) ∧
    (forall id,
      extractDestination hash160 (getScriptForDestination (CTxDestination.scriptID id)) =
        some (CTxDestination.scriptID id)) ∧
    (forall (m : Nat) (keys : List CPubKey), 1 ≤ m -> m ≤ keys.length -> keys.length ≤ 16 ->
      (forall key, key ∈ keys -> key.isValid = true) ->
        exists script, getScriptForMultisig m keys = some script ∧
          solver script = some (Script.TxnOutType.multiSig,
            [UInt8.ofNat m] :: keys.map CPubKey.vch ++ [[UInt8.ofNat keys.length]])) := by
  refine ⟨fun _ _ _ => solver_iff_standardForm, extractDestination_keyID hash160,
    extractDestination_scriptID hash160, ?_⟩
  intro m keys hpos hle hmax hkeys
  exact solver_getScriptForMultisig hpos hle hmax hkeys

example : solver ([0x4c, 33] ++ List.replicate 33 2 ++ [0xac]) =
    some (Script.TxnOutType.pubKey, [List.replicate 33 2]) := by decide

end Hbcur

/-!
# Combining signatures

`CombineSignatures` of `script/sign.cpp`, with the checker of `script/interpreter.cpp` which it
asks about the signatures.
-/

namespace Hbcur
namespace Script

open Foundation

/-!
# The checker
-/

/-- The transaction and the index of its input, with the curve and the hash function. -/
structure TransactionSignatureChecker where
  ecdsaVerify : CPubKey -> UInt256 -> List UInt8 -> Bool
  getHash : List UInt8 -> UInt256
  txTo : CTransaction
  nIn : Nat

namespace TransactionSignatureChecker

/-- `CPubKey::Verify` -/
def verifySignature (checker : TransactionSignatureChecker) (vchSig : List UInt8)
    (pubkey : CPubKey) (sighash : UInt256) : Bool :=
  pubkey.isValid && checker.ecdsaVerify pubkey sighash vchSig

def checkSig (checker : TransactionSignatureChecker) (vchSigIn vchPubKey : ValType)
    (scriptCode : CScript) : Bool :=
  let pubkey := CPubKey.set vchPubKey
  if !pubkey.isValid then false
  else
    match vchSigIn.getLast? with
    | none => false
    | some nHashType =>
        match signatureHash checker.txTo scriptCode checker.nIn
            (BitVec.ofNat 32 nHashType.toNat) checker.getHash with
        -- only for code which `GetOp` does not read to its end
        | Except.error _ => false
        | Except.ok sighash => checker.verifySignature vchSigIn.dropLast pubkey sighash

/-- The interpreter with this checker. -/
def scriptEnv (checker : TransactionSignatureChecker) (env : ScriptEnv) : ScriptEnv :=
  { env with checkSig := checker.checkSig }

theorem checkSig_nil (checker : TransactionSignatureChecker) (vchPubKey : ValType)
    (scriptCode : CScript) : checker.checkSig [] vchPubKey scriptCode = false := by
  unfold checkSig
  simp only
  split_ifs <;> rfl

end TransactionSignatureChecker

/-- The interpreter with `BaseSignatureChecker`, which accepts nothing. -/
def baseEnv (env : ScriptEnv) : ScriptEnv := { env with checkSig := fun _ _ _ => false }

/-!
# Combining
-/

/-- What `Solver` leaves in its two results, also where it returns false. -/
def solverResults (scriptPubKey : CScript) : TxnOutType × List ValType :=
  match solver scriptPubKey with
  | some found => found
  | none =>
      -- the additional checks return with the results in place
      match matchTemplate [OP_SMALLINTEGER, OP_PUBKEYS, OP_SMALLINTEGER, CScript.OP_CHECKMULTISIG]
          scriptPubKey with
      | some vSolutions => (TxnOutType.multiSig, vSolutions)
      | none => (TxnOutType.nonstandard, [])

def pushAll (values : Stack) : CScript := values.reverse.flatMap pushBytes

/-- Vectors of bytes are compared like lists of numbers. -/
def byteOrder : ValType -> List Nat := List.map UInt8.toNat

def insertSigs (allsigs : List ValType) (sigs : Stack) : List ValType :=
  StdSet.insertAll byteOrder allsigs (sigs.reverse.filter fun v => !List.isEmpty v)

/-- The signatures of the keys in turn, until there are enough, with their number. -/
def pushSigs (sigs : StdMap ValType ValType) (nSigsRequired : Nat) :
    List ValType -> Nat -> CScript -> CScript × Nat
  | [], nSigsHave, result => (result, nSigsHave)
  | pubkey :: pubkeys, nSigsHave, result =>
      if nSigsHave < nSigsRequired then
        match sigs.lookup pubkey with
        | some sig => pushSigs sigs nSigsRequired pubkeys (nSigsHave + 1) (result ++ pushBytes sig)
        | none => pushSigs sigs nSigsRequired pubkeys nSigsHave result
      else (result, nSigsHave)

variable (checker : TransactionSignatureChecker)

def combineMultisig (scriptPubKey : CScript) (vSolutions : List ValType) (sigs1 sigs2 : Stack) :
    Except Stop CScript := do
  let allsigs := insertSigs (insertSigs [] sigs1) sigs2
  require (decide (vSolutions.length > 1)) Stop.aborted
  let front ← expect vSolutions.head? Stop.outOfRange
  let nSigsRequired ← expect front.head? Stop.outOfRange
  let pubkeys := (vSolutions.drop 1).take (vSolutions.length - 2)
  let sigs := assignEach (fun sig pubkey => checker.checkSig sig pubkey scriptPubKey) allsigs
    pubkeys ∅
  let (result, nSigsHave) := pushSigs sigs nSigsRequired.toNat pubkeys 0 [UInt8.ofNat OP_0]
  Except.ok (result ++ List.replicate (nSigsRequired.toNat - nSigsHave) (UInt8.ofNat OP_0))

/-- The overload for two stacks; `sigs[0]` is the last element from the top down. -/
def combineStacks : CScript -> TxnOutType -> List ValType -> Stack -> Stack -> Except Stop CScript
  | scriptPubKey, txType, vSolutions, sigs1, sigs2 =>
      match txType with
      | TxnOutType.nonstandard | TxnOutType.nullData =>
          Except.ok (if sigs1.length ≥ sigs2.length then pushAll sigs1 else pushAll sigs2)
      | TxnOutType.pubKey | TxnOutType.pubKeyHash =>
          match sigs1.getLast? with
          | none => Except.ok (pushAll sigs2)
          | some first =>
              Except.ok (if first.isEmpty then pushAll sigs2 else pushAll sigs1)
      | TxnOutType.scriptHash =>
          match sigs1, sigs2 with
          | [], sigs2 => Except.ok (pushAll sigs2)
          | spk :: rest1, [] => Except.ok (if spk.isEmpty then pushAll [] else pushAll (spk :: rest1))
          | spk :: rest1, spk2 :: rest2 =>
              if spk.isEmpty then Except.ok (pushAll (spk2 :: rest2))
              else if spk2.isEmpty then Except.ok (pushAll (spk :: rest1))
              else do
                let (txType2, vSolutions2) := solverResults spk
                let result ← combineStacks spk txType2 vSolutions2 rest1 rest2
                Except.ok (result ++ pushBytes spk)
      | TxnOutType.multiSig => combineMultisig checker scriptPubKey vSolutions sigs1 sigs2

/-- A script which fails to evaluate ends this, where the source goes on with what it left. -/
def combineSignatures (env : ScriptEnv) (scriptPubKey scriptSig1 scriptSig2 : CScript) :
    Except Stop CScript := do
  let (txType, vSolutions) := solverResults scriptPubKey
  let stack1 ← evalScript (baseEnv env) SCRIPT_VERIFY_STRICTENC scriptSig1 []
  let stack2 ← evalScript (baseEnv env) SCRIPT_VERIFY_STRICTENC scriptSig2 []
  combineStacks checker scriptPubKey txType vSolutions stack1 stack2

end Script
end Hbcur
