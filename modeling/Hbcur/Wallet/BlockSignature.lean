import Hbcur.Script.Solver

/-!
# Block signatures

`SignBlock` and `CheckBlockSignature` of `primitives/block.cpp`.  The elliptic curve and the
hash of public keys are given by their functions.
-/

namespace Hbcur

open Script Serialize

abbrev UInt160 := BitVec 160

/-- The constructor from a vector; it throws if the size is wrong. -/
def UInt160.ofBytes (vch : List UInt8) : Option UInt160 :=
  if vch.length = 20 then some (BitVec.ofNat 160 (valueLE vch)) else none

/-!
# Keys
-/

namespace CPubKey

def getLen (chHeader : Nat) : Nat :=
  if chHeader = 2 ∨ chHeader = 3 then 33
  else if chHeader = 4 ∨ chHeader = 6 ∨ chHeader = 7 then 65
  else 0

/-- The length which the first byte stands for. -/
def lenOf : List UInt8 -> Nat
  | [] => 0
  | chHeader :: _ => getLen chHeader.toNat

end CPubKey

/-- A public key has the length which its first byte stands for; an invalid one is empty. -/
structure CPubKey where
  vch : List UInt8
  length_eq : vch.length = CPubKey.lenOf vch
  deriving DecidableEq

namespace CPubKey

def set (bytes : List UInt8) : CPubKey :=
  if h : bytes.length = lenOf bytes then { vch := bytes, length_eq := h }
  else { vch := [], length_eq := rfl }

def isValid (pubkey : CPubKey) : Bool := decide (pubkey.vch.length > 0)

end CPubKey

structure CKey (secret : Type) where
  fValid : Bool
  vch : secret

/-- The functions of the curve and the hash of public keys. -/
structure Curve (secret : Type) where
  hash160 : List UInt8 -> UInt160
  getPubKey : secret -> CPubKey
  ecdsaSign : secret -> UInt256 -> List UInt8
  ecdsaVerify : CPubKey -> UInt256 -> List UInt8 -> Bool

/-- The keys by the identifiers of their public keys. -/
abbrev CKeyStore (secret : Type) := UInt160 -> Option (CKey secret)

variable {secret : Type}

namespace Curve

def getID (curve : Curve secret) (pubkey : CPubKey) : UInt160 := curve.hash160 pubkey.vch

/-- `CKey::Sign`: nothing where it returns false. -/
def sign (curve : Curve secret) (key : CKey secret) (hash : UInt256) : Option (List UInt8) :=
  if key.fValid then some (curve.ecdsaSign key.vch hash) else none

def verify (curve : Curve secret) (pubkey : CPubKey) (hash : UInt256) (vchSig : List UInt8) :
    Bool :=
  pubkey.isValid && curve.ecdsaVerify pubkey hash vchSig

end Curve

/-!
# Signing
-/

namespace CBlock

/-- `vtx[1].vout[1]`. -/
def stakeOutput (block : CBlock) : Option CTxOut :=
  block.vtx[1]?.bind fun tx => tx.vout[1]?

/-- Look up the key, sign with it and keep the signature. -/
def signWith (curve : Curve secret) (keystore : CKeyStore secret) (block : CBlock)
    (keyID : UInt160) : Bool × CBlock :=
  match keystore keyID with
  | none => (false, block)
  | some key =>
      match curve.sign key block.hash.val with
      | none => (false, block)
      | some vchSig => (true, { block with vchBlockSig := vchSig })

/-- The loop over the outputs of the coinbase; nothing where an exception is thrown. -/
def signCoinBase (curve : Curve secret) (keystore : CKeyStore secret) (block : CBlock) :
    List CTxOut -> Option (Bool × CBlock)
  | [] => some (false, block)
  | txout :: rest =>
      match solver txout.scriptPubKey with
      | some (TxnOutType.pubKey, vSolutions) =>
          -- The public key itself is taken for an identifier.
          (vSolutions.head?.bind UInt160.ofBytes).map (signWith curve keystore block)
      | _ => signCoinBase curve keystore block rest

/-- Nothing where an exception is thrown or a missing transaction or output is used. -/
def signBlock (curve : Curve secret) (keystore : CKeyStore secret) (block : CBlock) :
    Option (Bool × CBlock) :=
  if !block.isProofOfStake then
    match block.vtx with
    | [] => none
    | coinBase :: _ => signCoinBase curve keystore block coinBase.vout
  else
    match block.stakeOutput with
    | none => none
    | some txout =>
        match solver txout.scriptPubKey with
        | some (TxnOutType.pubKeyHash, vSolutions) =>
            (vSolutions.head?.bind UInt160.ofBytes).map (signWith curve keystore block)
        | some (TxnOutType.pubKey, vSolutions) =>
            vSolutions.head?.map fun vch =>
              signWith curve keystore block (curve.getID (CPubKey.set vch))
        | _ => some (false, block)

/-!
# Checking
-/

/-- The checks once there is something to build a public key from. -/
def checkWith (curve : Curve secret) (block : CBlock) (vchPubKey : List UInt8) : Bool :=
  let pubkey := CPubKey.set vchPubKey
  pubkey.isValid && !block.vchBlockSig.isEmpty &&
    curve.verify pubkey block.hash.val block.vchBlockSig

def checkBlockSignature (curve : Curve secret) (block : CBlock) : Option Bool :=
  if block.isProofOfWork then some block.vchBlockSig.isEmpty
  else
    match block.stakeOutput with
    | none => none
    | some txout =>
        match solver txout.scriptPubKey with
        | some (TxnOutType.pubKey, vSolutions) =>
            vSolutions.head?.map (checkWith curve block)
        | some (TxnOutType.pubKeyHash, vSolutions) =>
            -- The identifier is computed and not used.
            vSolutions.head?.bind fun vchPubKey =>
              (UInt160.ofBytes vchPubKey).map fun _ => checkWith curve block vchPubKey
        | _ => some false

end CBlock

/-!
# What signing promises
-/

/-- A signature verifies under the public key of its key, and the empty one never does. -/
structure Curve.Correct (curve : Curve secret) : Prop where
  getPubKey_isValid : forall vch, (curve.getPubKey vch).isValid = true
  verify_sign : forall vch hash,
    curve.ecdsaVerify (curve.getPubKey vch) hash (curve.ecdsaSign vch hash) = true
  verify_nil : forall pubkey hash, curve.ecdsaVerify pubkey hash [] = false

namespace CBlock

section Agreement

variable (curve : Curve secret) (keystore : CKeyStore secret) (block : CBlock)

/-- A key which is found under the identifier of the public key in the output belongs to it. -/
def MatchingKey : Prop :=
  forall txout vch key, block.stakeOutput = some txout ->
    solver txout.scriptPubKey = some (TxnOutType.pubKey, [vch]) ->
    keystore (curve.getID (CPubKey.set vch)) = some key ->
    curve.getPubKey key.vch = CPubKey.set vch

/-- The stake is paid to the hash of a public key, and the store has a valid key for it. -/
def PaysHeldHash : Prop :=
  block.isProofOfStake = true ∧ exists txout vch keyID key,
    block.stakeOutput = some txout ∧
      solver txout.scriptPubKey = some (TxnOutType.pubKeyHash, [vch]) ∧
      UInt160.ofBytes vch = some keyID ∧ keystore keyID = some key ∧ key.fValid = true

/-- The size of a public key is never that of an identifier. -/
theorem ofBytes_of_isPubKeySize {vch : List UInt8} (h : isPubKeySize vch = true) :
    UInt160.ofBytes vch = none := by
  unfold isPubKeySize at h
  rw [Bool.and_eq_true, decide_eq_true_iff, decide_eq_true_iff] at h
  apply if_neg
  omega

theorem exists_ofBytes {vch : List UInt8} (h : vch.length = 20) :
    exists keyID, UInt160.ofBytes vch = some keyID :=
  ⟨_, if_pos h⟩

/-- No public key starts with the bytes of a hash. -/
theorem isValid_set_of_length {vch : List UInt8} (h : vch.length = 20) :
    (CPubKey.set vch).isValid = false := by
  have hlen : vch.length ≠ CPubKey.lenOf vch := by
    cases vch with
    | nil => cases h
    | cons chHeader rest =>
        rw [h]
        change 20 ≠ CPubKey.getLen chHeader.toNat
        unfold CPubKey.getLen
        split_ifs <;> decide
  unfold CPubKey.set
  rw [dif_neg hlen]
  rfl

theorem signWith_true_iff {keyID : UInt160} {signed : CBlock} :
    signWith curve keystore block keyID = (true, signed) <->
      exists key, keystore keyID = some key ∧ key.fValid = true ∧
        signed = { block with vchBlockSig := curve.ecdsaSign key.vch block.hash.val } := by
  unfold signWith Curve.sign
  cases hkey : keystore keyID with
  | none => simp
  | some key =>
      cases hvalid : key.fValid with
      | false => simp [hvalid]
      | true =>
          simp only [if_true, Prod.mk.injEq, true_and, Option.some.injEq, exists_eq_left', hvalid]
          exact eq_comm

/-- The coinbase of a block without a stake is never signed. -/
theorem signCoinBase_ne_true (vout : List CTxOut) (signed : CBlock) :
    signCoinBase curve keystore block vout ≠ some (true, signed) := by
  induction vout with
  | nil =>
      intro h
      cases h
  | cons txout rest ih =>
      unfold signCoinBase
      split
      · rename_i vSolutions hsolver
        rcases solver_pubKey hsolver with ⟨vch, rfl, hsize⟩
        rw [List.head?_cons, Option.bind_some, ofBytes_of_isPubKeySize hsize]
        intro h
        cases h
      · exact ih

theorem signBlock_proofOfWork (h : block.isProofOfStake = false) (signed : CBlock) :
    signBlock curve keystore block ≠ some (true, signed) := by
  unfold signBlock
  rw [h]
  simp only [Bool.not_false, if_true]
  split
  · intro hnone
    cases hnone
  · exact signCoinBase_ne_true curve keystore block _ signed

/-- What a signed block must have been. -/
theorem signBlock_true_iff (signed : CBlock) :
    signBlock curve keystore block = some (true, signed) <->
      block.isProofOfStake = true ∧ exists txout vch keyID,
        block.stakeOutput = some txout ∧
          ((solver txout.scriptPubKey = some (TxnOutType.pubKeyHash, [vch]) ∧
              UInt160.ofBytes vch = some keyID) ∨
            (solver txout.scriptPubKey = some (TxnOutType.pubKey, [vch]) ∧
              keyID = curve.getID (CPubKey.set vch))) ∧
          signWith curve keystore block keyID = (true, signed) := by
  cases hstake : block.isProofOfStake with
  | false =>
      apply iff_of_false (signBlock_proofOfWork curve keystore block hstake signed)
      exact fun h => Bool.false_ne_true h.1
  | true =>
      unfold signBlock
      rw [hstake]
      simp only [Bool.not_true, Bool.false_eq_true, if_false, true_and]
      cases hout : block.stakeOutput with
      | none => simp
      | some txout =>
          simp only
          constructor
          · intro h
            split at h
            · rename_i vSolutions hsolver
              rcases solver_pubKeyHash hsolver with ⟨vch, rfl, hlen⟩
              rcases exists_ofBytes hlen with ⟨keyID, hkeyID⟩
              rw [List.head?_cons, Option.bind_some, hkeyID] at h
              exact ⟨txout, vch, keyID, rfl, Or.inl ⟨hsolver, hkeyID⟩, Option.some.inj h⟩
            · rename_i vSolutions hsolver
              rcases solver_pubKey hsolver with ⟨vch, rfl, _⟩
              exact ⟨txout, vch, _, rfl, Or.inr ⟨hsolver, rfl⟩, Option.some.inj h⟩
            · cases h
          · rintro ⟨txout', vch, keyID, hsame, hkind, hsign⟩
            cases hsame
            rcases hkind with ⟨hsolver, hkeyID⟩ | ⟨hsolver, rfl⟩
            · rw [hsolver]
              simp only [List.head?_cons, Option.bind_some, hkeyID, Option.map_some, hsign]
            · rw [hsolver]
              simp only [List.head?_cons, Option.map_some, hsign]

/-- A key of the right owner makes a signature which is accepted. -/
theorem checkWith_of_sign {curve : Curve secret} (hcorrect : curve.Correct) {vch : List UInt8}
    {key : CKey secret} (hmatch : curve.getPubKey key.vch = CPubKey.set vch) :
    checkWith curve
      { block with vchBlockSig := curve.ecdsaSign key.vch block.hash.val } vch = true := by
  have hverify := hcorrect.verify_sign key.vch block.hash.val
  have hvalid := hcorrect.getPubKey_isValid key.vch
  have hne : (curve.ecdsaSign key.vch block.hash.val).isEmpty = false := by
    rw [List.isEmpty_eq_false_iff]
    intro hnil
    rw [hnil, hcorrect.verify_nil] at hverify
    cases hverify
  rw [hmatch] at hverify hvalid
  unfold checkWith Curve.verify
  simp only [hvalid, hne, hverify, Bool.not_false, Bool.and_self]

theorem checkWith_of_length {vch : List UInt8} (h : vch.length = 20) :
    checkWith curve block vch = false := by
  unfold checkWith
  simp only [isValid_set_of_length h, Bool.false_and]

/-- The signature is no part of what the checks branch on. -/
theorem checkBlockSignature_signed (hstake : block.isProofOfStake = true) {txout : CTxOut}
    (hout : block.stakeOutput = some txout) {type : TxnOutType} {vch : List UInt8}
    (hsolver : solver txout.scriptPubKey = some (type, [vch]))
    (hkind : type = TxnOutType.pubKey ∨
      type = TxnOutType.pubKeyHash ∧ exists keyID, UInt160.ofBytes vch = some keyID)
    (vchSig : List UInt8) :
    checkBlockSignature curve { block with vchBlockSig := vchSig } =
      some (checkWith curve { block with vchBlockSig := vchSig } vch) := by
  have hwork : isProofOfWork { block with vchBlockSig := vchSig } = false :=
    congrArg Bool.not hstake
  have hout' : stakeOutput { block with vchBlockSig := vchSig } = some txout := hout
  unfold checkBlockSignature
  rw [hwork, hout']
  rcases hkind with rfl | ⟨rfl, keyID, hkeyID⟩
  · simp only [Bool.false_eq_true, if_false, hsolver, List.head?_cons, Option.map_some]
  · simp only [Bool.false_eq_true, if_false, hsolver, List.head?_cons, Option.bind_some, hkeyID,
      Option.map_some]

end Agreement

/-- Whatever is signed is accepted, unless the stake is paid to a hash. -/
theorem signed_checks_iff (curve : Curve secret) (keystore : CKeyStore secret) (block : CBlock)
    (hcorrect : curve.Correct) (hmatch : MatchingKey curve keystore block) :
    (forall signed, signBlock curve keystore block = some (true, signed) ->
        checkBlockSignature curve signed = some true) <->
      ¬ PaysHeldHash keystore block := by
  constructor
  · rintro h ⟨hstake, txout, vch, keyID, key, hout, hsolver, hkeyID, hkey, hvalid⟩
    have hsign : signBlock curve keystore block = some (true,
        { block with vchBlockSig := curve.ecdsaSign key.vch block.hash.val }) :=
      (signBlock_true_iff curve keystore block _).mpr ⟨hstake, txout, vch, keyID, hout,
        Or.inl ⟨hsolver, hkeyID⟩,
        (signWith_true_iff curve keystore block).mpr ⟨key, hkey, hvalid, rfl⟩⟩
    rcases solver_pubKeyHash hsolver with ⟨vch', hsame, hlen⟩
    cases hsame
    have hcheck := h _ hsign
    rw [checkBlockSignature_signed curve block hstake hout hsolver (Or.inr ⟨rfl, keyID, hkeyID⟩),
      checkWith_of_length curve _ hlen] at hcheck
    cases hcheck
  · intro hnot signed hsigned
    rcases (signBlock_true_iff curve keystore block signed).mp hsigned with
      ⟨hstake, txout, vch, keyID, hout, hkind, hsign⟩
    rcases (signWith_true_iff curve keystore block).mp hsign with ⟨key, hkey, hvalid, rfl⟩
    rcases hkind with ⟨hsolver, hkeyID⟩ | ⟨hsolver, rfl⟩
    · exact absurd ⟨hstake, txout, vch, keyID, key, hout, hsolver, hkeyID, hkey, hvalid⟩ hnot
    · rw [checkBlockSignature_signed curve block hstake hout hsolver (Or.inl rfl),
        checkWith_of_sign block hcorrect (hmatch txout vch key hout hsolver hkey)]

end CBlock

namespace SigningExample

/-- A curve with a single key pair, which signs everything with one byte. -/
def curve : Curve Unit where
  hash160 _ := 7
  getPubKey _ := CPubKey.set (2 :: List.replicate 32 1)
  ecdsaSign _ _ := [1]
  ecdsaVerify _ _ vchSig := vchSig == [1]

/-- The key is found under the identifier of its public key and under the hash below. -/
def keystore : CKeyStore Unit := fun _ => some { fValid := true, vch := () }

def payToPubKey : CScript := 33 :: 2 :: List.replicate 32 1 ++ [0xac]

def payToPubKeyHash : CScript := [0x76, 0xa9, 20] ++ List.replicate 20 0 ++ [0x88, 0xac]

def coinStake (scriptPubKey : CScript) : CTransaction where
  hash := 2
  nVersion := 1
  vin := [{ prevout := { hash := 9, n := 0 }, scriptSig := [], nSequence := 0 }]
  vout := [CTxOut.make 0 [], CTxOut.make COIN scriptPubKey]
  nLockTime := 0

def coinBase : CTransaction where
  hash := 1
  nVersion := 1
  vin := [{ prevout := { hash := 0, n := COutPoint.maxUInt32 }, scriptSig := [], nSequence := 0 }]
  vout := [CTxOut.make 0 []]
  nLockTime := 0

theorem hash_ne_zero : (8 : UInt256) ≠ 0 := by
  decide

def stakeBlock (scriptPubKey : CScript) : CBlock where
  hash := ⟨8, hash_ne_zero⟩
  nVersion := 3
  hashPrevBlock := 7
  hashMerkleRoot := 0
  nTime := 1700000000
  nBits := 0
  nNonce := 0
  vtx := [coinBase, coinStake scriptPubKey]
  vchBlockSig := []

theorem correct : curve.Correct := by
  constructor
  · intro _
    change (CPubKey.set (2 :: List.replicate 32 1)).isValid = true
    decide
  · intro _ _
    rfl
  · intro _ _
    rfl

theorem matchingKey (scriptPubKey : CScript)
    (h : forall vch, solver scriptPubKey = some (TxnOutType.pubKey, [vch]) ->
      CPubKey.set vch = curve.getPubKey ()) :
    CBlock.MatchingKey curve keystore (stakeBlock scriptPubKey) := by
  intro txout vch key hout hsolver _
  cases hout
  exact (h vch hsolver).symm

theorem matchingKey_pubKey :
    CBlock.MatchingKey curve keystore (stakeBlock payToPubKey) := by
  apply matchingKey
  intro vch h
  have hsolver : solver payToPubKey = some (TxnOutType.pubKey, [2 :: List.replicate 32 1]) := by
    decide +kernel
  rw [hsolver] at h
  cases h
  rfl

theorem matchingKey_pubKeyHash :
    CBlock.MatchingKey curve keystore (stakeBlock payToPubKeyHash) := by
  apply matchingKey
  intro vch h
  have hsolver : solver payToPubKeyHash =
      some (TxnOutType.pubKeyHash, [List.replicate 20 0]) := by
    decide +kernel
  rw [hsolver] at h
  cases h

end SigningExample

open SigningExample in
theorem signed_checks_pubKey :
    curve.Correct ∧ CBlock.MatchingKey curve keystore (stakeBlock payToPubKey) ∧
      ((forall signed, (stakeBlock payToPubKey).signBlock curve keystore = some (true, signed) ->
          signed.checkBlockSignature curve = some true) <->
        ¬ (stakeBlock payToPubKey).PaysHeldHash keystore) :=
  ⟨correct, matchingKey_pubKey,
    CBlock.signed_checks_iff curve keystore _ correct matchingKey_pubKey⟩

open SigningExample in
/-- The block is signed with the key whose hash it pays to, and refused. -/
theorem signed_hash_refused :
    curve.Correct ∧ CBlock.MatchingKey curve keystore (stakeBlock payToPubKeyHash) ∧
      exists signed,
        (stakeBlock payToPubKeyHash).signBlock curve keystore = some (true, signed) ∧
          signed.checkBlockSignature curve = some false := by
  refine ⟨correct, matchingKey_pubKeyHash,
    { stakeBlock payToPubKeyHash with vchBlockSig := [1] }, ?_, ?_⟩
  · decide +kernel
  · decide +kernel

end Hbcur
