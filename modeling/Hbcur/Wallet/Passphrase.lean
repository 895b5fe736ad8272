import Mathlib.Data.List.Basic

/-!
# A new passphrase

`CWallet::ChangeWalletPassphrase` of `wallet.cpp`, over the key store of `crypter.cpp`.  It locks
the wallet, looks for a master key which the old passphrase opens and encrypts it anew.
-/

namespace Hbcur
namespace Passphrase

def WALLET_CRYPTO_KEY_SIZE : Nat := 32
def WALLET_CRYPTO_SALT_SIZE : Nat := 8

/-- The calls of the cipher, by the position of the master key they are made for. -/
inductive Call where
  | oldPassphrase (i : Nat)
  | newPassphrase (i : Nat)
  /-- For the encrypted key at position `j`, with the master key at position `i`. -/
  | cryptedKey (i j : Nat)

/-- What `SetKeyFromPassphrase` or `SetKey` leaves in a `CCrypter`. -/
structure CrypterKey where
  chKey : List UInt8
  chIV : List UInt8

/-- The library functions, any call of which may fail, and the clock. -/
structure CrypterEnv where
  /-- `EVP_BytesToKey`, if it gives a key of the right size. -/
  bytesToKey : Call -> List UInt8 -> List UInt8 -> Nat -> Option CrypterKey
  decrypt : Call -> CrypterKey -> List UInt8 -> Option (List UInt8)
  /-- Whether it succeeds, and the ciphertext or what is left in its place. -/
  encrypt : Call -> CrypterKey -> List UInt8 -> Bool × List UInt8
  pubKeyHash : List UInt8 -> List UInt8
  /-- The public key of a secret, if that is a valid one. -/
  getPubKey : List UInt8 -> Bool -> Option (List UInt8)
  /-- The milliseconds which the two trial derivations take. -/
  elapsed : Nat -> Int × Int
  /-- `n * (100 / (double)t)` -/
  scaled : Nat -> Int -> Nat
  /-- `(n + n * 100 / (double)t) / 2` -/
  averaged : Nat -> Int -> Nat

structure CMasterKey where
  vchCryptedKey : List UInt8
  vchSalt : List UInt8
  nDerivationMethod : Nat
  nDeriveIterations : Nat
  vchOtherDerivationParameters : List UInt8
  deriving DecidableEq

def setKeyFromPassphrase (env : CrypterEnv) (call : Call) (strKeyData chSalt : List UInt8)
    (nRounds nDerivationMethod : Nat) : Option CrypterKey :=
  if nRounds < 1 ∨ chSalt.length ≠ WALLET_CRYPTO_SALT_SIZE then none
  else if nDerivationMethod = 0 then env.bytesToKey call strKeyData chSalt nRounds
  else none

/-!
# The key store
-/

structure CCryptoKeyStore where
  mapKeys : List (List UInt8)
  /-- The public keys with the encrypted secrets. -/
  mapCryptedKeys : List (List UInt8 × List UInt8)
  vMasterKey : List UInt8
  fUseCrypto : Bool
  fDecryptionThoroughlyChecked : Bool

namespace CCryptoKeyStore

def isLocked (store : CCryptoKeyStore) : Bool :=
  if !store.fUseCrypto then false else store.vMasterKey.isEmpty

def setCrypted (store : CCryptoKeyStore) : Bool × CCryptoKeyStore :=
  if store.fUseCrypto then (true, store)
  else if !store.mapKeys.isEmpty then (false, store)
  else (true, { store with fUseCrypto := true })

def lock (store : CCryptoKeyStore) : Bool × CCryptoKeyStore :=
  if !store.setCrypted.1 then (false, store.setCrypted.2)
  else (true, { store.setCrypted.2 with vMasterKey := [] })

/-- Whether one key decrypts; `none` if the secret is not a valid key, which is asserted. -/
def decryptsKey (env : CrypterEnv) (call : Call) (vMasterKeyIn : List UInt8)
    (vchPubKey vchCryptedSecret : List UInt8) : Option Bool :=
  if vMasterKeyIn.length ≠ WALLET_CRYPTO_KEY_SIZE then some false
  else
    match env.decrypt call ⟨vMasterKeyIn, env.pubKeyHash vchPubKey⟩ vchCryptedSecret with
    | none => some false
    | some vchSecret =>
        if vchSecret.length ≠ 32 then some false
        else (env.getPubKey vchSecret (vchPubKey.length == 33)).map fun pubKey => pubKey == vchPubKey

/-- The loop of `Unlock`, which answers `keyPass` and `keyFail`. -/
def checkKeys (env : CrypterEnv) (i : Nat) (vMasterKeyIn : List UInt8)
    (fDecryptionThoroughlyChecked : Bool) :
    Nat -> List (List UInt8 × List UInt8) -> Bool -> Option (Bool × Bool)
  | _, [], keyPass => some (keyPass, false)
  | j, (vchPubKey, vchCryptedSecret) :: rest, keyPass =>
      match decryptsKey env (Call.cryptedKey i j) vMasterKeyIn vchPubKey vchCryptedSecret with
      | none => none
      | some false => some (keyPass, true)
      | some true =>
          if fDecryptionThoroughlyChecked then some (true, false)
          else checkKeys env i vMasterKeyIn fDecryptionThoroughlyChecked (j + 1) rest true

/-- `Unlock` with what the master key at position `i` decrypts to; `none` if an assertion fails. -/
def unlock (env : CrypterEnv) (i : Nat) (vMasterKeyIn : List UInt8) (store : CCryptoKeyStore) :
    Option (Bool × CCryptoKeyStore) :=
  let store' := store.setCrypted.2
  if !store.setCrypted.1 then some (false, store')
  else
    match checkKeys env i vMasterKeyIn store'.fDecryptionThoroughlyChecked 0
        store'.mapCryptedKeys false with
    | none => none
    | some (keyPass, keyFail) =>
        if keyPass && keyFail then none
        else if keyFail || !keyPass then some (false, store')
        else
          some (true,
            { store' with vMasterKey := vMasterKeyIn, fDecryptionThoroughlyChecked := true })

end CCryptoKeyStore

/-!
# The wallet
-/

structure CWallet extends CCryptoKeyStore where
  /-- In the order of the map. -/
  mapMasterKeys : List (Nat × CMasterKey)
  /-- What `WriteMasterKey` has put into the file of the wallet. -/
  written : List (Nat × CMasterKey)

/-- The number of iterations which takes about a tenth of a second. -/
def calibrated (env : CrypterEnv) (i nDeriveIterations : Nat) : Nat :=
  let nFirst := env.scaled nDeriveIterations (env.elapsed i).1
  let nSecond := env.averaged nFirst (env.elapsed i).2
  if nSecond < 25000 then 25000 else nSecond

namespace CWallet

def setMasterKey (wallet : CWallet) (i nID : Nat) (masterKey : CMasterKey) : CWallet :=
  { wallet with mapMasterKeys := wallet.mapMasterKeys.set i (nID, masterKey) }

def lock (wallet : CWallet) : CWallet :=
  { wallet with toCCryptoKeyStore := wallet.toCCryptoKeyStore.lock.2 }

/-- What is done once the wallet is unlocked by a master key. -/
def rekey (env : CrypterEnv) (strNewWalletPassphrase : List UInt8) (fWasLocked : Bool)
    (i nID : Nat) (masterKey : CMasterKey) (vMasterKey : List UInt8) (wallet : CWallet) :
    Bool × CWallet :=
  let nDeriveIterations := calibrated env i masterKey.nDeriveIterations
  let derived := { masterKey with nDeriveIterations := nDeriveIterations }
  match setKeyFromPassphrase env (Call.newPassphrase i) strNewWalletPassphrase derived.vchSalt
      nDeriveIterations derived.nDerivationMethod with
  | none => (false, wallet.setMasterKey i nID derived)
  | some crypter =>
      let encrypted := env.encrypt (Call.newPassphrase i) crypter vMasterKey
      let rekeyed := { derived with vchCryptedKey := encrypted.2 }
      if !encrypted.1 then (false, wallet.setMasterKey i nID rekeyed)
      else
        let wallet' :=
          { wallet.setMasterKey i nID rekeyed with written := wallet.written ++ [(nID, rekeyed)] }
        (true, if fWasLocked then wallet'.lock else wallet')

/-- The loop over the master keys from position `i` on. -/
def changeLoop (env : CrypterEnv) (strOldWalletPassphrase strNewWalletPassphrase : List UInt8)
    (fWasLocked : Bool) : Nat -> List (Nat × CMasterKey) -> CWallet -> Option (Bool × CWallet)
  | _, [], wallet => some (false, wallet)
  | i, (nID, masterKey) :: rest, wallet =>
      match setKeyFromPassphrase env (Call.oldPassphrase i) strOldWalletPassphrase
          masterKey.vchSalt masterKey.nDeriveIterations masterKey.nDerivationMethod with
      | none => some (false, wallet)
      | some crypter =>
          match env.decrypt (Call.oldPassphrase i) crypter masterKey.vchCryptedKey with
          | none => some (false, wallet)
          | some vMasterKey =>
              match wallet.unlock env i vMasterKey with
              | none => none
              | some (false, store) =>
                  changeLoop env strOldWalletPassphrase strNewWalletPassphrase fWasLocked (i + 1)
                    rest { wallet with toCCryptoKeyStore := store }
              | some (true, store) =>
                  some (rekey env strNewWalletPassphrase fWasLocked i nID masterKey vMasterKey
                    { wallet with toCCryptoKeyStore := store })

/-- `none` if an assertion fails on the way. -/
def changeWalletPassphrase (env : CrypterEnv)
    (strOldWalletPassphrase strNewWalletPassphrase : List UInt8) (wallet : CWallet) :
    Option (Bool × CWallet) :=
  changeLoop env strOldWalletPassphrase strNewWalletPassphrase wallet.isLocked 0
    wallet.mapMasterKeys wallet.lock

end CWallet

/-!
# Locking
-/

namespace CCryptoKeyStore

variable {store : CCryptoKeyStore}

/-- `Lock` succeeds. -/
def canLock (store : CCryptoKeyStore) : Bool := store.fUseCrypto || store.mapKeys.isEmpty

/-- Once `Lock` has been called, nothing changes about the encryption. -/
theorem setCrypted_lock (store : CCryptoKeyStore) :
    store.lock.2.setCrypted = (store.canLock, store.lock.2) := by
  rcases store with ⟨mapKeys, mapCryptedKeys, vMasterKey, fUseCrypto, fChecked⟩
  cases fUseCrypto <;> cases mapKeys <;> rfl

theorem isLocked_lock (store : CCryptoKeyStore) : store.lock.2.isLocked = store.canLock := by
  rcases store with ⟨mapKeys, mapCryptedKeys, vMasterKey, fUseCrypto, fChecked⟩
  cases fUseCrypto <;> cases mapKeys <;> rfl

variable {env : CrypterEnv} {i : Nat} {vMasterKeyIn : List UInt8} {store store' : CCryptoKeyStore}

theorem canLock_of_isLocked (h : store.isLocked = true) : store.canLock = true := by
  unfold isLocked at h
  unfold canLock
  cases hcrypto : store.fUseCrypto with
  | true => rfl
  | false =>
      rw [hcrypto] at h
      cases h

/-- A key of another size fails on the first encrypted key. -/
theorem length_of_checkKeys {fChecked : Bool} {j : Nat} {keys : List (List UInt8 × List UInt8)}
    (h : checkKeys env i vMasterKeyIn fChecked j keys false = some (true, false)) :
    vMasterKeyIn.length = WALLET_CRYPTO_KEY_SIZE := by
  by_contra hsize
  cases keys with
  | nil => cases h
  | cons key rest =>
      have hfail : forall call, decryptsKey env call vMasterKeyIn key.1 key.2 = some false :=
        fun call => if_pos hsize
      rw [checkKeys, hfail] at h
      cases h

/-- An attempt to unlock which fails leaves the store as `SetCrypted` does. -/
theorem eq_of_unlock_false (h : unlock env i vMasterKeyIn store = some (false, store')) :
    store' = store.setCrypted.2 := by
  unfold unlock at h
  dsimp only at h
  split at h
  · cases h
    rfl
  · split at h
    · cases h
    · split at h
      · cases h
      · split at h
        · cases h
          rfl
        · cases h

/-- A store which is unlocked has a key. -/
theorem isLocked_of_unlock_true (h : unlock env i vMasterKeyIn store = some (true, store')) :
    store'.isLocked = false := by
  unfold unlock at h
  dsimp only at h
  split at h
  · cases h
  · split at h
    · cases h
    · case h_2 keyPass keyFail hkeys =>
        cases keyPass with
        | false => cases keyFail <;> cases h
        | true =>
            cases keyFail with
            | true => cases h
            | false =>
                have hlength := length_of_checkKeys hkeys
                cases h
                unfold isLocked
                cases vMasterKeyIn with
                | nil => cases hlength
                | cons byte bytes => exact ite_self false

end CCryptoKeyStore

/-!
# The master key which opens
-/

open CCryptoKeyStore

/-- What comes of trying the master keys in order. -/
inductive Tried where
  | refused
  | aborted
  | opened (i nID : Nat) (masterKey : CMasterKey) (vMasterKey : List UInt8)

/--
The first master key which, decrypted with the passphrase, opens the store.  The search ends at one
which cannot be decrypted.
-/
def findKey (env : CrypterEnv) (strPassphrase : List UInt8) (store : CCryptoKeyStore) :
    Nat -> List (Nat × CMasterKey) -> Tried
  | _, [] => Tried.refused
  | i, (nID, masterKey) :: rest =>
      match (setKeyFromPassphrase env (Call.oldPassphrase i) strPassphrase masterKey.vchSalt
          masterKey.nDeriveIterations masterKey.nDerivationMethod).bind fun crypter =>
            env.decrypt (Call.oldPassphrase i) crypter masterKey.vchCryptedKey with
      | none => Tried.refused
      | some vMasterKey =>
          match store.unlock env i vMasterKey with
          | none => Tried.aborted
          | some (false, _) => findKey env strPassphrase store (i + 1) rest
          | some (true, _) => Tried.opened i nID masterKey vMasterKey

/-- The search ends at a master key of the list with which the store unlocks. -/
theorem findKey_opened {env : CrypterEnv} {strPassphrase : List UInt8} {store : CCryptoKeyStore}
    {start i nID : Nat} {masterKeys : List (Nat × CMasterKey)} {masterKey : CMasterKey}
    {vMasterKey : List UInt8}
    (h : findKey env strPassphrase store start masterKeys =
      Tried.opened i nID masterKey vMasterKey) :
    (start ≤ i ∧ masterKeys[i - start]? = some (nID, masterKey)) ∧
      exists store', store.unlock env i vMasterKey = some (true, store') := by
  induction masterKeys generalizing start with
  | nil => cases h
  | cons entry rest ih =>
      rcases entry with ⟨nID', masterKey'⟩
      unfold findKey at h
      split at h
      · cases h
      · split at h
        · cases h
        · rcases ih h with ⟨⟨hle, hget⟩, hunlock⟩
          have hsub : i - start = (i - (start + 1)) + 1 := by omega
          refine ⟨⟨by omega, ?_⟩, hunlock⟩
          rw [hsub, List.getElem?_cons_succ]
          exact hget
        · case h_3 store' hunlock =>
            cases h
            refine ⟨⟨Nat.le_refl _, ?_⟩, store', hunlock⟩
            rw [Nat.sub_self, List.getElem?_cons_zero]

/-!
# Failed calls
-/

namespace CWallet

variable {env : CrypterEnv} {strOldWalletPassphrase strNewWalletPassphrase : List UInt8}

theorem changeLoop_eq {fWasLocked : Bool} {start : Nat} {masterKeys : List (Nat × CMasterKey)}
    {wallet : CWallet} (hcrypted : wallet.setCrypted.2 = wallet.toCCryptoKeyStore) :
    changeLoop env strOldWalletPassphrase strNewWalletPassphrase fWasLocked start masterKeys
        wallet =
      match findKey env strOldWalletPassphrase wallet.toCCryptoKeyStore start masterKeys with
      | Tried.refused => some (false, wallet)
      | Tried.aborted => none
      | Tried.opened i nID masterKey vMasterKey =>
          (wallet.unlock env i vMasterKey).map fun unlocked =>
            rekey env strNewWalletPassphrase fWasLocked i nID masterKey vMasterKey
              { wallet with toCCryptoKeyStore := unlocked.2 } := by
  induction masterKeys generalizing start with
  | nil => rfl
  | cons entry rest ih =>
      rcases entry with ⟨nID, masterKey⟩
      rw [changeLoop, findKey]
      cases setKeyFromPassphrase env (Call.oldPassphrase start) strOldWalletPassphrase
          masterKey.vchSalt masterKey.nDeriveIterations masterKey.nDerivationMethod with
      | none => rfl
      | some crypter =>
          dsimp only [Option.bind_some]
          cases env.decrypt (Call.oldPassphrase start) crypter masterKey.vchCryptedKey with
          | none => rfl
          | some vMasterKey =>
              dsimp only
              cases hunlock : wallet.unlock env start vMasterKey with
              | none => rfl
              | some unlocked =>
                  rcases unlocked with ⟨fOk, store⟩
                  cases fOk with
                  | true =>
                      dsimp only
                      rw [hunlock]
                      rfl
                  | false =>
                      have hstore := (eq_of_unlock_false hunlock).trans hcrypted
                      rw [hstore]
                      exact ih

/-- A call which returns false leaves the lock state and the master keys as they were. -/
def FailureChangesNothing (env : CrypterEnv)
    (strOldWalletPassphrase strNewWalletPassphrase : List UInt8) (wallet : CWallet) : Prop :=
  forall wallet',
    changeWalletPassphrase env strOldWalletPassphrase strNewWalletPassphrase wallet =
      some (false, wallet') ->
    wallet'.isLocked = wallet.isLocked ∧ wallet'.mapMasterKeys = wallet.mapMasterKeys

/--
Without a master key that opens, the wallet was locked before or cannot be locked.  With one, the
new passphrase can be derived and the master key encrypted, or the wallet was unlocked before and
neither the number of iterations nor the ciphertext comes out different.
-/
def LeavesUnchanged (env : CrypterEnv)
    (strOldWalletPassphrase strNewWalletPassphrase : List UInt8) (wallet : CWallet) : Prop :=
  match findKey env strOldWalletPassphrase wallet.lock.toCCryptoKeyStore 0
      wallet.mapMasterKeys with
  | Tried.refused => wallet.isLocked = true ∨ wallet.canLock = false
  | Tried.aborted => True
  | Tried.opened i _ masterKey vMasterKey =>
      match setKeyFromPassphrase env (Call.newPassphrase i) strNewWalletPassphrase
          masterKey.vchSalt (calibrated env i masterKey.nDeriveIterations)
          masterKey.nDerivationMethod with
      | none =>
          wallet.isLocked = false ∧
            calibrated env i masterKey.nDeriveIterations = masterKey.nDeriveIterations
      | some crypter =>
          (env.encrypt (Call.newPassphrase i) crypter vMasterKey).1 = true ∨
            wallet.isLocked = false ∧
              calibrated env i masterKey.nDeriveIterations = masterKey.nDeriveIterations ∧
              (env.encrypt (Call.newPassphrase i) crypter vMasterKey).2 = masterKey.vchCryptedKey

theorem mapMasterKeys_set_eq_iff {masterKeys : List (Nat × CMasterKey)} {i nID : Nat}
    {masterKey masterKey' : CMasterKey} (h : masterKeys[i]? = some (nID, masterKey)) :
    masterKeys.set i (nID, masterKey') = masterKeys <-> masterKey' = masterKey := by
  rcases List.getElem?_eq_some_iff.mp h with ⟨hi, hget⟩
  constructor
  · intro heq
    have hset := List.getElem?_set_self (a := (nID, masterKey')) hi
    rw [heq, h] at hset
    cases hset
    rfl
  · rintro rfl
    rw [← hget, List.set_getElem_self]

theorem forall_returned_iff {P : CWallet -> Prop} (wallet : CWallet) :
    (forall wallet', some (false, wallet) = some (false, wallet') -> P wallet') <-> P wallet := by
  constructor
  · exact fun h => h wallet rfl
  · intro h wallet' heq
    cases heq
    exact h

theorem isLocked_lock_eq_iff (wallet : CWallet) :
    wallet.lock.isLocked = wallet.isLocked <->
      wallet.isLocked = true ∨ wallet.canLock = false := by
  have hlocked : wallet.lock.isLocked = wallet.canLock := isLocked_lock wallet.toCCryptoKeyStore
  rw [hlocked]
  cases hwas : wallet.isLocked with
  | true => exact iff_of_true (canLock_of_isLocked hwas) (Or.inl rfl)
  | false =>
      constructor
      · exact Or.inr
      · rintro (hnot | hcan)
        · cases hnot
        · exact hcan

/-- A wallet which was unlocked, with one master key replaced. -/
theorem setMasterKey_unchanged_iff {wallet opened : CWallet} {i nID : Nat}
    {masterKey masterKey' : CMasterKey} (hopen : opened.isLocked = false)
    (hkeys : opened.mapMasterKeys = wallet.mapMasterKeys)
    (hget : wallet.mapMasterKeys[i]? = some (nID, masterKey)) :
    ((opened.setMasterKey i nID masterKey').isLocked = wallet.isLocked ∧
        (opened.setMasterKey i nID masterKey').mapMasterKeys = wallet.mapMasterKeys) <->
      wallet.isLocked = false ∧ masterKey' = masterKey := by
  have hset : (opened.setMasterKey i nID masterKey').mapMasterKeys =
      wallet.mapMasterKeys.set i (nID, masterKey') := by
    rw [← hkeys]
    rfl
  have hlocked : (opened.setMasterKey i nID masterKey').isLocked = false := hopen
  rw [hset, hlocked, mapMasterKeys_set_eq_iff hget, eq_comm]

/-- When a call which fails has changed nothing. -/
theorem failureChangesNothing_iff (env : CrypterEnv)
    (strOldWalletPassphrase strNewWalletPassphrase : List UInt8) (wallet : CWallet) :
    FailureChangesNothing env strOldWalletPassphrase strNewWalletPassphrase wallet <->
      LeavesUnchanged env strOldWalletPassphrase strNewWalletPassphrase wallet := by
  have hcrypted : wallet.lock.setCrypted.2 = wallet.lock.toCCryptoKeyStore :=
    (congrArg Prod.snd (setCrypted_lock wallet.toCCryptoKeyStore)).trans rfl
  unfold FailureChangesNothing LeavesUnchanged changeWalletPassphrase
  rw [changeLoop_eq hcrypted]
  cases hfind : findKey env strOldWalletPassphrase wallet.lock.toCCryptoKeyStore 0
      wallet.mapMasterKeys with
  | refused =>
      refine (forall_returned_iff wallet.lock).trans ?_
      exact (and_iff_left rfl).trans (isLocked_lock_eq_iff wallet)
  | aborted => exact iff_of_true (fun _ h => by cases h) trivial
  | opened i nID masterKey vMasterKey =>
      rcases findKey_opened hfind with ⟨⟨_, hget⟩, store', hunlock⟩
      have hset := fun masterKey' => @setMasterKey_unchanged_iff wallet
        { wallet.lock with toCCryptoKeyStore := store' } i nID masterKey masterKey'
        (isLocked_of_unlock_true hunlock) rfl hget
      dsimp only
      rw [hunlock, Option.map_some, rekey]
      dsimp only
      cases setKeyFromPassphrase env (Call.newPassphrase i) strNewWalletPassphrase
          masterKey.vchSalt (calibrated env i masterKey.nDeriveIterations)
          masterKey.nDerivationMethod with
      | none =>
          refine (forall_returned_iff _).trans ((hset _).trans (and_congr_right fun _ => ?_))
          constructor
          · exact congrArg CMasterKey.nDeriveIterations
          · intro hcount
            rw [hcount]
      | some crypter =>
          dsimp only
          rcases env.encrypt (Call.newPassphrase i) crypter vMasterKey with ⟨fOk, vchCryptedKey⟩
          cases fOk with
          | true => exact iff_of_true (fun _ h => by cases h) (Or.inl rfl)
          | false =>
              refine (forall_returned_iff _).trans ((hset _).trans
                (Iff.trans (and_congr_right fun _ => ?_) (or_iff_right Bool.false_ne_true).symm))
              constructor
              · intro hkey
                exact ⟨congrArg CMasterKey.nDeriveIterations hkey,
                  congrArg CMasterKey.vchCryptedKey hkey⟩
              · rintro ⟨hcount, htext⟩
                dsimp only at htext
                rw [hcount, htext]

end CWallet

/-!
# A mistyped passphrase
-/

namespace PassphraseExample

/-- A cipher that checks the key and leaves the text as it is. -/
def env : CrypterEnv where
  bytesToKey := fun _ strKeyData _ _ => some ⟨strKeyData, []⟩
  decrypt := fun _ crypter vchCiphertext =>
    if crypter.chKey = [1] then some vchCiphertext else none
  encrypt := fun _ _ vchPlaintext => (true, vchPlaintext)
  pubKeyHash := fun vchPubKey => vchPubKey
  getPubKey := fun vchSecret _ => some vchSecret
  elapsed := fun _ => (100, 100)
  scaled := fun n _ => n
  averaged := fun n _ => n

/-- An unlocked wallet with one master key, under the passphrase `[1]`. -/
def wallet : CWallet where
  mapKeys := []
  mapCryptedKeys := []
  vMasterKey := List.replicate 32 7
  fUseCrypto := true
  fDecryptionThoroughlyChecked := true
  mapMasterKeys := [(1, ⟨List.replicate 48 7, List.replicate 8 0, 0, 25000, []⟩)]
  written := []

/-- The wrong passphrase is refused and the wallet stays locked. -/
theorem locked_by_failure : ¬ CWallet.FailureChangesNothing env [2] [3] wallet := by
  intro h
  have hsame := (h wallet.lock rfl).1
  revert hsame
  decide

end PassphraseExample

end Passphrase
end Hbcur
