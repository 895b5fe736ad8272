import Hbcur.Serialize.CompressedAmount

/-!
# Compressed scripts

`CScriptCompressor` of `compressor.h`: common scripts are stored as a hash or a key.
-/

namespace Hbcur
namespace Serialize

open Foundation

/-!
# Scripts

Validity of a full public key and the recovery of one from its compressed form
are left to the curve library, which recovers a valid key from its abscissa and
the parity of its ordinate.
-/

def OP_DUP : UInt8 := 0x76
def OP_EQUAL : UInt8 := 0x87
def OP_EQUALVERIFY : UInt8 := 0x88
def OP_HASH160 : UInt8 := 0xa9
def OP_CHECKSIG : UInt8 := 0xac

structure PubKeyOps where
  isFullyValid : List UInt8 -> Bool
  decompress : List UInt8 -> Option (List UInt8)
  decompress_valid : forall (x y : List UInt8) (parity : UInt8), x.length = 32 ->
    y.length = 31 -> isFullyValid (4 :: x ++ (y ++ [parity])) = true ->
    decompress ((2 + (parity &&& 1)) :: x) = some (4 :: x ++ (y ++ [parity]))

def nSpecialScripts : Nat := 6

/-- The bytes from position `start` on, `count` of them. -/
def slice (start count : Nat) (script : CScript) : List UInt8 :=
  (script.drop start).take count

def isToKeyID (script : CScript) : Option (List UInt8) :=
  if script.length = 25 ∧ slice 0 3 script = [OP_DUP, OP_HASH160, 20] ∧
      slice 23 2 script = [OP_EQUALVERIFY, OP_CHECKSIG] then
    some (slice 3 20 script)
  else none

def isToScriptID (script : CScript) : Option (List UInt8) :=
  if script.length = 23 ∧ slice 0 2 script = [OP_HASH160, 20] ∧
      slice 22 1 script = [OP_EQUAL] then
    some (slice 2 20 script)
  else none

def isToPubKey (ops : PubKeyOps) (script : CScript) : Option (List UInt8) :=
  if script.length = 35 ∧ slice 0 1 script = [33] ∧ slice 34 1 script = [OP_CHECKSIG] ∧
      (slice 1 1 script = [2] ∨ slice 1 1 script = [3]) then
    some (slice 1 33 script)
  else if script.length = 67 ∧ slice 0 1 script = [65] ∧
      slice 66 1 script = [OP_CHECKSIG] ∧ slice 1 1 script = [4] then
    if ops.isFullyValid (slice 1 65 script) then some (slice 1 65 script) else none
  else none

/-- The special encoding of a script, if it has one. -/
def compress (ops : PubKeyOps) (script : CScript) : Option (List UInt8) :=
  match isToKeyID script with
  | some keyID => some (0 :: keyID)
  | none =>
      match isToScriptID script with
      | some scriptID => some (1 :: scriptID)
      | none =>
          match isToPubKey ops script with
          | none => none
          | some pubkey =>
              if slice 0 1 pubkey = [2] ∨ slice 0 1 pubkey = [3] then
                some (slice 0 1 pubkey ++ slice 1 32 pubkey)
              else if slice 0 1 pubkey = [4] then
                some ((4 ||| (pubkey.getD 64 0 &&& 1)) :: slice 1 32 pubkey)
              else none

def getSpecialSize (nSize : Nat) : Nat :=
  if nSize = 0 ∨ nSize = 1 then 20
  else if nSize = 2 ∨ nSize = 3 ∨ nSize = 4 ∨ nSize = 5 then 32
  else 0

def decompress (ops : PubKeyOps) (nSize : Nat) (vch : List UInt8) : Option CScript :=
  match nSize with
  | 0 => some ([OP_DUP, OP_HASH160, 20] ++ vch ++ [OP_EQUALVERIFY, OP_CHECKSIG])
  | 1 => some ([OP_HASH160, 20] ++ vch ++ [OP_EQUAL])
  | 2 => some ([33, 2] ++ vch ++ [OP_CHECKSIG])
  | 3 => some ([33, 3] ++ vch ++ [OP_CHECKSIG])
  | 4 => (ops.decompress (2 :: vch)).map fun pubkey => [65] ++ pubkey ++ [OP_CHECKSIG]
  | 5 => (ops.decompress (3 :: vch)).map fun pubkey => [65] ++ pubkey ++ [OP_CHECKSIG]
  | _ => none

def writeScript (ops : PubKeyOps) (script : CScript) : List UInt8 :=
  match compress ops script with
  | some compr => compr
  | none => writeVarInt (wrapUInt32 (script.length + nSpecialScripts)) ++ script

/-- Reading into a fresh output, whose script is empty when `Decompress` fails. -/
def readScript (ops : PubKeyOps) (bytes : List UInt8) : Option (CScript × List UInt8) :=
  match readVarInt wrapUInt32 bytes with
  | none => none
  | some (nSize, rest) =>
      if nSize < nSpecialScripts then
        match readExactly (getSpecialSize nSize.toNat) rest with
        | none => none
        | some (vch, rest') => some ((decompress ops nSize.toNat vch).getD [], rest')
      else readExactly (nSize - nSpecialScripts).toNat rest

/-!
# Special forms

The six scripts with a code of their own, and what follows the code.
-/

inductive SpecialForm (ops : PubKeyOps) : UInt8 -> List UInt8 -> CScript -> Prop where
  | keyID {vch : List UInt8} (hvch : vch.length = 20) :
      SpecialForm ops 0 vch ([OP_DUP, OP_HASH160, 20] ++ vch ++ [OP_EQUALVERIFY, OP_CHECKSIG])
  | scriptID {vch : List UInt8} (hvch : vch.length = 20) :
      SpecialForm ops 1 vch ([OP_HASH160, 20] ++ vch ++ [OP_EQUAL])
  | evenKey {vch : List UInt8} (hvch : vch.length = 32) :
      SpecialForm ops 2 vch ([33, 2] ++ vch ++ [OP_CHECKSIG])
  | oddKey {vch : List UInt8} (hvch : vch.length = 32) :
      SpecialForm ops 3 vch ([33, 3] ++ vch ++ [OP_CHECKSIG])
  | evenFullKey {vch y : List UInt8} {parity : UInt8} (hvch : vch.length = 32)
      (hy : y.length = 31) (hparity : parity &&& 1 = 0)
      (hvalid : ops.isFullyValid (4 :: vch ++ (y ++ [parity])) = true) :
      SpecialForm ops 4 vch ([65] ++ (4 :: vch ++ (y ++ [parity])) ++ [OP_CHECKSIG])
  | oddFullKey {vch y : List UInt8} {parity : UInt8} (hvch : vch.length = 32)
      (hy : y.length = 31) (hparity : parity &&& 1 = 1)
      (hvalid : ops.isFullyValid (4 :: vch ++ (y ++ [parity])) = true) :
      SpecialForm ops 5 vch ([65] ++ (4 :: vch ++ (y ++ [parity])) ++ [OP_CHECKSIG])

theorem SpecialForm.code_lt {ops : PubKeyOps} {code : UInt8} {vch : List UInt8}
    {script : CScript} (h : SpecialForm ops code vch script) : code.toNat < 6 := by
  cases h <;> decide

theorem SpecialForm.length_eq {ops : PubKeyOps} {code : UInt8} {vch : List UInt8}
    {script : CScript} (h : SpecialForm ops code vch script) :
    vch.length = getSpecialSize code.toNat := by
  cases h <;> assumption

theorem SpecialForm.decompress_eq {ops : PubKeyOps} {code : UInt8} {vch : List UInt8}
    {script : CScript} (h : SpecialForm ops code vch script) :
    decompress ops code.toNat vch = some script := by
  cases h with
  | keyID hvch => rfl
  | scriptID hvch => rfl
  | evenKey hvch => rfl
  | oddKey hvch => rfl
  | evenFullKey hvch hy hparity hvalid =>
      have hrecover := ops.decompress_valid vch _ _ hvch hy hvalid
      rw [hparity] at hrecover
      exact congrArg (Option.map _) hrecover
  | oddFullKey hvch hy hparity hvalid =>
      have hrecover := ops.decompress_valid vch _ _ hvch hy hvalid
      rw [hparity] at hrecover
      exact congrArg (Option.map _) hrecover

/-!
# Slices
-/

theorem length_slice {start count : Nat} {script : CScript}
    (h : start + count ≤ script.length) : (slice start count script).length = count := by
  unfold slice
  rw [List.length_take, List.length_drop]
  omega

/-- A script of known length is the concatenation of three slices. -/
theorem eq_slices {script : CScript} {a b c : Nat} (h : script.length = a + b + c) :
    script = slice 0 a script ++ slice a b script ++ slice (a + b) c script := by
  have hlast : slice (a + b) c script = script.drop (a + b) := by
    unfold slice
    apply List.take_of_length_le
    rw [List.length_drop]
    omega
  have hfirst : slice 0 a script = script.take a := by
    unfold slice
    rw [List.drop_zero]
  rw [hfirst, hlast, slice, ← List.drop_drop, List.append_assoc, List.take_append_drop,
    List.take_append_drop]

theorem slice_slice {script : CScript} {a b c d : Nat} (h : c + d ≤ b) :
    slice c d (slice a b script) = slice (a + c) d script := by
  unfold slice
  rw [List.drop_take, List.drop_drop, List.take_take, Nat.min_eq_left (by omega)]

/-- The slice between what comes before it and what comes after it. -/
theorem slice_append (u v w : List UInt8) : slice u.length v.length (u ++ v ++ w) = v := by
  unfold slice
  rw [List.append_assoc, List.drop_left, List.take_left]

theorem slice_append_of_length {u v : List UInt8} {start count : Nat} (hu : u.length = start)
    (hv : v.length = count) (w : List UInt8) : slice start count (u ++ v ++ w) = v := by
  rw [← hu, ← hv]
  exact slice_append u v w

/-!
# The recognisers
-/

theorem isToKeyID_eq_some_iff {script : CScript} {keyID : List UInt8} :
    isToKeyID script = some keyID <->
      keyID.length = 20 ∧
        script = [OP_DUP, OP_HASH160, 20] ++ keyID ++ [OP_EQUALVERIFY, OP_CHECKSIG] := by
  constructor
  · intro h
    unfold isToKeyID at h
    split at h
    · rename_i hform
      rcases hform with ⟨hlength, hhead, htail⟩
      cases h
      have hsplit := eq_slices (show script.length = 3 + 20 + 2 from hlength)
      rw [hhead, htail] at hsplit
      exact ⟨length_slice (by omega), hsplit⟩
    · cases h
  · intro h
    rcases h with ⟨hlength, hscript⟩
    have htail : slice 23 2 script = [OP_EQUALVERIFY, OP_CHECKSIG] := by
      rw [hscript, ← List.append_nil (_ ++ [OP_EQUALVERIFY, OP_CHECKSIG])]
      apply slice_append_of_length
      · simp [hlength]
      · rfl
    have hmiddle : slice 3 20 script = keyID := by
      rw [hscript]
      apply slice_append_of_length
      · rfl
      · exact hlength
    unfold isToKeyID
    rw [htail, hmiddle, hscript]
    exact if_pos ⟨by simp [hlength], rfl, rfl⟩

theorem isToScriptID_eq_some_iff {script : CScript} {scriptID : List UInt8} :
    isToScriptID script = some scriptID <->
      scriptID.length = 20 ∧ script = [OP_HASH160, 20] ++ scriptID ++ [OP_EQUAL] := by
  constructor
  · intro h
    unfold isToScriptID at h
    split at h
    · rename_i hform
      rcases hform with ⟨hlength, hhead, htail⟩
      cases h
      have hsplit := eq_slices (show script.length = 2 + 20 + 1 from hlength)
      rw [hhead, htail] at hsplit
      exact ⟨length_slice (by omega), hsplit⟩
    · cases h
  · intro h
    rcases h with ⟨hlength, hscript⟩
    have htail : slice 22 1 script = [OP_EQUAL] := by
      rw [hscript, ← List.append_nil (_ ++ [OP_EQUAL])]
      apply slice_append_of_length
      · simp [hlength]
      · rfl
    have hmiddle : slice 2 20 script = scriptID := by
      rw [hscript]
      apply slice_append_of_length
      · rfl
      · exact hlength
    unfold isToScriptID
    rw [htail, hmiddle, hscript]
    exact if_pos ⟨by simp [hlength], rfl, rfl⟩

/-- A key of 33 or 65 bytes, and the push of it which the script consists of. -/
inductive PaysToKey (ops : PubKeyOps) : List UInt8 -> CScript -> Prop where
  | short {code : UInt8} {x : List UInt8} (hcode : code = 2 ∨ code = 3) (hx : x.length = 32) :
      PaysToKey ops (code :: x) ([33] ++ (code :: x) ++ [OP_CHECKSIG])
  | long {xy : List UInt8} (hxy : xy.length = 64) (hvalid : ops.isFullyValid (4 :: xy) = true) :
      PaysToKey ops (4 :: xy) ([65] ++ (4 :: xy) ++ [OP_CHECKSIG])

theorem eq_cons_slice {script : List UInt8} {code : UInt8} {n : Nat}
    (hlength : script.length = n + 1) (hcode : slice 0 1 script = [code]) :
    exists rest, rest.length = n ∧ script = code :: rest := by
  cases script with
  | nil => cases hlength
  | cons c rest =>
      exists rest
      constructor
      · exact Nat.succ.inj hlength
      · cases hcode
        rfl

theorem isToPubKey_eq_some_iff {ops : PubKeyOps} {script : CScript} {pubkey : List UInt8} :
    isToPubKey ops script = some pubkey <-> PaysToKey ops pubkey script := by
  constructor
  · intro h
    unfold isToPubKey at h
    by_cases hshort : script.length = 35 ∧ slice 0 1 script = [33] ∧
        slice 34 1 script = [OP_CHECKSIG] ∧ (slice 1 1 script = [2] ∨ slice 1 1 script = [3])
    · rw [if_pos hshort] at h
      cases h
      rcases hshort with ⟨hlength, hhead, htail, hfirst⟩
      have hsplit := eq_slices (show script.length = 1 + 33 + 1 from hlength)
      rw [hhead, htail] at hsplit
      have hkey : (slice 1 33 script).length = 32 + 1 := length_slice (by omega)
      have hcode : exists code, (code = 2 ∨ code = 3) ∧ slice 0 1 (slice 1 33 script) = [code] := by
        rw [slice_slice (by omega)]
        rcases hfirst with htwo | hthree
        · exact ⟨2, Or.inl rfl, htwo⟩
        · exact ⟨3, Or.inr rfl, hthree⟩
      rcases hcode with ⟨code, hcode, hslice⟩
      rcases eq_cons_slice hkey hslice with ⟨x, hx, hcons⟩
      rw [hcons] at hsplit ⊢
      rw [hsplit]
      exact PaysToKey.short hcode hx
    · rw [if_neg hshort] at h
      by_cases hlong : script.length = 67 ∧ slice 0 1 script = [65] ∧
          slice 66 1 script = [OP_CHECKSIG] ∧ slice 1 1 script = [4]
      · rw [if_pos hlong] at h
        rcases hlong with ⟨hlength, hhead, htail, hfirst⟩
        cases hvalid : ops.isFullyValid (slice 1 65 script) with
        | false =>
            rw [hvalid] at h
            cases h
        | true =>
            simp only [hvalid, if_true, Option.some.injEq] at h
            subst h
            have hsplit := eq_slices (show script.length = 1 + 65 + 1 from hlength)
            rw [hhead, htail] at hsplit
            have hkey : (slice 1 65 script).length = 64 + 1 := length_slice (by omega)
            have hslice : slice 0 1 (slice 1 65 script) = [4] := by
              rw [slice_slice (by omega)]
              exact hfirst
            rcases eq_cons_slice hkey hslice with ⟨xy, hxy, hcons⟩
            rw [hcons] at hsplit hvalid ⊢
            rw [hsplit]
            exact PaysToKey.long hxy hvalid
      · rw [if_neg hlong] at h
        cases h
  · intro h
    cases h with
    | @short code x hcode hx =>
        have htail : slice 34 1 ([33] ++ (code :: x) ++ [OP_CHECKSIG]) = [OP_CHECKSIG] := by
          rw [← List.append_nil (_ ++ [OP_CHECKSIG])]
          apply slice_append_of_length
          · simp [hx]
          · rfl
        have hmiddle : slice 1 33 ([33] ++ (code :: x) ++ [OP_CHECKSIG]) = code :: x := by
          apply slice_append_of_length
          · rfl
          · simp [hx]
        have hfirst : slice 1 1 ([33] ++ (code :: x) ++ [OP_CHECKSIG]) = [2] ∨
            slice 1 1 ([33] ++ (code :: x) ++ [OP_CHECKSIG]) = [3] := by
          rcases hcode with htwo | hthree
          · left
            rw [htwo]
            rfl
          · right
            rw [hthree]
            rfl
        unfold isToPubKey
        rw [if_pos ⟨by simp [hx], rfl, htail, hfirst⟩, hmiddle]
    | @long xy hxy hvalid =>
        have htail : slice 66 1 ([65] ++ (4 :: xy) ++ [OP_CHECKSIG]) = [OP_CHECKSIG] := by
          rw [← List.append_nil (_ ++ [OP_CHECKSIG])]
          apply slice_append_of_length
          · simp [hxy]
          · rfl
        have hmiddle : slice 1 65 ([65] ++ (4 :: xy) ++ [OP_CHECKSIG]) = 4 :: xy := by
          apply slice_append_of_length
          · rfl
          · simp [hxy]
        unfold isToPubKey
        rw [if_neg (by simp [hxy]), if_pos ⟨by simp [hxy], rfl, htail, rfl⟩, hmiddle,
          if_pos hvalid]

/-!
# The special encodings
-/

theorem isToKeyID_eq_none {script : CScript} (h : script.length ≠ 25) :
    isToKeyID script = none :=
  if_neg fun hform => h hform.1

theorem isToScriptID_eq_none {script : CScript} (h : script.length ≠ 23) :
    isToScriptID script = none :=
  if_neg fun hform => h hform.1

theorem parity_cases (parity : UInt8) : parity &&& 1 = 0 ∨ parity &&& 1 = 1 := by
  have hmod : (parity &&& 1).toNat = parity.toNat % 2 := by
    rw [UInt8.toNat_and]
    exact Nat.and_one_is_mod _
  rcases Nat.mod_two_eq_zero_or_one parity.toNat with hzero | hone
  · left
    apply UInt8.toNat_inj.mp
    rw [hmod, hzero]
    rfl
  · right
    apply UInt8.toNat_inj.mp
    rw [hmod, hone]
    rfl

/-- The encoding of a script which is neither a key hash nor a script hash. -/
theorem compress_of_isToPubKey {ops : PubKeyOps} {script : CScript}
    (hkeyID : isToKeyID script = none) (hscriptID : isToScriptID script = none)
    {pubkey : List UInt8} (hkey : isToPubKey ops script = some pubkey) :
    compress ops script =
      if slice 0 1 pubkey = [2] ∨ slice 0 1 pubkey = [3] then
        some (slice 0 1 pubkey ++ slice 1 32 pubkey)
      else if slice 0 1 pubkey = [4] then
        some ((4 ||| (pubkey.getD 64 0 &&& 1)) :: slice 1 32 pubkey)
      else none := by
  unfold compress
  rw [hkeyID, hscriptID, hkey]

theorem compress_short {ops : PubKeyOps} {code : UInt8} {x : List UInt8}
    (hcode : code = 2 ∨ code = 3) (hx : x.length = 32) :
    compress ops ([33] ++ (code :: x) ++ [OP_CHECKSIG]) = some (code :: x) := by
  have htake : slice 1 32 (code :: x) = x := by
    unfold slice
    rw [List.drop_succ_cons, List.drop_zero, List.take_of_length_le (by omega)]
  have hfirst : slice 0 1 (code :: x) = [2] ∨ slice 0 1 (code :: x) = [3] := by
    rcases hcode with htwo | hthree
    · exact Or.inl (congrArg (fun c => [c]) htwo)
    · exact Or.inr (congrArg (fun c => [c]) hthree)
  rw [compress_of_isToPubKey (isToKeyID_eq_none (by simp [hx]))
    (isToScriptID_eq_none (by simp [hx]))
    (isToPubKey_eq_some_iff.mpr (PaysToKey.short hcode hx)), if_pos hfirst, htake]
  rfl

theorem compress_long {ops : PubKeyOps} {x y : List UInt8} {parity : UInt8}
    (hx : x.length = 32) (hy : y.length = 31)
    (hvalid : ops.isFullyValid (4 :: x ++ (y ++ [parity])) = true) :
    compress ops ([65] ++ (4 :: x ++ (y ++ [parity])) ++ [OP_CHECKSIG]) =
      some ((4 ||| (parity &&& 1)) :: x) := by
  have htake : slice 1 32 (4 :: x ++ (y ++ [parity])) = x := by
    unfold slice
    rw [List.cons_append, List.drop_succ_cons, List.drop_zero, List.take_left' hx]
  have hlast : (4 :: x ++ (y ++ [parity])).getD 64 0 = parity := by
    rw [List.getD_eq_getElem?_getD, List.getElem?_append_right (by simp [hx])]
    simp [hx, hy]
  have hlength : ([65] ++ (4 :: x ++ (y ++ [parity])) ++ [OP_CHECKSIG]).length = 67 := by
    simp [hx, hy]
  have hfirst : slice 0 1 (4 :: x ++ (y ++ [parity])) = [4] := rfl
  have hkey : isToPubKey ops ([65] ++ (4 :: x ++ (y ++ [parity])) ++ [OP_CHECKSIG]) =
      some (4 :: x ++ (y ++ [parity])) :=
    isToPubKey_eq_some_iff.mpr (PaysToKey.long (by simp [hx, hy]) hvalid)
  rw [compress_of_isToPubKey (isToKeyID_eq_none (by omega)) (isToScriptID_eq_none (by omega))
    hkey, hfirst, if_neg (by decide), if_pos rfl, hlast, htake]

/-- A list of 64 bytes is an abscissa, and an ordinate with its last byte. -/
theorem exists_coordinates {xy : List UInt8} (hxy : xy.length = 64) :
    exists (x y : List UInt8) (parity : UInt8),
      x.length = 32 ∧ y.length = 31 ∧ xy = x ++ (y ++ [parity]) := by
  have hsplit := eq_slices (show xy.length = 32 + 31 + 1 from hxy)
  have hparity : exists parity, slice 63 1 xy = [parity] :=
    List.length_eq_one_iff.mp (length_slice (by omega))
  rcases hparity with ⟨parity, hparity⟩
  rw [hparity, List.append_assoc] at hsplit
  exact ⟨slice 0 32 xy, slice 32 31 xy, parity, length_slice (by omega),
    length_slice (by omega), hsplit⟩

theorem specialForm_of_paysToKey {ops : PubKeyOps} {pubkey : List UInt8} {script : CScript}
    (h : PaysToKey ops pubkey script) :
    exists code vch, SpecialForm ops code vch script ∧ compress ops script = some (code :: vch) := by
  cases h with
  | @short code x hcode hx =>
      exists code, x
      constructor
      · rcases hcode with htwo | hthree
        · subst htwo
          exact SpecialForm.evenKey hx
        · subst hthree
          exact SpecialForm.oddKey hx
      · exact compress_short hcode hx
  | @long xy hxy hvalid =>
      rcases exists_coordinates hxy with ⟨x, y, parity, hx, hy, hcoordinates⟩
      subst hcoordinates
      have hcompress := compress_long hx hy hvalid
      rcases parity_cases parity with heven | hodd
      · rw [heven] at hcompress
        exact ⟨4, x, SpecialForm.evenFullKey hx hy heven hvalid, hcompress⟩
      · rw [hodd] at hcompress
        exact ⟨5, x, SpecialForm.oddFullKey hx hy hodd hvalid, hcompress⟩

theorem SpecialForm.compress_eq {ops : PubKeyOps} {code : UInt8} {vch : List UInt8}
    {script : CScript} (h : SpecialForm ops code vch script) :
    compress ops script = some (code :: vch) := by
  cases h with
  | keyID hvch =>
      unfold compress
      rw [isToKeyID_eq_some_iff.mpr ⟨hvch, rfl⟩]
  | scriptID hvch =>
      unfold compress
      rw [isToKeyID_eq_none (by simp [hvch]), isToScriptID_eq_some_iff.mpr ⟨hvch, rfl⟩]
  | evenKey hvch => exact compress_short (Or.inl rfl) hvch
  | oddKey hvch => exact compress_short (Or.inr rfl) hvch
  | evenFullKey hvch hy hparity hvalid =>
      rw [compress_long hvch hy hvalid, hparity]
      rfl
  | oddFullKey hvch hy hparity hvalid =>
      rw [compress_long hvch hy hvalid, hparity]
      rfl

theorem compress_eq_some_iff {ops : PubKeyOps} {script : CScript} {compr : List UInt8} :
    compress ops script = some compr <->
      exists code vch, SpecialForm ops code vch script ∧ compr = code :: vch := by
  constructor
  · intro h
    cases hkey : isToKeyID script with
    | some keyID =>
        rcases isToKeyID_eq_some_iff.mp hkey with ⟨hlength, hscript⟩
        have hcompr : compress ops script = some (0 :: keyID) := by
          unfold compress
          rw [hkey]
        rw [hcompr, Option.some.injEq] at h
        rw [hscript]
        exact ⟨0, keyID, SpecialForm.keyID hlength, h.symm⟩
    | none =>
        cases hid : isToScriptID script with
        | some scriptID =>
            rcases isToScriptID_eq_some_iff.mp hid with ⟨hlength, hscript⟩
            have hcompr : compress ops script = some (1 :: scriptID) := by
              unfold compress
              rw [hkey, hid]
            rw [hcompr, Option.some.injEq] at h
            rw [hscript]
            exact ⟨1, scriptID, SpecialForm.scriptID hlength, h.symm⟩
        | none =>
            cases hpub : isToPubKey ops script with
            | none =>
                unfold compress at h
                rw [hkey, hid, hpub] at h
                cases h
            | some pubkey =>
                rcases specialForm_of_paysToKey (isToPubKey_eq_some_iff.mp hpub) with
                  ⟨code, vch, hform, hcompr⟩
                rw [hcompr, Option.some.injEq] at h
                exact ⟨code, vch, hform, h.symm⟩
  · intro h
    rcases h with ⟨code, vch, hform, hcompr⟩
    rw [hform.compress_eq, hcompr]

theorem compress_eq_none_iff {ops : PubKeyOps} {script : CScript} :
    compress ops script = none <-> forall code vch, ¬ SpecialForm ops code vch script := by
  constructor
  · intro h code vch hform
    rw [hform.compress_eq] at h
    cases h
  · intro h
    rw [Option.eq_none_iff_forall_ne_some]
    intro compr hcompr
    rcases compress_eq_some_iff.mp hcompr with ⟨code, vch, hform, _⟩
    exact h code vch hform

/-!
# Scripts read back
-/

theorem reads_code (code : UInt8) (hcode : code.toNat < 6) :
    Reads (readVarInt wrapUInt32) [code] (code.toNat : Int) := by
  intro rest
  have hmod : ((code.toNat % 128 : Nat) : Int) = code.toNat := by omega
  simp only [List.singleton_append, readVarInt, readVarIntFrom, hmod]
  rw [if_neg (by omega), show (0 : Int) * 128 + code.toNat = code.toNat by omega]
  rw [wrapUInt32_of_range _ (by omega) (by omega)]

theorem SpecialForm.reads {ops : PubKeyOps} {code : UInt8} {vch : List UInt8}
    {script : CScript} (h : SpecialForm ops code vch script) :
    Reads (readScript ops) (code :: vch) script := by
  intro rest
  have hcode := h.code_lt
  have hread := reads_code code hcode (vch ++ rest)
  have htake := reads_readExactly vch rest
  rw [h.length_eq] at htake
  unfold readScript
  rw [List.cons_append, ← List.singleton_append, hread]
  simp only [Int.toNat_natCast, htake, h.decompress_eq, Option.getD_some]
  rw [if_pos (by show (code.toNat : Int) < 6; omega)]

/-- The length of an ordinary script, with room for the six codes below it. -/
theorem reads_ordinarySize {script : CScript}
    (h : script.length + nSpecialScripts < 4294967296) :
    Reads (readVarInt wrapUInt32)
      (writeVarInt (wrapUInt32 (script.length + nSpecialScripts)))
      (script.length + nSpecialScripts) := by
  have hfits : (script.length : Int) + nSpecialScripts < 4294967296 := by omega
  rw [wrapUInt32_of_range _ (by omega) hfits]
  exact reads_writeVarInt wrapUInt32_of_range (by omega) hfits

theorem fits_of_le_maxSize {script : CScript} (h : script.length ≤ MAX_SIZE) :
    script.length + nSpecialScripts < 4294967296 := by
  have hmax : MAX_SIZE = 33554432 := rfl
  have hspecial : nSpecialScripts = 6 := rfl
  omega

theorem reads_writeScript (ops : PubKeyOps) {script : CScript}
    (h : script.length + nSpecialScripts < 4294967296) :
    Reads (readScript ops) (writeScript ops script) script := by
  unfold writeScript
  cases hcompr : compress ops script with
  | none =>
      intro rest
      have hread := reads_ordinarySize h (script ++ rest)
      simp only [List.append_assoc, readScript, hread]
      rw [if_neg (by omega)]
      rw [show ((script.length : Int) + nSpecialScripts - nSpecialScripts).toNat =
        script.length by omega]
      exact reads_readExactly script rest
  | some compr =>
      rcases compress_eq_some_iff.mp hcompr with ⟨code, vch, hform, heq⟩
      rw [heq]
      exact hform.reads

end Serialize
end Hbcur

/-!
# Compressed outputs

`CTxOutCompressor` of `compressor.h`.  The rounds of an output are not stored, so reading leaves
them at their default.
-/

namespace Hbcur
namespace Serialize

open Foundation

def writeTxOut (ops : PubKeyOps) (txout : CTxOut) : List UInt8 :=
  writeVarInt (compressAmount (wrapUInt64 txout.nValue).toNat) ++
    writeScript ops txout.scriptPubKey

def readTxOut (ops : PubKeyOps) (bytes : List UInt8) : Option (CTxOut × List UInt8) :=
  match readVarInt wrapUInt64 bytes with
  | none => none
  | some (nVal, rest) =>
      match readScript ops rest with
      | none => none
      | some (script, rest') =>
          some (CTxOut.make (wrapInt64 (decompressAmount nVal.toNat)) script, rest')

/-- What an output looks like once it has been written and read. -/
def storedTxOut (txout : CTxOut) : CTxOut :=
  CTxOut.make
    (wrapInt64 (decompressAmount (compressAmount (wrapUInt64 txout.nValue).toNat)))
    txout.scriptPubKey

theorem scriptPubKey_storedTxOut (txout : CTxOut) :
    (storedTxOut txout).scriptPubKey = txout.scriptPubKey := by
  unfold storedTxOut
  rw [CTxOut.scriptPubKey_make]

theorem compressAmount_lt (n : Nat) : compressAmount n < uint64Modulus := by
  unfold compressAmount
  by_cases hn : n = 0
  · rw [if_pos hn]
    decide
  · rw [if_neg hn]
    split
    split <;> exact Nat.mod_lt _ (by decide)

theorem reads_writeTxOut (ops : PubKeyOps) {txout : CTxOut}
    (h : txout.scriptPubKey.length + nSpecialScripts < 4294967296) :
    Reads (readTxOut ops) (writeTxOut ops txout) (storedTxOut txout) := by
  intro rest
  have hlt := compressAmount_lt (wrapUInt64 txout.nValue).toNat
  have hvalue := reads_writeVarInt wrapUInt64_of_range
    (n := compressAmount (wrapUInt64 txout.nValue).toNat) (by omega)
    (by unfold uint64Modulus at hlt; omega) (writeScript ops txout.scriptPubKey ++ rest)
  have hscript := reads_writeScript ops h rest
  simp only [readTxOut, writeTxOut, List.append_assoc, hvalue, hscript, Int.toNat_natCast]
  rfl

/-- Outputs with an amount in range and default rounds survive. -/
theorem storedTxOut_of_range {txout : CTxOut} (h0 : 0 ≤ txout.nValue)
    (h : txout.nValue < 1152921504606846976) (hrounds : txout.nRounds = -10) :
    storedTxOut txout = txout := by
  have hwrap : wrapUInt64 txout.nValue = txout.nValue :=
    wrapUInt64_of_range _ h0 (by omega)
  unfold storedTxOut CTxOut.make
  rw [hwrap, decompressAmount_compressAmount (by omega), Int.toNat_of_nonneg h0,
    wrapInt64_of_range _ (by omega) (by omega), ← hrounds]

end Serialize
end Hbcur
