import Hbcur.Serialize.CompressedScript

/-!
# Sizes

`GetSerializeSize` of numbers, scripts and outputs.  Sizes are `unsigned int` except for outputs,
whose size a `CSizeComputer` collects in a `size_t`.
-/

namespace Hbcur
namespace Serialize

open Foundation

/-!
# Numbers
-/

def getSizeOfVarInt (n : Int) : Nat :=
  if _h : n ≤ 0x7f then 1 else getSizeOfVarInt (n / 128 - 1) + 1
termination_by n.toNat
decreasing_by omega

theorem length_varIntDigits (n : Int) (continued : Bool) :
    (varIntDigits n continued).length = getSizeOfVarInt n := by
  induction n, continued using varIntDigits.induct with
  | case1 n continued hsmall =>
      rw [varIntDigits, getSizeOfVarInt, dif_pos hsmall, dif_pos hsmall]
      rfl
  | case2 n continued hlarge ih =>
      rw [varIntDigits, getSizeOfVarInt, dif_neg hlarge, dif_neg hlarge, List.length_append, ih]
      rfl

theorem length_writeVarInt (n : Int) : (writeVarInt n).length = getSizeOfVarInt n :=
  length_varIntDigits n false

/-- The least number which takes more bytes. -/
def varIntBound : Nat -> Int
  | 0 => 0
  | size + 1 => (varIntBound size + 1) * 128

theorem getSizeOfVarInt_pos (n : Int) : 0 < getSizeOfVarInt n := by
  rw [getSizeOfVarInt]
  split
  · exact Nat.one_pos
  · exact Nat.succ_pos _

theorem varIntBound_nonneg (size : Nat) : 0 ≤ varIntBound size := by
  induction size with
  | zero => exact Int.le_refl 0
  | succ size ih =>
      rw [varIntBound]
      omega

theorem getSizeOfVarInt_le_iff :
    forall (size : Nat) (n : Int), getSizeOfVarInt n ≤ size + 1 <-> n < varIntBound (size + 1) := by
  intro size
  induction size with
  | zero =>
      intro n
      have hbound : varIntBound (0 + 1) = 128 := rfl
      rw [getSizeOfVarInt, hbound]
      by_cases hsmall : n ≤ 0x7f
      · rw [dif_pos hsmall]
        constructor
        · intro _
          omega
        · intro _
          exact Nat.le_refl _
      · have hpos := getSizeOfVarInt_pos (n / 128 - 1)
        rw [dif_neg hsmall]
        constructor
        · intro hle
          omega
        · intro hlt
          omega
  | succ size ih =>
      intro n
      have hbound : varIntBound (size + 1 + 1) = (varIntBound (size + 1) + 1) * 128 := rfl
      have hnonneg := varIntBound_nonneg (size + 1)
      rw [getSizeOfVarInt, hbound]
      by_cases hsmall : n ≤ 0x7f
      · rw [dif_pos hsmall]
        constructor
        · intro _
          omega
        · intro _
          omega
      · rw [dif_neg hsmall, Nat.add_le_add_iff_right, ih]
        constructor
        · intro hlt
          omega
        · intro hlt
          omega

/-- Neither number is on the other side of a bound below 2^32. -/
def SameVarIntSize (n n' : Int) : Prop :=
  (n < 128 <-> n' < 128) ∧ (n < 16512 <-> n' < 16512) ∧ (n < 2113664 <-> n' < 2113664) ∧
    (n < 270549120 <-> n' < 270549120)

instance (n n' : Int) : Decidable (SameVarIntSize n n') :=
  inferInstanceAs (Decidable (_ ∧ _ ∧ _ ∧ _))

theorem getSizeOfVarInt_eq_iff {n n' : Int} (h : n < 4294967296) (h' : n' < 4294967296) :
    getSizeOfVarInt n = getSizeOfVarInt n' <-> SameVarIntSize n n' := by
  have hpos := getSizeOfVarInt_pos n
  have hpos' := getSizeOfVarInt_pos n'
  have hfive : getSizeOfVarInt n ≤ 4 + 1 :=
    (getSizeOfVarInt_le_iff 4 n).mpr (Int.lt_trans h (by decide))
  have hfive' : getSizeOfVarInt n' ≤ 4 + 1 :=
    (getSizeOfVarInt_le_iff 4 n').mpr (Int.lt_trans h' (by decide))
  have hone : forall m, getSizeOfVarInt m ≤ 0 + 1 <-> m < 128 := getSizeOfVarInt_le_iff 0
  have htwo : forall m, getSizeOfVarInt m ≤ 1 + 1 <-> m < 16512 := getSizeOfVarInt_le_iff 1
  have hthree : forall m, getSizeOfVarInt m ≤ 2 + 1 <-> m < 2113664 := getSizeOfVarInt_le_iff 2
  have hfour : forall m, getSizeOfVarInt m ≤ 3 + 1 <-> m < 270549120 := getSizeOfVarInt_le_iff 3
  unfold SameVarIntSize
  rw [← hone n, ← hone n', ← htwo n, ← htwo n', ← hthree n, ← hthree n', ← hfour n, ← hfour n']
  omega

/-!
# The buffer of the writer

`WriteVarInt` collects the digits in a buffer of `(sizeof(n) * 8 + 6) / 7` bytes, which it does
not clear before, and then writes them from the last one stored down.
-/

/-- The first loop, where `none` is a store past the end of the buffer. -/
def storeVarInt (n : Int) (len : Nat) (tmp : List UInt8) : Option (List UInt8 × Nat) :=
  if len < tmp.length then
    let tmp := tmp.set len (UInt8.ofNat ((n % 128).toNat + if 0 < len then 128 else 0))
    if _h : n ≤ 0x7f then some (tmp, len) else storeVarInt (n / 128 - 1) (len + 1) tmp
  else none
termination_by n.toNat
decreasing_by omega

/-- The second loop. -/
def writeDown (tmp : List UInt8) : Nat -> List UInt8
  | 0 => [tmp.getD 0 0]
  | len + 1 => tmp.getD (len + 1) 0 :: writeDown tmp len

def writeVarIntThrough (tmp : List UInt8) (n : Int) : Option (List UInt8) :=
  match storeVarInt n 0 tmp with
  | none => none
  | some (tmp, len) => some (writeDown tmp len)

theorem writeDown_eq (tmp : List UInt8) (len : Nat) (hlen : len < tmp.length) :
    writeDown tmp len = (tmp.take (len + 1)).reverse := by
  induction len with
  | zero =>
      cases tmp with
      | nil => cases hlen
      | cons byte rest => rfl
  | succ len ih =>
      rw [writeDown, ih (by omega), List.take_succ_eq_append_getElem hlen, List.reverse_append,
        List.getD_eq_getElem?_getD, List.getElem?_eq_getElem hlen]
      rfl

theorem take_set_succ {tmp : List UInt8} {len : Nat} (hlen : len < tmp.length) (byte : UInt8) :
    (tmp.set len byte).take (len + 1) = tmp.take len ++ [byte] := by
  have hset : len < (tmp.set len byte).length := by rwa [List.length_set]
  rw [List.take_succ_eq_append_getElem hset, List.getElem_set_self, List.take_set_of_le le_rfl]

/-- With room for the digits, the buffer holds them in front of those which are there already. -/
theorem storeVarInt_eq_some (n : Int) :
    forall (len : Nat) (tmp : List UInt8), len + getSizeOfVarInt n ≤ tmp.length ->
      exists tmp' len', storeVarInt n len tmp = some (tmp', len') ∧ len' < tmp'.length ∧
        (tmp'.take (len' + 1)).reverse =
          varIntDigits n (decide (0 < len)) ++ (tmp.take len).reverse := by
  induction n using getSizeOfVarInt.induct with
  | case1 n hsmall =>
      intro len tmp hroom
      rw [getSizeOfVarInt, dif_pos hsmall] at hroom
      have hlen : len < tmp.length := by omega
      rw [storeVarInt, if_pos hlen, varIntDigits, dif_pos hsmall, dif_pos hsmall]
      refine ⟨_, _, rfl, ?_, ?_⟩
      · rwa [List.length_set]
      · rw [take_set_succ hlen, List.reverse_append]
        simp only [decide_eq_true_eq]
        rfl
  | case2 n hlarge ih =>
      intro len tmp hroom
      rw [getSizeOfVarInt, dif_neg hlarge] at hroom
      have hlen : len < tmp.length := by omega
      rw [storeVarInt, if_pos hlen, varIntDigits, dif_neg hlarge, dif_neg hlarge]
      have hroom' : len + 1 + getSizeOfVarInt (n / 128 - 1) ≤
          (tmp.set len (UInt8.ofNat ((n % 128).toNat + if 0 < len then 128 else 0))).length := by
        rw [List.length_set]
        omega
      rcases ih (len + 1) _ hroom' with ⟨tmp', len', hstore, hlen', hdigits⟩
      refine ⟨tmp', len', hstore, hlen', ?_⟩
      rw [hdigits, take_set_succ hlen, List.reverse_append, List.append_assoc]
      simp only [Nat.succ_pos, decide_true, decide_eq_true_eq]
      rfl

theorem pow_le_varIntBound (size : Nat) : (128 : Int) ^ (size + 1) ≤ varIntBound (size + 1) := by
  induction size with
  | zero => decide
  | succ size ih =>
      rw [varIntBound, pow_succ]
      omega

/-- A buffer with seven bits for each byte has room for every number of the type. -/
theorem getSizeOfVarInt_le_buffer {size : Nat} (hsize : 0 < size) {n : Int}
    (hn : n < 2 ^ (8 * size)) : getSizeOfVarInt n ≤ (size * 8 + 6) / 7 := by
  obtain ⟨count, hcount⟩ : exists count, (size * 8 + 6) / 7 = count + 1 :=
    ⟨(size * 8 + 6) / 7 - 1, by omega⟩
  rw [hcount]
  apply (getSizeOfVarInt_le_iff count n).mpr
  have hbits : 8 * size ≤ 7 * (count + 1) := by omega
  calc n < 2 ^ (8 * size) := hn
    _ ≤ 2 ^ (7 * (count + 1)) := pow_le_pow_right₀ (by decide) hbits
    _ = 128 ^ (count + 1) := pow_mul 2 7 (count + 1)
    _ ≤ varIntBound (count + 1) := pow_le_varIntBound count

theorem writeVarIntThrough_eq {size : Nat} (hsize : 0 < size) {n : Int} (hn : n < 2 ^ (8 * size))
    {tmp : List UInt8} (htmp : tmp.length = (size * 8 + 6) / 7) :
    writeVarIntThrough tmp n = some (writeVarInt n) := by
  have hroom : 0 + getSizeOfVarInt n ≤ tmp.length := by
    rw [Nat.zero_add, htmp]
    exact getSizeOfVarInt_le_buffer hsize hn
  rcases storeVarInt_eq_some n 0 tmp hroom with ⟨tmp', len', hstore, hlen', hdigits⟩
  rw [writeVarIntThrough, hstore]
  simp only
  rw [writeDown_eq tmp' len' hlen', hdigits, List.take_zero, List.reverse_nil, List.append_nil]
  rfl

/-- What is written for one number does not begin what is written for another one. -/
theorem not_prefix_writeVarInt {wrap : Int -> Int} {bound : Int}
    (hwrap : forall m, 0 ≤ m -> m < bound -> wrap m = m) {n n' : Int} (hn : 0 ≤ n)
    (hbound : n < bound) (hn' : 0 ≤ n') (hbound' : n' < bound) (hne : n ≠ n') :
    ¬ writeVarInt n <+: writeVarInt n' := by
  rintro ⟨rest, hrest⟩
  have hread := reads_writeVarInt hwrap hn hbound rest
  have hread' := reads_writeVarInt hwrap hn' hbound' []
  rw [List.append_nil, ← hrest, hread, Option.some.injEq, Prod.mk.injEq] at hread'
  exact hne hread'.1

/-- `VARINT` for the unsigned integers of `size` bytes. -/
theorem varInt_codec {size : Nat} (hsize : 0 < size) {n : Int} (hn : 0 ≤ n)
    (hbound : n < 2 ^ (8 * size)) :
    (forall rest, readVarInt (fun m => m % 2 ^ (8 * size)) (writeVarInt n ++ rest) =
      some (n, rest)) ∧
    (forall tmp : List UInt8, tmp.length = (size * 8 + 6) / 7 ->
      writeVarIntThrough tmp n = some (writeVarInt n)) ∧
    getSizeOfVarInt n = (writeVarInt n).length ∧
    forall n', 0 ≤ n' -> n' < 2 ^ (8 * size) -> n ≠ n' ->
      writeVarInt n ≠ writeVarInt n' ∧ ¬ writeVarInt n <+: writeVarInt n' := by
  have hwrap : forall m : Int, 0 ≤ m -> m < 2 ^ (8 * size) -> m % 2 ^ (8 * size) = m :=
    fun m hm hlt => Int.emod_eq_of_lt hm hlt
  constructor
  · exact reads_writeVarInt hwrap hn hbound
  · constructor
    · intro tmp htmp
      exact writeVarIntThrough_eq hsize hbound htmp
    · constructor
      · exact (length_writeVarInt n).symm
      · intro n' hn' hbound' hne
        have hprefix := not_prefix_writeVarInt hwrap hn hbound hn' hbound' hne
        constructor
        · intro heq
          exact hprefix (heq ▸ List.prefix_refl _)
        · exact hprefix

/-- 300 and 2 ^ 16 - 1 as 16-bit numbers. -/
theorem varInt_codec_short :
    readVarInt (fun m => m % 2 ^ (8 * 2)) (writeVarInt 65535 ++ [7]) = some (65535, [7]) ∧
      writeVarIntThrough [9, 9, 9] 65535 = some (writeVarInt 65535) ∧
      getSizeOfVarInt 65535 = (writeVarInt 65535).length ∧
      ¬ writeVarInt 65535 <+: writeVarInt 300 := by
  have h := @varInt_codec 2 (by decide) 65535 (by decide) (by decide)
  exact ⟨h.1 [7], h.2.1 [9, 9, 9] rfl, h.2.2.1,
    (h.2.2.2 300 (by decide) (by decide) (by decide)).2⟩

/-!
# Scripts
-/

def getSerializeSizeScript (ops : PubKeyOps) (script : CScript) : Nat :=
  match compress ops script with
  | some compr => compr.length
  | none =>
      let nSize := wrapUInt32 (script.length + nSpecialScripts)
      (wrapUInt32 (script.length + getSizeOfVarInt nSize)).toNat

theorem getSerializeSizeScript_eq (ops : PubKeyOps) {script : CScript}
    (h : script.length + nSpecialScripts < 4294967296) :
    getSerializeSizeScript ops script = (writeScript ops script).length := by
  unfold getSerializeSizeScript writeScript
  cases hcompr : compress ops script with
  | some compr => rfl
  | none =>
      have hspecial : nSpecialScripts = 6 := rfl
      have hsize : getSizeOfVarInt (wrapUInt32 (script.length + nSpecialScripts)) ≤ 4 + 1 := by
        apply (getSizeOfVarInt_le_iff 4 _).mpr
        rw [wrapUInt32_of_range _ (by omega) (by omega)]
        exact Int.lt_trans (by omega) (show (4294967296 : Int) < varIntBound (4 + 1) by decide)
      simp only [List.length_append, length_writeVarInt]
      rw [wrapUInt32_of_range (script.length + getSizeOfVarInt _) (by omega) (by omega)]
      omega

/-!
# Round trips of scripts
-/

/-- What an ordinary script is read back from starts with a size above the six codes. -/
theorem readSize_of_ordinary {ops : PubKeyOps} {script : CScript}
    (h : script.length + nSpecialScripts < 4294967296)
    (hordinary : forall code vch, ¬ SpecialForm ops code vch script) (rest : List UInt8) :
    readVarInt wrapUInt32 (writeScript ops script ++ rest) =
      some ((script.length : Int) + nSpecialScripts, script ++ rest) := by
  unfold writeScript
  rw [compress_eq_none_iff.mpr hordinary]
  simp only [List.append_assoc]
  exact reads_ordinarySize h (script ++ rest)

theorem script_roundTrip (ops : PubKeyOps) {script : CScript}
    (h : script.length + nSpecialScripts < 4294967296) :
    Reads (readScript ops) (writeScript ops script) script ∧
      getSerializeSizeScript ops script = (writeScript ops script).length ∧
      (forall code vch, SpecialForm ops code vch script ->
        code.toNat < nSpecialScripts ∧ writeScript ops script = code :: vch) ∧
      ((forall code vch, ¬ SpecialForm ops code vch script) ->
        forall rest, readVarInt wrapUInt32 (writeScript ops script ++ rest) =
          some ((script.length : Int) + nSpecialScripts, script ++ rest)) := by
  constructor
  · exact reads_writeScript ops h
  · constructor
    · exact getSerializeSizeScript_eq ops h
    · constructor
      · intro code vch hform
        constructor
        · exact hform.code_lt
        · unfold writeScript
          rw [hform.compress_eq]
      · intro hordinary rest
        exact readSize_of_ordinary h hordinary rest

theorem SpecialForm.length_script_le {ops : PubKeyOps} {code : UInt8} {vch : List UInt8}
    {script : CScript} (h : SpecialForm ops code vch script) : script.length ≤ 67 := by
  cases h <;> simp <;> omega

/-- A script whose size wraps to nothing is taken for a key hash. -/
theorem not_reads_of_wrapped (ops : PubKeyOps) {script : CScript}
    (h : script.length + nSpecialScripts = 4294967296) :
    ¬ Reads (readScript ops) (writeScript ops script) script := by
  intro hreads
  have hspecial : nSpecialScripts = 6 := rfl
  have hordinary : forall code vch, ¬ SpecialForm ops code vch script := by
    intro code vch hform
    have hlength := hform.length_script_le
    omega
  have hzero : writeVarInt 0 = [0] := by
    rw [writeVarInt, varIntDigits, dif_pos (by decide)]
    rfl
  have hwrite : writeScript ops script = 0 :: script := by
    have hwrap : wrapUInt32 (script.length + nSpecialScripts) = 0 := by
      unfold wrapUInt32
      omega
    unfold writeScript
    rw [compress_eq_none_iff.mpr hordinary]
    simp only [hwrap, hzero, List.singleton_append]
  have hread : readScript ops (0 :: script) =
      some ((decompress ops 0 (script.take 20)).getD [], script.drop 20) := by
    have hcode := reads_code 0 (by decide) script
    rw [List.singleton_append] at hcode
    have htake : readExactly 20 script = some (script.take 20, script.drop 20) :=
      if_pos (by omega)
    have hsize : getSpecialSize ((0 : UInt8).toNat : Int).toNat = 20 := rfl
    unfold readScript
    rw [hcode]
    simp only
    rw [if_pos (by decide), hsize, htake]
    rfl
  have hback := hreads []
  rw [List.append_nil, hwrite, hread, Option.some.injEq, Prod.mk.injEq] at hback
  have hlength := congrArg List.length hback.2
  rw [List.length_drop, List.length_nil] at hlength
  omega

/-!
# Examples
-/

namespace ScriptExample

def noFullKeys : PubKeyOps where
  isFullyValid := fun _ => false
  decompress := fun _ => none
  decompress_valid := by
    intro x y parity _ _ hvalid
    cases hvalid

def toKeyHash : CScript :=
  [OP_DUP, OP_HASH160, 20] ++ List.replicate 20 9 ++ [OP_EQUALVERIFY, OP_CHECKSIG]

theorem script_roundTrip_short :
    Reads (readScript noFullKeys) (writeScript noFullKeys [OP_DUP]) [OP_DUP] ∧
      getSerializeSizeScript noFullKeys [OP_DUP] = (writeScript noFullKeys [OP_DUP]).length ∧
      readVarInt wrapUInt32 (writeScript noFullKeys [OP_DUP] ++ [5]) = some (7, [OP_DUP, 5]) ∧
      writeScript noFullKeys toKeyHash = 0 :: List.replicate 20 9 := by
  have hshort := @script_roundTrip noFullKeys [OP_DUP] (by decide)
  have hordinary := compress_eq_none_iff.mp (show compress noFullKeys [OP_DUP] = none by decide)
  have hhash := @script_roundTrip noFullKeys toKeyHash (by decide)
  exact ⟨hshort.1, hshort.2.1, hshort.2.2.2 hordinary [5],
    (hhash.2.2.1 0 _ (SpecialForm.keyID rfl)).2⟩

/-- With six bytes below 2^32, the size of an ordinary script is written as 0. -/
def overlongScript : CScript := List.replicate 4294967290 OP_DUP

theorem overlongScript_not_read :
    ¬ Reads (readScript noFullKeys) (writeScript noFullKeys overlongScript) overlongScript := by
  have hlength : overlongScript.length = 4294967290 := List.length_replicate
  exact not_reads_of_wrapped noFullKeys (congrArg (· + nSpecialScripts) hlength)

end ScriptExample

end Serialize
end Hbcur
