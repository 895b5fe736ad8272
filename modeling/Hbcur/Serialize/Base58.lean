import Hbcur.Foundation.Checks
import Hbcur.Foundation.Digits

/-!
# Base 58

`EncodeBase58` and `DecodeBase58` of `base58.cpp` on the bytes of texts.  Zeros in front are
counted apart, and the other digits change their base in a buffer of a size which is computed
from the length of the input.
-/

namespace Hbcur
namespace Serialize

open Foundation Digits

/-!
# Characters
-/

/-- All alphanumeric characters except for "0", "I", "O", and "l". -/
def pszBase58 : List UInt8 :=
  "123456789ABCDEFGHJKLMNPQRSTUVWXYZabcdefghijkmnopqrstuvwxyz".toList.map
    fun c => UInt8.ofNat c.toNat

/-- `isspace`, in the locale of the C language. -/
def isspace (ch : UInt8) : Bool := ch == 32 || (decide (9 ≤ ch.toNat) && decide (ch.toNat ≤ 13))

/-- What `c_str` gives to a function which reads up to the first zero. -/
def cStr (str : List UInt8) : List UInt8 := str.takeWhile fun ch => ch != 0

def isOne (ch : UInt8) : Bool := ch == 49

def isZeroByte (byte : UInt8) : Bool := byte == 0

/-- `strchr(pszBase58, ch) - pszBase58` -/
def base58Digit (ch : UInt8) : Option Nat := pszBase58.idxOf? ch

def base58Letter (digit : Nat) : UInt8 := pszBase58.getD digit 0

/-!
# Encoding and decoding
-/

/-- Decoding returns false, or an assertion fails. -/
inductive Base58Failure where
  | refused
  | aborted
  deriving DecidableEq, Repr

def encodeBase58 (vch : List UInt8) : Except Base58Failure (List UInt8) := do
  let zeroes := (vch.takeWhile isZeroByte).length
  let bytes := vch.dropWhile isZeroByte
  let b58 ← expect (absorb 256 58 (List.replicate (bytes.length * 138 / 100 + 1) 0)
    (bytes.map UInt8.toNat)) Base58Failure.aborted
  Except.ok (List.replicate zeroes 49 ++ (trim b58).map base58Letter)

/-- The characters up to a space, read into the buffer; with those which are left. -/
def decodeChars : List Nat -> List UInt8 -> Except Base58Failure (List Nat × List UInt8)
  | b256, [] => Except.ok (b256, [])
  | b256, ch :: psz =>
      if isspace ch then Except.ok (b256, ch :: psz)
      else do
        let digit ← expect (base58Digit ch) Base58Failure.refused
        let (b256, carry) := mulAdd 58 256 digit b256
        require (carry == 0) Base58Failure.aborted
        decodeChars b256 psz

def decodeBase58 (str : List UInt8) : Except Base58Failure (List UInt8) := do
  let psz := (cStr str).dropWhile isspace
  let zeroes := (psz.takeWhile isOne).length
  let psz := psz.dropWhile isOne
  let (b256, psz) ← decodeChars (List.replicate (psz.length * 733 / 1000 + 1) 0) psz
  require (psz.dropWhile isspace).isEmpty Base58Failure.refused
  Except.ok (List.replicate zeroes 0 ++ (trim b256).map UInt8.ofNat)

/-!
# The letters
-/

theorem length_pszBase58 : pszBase58.length = 58 := by decide +kernel

theorem letters_of_digits : forall d : Fin 58,
    base58Digit (base58Letter d) = some d.val ∧ isspace (base58Letter d) = false ∧
      base58Letter d ≠ 0 ∧ isOne (base58Letter d) = decide (d.val = 0) := by
  decide +kernel

theorem base58Digit_letter {d : Nat} (hd : d < 58) : base58Digit (base58Letter d) = some d :=
  (letters_of_digits ⟨d, hd⟩).1

theorem isspace_letter {d : Nat} (hd : d < 58) : isspace (base58Letter d) = false :=
  (letters_of_digits ⟨d, hd⟩).2.1

theorem letter_ne_zero {d : Nat} (hd : d < 58) : base58Letter d ≠ 0 :=
  (letters_of_digits ⟨d, hd⟩).2.2.1

theorem isOne_letter {d : Nat} (hd : d < 58) : isOne (base58Letter d) = decide (d = 0) :=
  (letters_of_digits ⟨d, hd⟩).2.2.2

theorem letter_mem {d : Nat} (hd : d < 58) : base58Letter d ∈ pszBase58 := by
  have hlt : d < pszBase58.length := hd.trans_eq length_pszBase58.symm
  rw [base58Letter, List.getD_eq_getElem?_getD, List.getElem?_eq_getElem hlt, Option.getD_some]
  exact List.getElem_mem hlt

theorem exists_letters {str : List UInt8} (h : forall ch, ch ∈ str -> ch ∈ pszBase58) :
    exists ds, Bounded 58 ds ∧ str = ds.map base58Letter := by
  induction str with
  | nil => exact ⟨[], nofun, rfl⟩
  | cons ch str ih =>
      rcases ih (fun c hc => h c (List.mem_cons_of_mem ch hc)) with ⟨ds, hds, hstr⟩
      rcases List.mem_iff_getElem.mp (h ch List.mem_cons_self) with ⟨d, hd, hch⟩
      refine ⟨d :: ds, Bounded.cons (hd.trans_eq length_pszBase58) hds, ?_⟩
      rw [List.map_cons, ← hstr, base58Letter, List.getD_eq_getElem?_getD,
        List.getElem?_eq_getElem hd, Option.getD_some, hch]

/-!
# Zeros in front
-/

/-- Letters of digits without zeros in front do not start with the letter of zero. -/
theorem startsWithout_letters {ds : List Nat} (hbounded : Bounded 58 ds) (htrimmed : Trimmed ds) :
    StartsWithout isOne (ds.map base58Letter) := by
  cases ds with
  | nil => exact nofun
  | cons d ds =>
      intro ch hch
      rw [List.map_cons, List.head?_cons, Option.mem_some_iff] at hch
      rw [← hch, isOne_letter (hbounded d List.mem_cons_self)]
      exact decide_eq_false (htrimmed d rfl)

/-!
# What the loops do
-/

theorem bounded_bytes (bytes : List UInt8) : Bounded 256 (bytes.map UInt8.toNat) := by
  intro d hd
  rcases List.mem_map.mp hd with ⟨byte, -, rfl⟩
  exact byte.toNat_lt

theorem encodeBase58_eq {zeroes : Nat} {bytes : List UInt8} (h : StartsWithout isZeroByte bytes) :
    encodeBase58 (List.replicate zeroes 0 ++ bytes) = Except.ok (List.replicate zeroes 49 ++
      (Nat.digits 58 (value 256 (bytes.map UInt8.toNat))).reverse.map base58Letter) := by
  have hbounded := bounded_bytes bytes
  have hratio : (256 : Nat) ^ 100 ≤ 58 ^ 138 := by decide +kernel
  have hsize : 256 ^ (bytes.map UInt8.toNat).length ≤ 58 ^ (bytes.length * 138 / 100 + 1) := by
    rw [List.length_map]
    exact pow_le_pow_of_ratio (by decide) (by decide) hratio bytes.length
  rcases absorb_replicate (by decide) (by decide) hbounded hsize with ⟨b58, habsorb, htrim⟩
  have htake := h.takeWhile_eq (show isZeroByte 0 = true from rfl) zeroes
  have hdrop := h.dropWhile_eq (show isZeroByte 0 = true from rfl) zeroes
  simp only [encodeBase58, htake, hdrop, habsorb, List.length_replicate]
  show Except.ok _ = Except.ok _
  rw [htrim]

theorem decodeChars_letters (ds : List Nat) :
    forall {b256 : List Nat}, Bounded 58 ds -> decodeChars b256 (ds.map base58Letter) =
      match absorb 58 256 b256 ds with
      | none => Except.error Base58Failure.aborted
      | some b256' => Except.ok (b256', []) := by
  induction ds with
  | nil =>
      intro b256 _
      rfl
  | cons d ds ih =>
      intro b256 hbounded
      have hd := hbounded d List.mem_cons_self
      rw [List.map_cons, decodeChars, isspace_letter hd, if_neg Bool.false_ne_true,
        base58Digit_letter hd, absorb]
      show (require ((mulAdd 58 256 d b256).2 == 0) Base58Failure.aborted >>= fun _ =>
        decodeChars (mulAdd 58 256 d b256).1 (ds.map base58Letter)) = _
      by_cases hcarry : (mulAdd 58 256 d b256).2 = 0
      · rw [if_pos hcarry, hcarry]
        exact ih hbounded.tail
      · rw [if_neg hcarry, require, if_neg (by simpa using hcarry)]
        rfl

theorem cStr_eq {str : List UInt8} (h : forall ch, ch ∈ str -> ch ≠ 0) : cStr str = str := by
  induction str with
  | nil => rfl
  | cons ch str ih =>
      have hne : (ch != 0) = true := bne_iff_ne.mpr (h ch List.mem_cons_self)
      have hrest := ih (fun c hc => h c (List.mem_cons_of_mem ch hc))
      unfold cStr at hrest ⊢
      rw [@List.takeWhile_cons_of_pos _ (fun ch : UInt8 => ch != 0) ch str hne, hrest]

theorem decodeBase58_eq {zeroes : Nat} {ds : List Nat} (hbounded : Bounded 58 ds)
    (htrimmed : Trimmed ds) :
    decodeBase58 (List.replicate zeroes 49 ++ ds.map base58Letter) =
      Except.ok (List.replicate zeroes 0 ++
        (Nat.digits 256 (value 58 ds)).reverse.map UInt8.ofNat) := by
  have hstarts := startsWithout_letters hbounded htrimmed
  have hmem : forall ch, ch ∈ List.replicate zeroes 49 ++ ds.map base58Letter ->
      ch ≠ 0 ∧ isspace ch = false := by
    intro ch hch
    rcases List.mem_append.mp hch with hone | hletter
    · rw [List.eq_of_mem_replicate hone]
      decide
    · rcases List.mem_map.mp hletter with ⟨d, hd, rfl⟩
      exact ⟨letter_ne_zero (hbounded d hd), isspace_letter (hbounded d hd)⟩
  have hspaces : (List.replicate zeroes 49 ++ ds.map base58Letter).dropWhile isspace =
      List.replicate zeroes 49 ++ ds.map base58Letter := by
    cases hcase : List.replicate zeroes 49 ++ ds.map base58Letter with
    | nil => rfl
    | cons ch rest =>
        apply List.dropWhile_cons_of_neg
        rw [(hmem ch (by rw [hcase]; exact List.mem_cons_self)).2]
        exact Bool.false_ne_true
  have hratio : (58 : Nat) ^ 1000 ≤ 256 ^ 733 := by decide +kernel
  have hsize : 58 ^ ds.length ≤ 256 ^ (ds.length * 733 / 1000 + 1) :=
    pow_le_pow_of_ratio (by decide) (by decide) hratio ds.length
  rcases absorb_replicate (by decide) (by decide) hbounded hsize with ⟨b256, habsorb, htrim⟩
  have htake := hstarts.takeWhile_eq (show isOne 49 = true from rfl) zeroes
  have hdrop := hstarts.dropWhile_eq (show isOne 49 = true from rfl) zeroes
  simp only [decodeBase58, cStr_eq (fun ch hch => (hmem ch hch).1), hspaces, htake, hdrop,
    List.length_map, decodeChars_letters ds hbounded, habsorb, List.length_replicate]
  show Except.ok _ = Except.ok _
  rw [htrim]

/-!
# The assertions
-/

/-- There is room for as many characters as are left. -/
def HasRoom (b256 : List Nat) (left : Nat) : Prop :=
  (value 256 b256 + 1) * 58 ^ left ≤ 256 ^ b256.length

theorem base58Digit_lt {ch : UInt8} {digit : Nat} (h : base58Digit ch = some digit) :
    digit < 58 := by
  have hlt := (List.findIdx?_eq_some_iff_getElem.mp h).1
  exact hlt.trans_eq length_pszBase58

theorem HasRoom.mulAdd {b256 : List Nat} {left digit : Nat} (h : HasRoom b256 (left + 1))
    (hdigit : digit < 58) :
    (mulAdd 58 256 digit b256).2 = 0 ∧ HasRoom (mulAdd 58 256 digit b256).1 left := by
  unfold HasRoom at h
  have hone := Nat.one_le_pow left 58 (by decide)
  have hnext : (58 * value 256 b256 + digit + 1) * 58 ^ left ≤ 256 ^ b256.length := by
    refine le_trans ?_ h
    calc (58 * value 256 b256 + digit + 1) * 58 ^ left
        ≤ (58 * (value 256 b256 + 1)) * 58 ^ left := Nat.mul_le_mul_right _ (by omega)
      _ = (value 256 b256 + 1) * 58 ^ (left + 1) := by
          rw [Nat.pow_succ]
          ring
  have hfits : 58 * value 256 b256 + digit < 256 ^ b256.length := by
    have hle := Nat.le_mul_of_pos_right (58 * value 256 b256 + digit + 1) hone
    omega
  rcases mulAdd_of_lt hfits with ⟨hcarry, hvalue⟩
  refine ⟨hcarry, ?_⟩
  unfold HasRoom
  rw [hvalue, length_mulAdd]
  exact hnext

theorem decodeChars_ne_aborted (psz : List UInt8) :
    forall {b256 : List Nat}, HasRoom b256 psz.length ->
      decodeChars b256 psz ≠ Except.error Base58Failure.aborted := by
  induction psz with
  | nil => exact fun _ => nofun
  | cons ch psz ih =>
      intro b256 hroom
      rw [decodeChars]
      cases isspace ch with
      | true => exact nofun
      | false =>
          rw [if_neg Bool.false_ne_true]
          cases hdigit : base58Digit ch with
          | none => exact nofun
          | some digit =>
              rcases hroom.mulAdd (base58Digit_lt hdigit) with ⟨hcarry, hnext⟩
              show (require ((mulAdd 58 256 digit b256).2 == 0) Base58Failure.aborted >>= fun _ =>
                decodeChars (mulAdd 58 256 digit b256).1 psz) ≠ _
              rw [hcarry]
              exact ih hnext

theorem decodeBase58_ne_aborted (str : List UInt8) :
    decodeBase58 str ≠ Except.error Base58Failure.aborted := by
  unfold decodeBase58
  simp only
  have hratio : (58 : Nat) ^ 1000 ≤ 256 ^ 733 := by decide +kernel
  have hroom : HasRoom
      (List.replicate ((((cStr str).dropWhile isspace).dropWhile isOne).length * 733 / 1000 + 1) 0)
      (((cStr str).dropWhile isspace).dropWhile isOne).length := by
    unfold HasRoom
    rw [value_replicate_zero, Nat.zero_add, Nat.one_mul, List.length_replicate]
    exact pow_le_pow_of_ratio (by decide) (by decide) hratio _
  have hchars := decodeChars_ne_aborted _ hroom
  cases hresult : decodeChars _ (((cStr str).dropWhile isspace).dropWhile isOne) with
  | error failure =>
      intro h
      have hfailure : failure = Base58Failure.aborted := Except.error.inj h
      rw [hresult, hfailure] at hchars
      exact hchars rfl
  | ok result =>
      show (require (result.2.dropWhile isspace).isEmpty Base58Failure.refused >>= _) ≠ _
      cases (result.2.dropWhile isspace).isEmpty <;> exact nofun

/-!
# A bijection
-/

theorem trimmed_bytes {bytes : List UInt8} (h : StartsWithout isZeroByte bytes) :
    Trimmed (bytes.map UInt8.toNat) := by
  cases bytes with
  | nil => exact nofun
  | cons byte bytes =>
      intro d hd hzero
      rw [List.map_cons, List.head?_cons, Option.some.injEq] at hd
      have hbyte : byte = 0 := UInt8.toNat_inj.mp (hd.trans hzero)
      have hfalse := h byte rfl
      rw [hbyte] at hfalse
      cases hfalse

theorem map_ofNat_toNat (bytes : List UInt8) :
    (bytes.map UInt8.toNat).map UInt8.ofNat = bytes := by
  rw [List.map_map]
  exact (List.map_congr_left (fun byte _ => UInt8.ofNat_toNat)).trans (List.map_id bytes)

theorem map_toNat_ofNat {ds : List Nat} (h : Bounded 256 ds) :
    (ds.map UInt8.ofNat).map UInt8.toNat = ds := by
  rw [List.map_map]
  refine (List.map_congr_left (fun d hd => ?_)).trans (List.map_id ds)
  exact (UInt8.toNat_ofNat').trans (Nat.mod_eq_of_lt (h d hd))

/-- What a vector with some zeros in front is encoded as, and decoded back from. -/
theorem encode_decode {zeroes : Nat} {bytes : List UInt8} (h : StartsWithout isZeroByte bytes) :
    exists str, encodeBase58 (List.replicate zeroes 0 ++ bytes) = Except.ok str ∧
      decodeBase58 str = Except.ok (List.replicate zeroes 0 ++ bytes) ∧
      (str.takeWhile isOne).length = zeroes ∧ forall ch, ch ∈ str -> ch ∈ pszBase58 := by
  have hbounded := @bounded_digits 58 (by decide) (value 256 (bytes.map UInt8.toNat))
  have htrimmed := @trimmed_digits 58 (value 256 (bytes.map UInt8.toNat))
  refine ⟨_, encodeBase58_eq h, ?_, ?_, ?_⟩
  · rw [decodeBase58_eq hbounded htrimmed, value_digits,
      digits_value (by decide) (bounded_bytes bytes) (trimmed_bytes h), map_ofNat_toNat]
  · rw [(startsWithout_letters hbounded htrimmed).takeWhile_eq (show isOne 49 = true from rfl),
      List.length_replicate]
  · intro ch hch
    rcases List.mem_append.mp hch with hone | hletter
    · rw [List.eq_of_mem_replicate hone]
      decide
    · rcases List.mem_map.mp hletter with ⟨d, hd, rfl⟩
      exact letter_mem (hbounded d hd)

theorem decode_encode {zeroes : Nat} {ds : List Nat} (hbounded : Bounded 58 ds)
    (htrimmed : Trimmed ds) :
    exists vch, decodeBase58 (List.replicate zeroes 49 ++ ds.map base58Letter) = Except.ok vch ∧
      encodeBase58 vch = Except.ok (List.replicate zeroes 49 ++ ds.map base58Letter) := by
  have hbytes := @bounded_digits 256 (by decide) (value 58 ds)
  have hstarts : StartsWithout isZeroByte
      ((Nat.digits 256 (value 58 ds)).reverse.map UInt8.ofNat) := by
    have hne := @trimmed_digits 256 (value 58 ds)
    cases hcase : (Nat.digits 256 (value 58 ds)).reverse with
    | nil => exact nofun
    | cons d rest =>
        rw [hcase] at hne hbytes
        intro byte hbyte
        rw [List.map_cons, List.head?_cons, Option.mem_some_iff] at hbyte
        rw [← hbyte]
        apply beq_eq_false_iff_ne.mpr
        intro hzero
        have hd := congrArg UInt8.toNat hzero
        rw [UInt8.toNat_ofNat', Nat.mod_eq_of_lt (hbytes d List.mem_cons_self)] at hd
        exact hne d rfl hd
  refine ⟨_, decodeBase58_eq hbounded htrimmed, ?_⟩
  rw [encodeBase58_eq hstarts, map_toNat_ofNat hbytes, value_digits,
    digits_value (by decide) hbounded htrimmed]

/-- Every vector and every text of letters is encoded and decoded back, and nothing aborts. -/
theorem base58_bijection :
    (forall vch, exists str, encodeBase58 vch = Except.ok str ∧ decodeBase58 str = Except.ok vch ∧
      (str.takeWhile isOne).length = (vch.takeWhile isZeroByte).length ∧
      forall ch, ch ∈ str -> ch ∈ pszBase58) ∧
    (forall str, (forall ch, ch ∈ str -> ch ∈ pszBase58) ->
      exists vch, decodeBase58 str = Except.ok vch ∧ encodeBase58 vch = Except.ok str) ∧
    forall str, decodeBase58 str ≠ Except.error Base58Failure.aborted := by
  constructor
  · intro vch
    rcases @exists_zeros UInt8 isZeroByte 0 (fun byte h => eq_of_beq h) vch with
      ⟨zeroes, bytes, rfl, hbytes⟩
    rcases @encode_decode zeroes bytes hbytes with ⟨str, hencode, hdecode, hones, hmem⟩
    refine ⟨str, hencode, hdecode, ?_, hmem⟩
    rw [hones, hbytes.takeWhile_eq (show isZeroByte 0 = true from rfl), List.length_replicate]
  · constructor
    · intro str hletters
      rcases exists_letters hletters with ⟨ds, hds, rfl⟩
      rcases @exists_zeros Nat isZero 0 (fun d h => eq_of_beq h) ds with ⟨zeroes, rest, rfl, hrest⟩
      have htrimmed : Trimmed rest := by
        intro d hd
        exact beq_eq_false_iff_ne.mp (hrest d hd)
      have hbounded : Bounded 58 rest := fun d hd => hds d (List.mem_append_right _ hd)
      have hone : base58Letter 0 = 49 := by decide
      rw [List.map_append, List.map_replicate, hone]
      exact decode_encode hbounded htrimmed
    · exact decodeBase58_ne_aborted

/-- Two zero bytes and 58: "11" and the letters of 1 and 0. -/
theorem base58_bijection_short :
    (exists str, encodeBase58 [0, 0, 58] = Except.ok str ∧ decodeBase58 str =
      Except.ok [0, 0, 58]) ∧
    exists vch, decodeBase58 [49, 49, 50, 49] = Except.ok vch ∧
      encodeBase58 vch = Except.ok [49, 49, 50, 49] := by
  constructor
  · rcases base58_bijection.1 [0, 0, 58] with ⟨str, hencode, hdecode, -⟩
    exact ⟨str, hencode, hdecode⟩
  · exact base58_bijection.2.1 [49, 49, 50, 49] (by decide +kernel)

end Serialize
end Hbcur
