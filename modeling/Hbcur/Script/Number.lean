import Hbcur.Script.Reader
import Mathlib.Tactic.Ring

/-!
# Script numbers

`CScriptNum` of `script/script.h`.  Operands have at most four bytes, so that the sums and
negations below stay far from the limits of `int64_t`, which the source asserts.
-/

namespace Hbcur
namespace Script

open Foundation Serialize

def nMaxNumSize : Nat := 4

/-- The elements of the stack. -/
abbrev ValType := List UInt8

/-!
# Decoding
-/

/-- Whether the last byte is needed, for its own bits or for the sign bit. -/
def minimallyEncoded (vch : ValType) : Bool :=
  match vch.reverse with
  | [] => true
  | last :: rest =>
      !(last &&& 0x7f == 0) ||
        match rest with
        | [] => false
        | second :: _ => !(second &&& 0x80 == 0)

/-- `set_vch`: the highest bit of the last byte is the sign. -/
def setVch (vch : ValType) : Int :=
  match vch.getLast? with
  | none => 0
  | some last =>
      if last &&& 0x80 == 0 then valueLE vch
      else -((valueLE vch ^^^ (0x80 <<< (8 * (vch.length - 1))) : Nat) : Int)

/-- The constructor from a stack element. -/
def scriptNum (vch : ValType) (fRequireMinimal : Bool) : Except Stop Int := do
  require (!decide (vch.length > nMaxNumSize)) (Stop.scriptNum ScriptNumError.overflow)
  require (!(fRequireMinimal && !minimallyEncoded vch))
    (Stop.scriptNum ScriptNumError.nonMinimal)
  Except.ok (setVch vch)

def getInt (n : Int) : Int :=
  if n > 2147483647 then 2147483647 else if n < -2147483648 then -2147483648 else n

/-!
# Encoding
-/

/-- The bytes of a number below `2 ^ 64`, without zeros at its end. -/
def absBytes : Nat -> Nat -> List UInt8
  | 0, _ => []
  | rounds + 1, absvalue =>
      if absvalue = 0 then []
      else UInt8.ofNat (absvalue % 256) :: absBytes rounds (absvalue / 256)

def serialize (value : Int) : ValType :=
  let neg := decide (value < 0)
  let result := absBytes 8 value.natAbs
  match result.getLast? with
  | none => []
  | some last =>
      if !(last &&& 0x80 == 0) then result ++ [if neg then 0x80 else 0]
      else if neg then result.dropLast ++ [last ||| 0x80]
      else result

/-!
# Arithmetic

An operation returns nothing but what its assertion lets pass.
-/

def minInt64 : Int := -9223372036854775808

def maxInt64 : Int := 9223372036854775807

def addAssign (n rhs : Int) : Except Stop Int := do
  require (decide (rhs = 0 ∨ (rhs > 0 ∧ n ≤ maxInt64 - rhs) ∨ (rhs < 0 ∧ n ≥ minInt64 - rhs)))
    Stop.aborted
  Except.ok (n + rhs)

def subAssign (n rhs : Int) : Except Stop Int := do
  require (decide (rhs = 0 ∨ (rhs > 0 ∧ n ≥ minInt64 + rhs) ∨ (rhs < 0 ∧ n ≤ maxInt64 + rhs)))
    Stop.aborted
  Except.ok (n - rhs)

def negate (n : Int) : Except Stop Int := do
  require (decide (n ≠ minInt64)) Stop.aborted
  Except.ok (-n)

def ofBool (b : Bool) : Int := if b then 1 else 0

/-!
# Bounds
-/

theorem valueLE_lt (bytes : List UInt8) : valueLE bytes < 256 ^ bytes.length := by
  induction bytes with
  | nil => exact Nat.one_pos
  | cons byte bytes ih =>
      have hbyte := byte.toNat_lt
      rw [valueLE, List.length_cons, Nat.pow_succ]
      omega

/-- The numbers which an operation may get. -/
def IsOperand (n : Int) : Prop := -4294967296 < n ∧ n < 4294967296

theorem isOperand_setVch {vch : ValType} (h : vch.length ≤ nMaxNumSize) :
    IsOperand (setVch vch) := by
  have hvalue : valueLE vch < 2 ^ 32 :=
    (valueLE_lt vch).trans_le (Nat.pow_le_pow_right (by decide) h)
  unfold setVch
  cases hlast : vch.getLast? with
  | none =>
      show IsOperand 0
      exact ⟨by decide, by decide⟩
  | some last =>
      have hpos : 0 < vch.length := by
        cases vch with
        | nil => cases hlast
        | cons _ _ => exact Nat.succ_pos _
      have hbit : 0x80 <<< (8 * (vch.length - 1)) < 2 ^ 32 := by
        have hshift : 8 * (vch.length - 1) ≤ 24 := by
          unfold nMaxNumSize at h
          omega
        rw [Nat.shiftLeft_eq]
        calc 0x80 * 2 ^ (8 * (vch.length - 1)) ≤ 0x80 * 2 ^ 24 :=
              Nat.mul_le_mul_left _ (Nat.pow_le_pow_right (by decide) hshift)
          _ < 2 ^ 32 := by decide
      have hxor := Nat.xor_lt_two_pow hvalue hbit
      have hpow : (2 : Nat) ^ 32 = 4294967296 := by decide
      rw [hpow] at hvalue hxor
      simp only
      unfold IsOperand
      split_ifs
      · omega
      · omega

theorem ensures_scriptNum (vch : ValType) (fRequireMinimal : Bool) :
    Ensures Stop.Expected IsOperand (scriptNum vch fRequireMinimal) := by
  unfold scriptNum
  refine ensures_require_bind trivial (fun hsize => ?_)
  refine ensures_require_bind trivial (fun _ => ?_)
  rw [Bool.not_eq_true', decide_eq_false_iff_not, Nat.not_lt] at hsize
  exact isOperand_setVch hsize

/-- A number which decodes with the minimal encoding required decodes to itself without. -/
theorem succeedsWith_scriptNum (vch : ValType) {fRequireMinimal fRequireMinimal' : Bool}
    (h : fRequireMinimal' = true -> fRequireMinimal = true) :
    SucceedsWith (scriptNum vch fRequireMinimal) (scriptNum vch fRequireMinimal') := by
  unfold scriptNum
  refine SucceedsWith.bind (SucceedsWith.refl _) (fun _ => ?_)
  refine SucceedsWith.bind (SucceedsWith.require ?_) (fun _ => SucceedsWith.refl _)
  cases fRequireMinimal' with
  | false => exact fun _ => rfl
  | true =>
      rw [h rfl]
      exact id

theorem length_absBytes (rounds absvalue : Nat) : (absBytes rounds absvalue).length ≤ rounds := by
  induction rounds generalizing absvalue with
  | zero => exact Nat.le_refl _
  | succ rounds ih =>
      rw [absBytes]
      split_ifs
      · exact Nat.zero_le _
      · exact Nat.succ_le_succ (ih _)

theorem length_serialize (value : Int) : (serialize value).length ≤ 9 := by
  have hlength := length_absBytes 8 value.natAbs
  unfold serialize
  simp only
  cases (absBytes 8 value.natAbs).getLast? with
  | none => exact Nat.zero_le _
  | some last =>
      simp only
      split_ifs
      · rw [List.length_append, List.length_singleton]
        omega
      · rw [List.length_append, List.length_singleton]
        omega
      · rw [List.length_append, List.length_singleton, List.length_dropLast]
        omega
      · omega

theorem addAssign_eq {n rhs : Int} (hn : IsOperand n) (hrhs : IsOperand rhs) :
    addAssign n rhs = Except.ok (n + rhs) := by
  unfold IsOperand at hn hrhs
  have hassert : decide (rhs = 0 ∨ (rhs > 0 ∧ n ≤ maxInt64 - rhs) ∨
      (rhs < 0 ∧ n ≥ minInt64 - rhs)) = true := by
    rw [decide_eq_true_eq]
    unfold maxInt64 minInt64
    omega
  unfold addAssign
  rw [hassert]
  rfl

theorem subAssign_eq {n rhs : Int} (hn : IsOperand n) (hrhs : IsOperand rhs) :
    subAssign n rhs = Except.ok (n - rhs) := by
  unfold IsOperand at hn hrhs
  have hassert : decide (rhs = 0 ∨ (rhs > 0 ∧ n ≥ minInt64 + rhs) ∨
      (rhs < 0 ∧ n ≤ maxInt64 + rhs)) = true := by
    rw [decide_eq_true_eq]
    unfold maxInt64 minInt64
    omega
  unfold subAssign
  rw [hassert]
  rfl

theorem negate_eq {n : Int} (hn : IsOperand n) : negate n = Except.ok (-n) := by
  unfold IsOperand at hn
  have hassert : decide (n ≠ minInt64) = true := by
    rw [decide_eq_true_eq]
    unfold minInt64
    omega
  unfold negate
  rw [hassert]
  rfl

/-!
# The form of a number

The bytes of the absolute value, the sign in the highest bit, and a byte more where that bit is
taken.
-/

theorem byte_cases {p : UInt8 -> Prop} (h : forall i : Fin 256, p (UInt8.ofFin i)) (byte : UInt8) :
    p byte := h byte.toFin

theorem and_low_eq_zero (byte : UInt8) :
    (byte &&& 0x7f == 0) = decide (byte.toNat % 128 = 0) := by
  revert byte
  exact byte_cases (by decide +kernel)

theorem and_sign_eq_zero (byte : UInt8) : (byte &&& 0x80 == 0) = decide (byte.toNat < 128) := by
  revert byte
  exact byte_cases (by decide +kernel)

theorem toNat_or_sign (byte : UInt8) : (byte ||| 0x80).toNat = byte.toNat % 128 + 128 := by
  revert byte
  exact byte_cases (by decide +kernel)

theorem xor_two_pow {low k : Nat} (h : low < 2 ^ k) : (2 ^ k + low) ^^^ 2 ^ k = low := by
  have hadd : 2 ^ k + low = low ^^^ 2 ^ k := by
    have hor := Nat.two_pow_add_eq_or_of_lt h 1
    rw [Nat.mul_one] at hor
    rw [hor]
    apply Nat.eq_of_testBit_eq
    intro i
    rw [Nat.testBit_or, Nat.testBit_xor, Nat.testBit_two_pow]
    by_cases hi : k = i
    · subst hi
      rw [Nat.testBit_lt_two_pow h]
      simp
    · simp [hi]
  rw [hadd, Nat.xor_assoc, Nat.xor_self, Nat.xor_zero]

theorem valueLE_append (bytes bytes' : List UInt8) :
    valueLE (bytes ++ bytes') = valueLE bytes + 256 ^ bytes.length * valueLE bytes' := by
  induction bytes with
  | nil => simp [valueLE]
  | cons byte bytes ih =>
      rw [List.cons_append, valueLE, valueLE, ih, List.length_cons, Nat.pow_succ]
      ring

theorem valueLE_concat (bytes : List UInt8) (last : UInt8) :
    valueLE (bytes ++ [last]) = valueLE bytes + 256 ^ bytes.length * last.toNat := by
  rw [valueLE_append]
  rfl

def signed (neg : Bool) (m : Nat) : Int := if neg then -m else m

def signByte (neg : Bool) : UInt8 := if neg then 0x80 else 0

theorem natAbs_signed (neg : Bool) (m : Nat) : (signed neg m).natAbs = m := by
  cases neg with
  | false => exact Int.natAbs_natCast m
  | true => exact (Int.natAbs_neg _).trans (Int.natAbs_natCast m)

theorem toNat_signByte (neg : Bool) : (signByte neg).toNat = if neg then 128 else 0 := by
  cases neg <;> rfl

/-- A byte vector has the form of a number. -/
inductive Encodes : Int -> ValType -> Prop where
  | zero : Encodes 0 []
  | full (neg : Bool) (body : List UInt8) (top : UInt8) (hfull : 128 ≤ top.toNat) :
      Encodes (signed neg (valueLE (body ++ [top]))) (body ++ [top] ++ [signByte neg])
  | room (neg : Bool) (body : List UInt8) (top : UInt8) (hpos : 0 < top.toNat)
      (hroom : top.toNat < 128) :
      Encodes (signed neg (valueLE (body ++ [top]))) (body ++ [top ||| signByte neg])

theorem toNat_or_signByte {top : UInt8} (hroom : top.toNat < 128) (neg : Bool) :
    (top ||| signByte neg).toNat = top.toNat + if neg then 128 else 0 := by
  cases neg with
  | false =>
      show (top ||| 0).toNat = top.toNat
      rw [UInt8.or_zero]
  | true =>
      show (top ||| 0x80).toNat = top.toNat + 128
      rw [toNat_or_sign, Nat.mod_eq_of_lt hroom]

theorem minimallyEncoded_concat (body : List UInt8) (last : UInt8) :
    minimallyEncoded (body ++ [last]) =
      (!decide (last.toNat % 128 = 0) ||
        match body.reverse with
        | [] => false
        | second :: _ => !decide (second.toNat < 128)) := by
  unfold minimallyEncoded
  rw [List.reverse_append, List.reverse_singleton, List.singleton_append]
  simp only [and_low_eq_zero]
  cases body.reverse with
  | nil => rfl
  | cons second rest => simp only [and_sign_eq_zero]

/-- The highest bit of the last byte is taken off for the sign. -/
theorem setVch_concat (body : List UInt8) (last : UInt8) :
    setVch (body ++ [last]) = signed (!decide (last.toNat < 128))
      (valueLE body + 256 ^ body.length * (last.toNat % 128)) := by
  have hvalue := valueLE_concat body last
  unfold setVch
  rw [List.getLast?_concat, List.length_append, List.length_singleton, Nat.add_sub_cancel]
  simp only [and_sign_eq_zero, decide_eq_true_eq]
  by_cases hsign : last.toNat < 128
  · rw [if_pos hsign, decide_eq_true hsign, Nat.mod_eq_of_lt hsign, hvalue]
    rfl
  · rw [if_neg hsign, decide_eq_false hsign]
    have hlast := last.toNat_lt
    have hpow : (256 : Nat) ^ body.length = 2 ^ (8 * body.length) :=
      (pow_mul 2 8 body.length).symm
    have hbit : 0x80 <<< (8 * body.length) = 2 ^ (8 * body.length + 7) := by
      rw [Nat.shiftLeft_eq, Nat.pow_add, Nat.mul_comm]
    have hmod : last.toNat % 128 = last.toNat - 128 := by omega
    have hlow : valueLE body + 256 ^ body.length * (last.toNat - 128) <
        2 ^ (8 * body.length + 7) := by
      have hbody := valueLE_lt body
      rw [Nat.pow_add, ← hpow]
      calc valueLE body + 256 ^ body.length * (last.toNat - 128)
          < 256 ^ body.length + 256 ^ body.length * (last.toNat - 128) := by omega
        _ = 256 ^ body.length * (last.toNat - 128 + 1) := by ring
        _ ≤ 256 ^ body.length * 2 ^ 7 := Nat.mul_le_mul_left _ (by omega)
    have hsplit : valueLE (body ++ [last]) = 2 ^ (8 * body.length + 7) +
        (valueLE body + 256 ^ body.length * (last.toNat - 128)) := by
      obtain ⟨low, hlast⟩ : exists low, last.toNat = 128 + low := ⟨last.toNat - 128, by omega⟩
      rw [hvalue, hlast, Nat.pow_add, ← hpow, Nat.add_sub_cancel_left]
      ring
    rw [hbit, hsplit, xor_two_pow hlow, hmod]
    rfl

theorem Encodes.minimal {n : Int} {vch : ValType} (h : Encodes n vch) :
    minimallyEncoded vch = true := by
  cases h with
  | zero => rfl
  | full neg body top hfull =>
      rw [minimallyEncoded_concat, List.reverse_append, List.reverse_singleton,
        List.singleton_append]
      simp only [Nat.not_lt.mpr hfull, decide_false, Bool.not_false, Bool.or_true]
  | room neg body top hpos hroom =>
      have hlow : ¬ (top ||| signByte neg).toNat % 128 = 0 := by
        rw [toNat_or_signByte hroom]
        split_ifs <;> omega
      rw [minimallyEncoded_concat, decide_eq_false hlow]
      rfl

theorem Encodes.setVch_eq {n : Int} {vch : ValType} (h : Encodes n vch) : setVch vch = n := by
  cases h with
  | zero => rfl
  | full neg body top hfull =>
      rw [setVch_concat, toNat_signByte]
      cases neg with
      | false => simp
      | true => simp
  | room neg body top hpos hroom =>
      rw [setVch_concat, toNat_or_signByte hroom, valueLE_concat]
      cases neg with
      | false => simp [hroom, Nat.mod_eq_of_lt hroom]
      | true => simp [Nat.mod_eq_of_lt hroom]

/-- What passes the minimality test has the form of its number. -/
theorem encodes_of_minimal {vch : ValType} (h : minimallyEncoded vch = true) :
    Encodes (setVch vch) vch := by
  rcases List.eq_nil_or_concat' vch with rfl | ⟨body, last, rfl⟩
  · exact Encodes.zero
  · have hlt := last.toNat_lt
    rw [minimallyEncoded_concat] at h
    rw [setVch_concat]
    by_cases hlow : last.toNat % 128 = 0
    · -- the last byte holds nothing but the sign
      rcases List.eq_nil_or_concat' body with rfl | ⟨rest, second, rfl⟩
      · simp [hlow] at h
      · rw [List.reverse_append, List.reverse_singleton, List.singleton_append] at h
        have hfull : 128 ≤ second.toNat := by simpa [hlow] using h
        have hlast : last = signByte (!decide (last.toNat < 128)) := by
          apply UInt8.toNat_inj.mp
          rw [toNat_signByte]
          by_cases hsign : last.toNat < 128
          · simp only [hsign, decide_true, Bool.not_true, Bool.false_eq_true, if_false]
            omega
          · simp only [hsign, decide_false, Bool.not_false, if_true]
            omega
        have hform := Encodes.full (!decide (last.toNat < 128)) rest second hfull
        rw [← hlast] at hform
        rw [hlow, Nat.mul_zero, Nat.add_zero]
        exact hform
    · have htop : (UInt8.ofNat (last.toNat % 128)).toNat = last.toNat % 128 := by
        rw [UInt8.toNat_ofNat']
        omega
      have hroom : (UInt8.ofNat (last.toNat % 128)).toNat < 128 := by omega
      have hlast : UInt8.ofNat (last.toNat % 128) ||| signByte (!decide (last.toNat < 128)) =
          last := by
        apply UInt8.toNat_inj.mp
        rw [toNat_or_signByte hroom, htop]
        by_cases hsign : last.toNat < 128
        · simp only [hsign, decide_true, Bool.not_true, Bool.false_eq_true, if_false]
          omega
        · simp only [hsign, decide_false, Bool.not_false, if_true]
          omega
      have hform := Encodes.room (!decide (last.toNat < 128)) body
        (UInt8.ofNat (last.toNat % 128)) (by omega) hroom
      rw [hlast, valueLE_concat, htop] at hform
      exact hform

/-- The size of the form of a number. -/
theorem Encodes.length_le_iff {n : Int} {vch : ValType} (h : Encodes n vch) (k : Nat) :
    vch.length ≤ k + 1 <-> n.natAbs < 128 * 256 ^ k := by
  have hpow := Nat.pow_pos (n := k) (show 0 < 256 by decide)
  cases h with
  | zero =>
      constructor
      · intro _
        exact Nat.mul_pos (by decide) hpow
      · intro _
        exact Nat.zero_le _
  | full neg body top hfull =>
      have hbody := valueLE_lt body
      have htop := top.toNat_lt
      rw [natAbs_signed, valueLE_concat, List.length_append, List.length_append,
        List.length_singleton, List.length_singleton]
      have hlower : 256 ^ body.length * 128 ≤ 256 ^ body.length * top.toNat :=
        Nat.mul_le_mul_left _ hfull
      have hupper : 256 ^ body.length * (top.toNat + 1) ≤ 256 ^ body.length * 256 :=
        Nat.mul_le_mul_left _ htop
      rw [Nat.mul_add, Nat.mul_one] at hupper
      constructor
      · intro hlen
        have hle : 256 ^ (body.length + 1) ≤ 256 ^ k := Nat.pow_le_pow_right (by decide) (by omega)
        rw [Nat.pow_succ] at hle
        omega
      · intro hlt
        by_contra hlen
        have hle : 256 ^ k ≤ 256 ^ body.length := Nat.pow_le_pow_right (by decide) (by omega)
        omega
  | room neg body top hpos hroom =>
      have hbody := valueLE_lt body
      rw [natAbs_signed, valueLE_concat, List.length_append, List.length_singleton]
      have hlower : 256 ^ body.length * 1 ≤ 256 ^ body.length * top.toNat :=
        Nat.mul_le_mul_left _ hpos
      have hupper : 256 ^ body.length * (top.toNat + 1) ≤ 256 ^ body.length * 128 :=
        Nat.mul_le_mul_left _ hroom
      rw [Nat.mul_add, Nat.mul_one] at hupper
      constructor
      · intro hlen
        have hle : 256 ^ body.length ≤ 256 ^ k := Nat.pow_le_pow_right (by decide) (by omega)
        omega
      · intro hlt
        by_contra hlen
        have hle : 256 ^ (k + 1) ≤ 256 ^ body.length :=
          Nat.pow_le_pow_right (by decide) (by omega)
        rw [Nat.pow_succ] at hle
        omega

/-!
# What is serialized
-/

/-- No zero at the end. -/
def Trimmed (bytes : List UInt8) : Prop := forall last, bytes.getLast? = some last -> 0 < last.toNat

theorem absBytes_spec (rounds : Nat) :
    forall absvalue, absvalue < 256 ^ rounds ->
      valueLE (absBytes rounds absvalue) = absvalue ∧ Trimmed (absBytes rounds absvalue) := by
  induction rounds with
  | zero =>
      intro absvalue h
      have hzero : absvalue = 0 := by simpa using h
      subst hzero
      exact ⟨rfl, nofun⟩
  | succ rounds ih =>
      intro absvalue h
      rw [absBytes]
      split_ifs with hzero
      · subst hzero
        exact ⟨rfl, nofun⟩
      · have hdiv : absvalue / 256 < 256 ^ rounds := by
          rw [Nat.pow_succ] at h
          exact Nat.div_lt_of_lt_mul (by omega)
        have hbyte : (UInt8.ofNat (absvalue % 256)).toNat = absvalue % 256 := by
          rw [UInt8.toNat_ofNat']
          omega
        rcases ih (absvalue / 256) hdiv with ⟨hvalue, htrimmed⟩
        constructor
        · rw [valueLE, hvalue, hbyte]
          omega
        · intro last hlast
          rw [List.getLast?_cons] at hlast
          cases hrest : absBytes rounds (absvalue / 256) with
          | nil =>
              -- the only byte is the number itself
              rw [hrest] at hvalue hlast
              rw [← Option.some.inj hlast]
              change 0 < (UInt8.ofNat (absvalue % 256)).toNat
              have hhigh : absvalue / 256 = 0 := hvalue.symm
              omega
          | cons second rest =>
              apply htrimmed last
              rw [hrest] at hlast ⊢
              rw [List.getLast?_eq_some_getLast (List.cons_ne_nil _ _)] at hlast ⊢
              exact hlast

theorem serialize_concat {value : Int} {body : List UInt8} {top : UInt8}
    (h : absBytes 8 value.natAbs = body ++ [top]) :
    serialize value =
      if top.toNat < 128 then body ++ [top ||| signByte (decide (value < 0))]
      else body ++ [top] ++ [signByte (decide (value < 0))] := by
  unfold serialize
  simp only [h, List.getLast?_concat, and_sign_eq_zero, List.dropLast_concat]
  by_cases hroom : top.toNat < 128
  · by_cases hneg : value < 0
    · simp [hroom, hneg, signByte]
    · simp [hroom, hneg, signByte]
  · by_cases hneg : value < 0
    · simp [hroom, hneg, signByte]
    · simp [hroom, hneg, signByte]

theorem signed_natAbs (value : Int) : signed (decide (value < 0)) value.natAbs = value := by
  unfold signed
  by_cases hneg : value < 0
  · rw [if_pos (decide_eq_true hneg)]
    omega
  · rw [if_neg (by simpa using hneg)]
    omega

/-- What a number serializes to has its form. -/
theorem encodes_serialize {value : Int} (h : value.natAbs < 256 ^ 8) :
    Encodes value (serialize value) := by
  rcases absBytes_spec 8 value.natAbs h with ⟨hvalue, htrimmed⟩
  rcases List.eq_nil_or_concat' (absBytes 8 value.natAbs) with hnil | ⟨body, top, hconcat⟩
  · rw [hnil] at hvalue
    have hzero : value = 0 := Int.natAbs_eq_zero.mp hvalue.symm
    subst hzero
    exact Encodes.zero
  · rw [hconcat] at hvalue htrimmed
    have hpos := htrimmed top (List.getLast?_concat)
    rw [serialize_concat hconcat]
    have hsigned := signed_natAbs value
    rw [← hvalue] at hsigned
    split_ifs with hroom
    · have hform := Encodes.room (decide (value < 0)) body top hpos hroom
      rw [hsigned] at hform
      exact hform
    · have hform := Encodes.full (decide (value < 0)) body top (Nat.not_lt.mp hroom)
      rw [hsigned] at hform
      exact hform

theorem Trimmed.rest {byte : UInt8} {bytes : List UInt8} (h : Trimmed (byte :: bytes)) :
    Trimmed bytes := by
  intro last hlast
  apply h last
  rw [List.getLast?_cons, hlast]
  rfl

theorem Trimmed.value_pos {byte : UInt8} {bytes : List UInt8} (h : Trimmed (byte :: bytes)) :
    0 < valueLE (byte :: bytes) := by
  induction bytes generalizing byte with
  | nil => exact (h byte rfl).trans_le (Nat.le_add_right _ _)
  | cons second bytes ih =>
      have hrest := ih h.rest
      rw [valueLE]
      omega

theorem absBytes_valueLE (bytes : List UInt8) :
    forall rounds, bytes.length ≤ rounds -> Trimmed bytes ->
      absBytes rounds (valueLE bytes) = bytes := by
  induction bytes with
  | nil =>
      intro rounds _ _
      cases rounds <;> rfl
  | cons byte bytes ih =>
      intro rounds hlen htrimmed
      have hlt := byte.toNat_lt
      have hpos := htrimmed.value_pos
      cases rounds with
      | zero => cases hlen
      | succ rounds =>
          have hlow : valueLE (byte :: bytes) % 256 = byte.toNat := by
            rw [valueLE]
            omega
          have hhigh : valueLE (byte :: bytes) / 256 = valueLE bytes := by
            rw [valueLE]
            omega
          rw [absBytes, if_neg (by omega), hlow, hhigh, UInt8.ofNat_toNat,
            ih rounds (Nat.le_of_succ_le_succ hlen) htrimmed.rest]

theorem decide_signed_neg (neg : Bool) {m : Nat} (hpos : 0 < m) :
    decide (signed neg m < 0) = neg := by
  cases neg with
  | false =>
      apply decide_eq_false
      show ¬ (m : Int) < 0
      omega
  | true =>
      apply decide_eq_true
      show -(m : Int) < 0
      omega

/-- There is no other vector of the form of a number. -/
theorem Encodes.serialize_eq {n : Int} {vch : ValType} (h : Encodes n vch)
    (hlen : vch.length ≤ 8) : serialize n = vch := by
  have hbytes : forall (neg : Bool) (body : List UInt8) (top : UInt8), body.length < 8 ->
      0 < top.toNat ->
      absBytes 8 (signed neg (valueLE (body ++ [top]))).natAbs = body ++ [top] ∧
        decide (signed neg (valueLE (body ++ [top])) < 0) = neg := by
    intro neg body top hlt hpos
    have htrimmed : Trimmed (body ++ [top]) := by
      intro last hlast
      rw [List.getLast?_concat, Option.some.injEq] at hlast
      rw [← hlast]
      exact hpos
    have hvalue : 0 < valueLE (body ++ [top]) := by
      rw [valueLE_concat]
      have hmul := Nat.mul_pos (Nat.pow_pos (n := body.length) (show 0 < 256 by decide)) hpos
      omega
    constructor
    · rw [natAbs_signed]
      apply absBytes_valueLE _ _ _ htrimmed
      rw [List.length_append, List.length_singleton]
      exact hlt
    · exact decide_signed_neg neg hvalue
  cases h with
  | zero => rfl
  | full neg body top hfull =>
      rw [List.length_append, List.length_append, List.length_singleton,
        List.length_singleton] at hlen
      rcases hbytes neg body top (by omega) (by omega) with ⟨habs, hneg⟩
      rw [serialize_concat habs, if_neg (Nat.not_lt.mpr hfull), hneg]
  | room neg body top hpos hroom =>
      rw [List.length_append, List.length_singleton] at hlen
      rcases hbytes neg body top (by omega) hpos with ⟨habs, hneg⟩
      rw [serialize_concat habs, if_pos hroom, hneg]

theorem length_serialize_le_iff {value : Int} (h : value.natAbs < 256 ^ 8) (k : Nat) :
    (serialize value).length ≤ k + 1 <-> value.natAbs < 128 * 256 ^ k :=
  (encodes_serialize h).length_le_iff k

/-!
# Round trips of numbers
-/

theorem scriptNum_eq_ok_iff {vch : ValType} {n : Int} :
    scriptNum vch true = Except.ok n <->
      vch.length ≤ nMaxNumSize ∧ minimallyEncoded vch = true ∧ setVch vch = n := by
  unfold scriptNum
  rw [then_eq_ok_iff, then_eq_ok_iff, require_eq_ok_iff, require_eq_ok_iff, Except.ok.injEq,
    Bool.not_eq_true', decide_eq_false_iff_not, Nat.not_lt, Bool.true_and, Bool.not_not]

theorem scriptNum_serialize {n : Int} (h : n.natAbs < 2 ^ 31) (fRequireMinimal : Bool) :
    scriptNum (serialize n) fRequireMinimal = Except.ok n := by
  have hsmall : n.natAbs < 256 ^ 8 := h.trans (by decide)
  have hform := encodes_serialize hsmall
  have hlen : (serialize n).length ≤ 3 + 1 := (length_serialize_le_iff hsmall 3).mpr h
  apply succeedsWith_scriptNum (serialize n) (fun _ => rfl)
  exact scriptNum_eq_ok_iff.mpr ⟨hlen, hform.minimal, hform.setVch_eq⟩

theorem minimal_iff_serialized {vch : ValType} (hlen : vch.length ≤ nMaxNumSize) :
    minimallyEncoded vch = true <-> exists n : Int, n.natAbs < 2 ^ 31 ∧ vch = serialize n := by
  constructor
  · intro hminimal
    have hform := encodes_of_minimal hminimal
    have hsize : (setVch vch).natAbs < 128 * 256 ^ 3 := (hform.length_le_iff 3).mp hlen
    exact ⟨setVch vch, hsize, (hform.serialize_eq (hlen.trans (by decide))).symm⟩
  · rintro ⟨n, hn, rfl⟩
    exact (scriptNum_eq_ok_iff.mp (scriptNum_serialize hn true)).2.1

end Script
end Hbcur
