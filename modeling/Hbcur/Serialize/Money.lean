import Hbcur.Primitives.Transaction
import Hbcur.Serialize.Base58
import Hbcur.Serialize.Integers
import Mathlib.Tactic.FieldSimp

/-!
# Amounts as text

`FormatMoney` and `ParseMoney` of `utilmoneystr.cpp` on the bytes of texts.
-/

namespace Hbcur
namespace Serialize

open Foundation Digits

namespace Money

def CENT : Int := 1000000

def isdigit (ch : UInt8) : Bool := decide (48 ≤ ch.toNat) && decide (ch.toNat ≤ 57)

/-- `ch - '0'` -/
def digitOf (ch : UInt8) : Nat := ch.toNat - 48

def digitByte (d : Nat) : UInt8 := UInt8.ofNat (48 + d)

/-!
# Formatting
-/

/-- `%d` of a number which is not negative. -/
def decimalBytes (n : Nat) : List UInt8 :=
  if n = 0 then [48] else (Nat.digits 10 n).reverse.map digitByte

/-- `%08d` -/
def paddedBytes (n : Nat) : List UInt8 :=
  List.replicate (8 - (decimalBytes n).length) 48 ++ decimalBytes n

/-- The zeros which are trimmed, from the last character of a text on. -/
def trimZeros : List UInt8 -> List UInt8
  | c :: x :: y :: rest =>
      if c == 48 && isdigit y then trimZeros (x :: y :: rest) else c :: x :: y :: rest
  | short => short

def formatMoney (n : Int) (fPlus : Bool) : List UInt8 :=
  let nAbs := if n > 0 then n else -n
  let quotient := nAbs / COIN
  let remainder := nAbs % COIN
  let str := decimalBytes quotient.toNat ++ 46 :: paddedBytes remainder.toNat
  let str := (trimZeros str.reverse).reverse
  if n < 0 then 45 :: str
  else if fPlus && decide (n > 0) then 43 :: str
  else str

/-!
# Parsing
-/

/-- `strtoll` of digits, which stops at the largest number. -/
def atoi64 (strWhole : List UInt8) : Int :=
  min (value 10 (strWhole.map digitOf) : Int) 9223372036854775807

/-- The digits after the point, with what follows them. -/
def unitsLoop : Int -> Int -> List UInt8 -> Int × List UInt8
  | _, nUnits, [] => (nUnits, [])
  | nMult, nUnits, ch :: p =>
      if isdigit ch && decide (nMult > 0) then
        unitsLoop (nMult / 10) (nUnits + nMult * (digitOf ch : Int)) p
      else (nUnits, ch :: p)

/-- The digits before the point, the units after it, and what follows; nothing where there is a
character which does not belong to a number. -/
def wholeLoop : List UInt8 -> List UInt8 -> Option (List UInt8 × Int × List UInt8)
  | strWhole, [] => some (strWhole, 0, [])
  | strWhole, ch :: p =>
      if ch == 46 then some (strWhole, unitsLoop (CENT * 10) 0 p)
      else if isspace ch then some (strWhole, 0, ch :: p)
      else if !isdigit ch then none
      else wholeLoop (strWhole ++ [ch]) p

def parseMoney (str : List UInt8) : Option Int :=
  match wholeLoop [] ((cStr str).dropWhile isspace) with
  | none => none
  | some (strWhole, nUnits, p) =>
      if !p.all isspace then none
      -- guard against 63 bit overflow
      else if strWhole.length > 10 then none
      else if nUnits < 0 ∨ nUnits > COIN then none
      else some (wrapInt64 (wrapInt64 (atoi64 strWhole * COIN) + nUnits))

/-!
# Texts of amounts
-/

/-- Digits with an optional fraction, between spaces. -/
structure MoneyText where
  before : List UInt8
  whole : List UInt8
  frac : Option (List UInt8)
  after : List UInt8
  before_spaces : before.all isspace = true
  whole_digits : whole.all isdigit = true
  whole_le : whole.length ≤ 10
  frac_digits : (frac.getD []).all isdigit = true
  frac_le : (frac.getD []).length ≤ 8
  after_spaces : after.all isspace = true

/-- The number which a string of digits denotes. -/
def numberOf (digits : List UInt8) : Nat := value 10 (digits.map digitOf)

def fracText : Option (List UInt8) -> List UInt8
  | none => []
  | some digits => 46 :: digits

namespace MoneyText

def text (t : MoneyText) : List UInt8 := t.before ++ (t.whole ++ (fracText t.frac ++ t.after))

/-- The decimal number of the text. -/
def number (t : MoneyText) : Rat :=
  numberOf t.whole + (numberOf (t.frac.getD []) : Rat) / 10 ^ (t.frac.getD []).length

def units (t : MoneyText) : Nat :=
  numberOf (t.frac.getD []) * 10 ^ (8 - (t.frac.getD []).length)

def amount (t : MoneyText) : Int := numberOf t.whole * COIN + t.units

end MoneyText

/-!
# Digits
-/

theorem isdigit_iff {ch : UInt8} : isdigit ch = true <-> 48 ≤ ch.toNat ∧ ch.toNat ≤ 57 := by
  rw [isdigit, Bool.and_eq_true, decide_eq_true_eq, decide_eq_true_eq]

theorem not_isspace_of_digit {ch : UInt8} (h : isdigit ch = true) : isspace ch = false := by
  rw [isdigit_iff] at h
  have hne : (ch == 32) = false := by
    apply beq_eq_false_iff_ne.mpr
    rintro rfl
    exact absurd h.1 (by decide)
  have hgt : ¬ ch.toNat ≤ 13 := by omega
  rw [isspace, hne, decide_eq_false hgt, Bool.and_false, Bool.or_false]

theorem ne_point_of_digit {ch : UInt8} (h : isdigit ch = true) : (ch == 46) = false := by
  apply beq_eq_false_iff_ne.mpr
  rintro rfl
  revert h
  decide

theorem bounded_digitOf {digits : List UInt8} (h : digits.all isdigit = true) :
    Bounded 10 (digits.map digitOf) := by
  intro d hd
  rcases List.mem_map.mp hd with ⟨ch, hch, rfl⟩
  have hdigit := isdigit_iff.mp (List.all_eq_true.mp h ch hch)
  unfold digitOf
  omega

theorem numberOf_lt {digits : List UInt8} (h : digits.all isdigit = true) :
    numberOf digits < 10 ^ digits.length := by
  have hlt := value_lt (by decide) (bounded_digitOf h)
  rw [List.length_map] at hlt
  exact hlt

theorem numberOf_cons (ch : UInt8) (digits : List UInt8) :
    numberOf (ch :: digits) = numberOf digits + 10 ^ digits.length * digitOf ch := by
  rw [numberOf, List.map_cons, value_cons, List.length_map]
  rfl

namespace MoneyText

variable (t : MoneyText)

theorem units_lt : t.units < 100000000 := by
  have hlt := numberOf_lt t.frac_digits
  calc t.units < 10 ^ (t.frac.getD []).length * 10 ^ (8 - (t.frac.getD []).length) :=
        Nat.mul_lt_mul_of_pos_right hlt (Nat.pow_pos (by decide))
    _ = 10 ^ 8 := by rw [← Nat.pow_add, Nat.add_sub_cancel' t.frac_le]

theorem whole_lt : numberOf t.whole < 10000000000 :=
  (numberOf_lt t.whole_digits).trans_le (Nat.pow_le_pow_right (by decide) t.whole_le)

theorem amount_range : 0 ≤ t.amount ∧ t.amount < 1000000000000000000 := by
  have hunits := t.units_lt
  have hwhole := t.whole_lt
  unfold amount COIN
  omega

theorem amount_eq : (t.amount : Rat) = t.number * COIN := by
  have hpow : (10 : Rat) ^ 8 = 10 ^ (8 - (t.frac.getD []).length) *
      10 ^ (t.frac.getD []).length := by
    rw [← pow_add, Nat.sub_add_cancel t.frac_le]
  have hne : (10 : Rat) ^ (t.frac.getD []).length ≠ 0 := pow_ne_zero _ (by decide)
  have hcoin : (COIN : Rat) = 10 ^ 8 := by
    unfold COIN
    norm_num
  unfold amount number units
  push_cast
  rw [hcoin, hpow]
  field_simp

end MoneyText

/-!
# The loops of the parser
-/

/-- The multiplier while some decimals may still come. -/
def multiplier : Nat -> Int
  | 0 => 0
  | left + 1 => 10 ^ left

theorem multiplier_succ (left : Nat) : multiplier (left + 1) / 10 = multiplier left := by
  cases left with
  | zero => rfl
  | succ left =>
      show (10 : Int) ^ (left + 1) / 10 = 10 ^ left
      rw [pow_succ, Int.mul_ediv_cancel _ (by decide)]

theorem unitsLoop_digits (digits : List UInt8) :
    forall {left : Nat} {nUnits : Int} {p : List UInt8}, digits.all isdigit = true ->
      digits.length ≤ left -> (digits.length = left ∨ StartsWithout isdigit p) ->
      unitsLoop (multiplier left) nUnits (digits ++ p) =
        (nUnits + (numberOf digits * 10 ^ (left - digits.length) : Nat), p) := by
  induction digits with
  | nil =>
      intro left nUnits p _ _ hstop
      have hzero : numberOf [] = 0 := rfl
      rw [hzero, Nat.zero_mul, List.nil_append]
      cases p with
      | nil => simp [unitsLoop]
      | cons ch p =>
          have hstays : (isdigit ch && decide (multiplier left > 0)) = false := by
            rcases hstop with hfull | hstarts
            · rw [← hfull]
              exact Bool.and_false _
            · rw [hstarts ch rfl, Bool.false_and]
          rw [unitsLoop, hstays]
          simp
  | cons ch digits ih =>
      intro left nUnits p hdigits hle hstop
      rw [List.all_cons, Bool.and_eq_true] at hdigits
      cases left with
      | zero => cases hle
      | succ left =>
          rw [List.length_cons] at hle hstop
          have hpos : decide (multiplier (left + 1) > 0) = true :=
            decide_eq_true (pow_pos (by decide) left)
          have hexp : left = (left - digits.length) + digits.length := by omega
          rw [List.cons_append, unitsLoop, hdigits.1, hpos, Bool.and_self, if_pos rfl,
            multiplier_succ, ih hdigits.2 (by omega) (hstop.imp_left Nat.succ.inj), numberOf_cons,
            List.length_cons, Nat.add_sub_add_right]
          congr 1
          show nUnits + 10 ^ left * (digitOf ch : Int) + _ = _
          push_cast
          have hsplit : (10 : Int) ^ left = 10 ^ (left - digits.length) * 10 ^ digits.length := by
            rw [← pow_add, ← hexp]
          rw [hsplit]
          ring

theorem wholeLoop_digits (digits : List UInt8) :
    forall {strWhole p : List UInt8}, digits.all isdigit = true ->
      wholeLoop strWhole (digits ++ p) = wholeLoop (strWhole ++ digits) p := by
  induction digits with
  | nil =>
      intro strWhole p _
      rw [List.nil_append, List.append_nil]
  | cons ch digits ih =>
      intro strWhole p hdigits
      rw [List.all_cons, Bool.and_eq_true] at hdigits
      rw [List.cons_append, wholeLoop, ne_point_of_digit hdigits.1,
        not_isspace_of_digit hdigits.1, hdigits.1]
      simp only [Bool.false_eq_true, if_false, Bool.not_true]
      rw [ih hdigits.2, List.append_assoc, List.singleton_append]

/-- Some digits, and after them no digit or no room for one. -/
theorem exists_digits (left : Nat) :
    forall p : List UInt8, exists digits rest, p = digits ++ rest ∧ digits.all isdigit = true ∧
      digits.length ≤ left ∧ (digits.length = left ∨ StartsWithout isdigit rest) := by
  induction left with
  | zero => exact fun p => ⟨[], p, rfl, rfl, Nat.le_refl 0, Or.inl rfl⟩
  | succ left ih =>
      intro p
      cases p with
      | nil => exact ⟨[], [], rfl, rfl, Nat.zero_le _, Or.inr nofun⟩
      | cons ch p =>
          cases hdigit : isdigit ch with
          | false =>
              refine ⟨[], ch :: p, rfl, rfl, Nat.zero_le _, Or.inr ?_⟩
              intro ch' hch'
              rw [List.head?_cons, Option.mem_some_iff] at hch'
              rw [← hch']
              exact hdigit
          | true =>
              rcases ih p with ⟨digits, rest, rfl, hdigits, hle, hstop⟩
              refine ⟨ch :: digits, rest, rfl, ?_, Nat.succ_le_succ hle, ?_⟩
              · rw [List.all_cons, hdigit, hdigits]
                rfl
              · exact hstop.imp_left (congrArg Nat.succ)

/-!
# What is parsed
-/

/-- What is left to test and to compute after the loops. -/
def finishMoney : Option (List UInt8 × Int × List UInt8) -> Option Int
  | none => none
  | some (strWhole, nUnits, p) =>
      if !p.all isspace then none
      else if strWhole.length > 10 then none
      else if nUnits < 0 ∨ nUnits > COIN then none
      else some (wrapInt64 (wrapInt64 (atoi64 strWhole * COIN) + nUnits))

theorem parseMoney_eq (str : List UInt8) :
    parseMoney str = finishMoney (wholeLoop [] ((cStr str).dropWhile isspace)) := by
  unfold parseMoney
  cases wholeLoop [] ((cStr str).dropWhile isspace) <;> rfl

/-- The loops have read a text of an amount up to its last spaces. -/
def MoneyText.parsed (t : MoneyText) : List UInt8 × Int × List UInt8 :=
  (t.whole, (t.units : Int), t.after)

theorem MoneyText.parsed_none {t : MoneyText} (h : t.frac = none) :
    t.parsed = (t.whole, 0, t.after) := by
  rw [MoneyText.parsed, MoneyText.units, h, Option.getD_none, numberOf, List.map_nil, value_nil,
    Nat.zero_mul, Nat.cast_zero]

theorem MoneyText.parsed_some {t : MoneyText} {digits : List UInt8} (h : t.frac = some digits) :
    t.parsed =
      (t.whole, ((numberOf digits * 10 ^ (8 - digits.length) : Nat) : Int), t.after) := by
  rw [MoneyText.parsed, MoneyText.units, h, Option.getD_some]

theorem finishMoney_parsed (t : MoneyText) : finishMoney (some t.parsed) = some t.amount := by
  have hrange := t.amount_range
  have hunits := t.units_lt
  have hwhole := t.whole_lt
  have hatoi : atoi64 t.whole = numberOf t.whole :=
    min_eq_left (show (numberOf t.whole : Int) ≤ 9223372036854775807 by omega)
  have hfits : ¬ ((t.units : Int) < 0 ∨ (t.units : Int) > COIN) := by
    unfold COIN
    omega
  have hsize : ¬ t.whole.length > 10 := Nat.not_lt.mpr t.whole_le
  unfold MoneyText.amount at hrange ⊢
  unfold MoneyText.parsed finishMoney
  simp only
  rw [t.after_spaces, Bool.not_true, if_neg Bool.false_ne_true, if_neg hsize, if_neg hfits, hatoi]
  unfold COIN at hrange ⊢
  rw [wrapInt64_of_range (numberOf t.whole * 100000000) (by omega) (by omega),
    wrapInt64_of_range _ (by omega) (by omega)]

theorem tested_of_finish {strWhole p : List UInt8} {nUnits v : Int}
    (h : finishMoney (some (strWhole, nUnits, p)) = some v) :
    p.all isspace = true ∧ strWhole.length ≤ 10 := by
  unfold finishMoney at h
  simp only at h
  split_ifs at h with hspaces hsize
  · rw [Bool.not_eq_true', Bool.not_eq_false] at hspaces
    exact ⟨hspaces, Nat.not_lt.mp hsize⟩

/-- Nothing but a text of an amount gets through the loops and the tests after them. -/
theorem exists_text {before s : List UInt8} {v : Int} (hbefore : before.all isspace = true)
    (h : finishMoney (wholeLoop [] s) = some v) :
    exists t : MoneyText, t.text = before ++ s ∧ wholeLoop [] s = some t.parsed := by
  rcases exists_digits s.length s with ⟨whole, p, rfl, hwhole, -, hstop⟩
  have hstarts : StartsWithout isdigit p := by
    rcases hstop with hfull | hstarts
    · rw [List.length_append] at hfull
      rw [List.length_eq_zero_iff.mp (show p.length = 0 by omega)]
      exact nofun
    · exact hstarts
  rw [wholeLoop_digits whole hwhole, List.nil_append] at h ⊢
  cases p with
  | nil =>
      rw [wholeLoop] at h ⊢
      rcases tested_of_finish h with ⟨hafter, hsize⟩
      refine ⟨⟨before, whole, none, [], hbefore, hwhole, hsize, rfl, Nat.zero_le _, hafter⟩,
        rfl, ?_⟩
      rw [MoneyText.parsed_none rfl]
  | cons ch p =>
      have hdigit := hstarts ch rfl
      rw [wholeLoop] at h ⊢
      by_cases hpoint : (ch == 46) = true
      · -- the units, and what is left when they end
        rcases exists_digits 8 p with ⟨digits, rest, rfl, hdigits, hle, hend⟩
        have hunits := @unitsLoop_digits digits 8 0 rest hdigits hle hend
        have hmult : CENT * 10 = multiplier 8 := by decide
        rw [Int.zero_add] at hunits
        rw [if_pos hpoint, hmult, hunits] at h ⊢
        rcases tested_of_finish h with ⟨hafter, hsize⟩
        refine ⟨⟨before, whole, some digits, rest, hbefore, hwhole, hsize, hdigits, hle, hafter⟩,
          ?_, ?_⟩
        · rw [eq_of_beq hpoint]
          rfl
        · rw [MoneyText.parsed_some rfl]
      · rw [if_neg hpoint] at h ⊢
        cases hspace : isspace ch with
        | true =>
            rw [hspace, if_pos rfl] at h
            rw [if_pos rfl]
            rcases tested_of_finish h with ⟨hafter, hsize⟩
            refine ⟨⟨before, whole, none, ch :: p, hbefore, hwhole, hsize, rfl, Nat.zero_le _,
              hafter⟩, rfl, ?_⟩
            rw [MoneyText.parsed_none rfl]
        | false =>
            rw [hspace, hdigit, if_neg Bool.false_ne_true, Bool.not_false, if_pos rfl] at h
            cases h

/-- A text of an amount goes through the loops and the tests. -/
theorem finishMoney_text (t : MoneyText) :
    finishMoney (wholeLoop [] (t.text.dropWhile isspace)) = some t.amount := by
  have hbefore := List.all_eq_true.mp t.before_spaces
  have hafter := List.all_eq_true.mp t.after_spaces
  rw [MoneyText.text, List.dropWhile_append_of_pos hbefore]
  have hread : wholeLoop [] (t.whole ++ (fracText t.frac ++ t.after)) = some t.parsed := by
    rw [wholeLoop_digits t.whole t.whole_digits, List.nil_append]
    have hdigits := t.frac_digits
    have hle := t.frac_le
    cases hfrac : t.frac with
    | none =>
        rw [fracText, List.nil_append, MoneyText.parsed_none hfrac]
        cases hcase : t.after with
        | nil => rw [wholeLoop]
        | cons ch rest =>
            have hspace := hafter ch (by rw [hcase]; exact List.mem_cons_self)
            have hpoint : (ch == 46) = false := by
              apply beq_eq_false_iff_ne.mpr
              rintro rfl
              exact absurd hspace (by decide)
            rw [wholeLoop, hpoint, hspace, if_neg Bool.false_ne_true, if_pos rfl]
    | some digits =>
        rw [hfrac, Option.getD_some] at hdigits hle
        have hstarts : StartsWithout isdigit t.after := by
          intro ch hch
          have hspace := hafter ch (List.mem_of_mem_head? hch)
          cases hdigit : isdigit ch with
          | false => rfl
          | true => exact absurd hspace (by rw [not_isspace_of_digit hdigit]; decide)
        have hunits := @unitsLoop_digits digits 8 0 t.after hdigits hle (Or.inr hstarts)
        have hmult : CENT * 10 = multiplier 8 := by decide
        rw [Int.zero_add] at hunits
        rw [fracText, List.cons_append, wholeLoop, if_pos (beq_self_eq_true _), hmult, hunits,
          MoneyText.parsed_some hfrac]
  cases hfirst : t.whole ++ (fracText t.frac ++ t.after) with
  | nil =>
      rw [hfirst] at hread
      rw [List.dropWhile_nil, hread, finishMoney_parsed]
  | cons ch rest =>
      cases hspace : isspace ch with
      | false =>
          rw [List.dropWhile_cons_of_neg (by rw [hspace]; exact Bool.false_ne_true), ← hfirst,
            hread, finishMoney_parsed]
      | true =>
          -- there are no digits and no point, and all spaces are skipped at once
          have hwhole : t.whole = [] := by
            cases hcase : t.whole with
            | nil => rfl
            | cons ch' whole =>
                have hdigits := t.whole_digits
                rw [hcase, List.all_cons, Bool.and_eq_true] at hdigits
                rw [hcase, List.cons_append, List.cons.injEq] at hfirst
                rw [← hfirst.1, not_isspace_of_digit hdigits.1] at hspace
                cases hspace
          have hfrac : t.frac = none := by
            cases hcase : t.frac with
            | none => rfl
            | some digits =>
                rw [hwhole, hcase, List.nil_append, fracText, List.cons_append,
                  List.cons.injEq] at hfirst
                rw [← hfirst.1] at hspace
                exact absurd hspace (by decide)
          have hskip := @List.dropWhile_append_of_pos _ isspace t.after [] hafter
          rw [List.append_nil, List.dropWhile_nil] at hskip
          rw [← hfirst, hwhole, hfrac, fracText, List.nil_append, List.nil_append, hskip]
          have hzero : t.amount = 0 := by
            have hparsed := congrArg (fun r => r.2.1) (MoneyText.parsed_none hfrac)
            change (t.units : Int) = 0 at hparsed
            rw [MoneyText.amount, hparsed, hwhole]
            rfl
          rw [hzero]
          decide

/-- A text without zero bytes is parsed when it is the text of an amount, into its number. -/
theorem parseMoney_eq_some_iff {str : List UInt8} (hstr : forall ch, ch ∈ str -> ch ≠ 0) (v : Int) :
    parseMoney str = some v <-> exists t : MoneyText, t.text = str ∧ v = t.amount := by
  rw [parseMoney_eq, cStr_eq hstr]
  constructor
  · intro h
    have hspaces : (str.takeWhile isspace).all isspace = true := List.all_takeWhile
    rcases exists_text hspaces h with ⟨t, htext, hparsed⟩
    rw [List.takeWhile_append_dropWhile] at htext
    rw [hparsed, finishMoney_parsed, Option.some.injEq] at h
    exact ⟨t, htext, h.symm⟩
  · rintro ⟨t, rfl, rfl⟩
    exact finishMoney_text t

/-!
# What is formatted
-/

theorem isdigit_digitByte {d : Nat} (hd : d < 10) : isdigit (digitByte d) = true := by
  have hbyte : (digitByte d).toNat = 48 + d := by
    rw [digitByte, UInt8.toNat_ofNat']
    omega
  rw [isdigit_iff, hbyte]
  omega

theorem digitOf_digitByte {d : Nat} (hd : d < 10) : digitOf (digitByte d) = d := by
  rw [digitOf, digitByte, UInt8.toNat_ofNat']
  omega

theorem map_digitByte {ds : List Nat} (h : Bounded 10 ds) :
    (ds.map digitByte).all isdigit = true ∧ numberOf (ds.map digitByte) = value 10 ds := by
  constructor
  · apply List.all_eq_true.mpr
    intro ch hch
    rcases List.mem_map.mp hch with ⟨d, hd, rfl⟩
    exact isdigit_digitByte (h d hd)
  · rw [numberOf, List.map_map]
    congr 1
    exact (List.map_congr_left (fun d hd => digitOf_digitByte (h d hd))).trans (List.map_id ds)

/-- The digits of a number, with their size. -/
theorem decimalBytes_spec {n size : Nat} (hsize : 0 < size) (hn : n < 10 ^ size) :
    (decimalBytes n).all isdigit = true ∧ numberOf (decimalBytes n) = n ∧
      (decimalBytes n).length ≤ size := by
  unfold decimalBytes
  split_ifs with hzero
  · subst hzero
    exact ⟨rfl, rfl, hsize⟩
  · rcases map_digitByte (bounded_digits (by decide) n) with ⟨hdigits, hvalue⟩
    refine ⟨hdigits, hvalue.trans (value_digits n), ?_⟩
    rw [List.length_map, List.length_reverse]
    exact (Nat.digits_length_le_iff (by decide) n).mpr hn

theorem numberOf_append (digits digits' : List UInt8) :
    numberOf (digits ++ digits') =
      numberOf digits * 10 ^ digits'.length + numberOf digits' := by
  rw [numberOf, List.map_append, value_append, List.length_map]
  rfl

theorem numberOf_zeros (n : Nat) : numberOf (List.replicate n 48) = 0 := by
  have hzero : digitOf 48 = 0 := rfl
  rw [numberOf, List.map_replicate, hzero, value_replicate_zero]

theorem paddedBytes_spec {n : Nat} (hn : n < 100000000) :
    (paddedBytes n).all isdigit = true ∧ numberOf (paddedBytes n) = n ∧
      (paddedBytes n).length = 8 := by
  rcases @decimalBytes_spec n 8 (by decide) hn with ⟨hdigits, hvalue, hlength⟩
  have hzeros : (List.replicate (8 - (decimalBytes n).length) (48 : UInt8)).all isdigit = true := by
    apply List.all_eq_true.mpr
    intro ch hch
    rw [List.eq_of_mem_replicate hch]
    decide
  unfold paddedBytes
  refine ⟨?_, ?_, ?_⟩
  · rw [List.all_append, hzeros, hdigits]
    rfl
  · rw [numberOf_append, numberOf_zeros, hvalue, Nat.zero_mul, Nat.zero_add]
  · rw [List.length_append, List.length_replicate]
    omega

/-- Zeros are trimmed as long as two decimals are left. -/
theorem trimZeros_spec (decimals : List UInt8) (rest : List UInt8)
    (hdigits : decimals.all isdigit = true) (hlength : 2 ≤ decimals.length) :
    exists count kept, decimals = List.replicate count 48 ++ kept ∧
      trimZeros (decimals ++ 46 :: rest) = kept ++ 46 :: rest := by
  induction decimals with
  | nil => cases hlength
  | cons c decimals ih =>
      rw [List.all_cons, Bool.and_eq_true] at hdigits
      cases decimals with
      | nil => exact absurd hlength (by simp)
      | cons x decimals =>
          cases decimals with
          | nil =>
              -- the point stands two characters before
              have hpoint : isdigit 46 = false := rfl
              refine ⟨0, [c, x], rfl, ?_⟩
              show trimZeros (c :: x :: 46 :: rest) = _
              rw [trimZeros, hpoint, Bool.and_false, if_neg Bool.false_ne_true]
              rfl
          | cons y decimals =>
              have hy : isdigit y = true := by
                have hrest := hdigits.2
                simp only [List.all_cons, Bool.and_eq_true] at hrest
                exact hrest.2.1
              rw [List.cons_append, List.cons_append, List.cons_append, trimZeros, hy,
                Bool.and_true]
              by_cases hzero : (c == 48) = true
              · rcases ih hdigits.2 (by simp) with ⟨count, kept, hkept, htrim⟩
                refine ⟨count + 1, kept, ?_, ?_⟩
                · rw [hkept, List.replicate_succ, List.cons_append, eq_of_beq hzero]
                · rw [if_pos hzero]
                  exact htrim
              · refine ⟨0, c :: x :: y :: decimals, rfl, ?_⟩
                rw [if_neg hzero]
                rfl

/-- The text of an amount which is not negative. -/
theorem exists_text_of_format {n : Nat} (hn : n < 1000000000000000000) :
    exists t : MoneyText, t.text = formatMoney (n : Int) false ∧ t.amount = (n : Int) := by
  have hquotient : n / 100000000 < 10 ^ 10 := by omega
  rcases decimalBytes_spec (by decide) hquotient with ⟨hwhole, hwholeValue, hwholeLength⟩
  rcases paddedBytes_spec (Nat.mod_lt n (show 0 < 100000000 by decide)) with
    ⟨hfrac, hfracValue, hfracLength⟩
  have hreverse : (paddedBytes (n % 100000000)).reverse.all isdigit = true := by
    rw [List.all_reverse]
    exact hfrac
  rcases trimZeros_spec _ (decimalBytes (n / 100000000)).reverse hreverse
    (by rw [List.length_reverse]; omega) with ⟨count, kept, hkept, htrim⟩
  have hdecimals : paddedBytes (n % 100000000) = kept.reverse ++ List.replicate count 48 := by
    rw [← List.reverse_reverse (paddedBytes (n % 100000000)), hkept, List.reverse_append,
      List.reverse_replicate]
  rw [hdecimals, List.length_append, List.length_replicate] at hfracLength
  rw [hdecimals, numberOf_append, numberOf_zeros, List.length_replicate, Nat.add_zero]
    at hfracValue
  rw [hdecimals, List.all_append, Bool.and_eq_true] at hfrac
  refine ⟨⟨[], decimalBytes (n / 100000000), some kept.reverse, [], rfl, hwhole, hwholeLength,
    hfrac.1, ?_, rfl⟩, ?_, ?_⟩
  · show kept.reverse.length ≤ 8
    omega
  · have habs : (if (n : Int) > 0 then (n : Int) else -(n : Int)) = n := by
      split_ifs <;> omega
    have hquot : ((n : Int) / COIN).toNat = n / 100000000 := by
      unfold COIN
      omega
    have hrem : ((n : Int) % COIN).toNat = n % 100000000 := by
      unfold COIN
      omega
    have hneg : ¬ (n : Int) < 0 := by omega
    have hrev : (decimalBytes (n / 100000000) ++ 46 :: paddedBytes (n % 100000000)).reverse =
        (paddedBytes (n % 100000000)).reverse ++ 46 :: (decimalBytes (n / 100000000)).reverse := by
      rw [List.reverse_append, List.reverse_cons, List.append_assoc, List.singleton_append]
    unfold formatMoney
    simp only [habs, hquot, hrem, hrev, htrim]
    rw [if_neg hneg, Bool.false_and, if_neg Bool.false_ne_true, List.reverse_append,
      List.reverse_cons, List.reverse_reverse, List.append_assoc, List.singleton_append]
    show [] ++ (decimalBytes (n / 100000000) ++ (46 :: kept.reverse ++ [])) = _
    rw [List.append_nil, List.nil_append]
  · have hcount : 8 - kept.reverse.length = count := by omega
    show (numberOf (decimalBytes (n / 100000000)) : Int) * COIN +
      ((numberOf kept.reverse * 10 ^ (8 - kept.reverse.length) : Nat) : Int) = n
    rw [hwholeValue, hcount, hfracValue]
    unfold COIN
    omega

theorem MoneyText.ne_zero (t : MoneyText) : forall ch, ch ∈ t.text -> ch ≠ 0 := by
  rintro ch hch rfl
  rcases List.mem_append.mp hch with hbefore | hch
  · exact absurd (List.all_eq_true.mp t.before_spaces 0 hbefore) (by decide)
  · rcases List.mem_append.mp hch with hwhole | hch
    · exact absurd (List.all_eq_true.mp t.whole_digits 0 hwhole) (by decide)
    · rcases List.mem_append.mp hch with hfrac | hafter
      · have hdigits := t.frac_digits
        cases hcase : t.frac with
        | none =>
            rw [hcase] at hfrac
            cases hfrac
        | some digits =>
            rw [hcase] at hfrac hdigits
            rcases List.mem_cons.mp hfrac with hpoint | hmem
            · exact absurd hpoint (by decide)
            · exact absurd (List.all_eq_true.mp hdigits 0 hmem) (by decide)
      · exact absurd (List.all_eq_true.mp t.after_spaces 0 hafter) (by decide)

/--
Amounts below 10 ^ 18 are read back from their texts, and what is read without a zero byte is
the text of a decimal number, whose value as an amount fits 64 bits.
-/
theorem money_roundTrip :
    (forall n : Int, 0 ≤ n -> n < 1000000000000000000 ->
      parseMoney (formatMoney n false) = some n) ∧
    (forall str : List UInt8, (forall ch, ch ∈ str -> ch ≠ 0) -> forall v,
      (parseMoney str = some v <->
        exists t : MoneyText, t.text = str ∧ (v : Rat) = t.number * COIN)) ∧
    forall t : MoneyText, 0 ≤ t.amount ∧ t.amount < 9223372036854775808 := by
  constructor
  · intro n hn hlt
    obtain ⟨m, rfl⟩ := Int.eq_ofNat_of_zero_le hn
    have hm : m < 1000000000000000000 := by omega
    rcases exists_text_of_format hm with ⟨t, htext, hamount⟩
    have hne := t.ne_zero
    rw [htext] at hne
    exact (parseMoney_eq_some_iff hne _).mpr ⟨t, htext, hamount.symm⟩
  · constructor
    · intro str hstr v
      rw [parseMoney_eq_some_iff hstr]
      refine exists_congr (fun t => and_congr_right (fun _ => ?_))
      rw [← t.amount_eq, Int.cast_inj]
    · intro t
      have hrange := t.amount_range
      omega

/-- "1.5" between spaces, and the amount below which texts are read back. -/
theorem money_roundTrip_short :
    parseMoney (formatMoney 999999999999999999 false) = some 999999999999999999 ∧
      exists t : MoneyText, t.text = [32, 49, 46, 53, 9] ∧ (150000000 : Int) = t.number * COIN := by
  constructor
  · exact money_roundTrip.1 999999999999999999 (by decide) (by decide)
  · exact (money_roundTrip.2.1 [32, 49, 46, 53, 9] (by decide +kernel) 150000000).mp
      (by decide +kernel)

end Money
end Serialize
end Hbcur
