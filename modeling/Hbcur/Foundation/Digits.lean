import Mathlib.Data.Nat.Digits.Lemmas

/-!
# Digits in a fixed buffer

Numbers as lists of digits with the highest digit first.  A buffer of a fixed size is multiplied
and added to in place, from its lowest digit up, and what is carried out of it is left over.
Reading digits of one base into a buffer of another one changes the base of a number.
-/

namespace Hbcur
namespace Foundation
namespace Digits

variable {mult base : Nat}

/-- The number which digits denote. -/
def value (base : Nat) (ds : List Nat) : Nat := Nat.ofDigits base ds.reverse

def Bounded (base : Nat) (ds : List Nat) : Prop := forall d, d ∈ ds -> d < base

@[simp]
theorem value_nil : value base [] = 0 := rfl

theorem value_cons (d : Nat) (ds : List Nat) :
    value base (d :: ds) = value base ds + base ^ ds.length * d := by
  rw [value, List.reverse_cons, Nat.ofDigits_append, Nat.ofDigits_singleton, List.length_reverse]
  rfl

theorem value_append (ds ds' : List Nat) :
    value base (ds ++ ds') = value base ds * base ^ ds'.length + value base ds' := by
  induction ds with
  | nil => simp
  | cons d ds ih =>
      rw [List.cons_append, value_cons, value_cons, ih, List.length_append, Nat.pow_add]
      ring

theorem Bounded.cons {d : Nat} {ds : List Nat} (hd : d < base) (hds : Bounded base ds) :
    Bounded base (d :: ds) :=
  List.forall_mem_cons.mpr ⟨hd, hds⟩

theorem Bounded.tail {d : Nat} {ds : List Nat} (h : Bounded base (d :: ds)) : Bounded base ds :=
  (List.forall_mem_cons.mp h).2

theorem value_lt (hbase : 1 < base) {ds : List Nat} (h : Bounded base ds) :
    value base ds < base ^ ds.length := by
  have hlt := Nat.ofDigits_lt_base_pow_length hbase
    (fun d hd => h d (List.mem_reverse.mp hd))
  rw [List.length_reverse] at hlt
  exact hlt

/-!
# What stands in front of a list
-/

section Zeros

variable {item : Type} {p : item -> Bool} {zero : item}

/-- What follows the zeros does not start with one. -/
def StartsWithout (p : item -> Bool) (xs : List item) : Prop :=
  forall x, x ∈ xs.head? -> p x = false

theorem StartsWithout.takeWhile_eq {xs : List item} (h : StartsWithout p xs)
    (hzero : p zero = true) (n : Nat) :
    (List.replicate n zero ++ xs).takeWhile p = List.replicate n zero := by
  induction n with
  | zero =>
      cases xs with
      | nil => rfl
      | cons x xs => exact List.takeWhile_cons_of_neg (by simp [h x rfl])
  | succ n ih => rw [List.replicate_succ, List.cons_append, List.takeWhile_cons_of_pos hzero, ih]

theorem StartsWithout.dropWhile_eq {xs : List item} (h : StartsWithout p xs)
    (hzero : p zero = true) (n : Nat) : (List.replicate n zero ++ xs).dropWhile p = xs := by
  induction n with
  | zero =>
      cases xs with
      | nil => rfl
      | cons x xs => exact List.dropWhile_cons_of_neg (by simp [h x rfl])
  | succ n ih => rw [List.replicate_succ, List.cons_append, List.dropWhile_cons_of_pos hzero, ih]

/-- Every list is zeros and what follows them. -/
theorem exists_zeros (honly : forall x, p x = true -> x = zero) (xs : List item) :
    exists n rest, xs = List.replicate n zero ++ rest ∧ StartsWithout p rest := by
  induction xs with
  | nil => exact ⟨0, [], rfl, nofun⟩
  | cons x xs ih =>
      cases hx : p x with
      | true =>
          rcases ih with ⟨n, rest, hxs, hrest⟩
          refine ⟨n + 1, rest, ?_, hrest⟩
          rw [List.replicate_succ, List.cons_append, ← hxs, honly x hx]
      | false =>
          refine ⟨0, x :: xs, rfl, ?_⟩
          intro y hy
          rw [List.head?_cons, Option.mem_some_iff] at hy
          rw [← hy]
          exact hx

end Zeros

/-!
# Zeros in front
-/

theorem value_replicate_zero (n : Nat) : value base (List.replicate n 0) = 0 := by
  induction n with
  | zero => rfl
  | succ n ih => rw [List.replicate_succ, value_cons, ih, Nat.mul_zero]

def isZero (d : Nat) : Bool := d == 0

/-- The digits without the zeros in front. -/
def trim (ds : List Nat) : List Nat := ds.dropWhile isZero

theorem value_trim (ds : List Nat) : value base (trim ds) = value base ds := by
  induction ds with
  | nil => rfl
  | cons d ds ih =>
      by_cases hzero : d = 0
      · subst hzero
        have htrim : trim (0 :: ds) = trim ds := rfl
        rw [htrim, ih, value_cons, Nat.mul_zero, Nat.add_zero]
      · have htrim : trim (d :: ds) = d :: ds := by
          rw [trim, List.dropWhile_cons_of_neg (by simpa [isZero] using hzero)]
        rw [htrim]

/-- No zero stands in front. -/
def Trimmed (ds : List Nat) : Prop := forall d, ds.head? = some d -> d ≠ 0

theorem trimmed_trim (ds : List Nat) : Trimmed (trim ds) := by
  induction ds with
  | nil => exact nofun
  | cons d ds ih =>
      by_cases hzero : d = 0
      · subst hzero
        exact ih
      · have htrim : trim (d :: ds) = d :: ds := by
          rw [trim, List.dropWhile_cons_of_neg (by simpa [isZero] using hzero)]
        rw [htrim]
        intro d' hd'
        rw [List.head?_cons, Option.some.injEq] at hd'
        rw [← hd']
        exact hzero

/-- The digits of a number without zeros in front are those of its value. -/
theorem digits_value (hbase : 1 < base) {ds : List Nat} (h : Bounded base ds)
    (htrimmed : Trimmed ds) : (Nat.digits base (value base ds)).reverse = ds := by
  have hdigits := Nat.digits_ofDigits base hbase ds.reverse
    (fun d hd => h d (List.mem_reverse.mp hd)) (fun hne => by
      rw [List.getLast_reverse]
      apply htrimmed
      exact List.head?_eq_some_head _)
  rw [value, hdigits, List.reverse_reverse]

theorem trimmed_digits {base : Nat} (n : Nat) : Trimmed (Nat.digits base n).reverse := by
  intro d hd hzero
  rw [List.head?_reverse] at hd
  have hne : n ≠ 0 := by
    rintro rfl
    rw [Nat.digits_zero] at hd
    cases hd
  have hlast := Nat.getLast_digit_ne_zero base hne
  rw [List.getLast?_eq_some_getLast (Nat.digits_ne_nil_iff_ne_zero.mpr hne),
    Option.some.injEq] at hd
  exact hlast (hd.trans hzero)

theorem bounded_digits {base : Nat} (hbase : 1 < base) (n : Nat) :
    Bounded base (Nat.digits base n).reverse :=
  fun _ hd => Nat.digits_lt_base hbase (List.mem_reverse.mp hd)

theorem value_digits {base : Nat} (n : Nat) : value base (Nat.digits base n).reverse = n := by
  rw [value, List.reverse_reverse, Nat.ofDigits_digits]

theorem bounded_trim {ds : List Nat} (h : Bounded base ds) : Bounded base (trim ds) :=
  fun d hd => h d ((List.dropWhile_sublist isZero).mem hd)

theorem trim_eq_digits (hbase : 1 < base) {ds : List Nat} (h : Bounded base ds) :
    trim ds = (Nat.digits base (value base ds)).reverse := by
  rw [← digits_value hbase (bounded_trim h) (trimmed_trim ds), value_trim]

/-!
# Multiplying and adding in place
-/

/-- The digits after a round over the buffer, and what is carried out of it. -/
def mulAdd (mult base carry : Nat) (ds : List Nat) : List Nat × Nat :=
  ds.foldr (fun d done =>
    ((done.2 + mult * d) % base :: done.1, (done.2 + mult * d) / base)) ([], carry)

theorem mulAdd_cons (carry d : Nat) (ds : List Nat) :
    mulAdd mult base carry (d :: ds) =
      (((mulAdd mult base carry ds).2 + mult * d) % base :: (mulAdd mult base carry ds).1,
        ((mulAdd mult base carry ds).2 + mult * d) / base) := rfl

theorem length_mulAdd (carry : Nat) (ds : List Nat) :
    (mulAdd mult base carry ds).1.length = ds.length := by
  induction ds with
  | nil => rfl
  | cons d ds ih => rw [mulAdd_cons, List.length_cons, List.length_cons, ih]

theorem bounded_mulAdd (hbase : 1 < base) (carry : Nat) (ds : List Nat) :
    Bounded base (mulAdd mult base carry ds).1 := by
  induction ds with
  | nil => exact nofun
  | cons d ds ih =>
      rw [mulAdd_cons]
      exact Bounded.cons (Nat.mod_lt _ (Nat.zero_lt_of_lt hbase)) ih

theorem value_mulAdd (carry : Nat) (ds : List Nat) :
    value base (mulAdd mult base carry ds).1 + base ^ ds.length * (mulAdd mult base carry ds).2 =
      mult * value base ds + carry := by
  induction ds with
  | nil => simp [mulAdd]
  | cons d ds ih =>
      have hsplit := Nat.mod_add_div ((mulAdd mult base carry ds).2 + mult * d) base
      rw [mulAdd_cons]
      simp only
      rw [value_cons, value_cons, length_mulAdd, List.length_cons, Nat.pow_succ]
      calc value base (mulAdd mult base carry ds).1 +
              base ^ ds.length * (((mulAdd mult base carry ds).2 + mult * d) % base) +
              base ^ ds.length * base * (((mulAdd mult base carry ds).2 + mult * d) / base)
          = value base (mulAdd mult base carry ds).1 + base ^ ds.length *
              (((mulAdd mult base carry ds).2 + mult * d) % base +
                base * (((mulAdd mult base carry ds).2 + mult * d) / base)) := by ring
        _ = (value base (mulAdd mult base carry ds).1 +
              base ^ ds.length * (mulAdd mult base carry ds).2) +
              base ^ ds.length * (mult * d) := by
            rw [hsplit]
            ring
        _ = mult * (value base ds + base ^ ds.length * d) + carry := by
            rw [ih]
            ring

/-- Where the result fits, nothing is carried out. -/
theorem mulAdd_of_lt {carry : Nat} {ds : List Nat}
    (h : mult * value base ds + carry < base ^ ds.length) :
    (mulAdd mult base carry ds).2 = 0 ∧
      value base (mulAdd mult base carry ds).1 = mult * value base ds + carry := by
  have hvalue := @value_mulAdd mult base carry ds
  have hcarry : (mulAdd mult base carry ds).2 = 0 := by
    by_contra hne
    have hle : base ^ ds.length * 1 ≤ base ^ ds.length * (mulAdd mult base carry ds).2 :=
      Nat.mul_le_mul_left _ (Nat.one_le_iff_ne_zero.mpr hne)
    omega
  rw [hcarry, Nat.mul_zero, Nat.add_zero] at hvalue
  exact ⟨hcarry, hvalue⟩

/-!
# Changing the base
-/

/-- Digits are read into a buffer one after another; `none` where one of them does not fit. -/
def absorb (mult base : Nat) : List Nat -> List Nat -> Option (List Nat)
  | ds, [] => some ds
  | ds, c :: rest =>
      if (mulAdd mult base c ds).2 = 0 then absorb mult base (mulAdd mult base c ds).1 rest
      else none

theorem absorb_eq_some (hmult : 0 < mult) (hbase : 1 < base) (input : List Nat) :
    forall {ds : List Nat}, Bounded base ds ->
      value base ds * mult ^ input.length + value mult input < base ^ ds.length ->
      exists ds', absorb mult base ds input = some ds' ∧ Bounded base ds' ∧
        value base ds' = value base ds * mult ^ input.length + value mult input := by
  induction input with
  | nil =>
      intro ds hds _
      exact ⟨ds, rfl, hds, by simp⟩
  | cons c rest ih =>
      intro ds hds hfits
      have hsum : value base ds * mult ^ (c :: rest).length + value mult (c :: rest) =
          (mult * value base ds + c) * mult ^ rest.length + value mult rest := by
        rw [value_cons, List.length_cons, Nat.pow_succ]
        ring
      rw [hsum] at hfits ⊢
      have hstep : mult * value base ds + c < base ^ ds.length := by
        have hle := Nat.le_mul_of_pos_right (mult * value base ds + c)
          (Nat.pow_pos (n := rest.length) hmult)
        omega
      rcases mulAdd_of_lt hstep with ⟨hcarry, hvalue⟩
      rw [absorb, if_pos hcarry, ← hvalue]
      apply ih (bounded_mulAdd hbase c ds)
      rw [hvalue, length_mulAdd]
      exact hfits

/-- Digits read into an empty buffer which is large enough. -/
theorem absorb_replicate (hmult : 1 < mult) (hbase : 1 < base) {input : List Nat}
    (hinput : Bounded mult input) {size : Nat} (hsize : mult ^ input.length ≤ base ^ size) :
    exists ds, absorb mult base (List.replicate size 0) input = some ds ∧
      trim ds = (Nat.digits base (value mult input)).reverse := by
  have hbounded : Bounded base (List.replicate size 0) := by
    intro d hd
    rw [List.eq_of_mem_replicate hd]
    omega
  have hfits : value base (List.replicate size 0) * mult ^ input.length + value mult input <
      base ^ (List.replicate size 0).length := by
    rw [value_replicate_zero, Nat.zero_mul, Nat.zero_add, List.length_replicate]
    exact (value_lt hmult hinput).trans_le hsize
  rcases absorb_eq_some (Nat.zero_lt_of_lt hmult) hbase input hbounded hfits with
    ⟨ds, habsorb, hds, hvalue⟩
  rw [value_replicate_zero, Nat.zero_mul, Nat.zero_add] at hvalue
  refine ⟨ds, habsorb, ?_⟩
  rw [trim_eq_digits hbase hds, hvalue]

/-- Powers compared through a rational approximation of the ratio of the logarithms. -/
theorem pow_le_pow_of_ratio {a b p q : Nat} (hb : 0 < b) (hq : 0 < q) (h : a ^ q ≤ b ^ p)
    (n : Nat) : a ^ n ≤ b ^ (n * p / q + 1) := by
  have hexp : n * p ≤ (n * p / q + 1) * q := by
    have hmod := Nat.div_add_mod (n * p) q
    have hlt := Nat.mod_lt (n * p) hq
    rw [Nat.add_mul, Nat.one_mul, Nat.mul_comm (n * p / q) q]
    omega
  have hpow : (a ^ n) ^ q ≤ (b ^ (n * p / q + 1)) ^ q := by
    calc (a ^ n) ^ q = (a ^ q) ^ n := Nat.pow_right_comm a n q
      _ ≤ (b ^ p) ^ n := Nat.pow_le_pow_left h n
      _ = b ^ (n * p) := by rw [← Nat.pow_mul, Nat.mul_comm]
      _ ≤ b ^ ((n * p / q + 1) * q) := Nat.pow_le_pow_right hb hexp
      _ = (b ^ (n * p / q + 1)) ^ q := Nat.pow_mul b _ q
  exact (Nat.pow_le_pow_iff_left (Nat.pos_iff_ne_zero.mp hq)).mp hpow

end Digits
end Foundation
end Hbcur
