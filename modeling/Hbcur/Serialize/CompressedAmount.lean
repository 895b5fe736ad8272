import Hbcur.Masternode.BudgetLimits

/-!
# Compressed amounts

`CompressAmount` and `DecompressAmount` of `compressor.cpp`: amounts lose their trailing decimal
zeros.
-/

namespace Hbcur
namespace Serialize

/-!
# The two functions

Both work on `uint64_t`.
-/

def uint64Modulus : Nat := 18446744073709551616

/-- Divide by ten while the last digit is zero, at most `left` times. -/
def stripZeros : Nat -> Nat -> Nat -> Nat × Nat
  | 0, n, e => (n, e)
  | left + 1, n, e => if n % 10 = 0 then stripZeros left (n / 10) (e + 1) else (n, e)

def compressAmount (n : Nat) : Nat :=
  if n = 0 then 0
  else
    match stripZeros 9 n 0 with
    | (m, e) =>
        if e < 9 then (1 + (m / 10 * 9 + m % 10 - 1) * 10 + e) % uint64Modulus
        else (1 + (m - 1) * 10 + 9) % uint64Modulus

def decompressAmount (x : Nat) : Nat :=
  if x = 0 then 0
  else
    let e := (x - 1) % 10
    let y := (x - 1) / 10
    let n := if e < 9 then y / 9 * 10 + (y % 9 + 1) else y + 1
    n * 10 ^ e % uint64Modulus

/-- The digits which the loop strips, and where it stops. -/
theorem stripZeros_spec :
    forall (left n e : Nat), n ≠ 0 ->
      exists k, k ≤ left ∧ stripZeros left n e = (n / 10 ^ k, e + k) ∧
        n = n / 10 ^ k * 10 ^ k ∧ n / 10 ^ k ≠ 0 ∧
        (k < left -> n / 10 ^ k % 10 ≠ 0) := by
  intro left
  induction left with
  | zero =>
      intro n e hn
      exact ⟨0, Nat.le_refl 0, by simp [stripZeros], by simp, by simpa using hn,
        fun h => absurd h (Nat.lt_irrefl 0)⟩
  | succ left ih =>
      intro n e hn
      by_cases hzero : n % 10 = 0
      · have hten : n = n / 10 * 10 := by omega
        have hne : n / 10 ≠ 0 := by omega
        rcases ih (n / 10) (e + 1) hne with ⟨k, hk, hstrip, hmul, hnz, hlast⟩
        have hdiv : n / 10 / 10 ^ k = n / 10 ^ (k + 1) := by
          rw [Nat.div_div_eq_div_mul, Nat.pow_succ, Nat.mul_comm]
        rw [hdiv] at hstrip hmul hnz hlast
        refine ⟨k + 1, by omega, ?_, ?_, hnz, fun h => hlast (by omega)⟩
        · rw [stripZeros, if_pos hzero, hstrip]
          simp only [Prod.mk.injEq, true_and]
          omega
        · calc n = n / 10 * 10 := hten
            _ = n / 10 ^ (k + 1) * 10 ^ k * 10 := by rw [← hmul]
            _ = n / 10 ^ (k + 1) * 10 ^ (k + 1) := by rw [Nat.pow_succ, Nat.mul_assoc]
      · refine ⟨0, Nat.zero_le _, ?_, by simp, by simpa using hn, fun _ => by simpa using hzero⟩
        rw [stripZeros, if_neg hzero]
        simp

/-!
# Amounts without the limit of 64 bits

The largest intermediate value is the last one, so nothing wraps exactly when the last sum does
not.
-/

/-- What `compressAmount` computes over unbounded numbers. -/
def exactCompressAmount (n : Nat) : Nat :=
  if n = 0 then 0
  else
    match stripZeros 9 n 0 with
    | (m, e) =>
        if e < 9 then 1 + (m / 10 * 9 + m % 10 - 1) * 10 + e
        else 1 + (m - 1) * 10 + 9

/-- What `decompressAmount` computes over unbounded numbers. -/
def exactDecompressAmount (x : Nat) : Nat :=
  if x = 0 then 0
  else
    let e := (x - 1) % 10
    let y := (x - 1) / 10
    let n := if e < 9 then y / 9 * 10 + (y % 9 + 1) else y + 1
    n * 10 ^ e

theorem compressAmount_eq_mod (n : Nat) :
    compressAmount n = exactCompressAmount n % uint64Modulus := by
  unfold compressAmount exactCompressAmount
  by_cases hn : n = 0
  · rw [if_pos hn, if_pos hn]
    rfl
  · rw [if_neg hn, if_neg hn]
    cases stripZeros 9 n 0 with
    | mk m e =>
        by_cases he : e < 9
        · simp only [if_pos he]
        · simp only [if_neg he]

theorem decompressAmount_eq_mod (x : Nat) :
    decompressAmount x = exactDecompressAmount x % uint64Modulus := by
  unfold decompressAmount exactDecompressAmount
  by_cases hx : x = 0
  · rw [if_pos hx, if_pos hx]
    rfl
  · rw [if_neg hx, if_neg hx]

/-- A number which the loop leaves below nine divisions is read off its digit and exponent. -/
theorem exactDecompressAmount_digit {m k : Nat} (hk : k < 9) (hlast : m % 10 ≠ 0) :
    exactDecompressAmount (1 + (m / 10 * 9 + m % 10 - 1) * 10 + k) = m * 10 ^ k := by
  have he : (1 + (m / 10 * 9 + m % 10 - 1) * 10 + k - 1) % 10 = k := by omega
  have hy : (1 + (m / 10 * 9 + m % 10 - 1) * 10 + k - 1) / 10 =
      m / 10 * 9 + m % 10 - 1 := by omega
  have hback : (m / 10 * 9 + m % 10 - 1) / 9 * 10 +
      ((m / 10 * 9 + m % 10 - 1) % 9 + 1) = m := by omega
  unfold exactDecompressAmount
  rw [if_neg (by omega)]
  simp only [he, hy, if_pos hk, hback]

theorem exactDecompressAmount_nine {m : Nat} (hm : m ≠ 0) :
    exactDecompressAmount (1 + (m - 1) * 10 + 9) = m * 10 ^ 9 := by
  have he : (1 + (m - 1) * 10 + 9 - 1) % 10 = 9 := by omega
  have hy : (1 + (m - 1) * 10 + 9 - 1) / 10 = m - 1 := by omega
  have hback : m - 1 + 1 = m := by omega
  unfold exactDecompressAmount
  rw [if_neg (by omega)]
  simp only [he, hy, Nat.lt_irrefl, if_false, hback]

theorem exactDecompressAmount_exactCompressAmount (n : Nat) :
    exactDecompressAmount (exactCompressAmount n) = n := by
  by_cases hn : n = 0
  · subst hn
    rfl
  · rcases stripZeros_spec 9 n 0 hn with ⟨k, hk, hstrip, hmul, hnz, hlast⟩
    unfold exactCompressAmount
    rw [if_neg hn, hstrip]
    simp only [Nat.zero_add]
    by_cases hk9 : k < 9
    · rw [if_pos hk9, exactDecompressAmount_digit hk9 (hlast hk9)]
      exact hmul.symm
    · have hnine : k = 9 := by omega
      subst hnine
      rw [if_neg hk9, exactDecompressAmount_nine hnz]
      exact hmul.symm

/-- A number which ends in another digit than zero loses none. -/
theorem stripZeros_of_last {m : Nat} (hlast : m % 10 ≠ 0) (left e : Nat) :
    stripZeros left m e = (m, e) := by
  cases left with
  | zero => rfl
  | succ left => rw [stripZeros, if_neg hlast]

theorem stripZeros_mul_pow (m : Nat) :
    forall (k left e : Nat),
      stripZeros (k + left) (m * 10 ^ k) e = stripZeros left m (e + k) := by
  intro k
  induction k with
  | zero =>
      intro left e
      rw [Nat.pow_zero, Nat.mul_one, Nat.zero_add, Nat.add_zero]
  | succ k ih =>
      intro left e
      have hpow : m * 10 ^ (k + 1) = m * 10 ^ k * 10 := by
        rw [Nat.pow_succ, Nat.mul_assoc]
      have hdiv : m * 10 ^ k * 10 / 10 = m * 10 ^ k := Nat.mul_div_cancel _ (by omega)
      rw [show k + 1 + left = k + left + 1 by omega, stripZeros, hpow,
        if_pos (Nat.mul_mod_left _ 10), hdiv, ih left (e + 1)]
      rw [show e + 1 + k = e + (k + 1) by omega]

theorem exactCompressAmount_digit {m k : Nat} (hk : k < 9) (hlast : m % 10 ≠ 0) :
    exactCompressAmount (m * 10 ^ k) = 1 + (m / 10 * 9 + m % 10 - 1) * 10 + k := by
  have hpow : 0 < 10 ^ k := Nat.pow_pos (by omega)
  have hstrip := stripZeros_mul_pow m k (9 - k) 0
  rw [show k + (9 - k) = 9 by omega, stripZeros_of_last hlast, Nat.zero_add] at hstrip
  unfold exactCompressAmount
  rw [if_neg (Nat.mul_ne_zero (by omega) (by omega)), hstrip]
  simp only [if_pos hk]

theorem exactCompressAmount_nine {m : Nat} (hm : m ≠ 0) :
    exactCompressAmount (m * 10 ^ 9) = 1 + (m - 1) * 10 + 9 := by
  have hstrip : stripZeros 9 (m * 10 ^ 9) 0 = (m, 9) := stripZeros_mul_pow m 9 0 0
  unfold exactCompressAmount
  rw [if_neg (Nat.mul_ne_zero hm (by decide)), hstrip]
  simp only [Nat.lt_irrefl, if_false]

theorem exactCompressAmount_exactDecompressAmount (x : Nat) :
    exactCompressAmount (exactDecompressAmount x) = x := by
  by_cases hx : x = 0
  · subst hx
    rfl
  · have he : (x - 1) % 10 < 10 := Nat.mod_lt _ (by omega)
    unfold exactDecompressAmount
    rw [if_neg hx]
    generalize hy : (x - 1) / 10 = y
    generalize hk : (x - 1) % 10 = k at he
    by_cases hk9 : k < 9
    · simp only [if_pos hk9]
      rw [exactCompressAmount_digit hk9 (by omega)]
      omega
    · have hnine : k = 9 := by omega
      subst hnine
      simp only [Nat.lt_irrefl, if_false]
      rw [exactCompressAmount_nine (by omega)]
      omega

theorem exactCompressAmount_lt {n : Nat} (h : n < 1152921504606846976) :
    exactCompressAmount n < uint64Modulus := by
  unfold exactCompressAmount
  by_cases hn : n = 0
  · rw [if_pos hn]
    decide
  · rcases stripZeros_spec 9 n 0 hn with ⟨k, hk, hstrip, hmul, hnz, hlast⟩
    have hm : n / 10 ^ k ≤ n := Nat.div_le_self n (10 ^ k)
    rw [if_neg hn, hstrip]
    simp only [Nat.zero_add, uint64Modulus]
    split <;> omega

theorem compressAmount_eq {n : Nat} (h : n < 1152921504606846976) :
    compressAmount n = exactCompressAmount n := by
  rw [compressAmount_eq_mod, Nat.mod_eq_of_lt (exactCompressAmount_lt h)]

theorem decompressAmount_eq {x : Nat} (h : exactDecompressAmount x < uint64Modulus) :
    decompressAmount x = exactDecompressAmount x := by
  rw [decompressAmount_eq_mod, Nat.mod_eq_of_lt h]

/-- Amounts far above the money supply survive compression. -/
theorem decompressAmount_compressAmount {n : Nat} (h : n < 1152921504606846976) :
    decompressAmount (compressAmount n) = n := by
  have hback := exactDecompressAmount_exactCompressAmount n
  rw [compressAmount_eq h, decompressAmount_eq, hback]
  rw [hback]
  exact Nat.lt_trans h (by decide)

end Serialize
end Hbcur

/-!
# The money of a network

`CompressAmount` and `DecompressAmount` between the amounts up to `MAX_MONEY` and their
compressed forms.
-/

namespace Hbcur

/-- `nMaxMoneyOut` of `chainparams.cpp`: regtest derives from testnet, the unit tests from main. -/
def Network.maxMoneyOut : Network -> Int
  | MAIN => 1000000000 * COIN
  | TESTNET => 33284220 * COIN
  | REGTEST => 33284220 * COIN
  | UNITTEST => 1000000000 * COIN

theorem Network.maxMoneyOut_lt (network : Network) :
    network.maxMoneyOut < 1152921504606846976 := by
  cases network <;> decide

namespace Serialize

def IsMoney (network : Network) (n : Nat) : Prop :=
  (n : Int) ≤ network.maxMoneyOut

theorem lt_of_isMoney {network : Network} {n : Nat} (h : IsMoney network n) :
    n < 1152921504606846976 := by
  have hlt := network.maxMoneyOut_lt
  unfold IsMoney at h
  omega

/-- The compressed forms of money are the numbers which stand for money. -/
theorem exists_isMoney_iff (network : Network) (x : Nat) :
    (exists n, IsMoney network n ∧ compressAmount n = x) <->
      IsMoney network (exactDecompressAmount x) := by
  constructor
  · intro h
    rcases h with ⟨n, hn, hx⟩
    rw [← hx, compressAmount_eq (lt_of_isMoney hn), exactDecompressAmount_exactCompressAmount]
    exact hn
  · intro h
    exists exactDecompressAmount x
    constructor
    · exact h
    · rw [compressAmount_eq (lt_of_isMoney h), exactCompressAmount_exactDecompressAmount]

theorem compressAmount_bijective (network : Network) :
    (forall n, IsMoney network n ->
      exactCompressAmount n < uint64Modulus ∧ compressAmount n = exactCompressAmount n ∧
        decompressAmount (compressAmount n) = n) ∧
      (forall x, (exists n, IsMoney network n ∧ compressAmount n = x) ->
        compressAmount (decompressAmount x) = x) := by
  constructor
  · intro n hn
    have hlt := lt_of_isMoney hn
    exact ⟨exactCompressAmount_lt hlt, compressAmount_eq hlt,
      decompressAmount_compressAmount hlt⟩
  · intro x himage
    have hmoney := (exists_isMoney_iff network x).mp himage
    have hlt := lt_of_isMoney hmoney
    rw [decompressAmount_eq (Nat.lt_trans hlt (by decide)), compressAmount_eq hlt,
      exactCompressAmount_exactDecompressAmount]

theorem compressAmount_bijective_fifty :
    (exactCompressAmount 5000000000 < uint64Modulus ∧
      compressAmount 5000000000 = exactCompressAmount 5000000000 ∧
      decompressAmount (compressAmount 5000000000) = 5000000000) ∧
      compressAmount (decompressAmount 0x32) = 0x32 := by
  have hmoney : IsMoney Network.MAIN 5000000000 := by
    unfold IsMoney
    decide
  constructor
  · exact (compressAmount_bijective Network.MAIN).1 5000000000 hmoney
  · exact (compressAmount_bijective Network.MAIN).2 0x32 ⟨5000000000, hmoney, by decide⟩

example : compressAmount (21000000 * COIN.toNat) = 0x1406f40 ∧
    decompressAmount 0x1406f40 = 21000000 * COIN.toNat := by
  decide

end Serialize
end Hbcur
