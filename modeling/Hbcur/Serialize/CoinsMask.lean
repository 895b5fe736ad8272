import Hbcur.Serialize.Bytes
import Hbcur.Coins.Entry

/-!
# The mask of a coins entry

`CCoins::CalcMaskSize` and the bytes of the spentness bitmask: bit `i` of byte `b` stands for
output `2 + b * 8 + i`, and the bytes stop at the last one which is not zero.
-/

namespace Hbcur
namespace Serialize

open Foundation

/-!
# One byte
-/

/-- `chAvail |= (1 << i)` for the `count` first outputs of a byte, as far as they are available. -/
def chAvail (available : Nat -> Bool) : Nat -> UInt8
  | 0 => 0
  | i + 1 =>
      if available i then chAvail available i ||| (1 <<< UInt8.ofNat i) else chAvail available i

/-- `(chAvail & (1 << p)) != 0` for each of the eight bits. -/
def availBits (chAvail : UInt8) : List Bool :=
  (List.range 8).map fun p => chAvail &&& (1 <<< UInt8.ofNat p) != 0

theorem bit_chAvail (available : Nat -> Bool) {p : Nat} (hp : p < 8) :
    forall count, count ≤ 8 ->
      (chAvail available count &&& (1 <<< UInt8.ofNat p) != 0) =
        (decide (p < count) && available p) := by
  have hbit : forall byte : UInt8,
      (byte &&& (1 <<< UInt8.ofNat p) != 0) = bitAt [byte] p := by
    intro byte
    unfold bitAt
    rw [Nat.div_eq_of_lt hp, Nat.mod_eq_of_lt hp]
    rfl
  intro count
  induction count with
  | zero =>
      intro _
      rw [hbit, bitAt_eq_testBit, Nat.div_eq_of_lt hp]
      exact Nat.zero_testBit _
  | succ i ih =>
      intro hi
      have hset := @bitAt_set [chAvail available i] i (by simp; omega) true p
      rw [Nat.div_eq_of_lt (show i < 8 by omega), Nat.mod_eq_of_lt (show i < 8 by omega)] at hset
      have hold := ih (by omega)
      rw [hbit] at hold
      rw [chAvail, hbit]
      cases havail : available i with
      | false =>
          rw [if_neg Bool.false_ne_true, hold]
          by_cases heq : p = i
          · subst heq
            rw [havail, Bool.and_false, Bool.and_false]
          · have hiff : decide (p < i + 1) = decide (p < i) := by
              apply decide_eq_decide.mpr
              omega
            rw [hiff]
      | true =>
          rw [if_pos rfl]
          have hset' : bitAt [chAvail available i ||| (1 <<< UInt8.ofNat i)] p =
              (bitAt [chAvail available i] p || (decide (p = i) && true)) := hset
          rw [hset', hold, Bool.and_true]
          by_cases heq : p = i
          · subst heq
            simp [havail]
          · have hiff : decide (p < i + 1) = decide (p < i) := by
              apply decide_eq_decide.mpr
              omega
            rw [hiff, decide_eq_false heq, Bool.or_false]

theorem availBits_chAvail (available : Nat -> Bool) :
    availBits (chAvail available 8) = (List.range 8).map available := by
  unfold availBits
  apply List.map_congr_left
  intro p hp
  have hlt := List.mem_range.mp hp
  rw [bit_chAvail available hlt 8 (Nat.le_refl 8), decide_eq_true hlt, Bool.true_and]

theorem chAvail_eq_zero_iff (available : Nat -> Bool) :
    chAvail available 8 = 0 <-> forall i, i < 8 -> available i = false := by
  constructor
  · intro hzero i hi
    have hbit := bit_chAvail available hi 8 (Nat.le_refl 8)
    rw [hzero, UInt8.zero_and, decide_eq_true hi, Bool.true_and] at hbit
    exact hbit.symm
  · intro h
    have hall : forall count, count ≤ 8 -> chAvail available count = 0 := by
      intro count
      induction count with
      | zero =>
          intro _
          rfl
      | succ i ih =>
          intro hi
          rw [chAvail, h i (by omega), if_neg Bool.false_ne_true]
          exact ih (by omega)
    exact hall 8 (Nat.le_refl 8)

/-!
# The size of the mask
-/

/-- Whether a byte of the mask stands for an output which is available. -/
def usedByte (coins : CCoins) (b : Nat) : Bool :=
  (List.range 8).any fun i => coins.isAvailable (2 + b * 8 + i)

/-- The bytes with `2 + b * 8 < vout.size()`. -/
def maskLength (coins : CCoins) : Nat :=
  (coins.vout.length + 5) / 8

/-- One round of the loop, which keeps `nLastUsedByte` and `nNonzeroBytes`. -/
def calcMaskStep (coins : CCoins) (found : Nat × Nat) (b : Nat) : Nat × Nat :=
  if usedByte coins b then (b + 1, found.2 + 1) else found

def calcMaskSize (coins : CCoins) : Nat × Nat :=
  (List.range (maskLength coins)).foldl (calcMaskStep coins) (0, 0)

/-- After the first bytes: how many of them are used, and where the last of those ends. -/
structure MaskFound (coins : CCoins) (bytes : Nat) (found : Nat × Nat) : Prop where
  count : found.2 = (List.range bytes).countP (usedByte coins)
  within : found.1 ≤ bytes
  beyond : forall b, found.1 ≤ b -> b < bytes -> usedByte coins b = false
  last : forall b, found.1 = b + 1 -> usedByte coins b = true

theorem maskFound_step {coins : CCoins} {bytes : Nat} {found : Nat × Nat}
    (h : MaskFound coins bytes found) :
    MaskFound coins (bytes + 1) (calcMaskStep coins found bytes) := by
  have hcount : (List.range (bytes + 1)).countP (usedByte coins) =
      (List.range bytes).countP (usedByte coins) + [bytes].countP (usedByte coins) := by
    rw [List.range_succ, List.countP_append]
  unfold calcMaskStep
  cases hused : usedByte coins bytes with
  | true =>
      rw [if_pos rfl]
      constructor
      · rw [hcount, List.countP_singleton, hused, h.count]
        rfl
      · exact Nat.le_refl _
      · intro b hle hlt
        exact absurd hlt (Nat.not_lt.mpr hle)
      · intro b hb
        rw [← Nat.succ.inj hb]
        exact hused
  | false =>
      rw [if_neg Bool.false_ne_true]
      constructor
      · rw [hcount, List.countP_singleton, hused, h.count]
        rfl
      · exact Nat.le_succ_of_le h.within
      · intro b hle hlt
        rcases Nat.lt_succ_iff_lt_or_eq.mp hlt with hbefore | heq
        · exact h.beyond b hle hbefore
        · rw [heq]
          exact hused
      · exact h.last

theorem maskFound_calcMaskSize (coins : CCoins) :
    MaskFound coins (maskLength coins) (calcMaskSize coins) := by
  have hall : forall bytes,
      MaskFound coins bytes ((List.range bytes).foldl (calcMaskStep coins) (0, 0)) := by
    intro bytes
    induction bytes with
    | zero =>
        constructor
        · rfl
        · exact Nat.le_refl 0
        · intro b _ hlt
          cases hlt
        · intro b hb
          cases hb
    | succ bytes ih =>
        rw [List.range_succ, List.foldl_append]
        exact maskFound_step ih
  exact hall (maskLength coins)

/-!
# The bytes of the mask
-/

def maskByte (coins : CCoins) (b : Nat) : UInt8 :=
  chAvail (fun i => coins.isAvailable (2 + b * 8 + i)) 8

def writeMask (coins : CCoins) : List UInt8 :=
  (List.range (calcMaskSize coins).1).map (maskByte coins)

theorem maskByte_ne_zero_iff (coins : CCoins) (b : Nat) :
    (maskByte coins b != 0) = usedByte coins b := by
  have hiff := chAvail_eq_zero_iff fun i => coins.isAvailable (2 + b * 8 + i)
  unfold maskByte usedByte
  rw [Bool.eq_iff_iff, bne_iff_ne, List.any_eq_true, ne_eq, hiff]
  simp only [not_forall, List.mem_range, exists_prop, Bool.not_eq_false]

theorem countP_writeMask (coins : CCoins) :
    (writeMask coins).countP (fun byte => byte != 0) = (calcMaskSize coins).2 := by
  have h := maskFound_calcMaskSize coins
  have hfun : (fun byte : UInt8 => byte != 0) ∘ maskByte coins = usedByte coins :=
    funext fun b => maskByte_ne_zero_iff coins b
  have hsplit : List.range (maskLength coins) = List.range (calcMaskSize coins).1 ++
      (List.range (maskLength coins - (calcMaskSize coins).1)).map
        ((calcMaskSize coins).1 + ·) := by
    rw [← List.range_add, Nat.add_sub_cancel' h.within]
  have hnone : ((List.range (maskLength coins - (calcMaskSize coins).1)).map
      ((calcMaskSize coins).1 + ·)).countP (usedByte coins) = 0 := by
    apply List.countP_eq_zero.mpr
    intro b hb
    rcases List.mem_map.mp hb with ⟨i, hi, rfl⟩
    have hlt := List.mem_range.mp hi
    rw [h.beyond _ (Nat.le_add_right _ i) (by omega)]
    exact Bool.false_ne_true
  rw [writeMask, List.countP_map, hfun, h.count, hsplit, List.countP_append, hnone, Nat.add_zero]

theorem writeMask_last (coins : CCoins) (byte : UInt8)
    (hlast : (writeMask coins).getLast? = some byte) : (byte != 0) = true := by
  have h := maskFound_calcMaskSize coins
  unfold writeMask at hlast
  cases hsize : (calcMaskSize coins).1 with
  | zero =>
      rw [hsize] at hlast
      cases hlast
  | succ b =>
      rw [hsize, List.range_succ, List.map_append, List.map_singleton,
        List.getLast?_concat, Option.some.injEq] at hlast
      rw [← hlast, maskByte_ne_zero_iff]
      exact h.last b hsize

theorem reads_writeMask (coins : CCoins) :
    Reads (readCounted (fun byte : UInt8 => byte != 0) (calcMaskSize coins).2)
      (writeMask coins) (writeMask coins) := by
  rw [← countP_writeMask]
  exact reads_readCounted _ (writeMask coins) (writeMask_last coins)

/-- Outputs beyond the mask are spent. -/
theorem isAvailable_beyond_mask (coins : CCoins) {nPos : Nat}
    (hpos : 2 + (calcMaskSize coins).1 * 8 ≤ nPos) : coins.isAvailable nPos = false := by
  have h := maskFound_calcMaskSize coins
  by_cases hlt : nPos < coins.vout.length
  · have hbyte := h.beyond ((nPos - 2) / 8) (by omega) (by unfold maskLength; omega)
    have hall := List.any_eq_false.mp hbyte ((nPos - 2) % 8) (List.mem_range.mpr (by omega))
    rw [show 2 + (nPos - 2) / 8 * 8 + (nPos - 2) % 8 = nPos by omega] at hall
    exact Bool.eq_false_iff.mpr hall
  · unfold CCoins.isAvailable
    rw [List.getElem?_eq_none (by omega)]

theorem flatMap_range_mul {value : Type} (f : Nat -> value) (k : Nat) :
    forall n, (List.range n).flatMap (fun b => (List.range k).map fun i => f (b * k + i)) =
      (List.range (n * k)).map f := by
  intro n
  induction n with
  | zero =>
      rw [Nat.zero_mul]
      rfl
  | succ n ih =>
      rw [List.range_succ, List.flatMap_append, ih, Nat.succ_mul, List.range_add,
        List.map_append, List.map_map]
      simp only [List.flatMap_singleton]
      rfl

/-- The availability of every output up to the end of the mask. -/
theorem flatMap_availBits (coins : CCoins) :
    [coins.isAvailable 0, coins.isAvailable 1] ++ (writeMask coins).flatMap availBits =
      (List.range (2 + (calcMaskSize coins).1 * 8)).map coins.isAvailable := by
  have hbits : (writeMask coins).flatMap availBits =
      (List.range ((calcMaskSize coins).1 * 8)).map fun i => coins.isAvailable (2 + i) := by
    rw [← flatMap_range_mul, writeMask, List.flatMap_map]
    apply List.flatMap_congr
    intro b _
    rw [maskByte, availBits_chAvail]
    apply List.map_congr_left
    intro i _
    rw [Nat.add_assoc]
  have htwo : (List.range 2).map coins.isAvailable =
      [coins.isAvailable 0, coins.isAvailable 1] := rfl
  have hrange : forall n, (List.range (2 + n)).map coins.isAvailable =
      (List.range 2).map coins.isAvailable ++
        (List.range n).map fun i => coins.isAvailable (2 + i) := by
    intro n
    rw [List.range_add, List.map_append, List.map_map]
    rfl
  rw [hbits, hrange, htwo]

end Serialize
end Hbcur
