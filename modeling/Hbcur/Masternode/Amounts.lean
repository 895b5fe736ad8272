import Hbcur.Foundation.Double
import Hbcur.Masternode.Rank

/-!
# Amounts of masternode payments

`GetMasternodePayment`: a share of the block value which gets smaller the more of the money
supply is bound in masternodes.
-/

namespace Hbcur

open Foundation

/-- The number of masternodes by which peers may differ. -/
def nMasternodeCountDrift : Nat := 4

/-- What payments depend on beside the votes. -/
structure PaymentContext where
  mnodeman : CMasternodeMan
  activeProtocol : Int
  /-- The money supply at the tip. -/
  nMoneySupply : Int

namespace PaymentContext

/-- The number of masternodes that counts for payments. -/
def count (ctx : PaymentContext) : Nat :=
  if ctx.mnodeman.paymentEnforcement then ctx.mnodeman.stableSize ctx.activeProtocol
  else ctx.mnodeman.size

end PaymentContext

/--
The rows of the table in thousandths: the share of the money supply up to which a row goes, and
the share of the block value which it pays.
-/
def seesaw : List (Nat × Nat) :=
  [ (10, 900), (20, 880), (30, 870), (40, 860), (50, 850), (60, 840), (70, 830), (80, 820),
    (90, 810), (100, 800), (110, 790), (120, 780), (130, 770), (140, 760), (150, 750),
    (160, 740), (170, 730), (180, 720), (190, 710), (200, 700), (210, 690), (220, 680),
    (230, 670), (240, 660), (250, 650), (260, 640), (270, 630), (280, 620), (290, 610),
    (300, 600), (310, 590), (320, 580), (330, 570), (340, 560), (350, 550), (363, 540),
    (376, 530), (389, 520), (402, 510), (415, 500), (428, 490), (441, 480), (454, 470),
    (467, 460), (480, 450), (493, 440), (506, 430), (519, 420), (532, 410), (545, 400),
    (558, 390), (571, 380), (584, 370), (597, 360), (610, 350), (623, 340), (636, 330),
    (649, 320), (662, 310), (675, 300), (688, 290), (701, 280), (714, 270), (727, 260),
    (740, 250), (753, 240), (766, 230), (779, 220), (792, 210), (805, 200), (818, 190),
    (831, 180), (844, 170), (857, 160), (870, 150), (883, 140), (896, 130), (909, 120),
    (922, 110), (935, 100), (945, 90), (961, 80), (974, 70), (987, 60), (990, 50) ]

/-- The share paid beyond the table. -/
def leastShare : Nat := 10

/-- A product such as `blockValue * .90`, as a double. -/
def shareOf (nValue : Int) (share : Nat) : Rat :=
  mulDouble (roundDouble nValue) (roundDouble ((share : Rat) / 1000))

/-- The chain of cases: a row applies above the limit of the row before it, up to its own. -/
def seesawShare (nMoneySupply : Int) (mNodeCoins : Rat) : Rat -> List (Nat × Nat) -> Nat
  | _, [] => leastShare
  | above, (limit, share) :: rest =>
      if mNodeCoins ≤ shareOf nMoneySupply limit ∧ mNodeCoins > above then share
      else seesawShare nMoneySupply mNodeCoins (shareOf nMoneySupply limit) rest

/-- What a share of a block value comes to. -/
def amountOf (blockValue : Int) (share : Nat) : Int :=
  truncate (shareOf blockValue share)

/-- The payment, unless the number of coins of all masternodes overflows an `int`. -/
def getMasternodePayment (ctx : PaymentContext) (nHeight blockValue : Int)
    (nMasternodeCount : Int := 0) : Option Int :=
  if nHeight ≥ 1 then
    let count := if nMasternodeCount < 1 then (ctx.count : Int) else nMasternodeCount
    if count * 5000 > 2147483647 then none
    else
      let mNodeCoins := count * 5000 * COIN
      if mNodeCoins = 0 then some 0
      else some (amountOf blockValue
        (seesawShare ctx.nMoneySupply (roundDouble mNodeCoins) 0 seesaw))
  else some 0

/-!
# The table
-/

/-- The chain of cases for any limits. -/
def shareAt (limitOf : Nat -> Rat) (mNodeCoins : Rat) : Rat -> List (Nat × Nat) -> Nat
  | _, [] => leastShare
  | above, (limit, share) :: rest =>
      if mNodeCoins ≤ limitOf limit ∧ mNodeCoins > above then share
      else shareAt limitOf mNodeCoins (limitOf limit) rest

theorem seesawShare_eq (nMoneySupply : Int) (mNodeCoins above : Rat) (rows : List (Nat × Nat)) :
    seesawShare nMoneySupply mNodeCoins above rows =
      shareAt (shareOf nMoneySupply) mNodeCoins above rows := by
  induction rows generalizing above with
  | nil => rfl
  | cons row rest ih =>
      unfold seesawShare shareAt
      rw [ih]

theorem shareAt_mem (limitOf : Nat -> Rat) (mNodeCoins above : Rat) (rows : List (Nat × Nat)) :
    shareAt limitOf mNodeCoins above rows ∈ rows.map Prod.snd ++ [leastShare] := by
  induction rows generalizing above with
  | nil => exact List.mem_singleton_self _
  | cons row rest ih =>
      rcases row with ⟨limit, share⟩
      unfold shareAt
      split_ifs
      · exact List.mem_cons_self
      · exact List.mem_cons_of_mem _ (ih _)

/-- Whatever the limits are, more coins lead to a later row. -/
theorem shareAt_antitone {limitOf : Nat -> Rat} {x y : Rat} (hxy : x ≤ y) (f : Nat -> Int)
    {rows : List (Nat × Nat)} {above : Rat} (habove : above < x)
    (hrows : (rows.map Prod.snd ++ [leastShare]).Pairwise fun a b => f b ≤ f a) :
    f (shareAt limitOf y above rows) ≤ f (shareAt limitOf x above rows) := by
  induction rows generalizing above with
  | nil => exact le_refl _
  | cons row rest ih =>
      rcases row with ⟨limit, share⟩
      rw [List.map_cons, List.cons_append, List.pairwise_cons] at hrows
      have hy : above < y := habove.trans_le hxy
      unfold shareAt
      by_cases hlast : y ≤ limitOf limit
      · rw [if_pos ⟨hlast, hy⟩, if_pos ⟨hxy.trans hlast, habove⟩]
      · rw [if_neg (fun h => hlast h.1)]
        by_cases hfirst : x ≤ limitOf limit
        · rw [if_pos ⟨hfirst, habove⟩]
          exact hrows.1 _ (shareAt_mem _ _ _ _)
        · rw [if_neg (fun h => hfirst h.1)]
          exact ih (lt_of_not_ge hfirst) hrows.2

theorem seesawShare_mem (nMoneySupply : Int) (mNodeCoins above : Rat)
    (rows : List (Nat × Nat)) :
    seesawShare nMoneySupply mNodeCoins above rows ∈ rows.map Prod.snd ++ [leastShare] := by
  rw [seesawShare_eq]
  exact shareAt_mem _ _ _ _

theorem shares_fall : (seesaw.map Prod.snd ++ [leastShare]).Pairwise fun a b => b ≤ a := by
  decide +kernel

theorem shares_bounds {share : Nat} (h : share ∈ seesaw.map Prod.snd ++ [leastShare]) :
    leastShare ≤ share ∧ share ≤ 900 := by
  have hall : forall share, share ∈ seesaw.map Prod.snd ++ [leastShare] ->
      leastShare ≤ share ∧ share ≤ 900 := by
    decide
  exact hall share h

/-!
# Larger shares
-/

theorem shareOf_nonneg {nValue : Int} (h : 0 ≤ nValue) (share : Nat) :
    0 ≤ shareOf nValue share := by
  refine roundDouble_nonneg (mul_nonneg (roundDouble_nonneg ?_) (roundDouble_nonneg ?_))
  · exact_mod_cast h
  · positivity

theorem shareOf_mono {nValue : Int} (h : 0 ≤ nValue) {share share' : Nat}
    (hle : share ≤ share') : shareOf nValue share ≤ shareOf nValue share' := by
  have hvalue : 0 ≤ roundDouble nValue := by
    apply roundDouble_nonneg
    exact_mod_cast h
  have hpart : (0 : Rat) ≤ (share : Rat) / 1000 := by positivity
  have hparts : (share : Rat) / 1000 ≤ (share' : Rat) / 1000 := by
    apply div_le_div_of_nonneg_right _ (by norm_num)
    exact_mod_cast hle
  apply roundDouble_mono (mul_nonneg hvalue (roundDouble_nonneg hpart))
  exact mul_le_mul_of_nonneg_left (roundDouble_mono hpart hparts) hvalue

theorem amountOf_mono {blockValue : Int} (h : 0 ≤ blockValue) {share share' : Nat}
    (hle : share ≤ share') : amountOf blockValue share ≤ amountOf blockValue share' :=
  truncate_mono (shareOf_nonneg h share) (shareOf_mono h hle)

theorem coin_nonneg : 0 ≤ COIN := by
  decide

theorem leastAmount_pos : 0 < amountOf COIN leastShare := by
  decide +kernel

theorem amountOf_pos (nMoneySupply : Int) (mNodeCoins : Rat) :
    0 < amountOf COIN (seesawShare nMoneySupply mNodeCoins 0 seesaw) :=
  leastAmount_pos.trans_le
    (amountOf_mono coin_nonneg (shares_bounds (seesawShare_mem _ _ _ _)).1)

/-!
# Numbers of masternodes
-/

/-- The coins of all masternodes are a double. -/
theorem roundDouble_nodeCoins {count : Nat} (h : (count : Int) * 5000 ≤ 2147483647) :
    roundDouble ((count : Int) * 5000 * COIN : Int) = ((count * 500000000000 : Nat) : Rat) := by
  have hcoins : ((count : Int) * 5000 * COIN : Int) = ((count * 500000000000 : Nat) : Int) := by
    unfold COIN
    push_cast
    ring
  rw [hcoins, Int.cast_natCast]
  refine roundDouble_of_exact ?_ ?_
  · omega
  · exact Dvd.dvd.mul_left (by norm_num) count

/-- The payment for a number of masternodes. -/
theorem getMasternodePayment_eq {ctx : PaymentContext} {nHeight : Int} (hheight : 1 ≤ nHeight)
    {nMasternodeCount : Int} {count : Nat}
    (hcount : (if nMasternodeCount < 1 then (ctx.count : Int) else nMasternodeCount) = count)
    (hpos : 1 ≤ count) (h : (count : Int) * 5000 ≤ 2147483647) (blockValue : Int) :
    getMasternodePayment ctx nHeight blockValue nMasternodeCount =
      some (amountOf blockValue (seesawShare ctx.nMoneySupply
        ((count * 500000000000 : Nat) : Rat) 0 seesaw)) := by
  unfold getMasternodePayment
  rw [if_pos hheight]
  simp only [hcount]
  rw [if_neg (by omega), roundDouble_nodeCoins h, if_neg]
  unfold COIN
  omega

/-- The more masternodes there are, the less is paid. -/
theorem amount_antitone {count count' : Nat} (hpos : 1 ≤ count) (hle : count ≤ count')
    (nMoneySupply : Int) :
    amountOf COIN (seesawShare nMoneySupply ((count' * 500000000000 : Nat) : Rat) 0 seesaw) ≤
      amountOf COIN (seesawShare nMoneySupply ((count * 500000000000 : Nat) : Rat) 0 seesaw) := by
  rw [seesawShare_eq, seesawShare_eq]
  refine shareAt_antitone ?_ _ ?_ (shares_fall.imp (amountOf_mono coin_nonneg))
  · exact_mod_cast Nat.mul_le_mul_right _ hle
  · exact_mod_cast (by omega : 0 < count * 500000000000)

/-!
# Bounds
-/

/-- A share of nine tenths is not rounded above the whole. -/
theorem shareOf_le {nValue : Int} (h : 0 ≤ nValue) {share : Nat} (hshare : share ≤ 900) :
    shareOf nValue share ≤ nValue := by
  have hvalue : (0 : Rat) ≤ nValue := by exact_mod_cast h
  have hpart : (0 : Rat) ≤ (share : Rat) / 1000 := by positivity
  have hpart' : (share : Rat) / 1000 ≤ 9 / 10 := by
    have : (share : Rat) ≤ 900 := by exact_mod_cast hshare
    linarith
  have hfirst := roundDouble_le hvalue
  have hsecond : roundDouble ((share : Rat) / 1000) ≤ 9 / 10 * (1 + 1 / 2 ^ 53) :=
    (roundDouble_le hpart).trans (mul_le_mul_of_nonneg_right hpart' (by norm_num))
  have hproduct : roundDouble nValue * roundDouble ((share : Rat) / 1000) ≤
      nValue * (1 + 1 / 2 ^ 53) * (9 / 10 * (1 + 1 / 2 ^ 53)) :=
    mul_le_mul hfirst hsecond (roundDouble_nonneg hpart) (by positivity)
  unfold shareOf mulDouble
  calc roundDouble (roundDouble nValue * roundDouble ((share : Rat) / 1000))
      ≤ roundDouble nValue * roundDouble ((share : Rat) / 1000) * (1 + 1 / 2 ^ 53) :=
        roundDouble_le (mul_nonneg (roundDouble_nonneg hvalue) (roundDouble_nonneg hpart))
    _ ≤ nValue * (1 + 1 / 2 ^ 53) * (9 / 10 * (1 + 1 / 2 ^ 53)) * (1 + 1 / 2 ^ 53) :=
        mul_le_mul_of_nonneg_right hproduct (by norm_num)
    _ = nValue * ((1 + 1 / 2 ^ 53) * (9 / 10 * (1 + 1 / 2 ^ 53)) * (1 + 1 / 2 ^ 53)) := by ring
    _ ≤ nValue * 1 := mul_le_mul_of_nonneg_left (by norm_num) hvalue
    _ = nValue := mul_one _

theorem amountOf_bounds {blockValue : Int} (h : 0 ≤ blockValue) {share : Nat}
    (hshare : share ≤ 900) :
    0 ≤ amountOf blockValue share ∧ amountOf blockValue share ≤ blockValue := by
  refine ⟨truncate_nonneg (shareOf_nonneg h share), ?_⟩
  have hle := (truncate_le (shareOf_nonneg h share)).trans (shareOf_le h hshare)
  exact_mod_cast hle

theorem getMasternodePayment_bounds {ctx : PaymentContext} {nHeight blockValue : Int}
    {nMasternodeCount payment : Int} (h : 0 ≤ blockValue)
    (hpayment : getMasternodePayment ctx nHeight blockValue nMasternodeCount = some payment) :
    0 ≤ payment ∧ payment ≤ blockValue := by
  have hamount := fun coins => amountOf_bounds h
    (shares_bounds (seesawShare_mem ctx.nMoneySupply coins 0 seesaw)).2
  unfold getMasternodePayment at hpayment
  simp only at hpayment
  split_ifs at hpayment <;> cases hpayment
  all_goals first
    | exact hamount _
    | exact ⟨le_refl _, h⟩

end Hbcur
