import Hbcur.Masternode.Required
import Hbcur.Serialize.CompressedAmount

/-!
# The payment curve

The table of `GetMasternodePayment` as bands of the money supply, with its products rounded to
doubles or exact.  Every number of coins is in one band, and more masternodes are paid less.
-/

namespace Hbcur

open Foundation

/-!
# Bands
-/

/-- What is above one limit and, with the exception of the last band, not above the next. -/
structure Band where
  above : Rat
  upTo : Option Rat
  share : Nat

def Band.contains (mNodeCoins : Rat) (band : Band) : Bool :=
  decide (band.above < mNodeCoins) && band.upTo.all fun limit => decide (mNodeCoins ≤ limit)

def bandsOf (limitOf : Nat -> Rat) : Rat -> List (Nat × Nat) -> List Band
  | above, [] => [{ above := above, upTo := none, share := leastShare }]
  | above, (limit, share) :: rest =>
      { above := above, upTo := some (limitOf limit), share := share } ::
        bandsOf limitOf (limitOf limit) rest

/-- The limits of the rows do not fall. -/
def Rising (limitOf : Nat -> Rat) (above : Rat) (rows : List (Nat × Nat)) : Prop :=
  (above :: rows.map fun row => limitOf row.1).Pairwise fun a b => a ≤ b

section Rows

variable {limitOf : Nat -> Rat} {above mNodeCoins : Rat}

theorem Rising.tail {row : Nat × Nat} {rest : List (Nat × Nat)}
    (h : Rising limitOf above (row :: rest)) : Rising limitOf (limitOf row.1) rest :=
  (List.pairwise_cons.mp h).2

theorem Rising.head_le {row : Nat × Nat} {rest : List (Nat × Nat)}
    (h : Rising limitOf above (row :: rest)) : above ≤ limitOf row.1 :=
  (List.pairwise_cons.mp h).1 _ List.mem_cons_self

/-- The bands from a limit on leave out what is below it. -/
theorem countP_bandsOf_of_le {rows : List (Nat × Nat)} (hrising : Rising limitOf above rows)
    (h : mNodeCoins ≤ above) :
    (bandsOf limitOf above rows).countP (Band.contains mNodeCoins) = 0 := by
  induction rows generalizing above with
  | nil =>
      rw [bandsOf, List.countP_singleton, if_neg]
      simp [Band.contains, h]
  | cons row rest ih =>
      rcases row with ⟨limit, share⟩
      rw [bandsOf, List.countP_cons_of_neg]
      · exact ih hrising.tail (h.trans hrising.head_le)
      · simp [Band.contains, h]

/-- Exactly one band contains what is above the first limit. -/
theorem countP_bandsOf {rows : List (Nat × Nat)} (hrising : Rising limitOf above rows)
    (h : above < mNodeCoins) :
    (bandsOf limitOf above rows).countP (Band.contains mNodeCoins) = 1 := by
  induction rows generalizing above with
  | nil =>
      rw [bandsOf, List.countP_singleton, if_pos]
      simp [Band.contains, h]
  | cons row rest ih =>
      rcases row with ⟨limit, share⟩
      rw [bandsOf]
      by_cases hin : mNodeCoins ≤ limitOf limit
      · rw [List.countP_cons_of_pos, countP_bandsOf_of_le hrising.tail hin]
        simp [Band.contains, h, hin]
      · rw [List.countP_cons_of_neg]
        · exact ih hrising.tail (lt_of_not_ge hin)
        · simp [Band.contains, lt_of_not_ge hin]

variable (limitOf) in
/-- The chain of cases finds the share of the band. -/
theorem exists_band_shareAt (rows : List (Nat × Nat)) (h : above < mNodeCoins) :
    exists band, band ∈ bandsOf limitOf above rows ∧ band.contains mNodeCoins = true ∧
      band.share = shareAt limitOf mNodeCoins above rows := by
  induction rows generalizing above with
  | nil =>
      refine ⟨_, List.mem_singleton_self _, ?_, rfl⟩
      simp [Band.contains, h]
  | cons row rest ih =>
      rcases row with ⟨limit, share⟩
      unfold bandsOf shareAt
      by_cases hin : mNodeCoins ≤ limitOf limit
      · refine ⟨_, List.mem_cons_self, ?_, ?_⟩
        · simp [Band.contains, h, hin]
        · rw [if_pos ⟨hin, h⟩]
      · rcases ih (lt_of_not_ge hin) with ⟨band, hband, hcontains, hshare⟩
        refine ⟨band, List.mem_cons_of_mem _ hband, hcontains, ?_⟩
        rw [if_neg (fun hcase => hin hcase.1), hshare]

end Rows

/-!
# Readings
-/

/-- How the products with decimal factors come out: as doubles, or as the decimals say. -/
inductive Reading where
  | double
  | exact

namespace Reading

def round : Reading -> Rat -> Rat
  | double, q => roundDouble q
  | exact, q => q

def product (reading : Reading) (nValue : Int) (factor : Nat) : Rat :=
  reading.round (reading.round nValue * reading.round ((factor : Rat) / 1000))

def amount (reading : Reading) (blockValue : Int) (share : Nat) : Int :=
  truncate (reading.product blockValue share)

def bands (reading : Reading) (nMoneySupply : Int) : List Band :=
  bandsOf (reading.product nMoneySupply) 0 seesaw

/-- `GetMasternodePayment` with the products of a reading. -/
def payment (reading : Reading) (ctx : PaymentContext) (nHeight blockValue : Int)
    (nMasternodeCount : Int) : Option Int :=
  if nHeight ≥ 1 then
    let count := if nMasternodeCount < 1 then (ctx.count : Int) else nMasternodeCount
    if count * 5000 > 2147483647 then none
    else
      let mNodeCoins := count * 5000 * COIN
      if mNodeCoins = 0 then some 0
      else some (reading.amount blockValue
        (shareAt (reading.product ctx.nMoneySupply) (reading.round mNodeCoins) 0 seesaw))
  else some 0

/-- The machine computes with doubles. -/
theorem payment_double (ctx : PaymentContext) (nHeight blockValue nMasternodeCount : Int) :
    double.payment ctx nHeight blockValue nMasternodeCount =
      getMasternodePayment ctx nHeight blockValue nMasternodeCount := by
  unfold payment getMasternodePayment
  simp only [seesawShare_eq]
  rfl

section Products

variable (reading : Reading) {nValue : Int}

theorem product_nonneg (h : 0 ≤ nValue) (factor : Nat) : 0 ≤ reading.product nValue factor := by
  cases reading with
  | double => exact shareOf_nonneg h factor
  | exact =>
      have hvalue : (0 : Rat) ≤ nValue := by exact_mod_cast h
      exact mul_nonneg hvalue (div_nonneg (Nat.cast_nonneg factor) (by norm_num))

theorem product_mono (h : 0 ≤ nValue) {factor factor' : Nat} (hle : factor ≤ factor') :
    reading.product nValue factor ≤ reading.product nValue factor' := by
  cases reading with
  | double => exact shareOf_mono h hle
  | exact =>
      have hvalue : (0 : Rat) ≤ nValue := by exact_mod_cast h
      apply mul_le_mul_of_nonneg_left _ hvalue
      apply div_le_div_of_nonneg_right _ (by norm_num)
      exact_mod_cast hle

theorem product_le (h : 0 ≤ nValue) {factor : Nat} (hfactor : factor ≤ 900) :
    reading.product nValue factor ≤ nValue := by
  cases reading with
  | double => exact shareOf_le h hfactor
  | exact =>
      have hvalue : (0 : Rat) ≤ nValue := by exact_mod_cast h
      have hpart : (factor : Rat) / 1000 ≤ 1 := by
        have hcast : (factor : Rat) ≤ 900 := by exact_mod_cast hfactor
        linarith
      exact mul_le_of_le_one_right hvalue hpart

theorem amount_mono (h : 0 ≤ nValue) {share share' : Nat} (hle : share ≤ share') :
    reading.amount nValue share ≤ reading.amount nValue share' :=
  truncate_mono (reading.product_nonneg h share) (reading.product_mono h hle)

theorem amount_bounds (h : 0 ≤ nValue) {share : Nat} (hshare : share ≤ 900) :
    0 ≤ reading.amount nValue share ∧ reading.amount nValue share ≤ nValue := by
  have hnonneg := reading.product_nonneg h share
  constructor
  · exact truncate_nonneg hnonneg
  · have hle := (truncate_le hnonneg).trans (reading.product_le h hshare)
    exact_mod_cast hle

end Products

/-!
# The table
-/

theorem limits_rise : (seesaw.map Prod.fst).Pairwise fun a b => a ≤ b := by
  decide +kernel

theorem rising_seesaw (reading : Reading) {nMoneySupply : Int} (h : 0 ≤ nMoneySupply) :
    Rising (reading.product nMoneySupply) 0 seesaw := by
  apply List.pairwise_cons.mpr
  constructor
  · intro limit hlimit
    rcases List.mem_map.mp hlimit with ⟨row, _, rfl⟩
    exact reading.product_nonneg h row.1
  · exact List.pairwise_map.mpr ((List.pairwise_map.mp limits_rise).imp
      fun hle => reading.product_mono h hle)

theorem amounts_fall (reading : Reading) {blockValue : Int} (h : 0 ≤ blockValue) :
    (seesaw.map Prod.snd ++ [leastShare]).Pairwise
      fun a b => reading.amount blockValue b ≤ reading.amount blockValue a :=
  shares_fall.imp fun hle => reading.amount_mono h hle

/-!
# Payments
-/

/-- The coins of all masternodes are exact in both readings. -/
theorem round_nodeCoins (reading : Reading) {n : Int} (hn : 1 ≤ n)
    (h : n * 5000 ≤ 2147483647) :
    reading.round (n * 5000 * COIN : Int) = (n * 5000 * COIN : Int) := by
  cases reading with
  | exact => rfl
  | double =>
      lift n to Nat using by omega with count
      have hcoins : ((count : Int) * 5000 * COIN : Int) = ((count * 500000000000 : Nat) : Int) := by
        unfold COIN
        push_cast
        ring
      have hround := roundDouble_nodeCoins h
      rw [hcoins, Int.cast_natCast] at hround ⊢
      exact hround

theorem payment_eq (reading : Reading) {ctx : PaymentContext} {nHeight : Int}
    (hheight : 1 ≤ nHeight) {n : Int} (hn : 1 ≤ n) (h : n * 5000 ≤ 2147483647)
    (blockValue : Int) :
    reading.payment ctx nHeight blockValue n =
      some (reading.amount blockValue (shareAt (reading.product ctx.nMoneySupply)
        (n * 5000 * COIN : Int) 0 seesaw)) := by
  unfold payment
  rw [if_pos hheight]
  simp only
  rw [if_neg (by omega : ¬ n < 1), if_neg (by omega), reading.round_nodeCoins hn h, if_neg]
  unfold COIN
  omega

theorem nodeCoins_pos {n : Int} (hn : 1 ≤ n) : (0 : Rat) < (n * 5000 * COIN : Int) := by
  have hpos : 0 < n * 5000 * COIN := by
    unfold COIN
    omega
  exact_mod_cast hpos

theorem nodeCoins_mono {n n' : Int} (h : n ≤ n') :
    ((n * 5000 * COIN : Int) : Rat) ≤ (n' * 5000 * COIN : Int) := by
  have hle : n * 5000 * COIN ≤ n' * 5000 * COIN := by
    unfold COIN
    omega
  exact_mod_cast hle

end Reading

/-- Collateral within the money supply does not overflow. -/
theorem Network.nodeCoins_le (network : Network) {n : Int}
    (h : n * 5000 * COIN ≤ network.maxMoneyOut) : n * 5000 ≤ 1000000000 := by
  have hmax : network.maxMoneyOut ≤ 1000000000 * COIN := by
    cases network <;> decide
  unfold COIN at h hmax
  omega

def Network.moneyRange (network : Network) (nValueOut : Int) : Prop :=
  nValueOut ≥ 0 ∧ nValueOut ≤ network.maxMoneyOut

/-- A payment for the one band of the collateral, and no less than that for more collateral. -/
structure OnCurve (network : Network) (reading : Reading) (ctx : PaymentContext)
    (nHeight blockValue n payment : Int) : Prop where
  paid : reading.payment ctx nHeight blockValue n = some payment
  nonneg : 0 ≤ payment
  le : payment ≤ blockValue
  oneBand : (reading.bands ctx.nMoneySupply).countP
    (Band.contains (n * 5000 * COIN : Int)) = 1
  ofBand : exists band, band ∈ reading.bands ctx.nMoneySupply ∧
    band.contains (n * 5000 * COIN : Int) = true ∧
    payment = reading.amount blockValue band.share
  falls : forall n', n ≤ n' -> n' * 5000 * COIN ≤ network.maxMoneyOut ->
    exists payment', reading.payment ctx nHeight blockValue n' = some payment' ∧
      payment' ≤ payment

theorem Reading.exists_onCurve (reading : Reading) {network : Network} {ctx : PaymentContext}
    {nHeight blockValue n : Int} (hheight : 1 ≤ nHeight)
    (hsupply : network.moneyRange ctx.nMoneySupply) (hvalue : network.moneyRange blockValue)
    (hn : 1 ≤ n) (hcollateral : n * 5000 * COIN ≤ network.maxMoneyOut) :
    exists payment, OnCurve network reading ctx nHeight blockValue n payment := by
  have hfits := network.nodeCoins_le hcollateral
  have hpos := nodeCoins_pos hn
  have hbounds := reading.amount_bounds hvalue.1
    (shares_bounds
      (shareAt_mem (reading.product ctx.nMoneySupply) (n * 5000 * COIN : Int) 0 seesaw)).2
  refine ⟨_, reading.payment_eq hheight hn (by omega) blockValue, hbounds.1, hbounds.2, ?_, ?_,
    ?_⟩
  · exact countP_bandsOf (reading.rising_seesaw hsupply.1) hpos
  · rcases exists_band_shareAt (reading.product ctx.nMoneySupply) seesaw hpos with
      ⟨band, hband, hcontains, hshare⟩
    exact ⟨band, hband, hcontains, by rw [hshare]⟩
  · intro n' hle hcollateral'
    have hfits' := network.nodeCoins_le hcollateral'
    refine ⟨_, reading.payment_eq hheight (hn.trans hle) (by omega) blockValue, ?_⟩
    exact shareAt_antitone (nodeCoins_mono hle) (reading.amount blockValue) hpos
      (reading.amounts_fall hvalue.1)

/-- The payment for collateral within the money supply, for doubles and for exact products. -/
theorem getMasternodePayment_curve {network : Network} {ctx : PaymentContext}
    {nHeight blockValue n : Int} (hheight : 1 ≤ nHeight)
    (hsupply : network.moneyRange ctx.nMoneySupply) (hvalue : network.moneyRange blockValue)
    (hn : 1 ≤ n) (hcollateral : n * 5000 * COIN ≤ network.maxMoneyOut) :
    n * 5000 ≤ 2147483647 ∧ n * 5000 * COIN ≤ 9223372036854775807 ∧
    getMasternodePayment ctx nHeight blockValue n =
      Reading.double.payment ctx nHeight blockValue n ∧
    forall reading : Reading,
      exists payment, OnCurve network reading ctx nHeight blockValue n payment := by
  have hfits := network.nodeCoins_le hcollateral
  have hmax := network.maxMoneyOut_lt
  refine ⟨by omega, by omega, (Reading.payment_double ctx nHeight blockValue n).symm, ?_⟩
  intro reading
  exact reading.exists_onCurve hheight hsupply hvalue hn hcollateral

/-- A thousand masternodes on a chain with almost all of its money issued. -/
theorem getMasternodePayment_curve_thousand :
    getMasternodePayment (PaymentVotes.contextWith []) 100 COIN 1000 =
        Reading.double.payment (PaymentVotes.contextWith []) 100 COIN 1000 ∧
      exists payment,
        OnCurve Network.MAIN Reading.double (PaymentVotes.contextWith []) 100 COIN 1000
          payment := by
  have hsupply : Network.MAIN.moneyRange (PaymentVotes.contextWith []).nMoneySupply :=
    ⟨by decide, by decide⟩
  have hvalue : Network.MAIN.moneyRange COIN := ⟨by decide, by decide⟩
  have hcollateral : (1000 : Int) * 5000 * COIN ≤ Network.MAIN.maxMoneyOut := by decide
  have hcurve := getMasternodePayment_curve (by decide : (1 : Int) ≤ 100) hsupply hvalue
    (by decide) hcollateral
  exact ⟨hcurve.2.2.1, hcurve.2.2.2 Reading.double⟩

end Hbcur
