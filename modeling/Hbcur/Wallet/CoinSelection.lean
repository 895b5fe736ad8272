import Mathlib.Algebra.BigOperators.Group.Finset.Basic
import Hbcur.Wallet.BestSubset
import Hbcur.Wallet.CoinStake

/-!
# Coin selection

`CWallet::SelectCoinsMinConf` of `wallet.cpp`: without denominated amounts first and with them
only where the others do not suffice, then by the approximate best subset.
-/

namespace Hbcur
namespace CoinSelection

open Foundation Serialize ApproximateBestSubset

/-- A transaction of the wallet, with what `IsFromMe(ISMINE_ALL)` answers. -/
structure CWalletTx where
  vout : List CTxOut
  isFromMe : Bool
  deriving DecidableEq, Repr

/-- The member `tx` is a pointer. -/
structure COutput where
  tx : Nat
  i : Nat
  nDepth : Int
  fSpendable : Bool
  deriving DecidableEq, Repr

/-- What is left to chance: the order of the outputs and of equal values, and random bits. -/
structure Draws where
  /-- `random_shuffle`, and `sort` by `less_then_denom`. -/
  orderOutputs : List COutput -> List COutput
  orderOutputs_perm : forall vCoins, (orderOutputs vCoins).Perm vCoins
  /-- `sort` by `CompareValueOnly`. -/
  orderValues : List Coin -> List Coin
  orderValues_perm : forall vValue, (orderValues vValue).Perm vValue
  insecureRand : Nat -> Nat -> Nat -> Bool

/-- What is returned, and what the two references hold then. -/
structure Selection where
  fOk : Bool
  setCoinsRet : Finset (Nat × Nat)
  nValueRet : Int
  deriving DecidableEq

def obfuScationDenominations : List Int :=
  [10000 * COIN + 10000000, 1000 * COIN + 1000000, 100 * COIN + 100000, 10 * COIN + 10000,
    1 * COIN + 1000, COIN / 10 + 100]

def isDenominatedAmount (nInputAmount : Int) : Bool :=
  obfuScationDenominations.any (fun d => nInputAmount == d)

namespace COutput

def outpoint (output : COutput) : Nat × Nat := (output.tx, output.i)

end COutput

namespace Selection

def cleared : Selection := { fOk := false, setCoinsRet := ∅, nValueRet := 0 }

def insert (s : Selection) (coin : Coin) : Selection :=
  { s with
    setCoinsRet := Insert.insert coin.second s.setCoinsRet
    nValueRet := wrapInt64 (s.nValueRet + coin.first) }

/-- `return true` after the coins have been inserted in turn. -/
def taking (coins : List Coin) : Selection :=
  { coins.foldl insert cleared with fOk := true }

end Selection

/-!
# The selection
-/

section Wallet

variable (mapWallet : Nat -> CWalletTx)

/-- `pcoin->vout[i].nValue`; there is no output with a null value. -/
def outputValue (outpoint : Nat × Nat) : Int :=
  ((mapWallet outpoint.1).vout.getD outpoint.2 CTxOut.null).nValue

def COutput.toCoin (output : COutput) : Coin :=
  { first := outputValue mapWallet output.outpoint, second := output.outpoint }

variable (nTargetValue nConfMine nConfTheirs : Int)

/-- Spendable and deep enough. -/
def COutput.isEligible (output : COutput) : Bool :=
  output.fSpendable &&
    !decide (output.nDepth < if (mapWallet output.tx).isFromMe then nConfMine else nConfTheirs)

/-- What a round over the coins collects; no pointer is `NULL`. -/
structure Round where
  vValue : List Coin
  nTotalLower : Int
  coinLowestLarger : Int × Option (Nat × Nat)

/-- The loop over the coins, which is left with a coin of exactly the target. -/
def coinsLoop (tryDenom : Nat) : List COutput -> Round -> Except Coin Round
  | [], round => Except.ok round
  | output :: vCoins, round =>
      let coin := output.toCoin mapWallet
      if !output.isEligible mapWallet nConfMine nConfTheirs then coinsLoop tryDenom vCoins round
      else if tryDenom = 0 && isDenominatedAmount coin.first then
        coinsLoop tryDenom vCoins round
      else if coin.first = nTargetValue then Except.error coin
      else if coin.first < wrapInt64 (nTargetValue + CENT) then
        coinsLoop tryDenom vCoins { round with
          vValue := round.vValue ++ [coin]
          nTotalLower := wrapInt64 (round.nTotalLower + coin.first) }
      else if coin.first < round.coinLowestLarger.1 then
        coinsLoop tryDenom vCoins { round with
          coinLowestLarger := (coin.first, some coin.second) }
      else coinsLoop tryDenom vCoins round

/-- The second search is for some change, unless the first has found the target exactly. -/
def bestSubset (draws : Draws) (vValue : List Coin) (nTotalLower : Int) : List Bool × Int :=
  let best := approximateBestSubset vValue nTotalLower nTargetValue (draws.insecureRand 0) 1000
  if best.2 ≠ nTargetValue && wrapInt64 (nTargetValue + CENT) ≤ nTotalLower then
    approximateBestSubset vValue nTotalLower (wrapInt64 (nTargetValue + CENT))
      (draws.insecureRand 1) 1000
  else best

/-- What follows the rounds where the lower values add up to more than the target. -/
def selectSubset (draws : Draws) (round : Round) : Selection :=
  let vValue := draws.orderValues round.vValue
  let best := bestSubset nTargetValue draws vValue round.nTotalLower
  match round.coinLowestLarger.2 with
  | some outpoint =>
      if best.2 ≠ nTargetValue && best.2 < wrapInt64 (nTargetValue + CENT) ||
          round.coinLowestLarger.1 ≤ best.2 then
        Selection.taking [⟨round.coinLowestLarger.1, outpoint⟩]
      else Selection.taking (chosen vValue best.1)
  | none => Selection.taking (chosen vValue best.1)

/-- One round; `noLarger` is what follows where no coin suffices. -/
def tryRound (draws : Draws) (vCoins : List COutput) (tryDenom : Nat)
    (coinLowestLarger : Int × Option (Nat × Nat))
    (noLarger : Int × Option (Nat × Nat) -> Selection) : Selection :=
  match coinsLoop mapWallet nTargetValue nConfMine nConfTheirs tryDenom vCoins
    { vValue := [], nTotalLower := 0, coinLowestLarger := coinLowestLarger } with
  | Except.error coin => Selection.taking [coin]
  | Except.ok round =>
      if round.nTotalLower = nTargetValue then Selection.taking round.vValue
      else if round.nTotalLower < nTargetValue then
        match round.coinLowestLarger.2 with
        | none => noLarger round.coinLowestLarger
        | some outpoint => Selection.taking [⟨round.coinLowestLarger.1, outpoint⟩]
      else selectSubset nTargetValue draws round

def selectCoinsMinConf (draws : Draws) (vCoins : List COutput) : Selection :=
  let vCoins := draws.orderOutputs vCoins
  tryRound mapWallet nTargetValue nConfMine nConfTheirs draws vCoins 0 (9223372036854775807, none)
    fun coinLowestLarger =>
      tryRound mapWallet nTargetValue nConfMine nConfTheirs draws vCoins 1 coinLowestLarger
        fun _ => Selection.cleared

/-!
# Taking coins
-/

section Results

variable {mapWallet} {nTargetValue nConfMine nConfTheirs : Int} {vCoins : List COutput}

variable (mapWallet nConfMine nConfTheirs vCoins) in
/-- A coin which is an eligible output. -/
def IsCandidate (coin : Coin) : Prop :=
  exists output, output ∈ vCoins ∧ output.isEligible mapWallet nConfMine nConfTheirs = true ∧
    output.toCoin mapWallet = coin

variable (mapWallet nTargetValue nConfMine nConfTheirs vCoins) in
/-- What a selection which returns true has to be. -/
structure Pays (s : Selection) : Prop where
  eligible : forall outpoint, outpoint ∈ s.setCoinsRet ->
    exists output, output ∈ vCoins ∧ output.isEligible mapWallet nConfMine nConfTheirs = true ∧
      output.outpoint = outpoint
  value_eq : s.nValueRet = ∑ outpoint ∈ s.setCoinsRet, outputValue mapWallet outpoint
  target_le : nTargetValue ≤ s.nValueRet

theorem IsCandidate.first_eq {coin : Coin}
    (h : IsCandidate mapWallet nConfMine nConfTheirs vCoins coin) :
    coin.first = outputValue mapWallet coin.second := by
  rcases h with ⟨output, _, _, heq⟩
  rw [← heq]
  rfl

theorem setCoinsRet_foldl (coins : List Coin) (s : Selection) :
    (coins.foldl Selection.insert s).setCoinsRet =
      (coins.map Coin.second).toFinset ∪ s.setCoinsRet := by
  induction coins generalizing s with
  | nil => exact (Finset.empty_union _).symm
  | cons coin coins ih =>
      rw [List.foldl_cons, ih, List.map_cons, List.toFinset_cons, Selection.insert,
        Finset.union_insert, Finset.insert_union]

theorem nValueRet_foldl {coins : List Coin} {s : Selection}
    (hnonneg : forall coin, coin ∈ coins -> 0 ≤ coin.first) (hstart : 0 ≤ s.nValueRet)
    (hsum : s.nValueRet + sumOf coins < 9223372036854775808) :
    (coins.foldl Selection.insert s).nValueRet = s.nValueRet + sumOf coins := by
  induction coins generalizing s with
  | nil => exact (Int.add_zero _).symm
  | cons coin coins ih =>
      rw [List.forall_mem_cons] at hnonneg
      have hrest : 0 ≤ sumOf coins := by
        apply List.sum_nonneg
        intro v hv
        rcases List.mem_map.mp hv with ⟨other, hother, heq⟩
        exact heq ▸ hnonneg.2 other hother
      have hcons : sumOf (coin :: coins) = coin.first + sumOf coins := List.sum_cons
      have hstep : (s.insert coin).nValueRet = s.nValueRet + coin.first := by
        have hfirst := hnonneg.1
        exact wrapInt64_of_range _ (by omega) (by omega)
      have hfirst := hnonneg.1
      rw [List.foldl_cons, ih hnonneg.2 (by omega) (by omega), hstep, hcons, Int.add_assoc]

theorem pays_taking {coins : List Coin}
    (hcoins : forall coin, coin ∈ coins ->
      IsCandidate mapWallet nConfMine nConfTheirs vCoins coin)
    (hnodup : (coins.map Coin.second).Nodup)
    (hnonneg : forall coin, coin ∈ coins -> 0 ≤ coin.first)
    (hsum : sumOf coins < 9223372036854775808) (htarget : nTargetValue ≤ sumOf coins) :
    Pays mapWallet nTargetValue nConfMine nConfTheirs vCoins (Selection.taking coins) := by
  have hset : (Selection.taking coins).setCoinsRet = (coins.map Coin.second).toFinset :=
    (setCoinsRet_foldl coins Selection.cleared).trans (Finset.union_empty _)
  have hvalue : (Selection.taking coins).nValueRet = sumOf coins := by
    have hfold := nValueRet_foldl (s := Selection.cleared) hnonneg (Int.le_refl 0)
      (by change 0 + _ < _; omega)
    exact hfold.trans (Int.zero_add _)
  refine ⟨?_, ?_, hvalue.symm ▸ htarget⟩
  · intro outpoint hmem
    rw [hset, List.mem_toFinset] at hmem
    rcases List.mem_map.mp hmem with ⟨coin, hcoin, hsecond⟩
    rcases hcoins coin hcoin with ⟨output, hin, heligible, heq⟩
    exact ⟨output, hin, heligible, hsecond ▸ heq ▸ rfl⟩
  · rw [hset, hvalue, List.sum_toFinset _ hnodup, List.map_map]
    unfold sumOf
    congr 1
    apply List.map_congr_left
    intro coin hcoin
    exact (hcoins coin hcoin).first_eq

theorem pays_single {coin : Coin}
    (hcoin : IsCandidate mapWallet nConfMine nConfTheirs vCoins coin) (hnonneg : 0 ≤ coin.first)
    (hlt : coin.first < 9223372036854775808) (htarget : nTargetValue ≤ coin.first) :
    Pays mapWallet nTargetValue nConfMine nConfTheirs vCoins (Selection.taking [coin]) := by
  have hsum : sumOf [coin] = coin.first := List.sum_singleton
  apply pays_taking
  · exact List.forall_mem_singleton.mpr hcoin
  · exact List.nodup_singleton _
  · exact List.forall_mem_singleton.mpr hnonneg
  · rw [hsum]
    exact hlt
  · rw [hsum]
    exact htarget

/-!
# The rounds

Everything is in range: the outputs, the target with a cent on top, and what the outputs below
that add up to.
-/

variable (mapWallet nTargetValue nConfMine nConfTheirs vCoins) in
/-- What the eligible outputs below the target, and a cent on top, add up to. -/
def lowerTotal : Int :=
  ((vCoins.filter fun output => output.isEligible mapWallet nConfMine nConfTheirs &&
    (output.toCoin mapWallet).first < nTargetValue + CENT).map
      fun output => (output.toCoin mapWallet).first).sum

variable (mapWallet nTargetValue nConfMine nConfTheirs vCoins) in
structure InRange : Prop where
  distinct : (vCoins.map COutput.outpoint).Nodup
  nonneg : forall output, output ∈ vCoins -> 0 ≤ (output.toCoin mapWallet).first
  lt_max : forall output, output ∈ vCoins ->
    (output.toCoin mapWallet).first < 9223372036854775807
  target_pos : 0 < nTargetValue
  target_lt : nTargetValue + CENT < 9223372036854775808
  lower_lt : lowerTotal mapWallet nTargetValue nConfMine nConfTheirs vCoins < 9223372036854775808

variable (mapWallet nConfMine nConfTheirs) in
/-- The outputs which a round looks at. -/
def isLookedAt (tryDenom : Nat) (output : COutput) : Bool :=
  output.isEligible mapWallet nConfMine nConfTheirs &&
    !(decide (tryDenom = 0) && isDenominatedAmount (output.toCoin mapWallet).first)

variable (mapWallet nTargetValue nConfMine nConfTheirs) in
/-- The coins which a round collects. -/
def lowerCoins (tryDenom : Nat) (coins : List COutput) : List Coin :=
  (coins.filter fun output => isLookedAt mapWallet nConfMine nConfTheirs tryDenom output &&
    (output.toCoin mapWallet).first < nTargetValue + CENT).map (COutput.toCoin mapWallet)

variable (mapWallet nTargetValue nConfMine nConfTheirs vCoins) in
/-- The lowest larger coin, where there is one. -/
structure LargerFrom (coinLowestLarger : Int × Option (Nat × Nat)) : Prop where
  absent : coinLowestLarger.2 = none -> coinLowestLarger.1 = 9223372036854775807
  present : forall outpoint, coinLowestLarger.2 = some outpoint ->
    nTargetValue + CENT ≤ coinLowestLarger.1 ∧
      IsCandidate mapWallet nConfMine nConfTheirs vCoins ⟨coinLowestLarger.1, outpoint⟩

theorem InRange.wrap_target
    (h : InRange mapWallet nTargetValue nConfMine nConfTheirs vCoins) :
    wrapInt64 (nTargetValue + CENT) = nTargetValue + CENT := by
  have hpos := h.target_pos
  have hlt := h.target_lt
  have hcent : (0 : Int) ≤ CENT := by decide
  exact wrapInt64_of_range _ (by omega) (by omega)

theorem InRange.sumOf_lowerCoins_nonneg
    (h : InRange mapWallet nTargetValue nConfMine nConfTheirs vCoins) (tryDenom : Nat)
    {coins : List COutput} (hsub : coins ⊆ vCoins) :
    0 ≤ sumOf (lowerCoins mapWallet nTargetValue nConfMine nConfTheirs tryDenom coins) := by
  unfold sumOf lowerCoins
  rw [List.map_map]
  apply List.sum_nonneg
  intro v hv
  rcases List.mem_map.mp hv with ⟨output, hmem, heq⟩
  exact heq ▸ h.nonneg output (hsub (List.mem_of_mem_filter hmem))

theorem InRange.sumOf_lowerCoins
    (h : InRange mapWallet nTargetValue nConfMine nConfTheirs vCoins) (tryDenom : Nat) :
    sumOf (lowerCoins mapWallet nTargetValue nConfMine nConfTheirs tryDenom vCoins) <
      9223372036854775808 := by
  refine lt_of_le_of_lt ?_ h.lower_lt
  unfold sumOf lowerCoins lowerTotal
  rw [List.map_map]
  apply List.Sublist.sum_le_sum
  · apply List.Sublist.map
    apply List.monotone_filter_right
    intro output hin
    rw [Bool.and_eq_true] at hin ⊢
    have hlooked := hin.1
    rw [isLookedAt, Bool.and_eq_true] at hlooked
    exact ⟨hlooked.1, hin.2⟩
  · intro v hv
    rcases List.mem_map.mp hv with ⟨output, hmem, heq⟩
    exact heq ▸ h.nonneg output (List.mem_of_mem_filter hmem)

/-- Where the loop over some coins arrives, from where it started. -/
structure Collected (mapWallet : Nat -> CWalletTx)
    (nTargetValue nConfMine nConfTheirs : Int) (vCoins : List COutput) (tryDenom : Nat)
    (coins : List COutput) (start round : Round) : Prop where
  vValue_eq : round.vValue =
    start.vValue ++ lowerCoins mapWallet nTargetValue nConfMine nConfTheirs tryDenom coins
  nTotalLower_eq : round.nTotalLower = sumOf round.vValue
  larger : LargerFrom mapWallet nTargetValue nConfMine nConfTheirs vCoins round.coinLowestLarger
  larger_start : round.coinLowestLarger.2 = none -> start.coinLowestLarger.2 = none
  larger_coins : round.coinLowestLarger.2 = none -> forall output, output ∈ coins ->
    isLookedAt mapWallet nConfMine nConfTheirs tryDenom output = true ->
      (output.toCoin mapWallet).first < nTargetValue + CENT

theorem lowerCoins_skip {tryDenom : Nat} {output : COutput} {coins : List COutput}
    (h : isLookedAt mapWallet nConfMine nConfTheirs tryDenom output = true ->
      nTargetValue + CENT ≤ (output.toCoin mapWallet).first) :
    lowerCoins mapWallet nTargetValue nConfMine nConfTheirs tryDenom (output :: coins) =
      lowerCoins mapWallet nTargetValue nConfMine nConfTheirs tryDenom coins := by
  unfold lowerCoins
  rw [List.filter_cons_of_neg]
  rw [Bool.and_eq_true, decide_eq_true_eq]
  intro hin
  exact absurd hin.2 (Int.not_lt.mpr (h hin.1))

theorem lowerCoins_take {tryDenom : Nat} {output : COutput} {coins : List COutput}
    (hlooked : isLookedAt mapWallet nConfMine nConfTheirs tryDenom output = true)
    (hlower : (output.toCoin mapWallet).first < nTargetValue + CENT) :
    lowerCoins mapWallet nTargetValue nConfMine nConfTheirs tryDenom (output :: coins) =
      output.toCoin mapWallet ::
        lowerCoins mapWallet nTargetValue nConfMine nConfTheirs tryDenom coins := by
  unfold lowerCoins
  rw [List.filter_cons_of_pos, List.map_cons]
  rw [Bool.and_eq_true, decide_eq_true_eq]
  exact ⟨hlooked, hlower⟩

/-- An output which is skipped leaves the invariant to the rest. -/
theorem Collected.skip {tryDenom : Nat} {output : COutput} {coins : List COutput}
    {start round : Round}
    (h : Collected mapWallet nTargetValue nConfMine nConfTheirs vCoins tryDenom coins start round)
    (hskip : isLookedAt mapWallet nConfMine nConfTheirs tryDenom output = true ->
      nTargetValue + CENT ≤ (output.toCoin mapWallet).first ∧
        round.coinLowestLarger.2 ≠ none) :
    Collected mapWallet nTargetValue nConfMine nConfTheirs vCoins tryDenom (output :: coins) start
      round where
  vValue_eq := by
    rw [h.vValue_eq, lowerCoins_skip fun hlooked => (hskip hlooked).1]
  nTotalLower_eq := h.nTotalLower_eq
  larger := h.larger
  larger_start := h.larger_start
  larger_coins := by
    intro hnone other hmem hlooked
    rcases List.mem_cons.mp hmem with heq | htail
    · exact absurd hnone (hskip (heq ▸ hlooked)).2
    · exact h.larger_coins hnone other htail hlooked

/-- An output which is collected. -/
theorem Collected.take {tryDenom : Nat} {output : COutput} {coins : List COutput}
    {start round : Round} {nTotalLower : Int}
    (h : Collected mapWallet nTargetValue nConfMine nConfTheirs vCoins tryDenom coins
      { start with
        vValue := start.vValue ++ [output.toCoin mapWallet]
        nTotalLower := nTotalLower } round)
    (hlooked : isLookedAt mapWallet nConfMine nConfTheirs tryDenom output = true)
    (hlower : (output.toCoin mapWallet).first < nTargetValue + CENT) :
    Collected mapWallet nTargetValue nConfMine nConfTheirs vCoins tryDenom (output :: coins) start
      round where
  vValue_eq := by
    rw [h.vValue_eq, lowerCoins_take hlooked hlower, List.append_assoc]
    rfl
  nTotalLower_eq := h.nTotalLower_eq
  larger := h.larger
  larger_start := h.larger_start
  larger_coins hnone := List.forall_mem_cons.mpr ⟨fun _ => hlower, h.larger_coins hnone⟩

/-- An output which is the lowest larger one so far. -/
theorem Collected.lowest {tryDenom : Nat} {output : COutput} {coins : List COutput}
    {start round : Round} {nValue : Int} {outpoint : Nat × Nat}
    (h : Collected mapWallet nTargetValue nConfMine nConfTheirs vCoins tryDenom coins
      { start with coinLowestLarger := (nValue, some outpoint) } round)
    (hlarger : nTargetValue + CENT ≤ (output.toCoin mapWallet).first) :
    Collected mapWallet nTargetValue nConfMine nConfTheirs vCoins tryDenom (output :: coins) start
      round where
  vValue_eq := by
    rw [h.vValue_eq, lowerCoins_skip fun _ => hlarger]
  nTotalLower_eq := h.nTotalLower_eq
  larger := h.larger
  larger_start hnone := nomatch h.larger_start hnone
  larger_coins hnone := nomatch h.larger_start hnone

/-- The total of what is collected does not wrap around with one more output. -/
theorem InRange.wrap_push (h : InRange mapWallet nTargetValue nConfMine nConfTheirs vCoins)
    {tryDenom : Nat} {output : COutput} {coins : List COutput} {vValue : List Coin}
    {nTotalLower : Int} (htotal : nTotalLower = sumOf vValue) (hnonneg : 0 ≤ sumOf vValue)
    (hsub : output :: coins ⊆ vCoins)
    (hlooked : isLookedAt mapWallet nConfMine nConfTheirs tryDenom output = true)
    (hlower : (output.toCoin mapWallet).first < nTargetValue + CENT)
    (hfit : sumOf vValue + sumOf
      (lowerCoins mapWallet nTargetValue nConfMine nConfTheirs tryDenom (output :: coins)) <
        9223372036854775808) :
    wrapInt64 (nTotalLower + (output.toCoin mapWallet).first) =
        sumOf (vValue ++ [output.toCoin mapWallet]) ∧
      0 ≤ sumOf (vValue ++ [output.toCoin mapWallet]) ∧
      sumOf (vValue ++ [output.toCoin mapWallet]) +
        sumOf (lowerCoins mapWallet nTargetValue nConfMine nConfTheirs tryDenom coins) <
          9223372036854775808 := by
  rw [List.cons_subset] at hsub
  have hfirst := h.nonneg output hsub.1
  have hrest := h.sumOf_lowerCoins_nonneg tryDenom hsub.2
  have hcons : sumOf (output.toCoin mapWallet ::
      lowerCoins mapWallet nTargetValue nConfMine nConfTheirs tryDenom coins) =
    (output.toCoin mapWallet).first +
      sumOf (lowerCoins mapWallet nTargetValue nConfMine nConfTheirs tryDenom coins) :=
    List.sum_cons
  have hpush : sumOf (vValue ++ [output.toCoin mapWallet]) =
      sumOf vValue + (output.toCoin mapWallet).first := by
    unfold sumOf
    rw [List.map_append, List.sum_append, List.map_singleton, List.sum_singleton]
  rw [lowerCoins_take hlooked hlower, hcons] at hfit
  rw [hpush, htotal]
  exact ⟨wrapInt64_of_range _ (by omega) (by omega), by omega, by omega⟩

theorem coinsLoop_spec (h : InRange mapWallet nTargetValue nConfMine nConfTheirs vCoins)
    (tryDenom : Nat) {coins : List COutput} {start : Round} (hsub : coins ⊆ vCoins)
    (hlarger : LargerFrom mapWallet nTargetValue nConfMine nConfTheirs vCoins
      start.coinLowestLarger)
    (htotal : start.nTotalLower = sumOf start.vValue) (hnonneg : 0 ≤ sumOf start.vValue)
    (hfit : sumOf start.vValue +
      sumOf (lowerCoins mapWallet nTargetValue nConfMine nConfTheirs tryDenom coins) <
        9223372036854775808) :
    Ensures
      (fun coin => IsCandidate mapWallet nConfMine nConfTheirs vCoins coin ∧
        coin.first = nTargetValue)
      (Collected mapWallet nTargetValue nConfMine nConfTheirs vCoins tryDenom coins start)
      (coinsLoop mapWallet nTargetValue nConfMine nConfTheirs tryDenom coins start) := by
  induction coins generalizing start with
  | nil =>
      refine ⟨?_, htotal, hlarger, id, nofun⟩
      exact (List.append_nil _).symm
  | cons output coins ih =>
      rw [List.cons_subset] at hsub
      have hmax := h.lt_max output hsub.1
      rw [coinsLoop, h.wrap_target]
      split
      case isTrue hnot =>
        have hlooked : isLookedAt mapWallet nConfMine nConfTheirs tryDenom output = false := by
          rw [isLookedAt, Bool.not_eq_eq_eq_not.mp hnot]
          rfl
        rw [lowerCoins_skip fun hin => nomatch hlooked.symm.trans hin] at hfit
        exact (ih hsub.2 hlarger htotal hnonneg hfit).mono fun round hround =>
          hround.skip fun hin => nomatch hlooked.symm.trans hin
      case isFalse heligible =>
        rw [Bool.not_eq_true', Bool.not_eq_false] at heligible
        split
        case isTrue hdenom =>
          have hlooked : isLookedAt mapWallet nConfMine nConfTheirs tryDenom output = false := by
            rw [isLookedAt, hdenom, Bool.not_true, Bool.and_false]
          rw [lowerCoins_skip fun hin => nomatch hlooked.symm.trans hin] at hfit
          exact (ih hsub.2 hlarger htotal hnonneg hfit).mono fun round hround =>
            hround.skip fun hin => nomatch hlooked.symm.trans hin
        case isFalse hdenom =>
          have hlooked : isLookedAt mapWallet nConfMine nConfTheirs tryDenom output = true := by
            rw [isLookedAt, heligible, Bool.not_eq_true _ |>.mp hdenom]
            rfl
          have hcandidate : IsCandidate mapWallet nConfMine nConfTheirs vCoins
              (output.toCoin mapWallet) := ⟨output, hsub.1, heligible, rfl⟩
          split
          case isTrue hexact => exact ⟨hcandidate, hexact⟩
          case isFalse =>
            split
            case isTrue hlower =>
              rcases h.wrap_push htotal hnonneg (List.cons_subset.mpr hsub) hlooked hlower hfit
                with ⟨hwrap, hpositive, hrest⟩
              exact (@ih { start with
                  vValue := start.vValue ++ [output.toCoin mapWallet]
                  nTotalLower := wrapInt64 (start.nTotalLower + (output.toCoin mapWallet).first) }
                hsub.2 hlarger hwrap hpositive hrest).mono
                  fun round hround => hround.take hlooked hlower
            case isFalse hlower =>
              rw [lowerCoins_skip fun _ => Int.not_lt.mp hlower] at hfit
              split
              case isTrue hlowest =>
                have hnext : LargerFrom mapWallet nTargetValue nConfMine nConfTheirs vCoins
                    ((output.toCoin mapWallet).first, some (output.toCoin mapWallet).second) := by
                  refine ⟨nofun, ?_⟩
                  intro outpoint hsome
                  rw [Option.some_inj] at hsome
                  exact ⟨Int.not_lt.mp hlower, hsome ▸ hcandidate⟩
                exact (@ih { start with
                    coinLowestLarger :=
                      ((output.toCoin mapWallet).first, some (output.toCoin mapWallet).second) }
                  hsub.2 hnext htotal hnonneg hfit).mono
                    fun round hround => hround.lowest (Int.not_lt.mp hlower)
              case isFalse hlowest =>
                have hstart : start.coinLowestLarger.2 ≠ none := by
                  intro hnone
                  rw [hlarger.absent hnone] at hlowest
                  exact hlowest hmax
                exact (ih hsub.2 hlarger htotal hnonneg hfit).mono fun round hround =>
                  hround.skip fun _ => ⟨Int.not_lt.mp hlower, fun hnone =>
                    hstart (hround.larger_start hnone)⟩

/-!
# The answers
-/

theorem isCandidate_of_mem {tryDenom : Nat} {coin : Coin}
    (hmem : coin ∈ lowerCoins mapWallet nTargetValue nConfMine nConfTheirs tryDenom vCoins) :
    IsCandidate mapWallet nConfMine nConfTheirs vCoins coin := by
  rcases List.mem_map.mp hmem with ⟨output, hin, heq⟩
  rw [List.mem_filter, Bool.and_eq_true, isLookedAt, Bool.and_eq_true] at hin
  exact ⟨output, hin.1, hin.2.1.1, heq⟩

theorem InRange.candidate (h : InRange mapWallet nTargetValue nConfMine nConfTheirs vCoins)
    {coin : Coin} (hcoin : IsCandidate mapWallet nConfMine nConfTheirs vCoins coin) :
    0 ≤ coin.first ∧ coin.first < 9223372036854775807 := by
  rcases hcoin with ⟨output, hin, _, heq⟩
  exact heq ▸ ⟨h.nonneg output hin, h.lt_max output hin⟩

theorem InRange.pays_coin (h : InRange mapWallet nTargetValue nConfMine nConfTheirs vCoins)
    {coin : Coin} (hcoin : IsCandidate mapWallet nConfMine nConfTheirs vCoins coin)
    (htarget : nTargetValue ≤ coin.first) :
    Pays mapWallet nTargetValue nConfMine nConfTheirs vCoins (Selection.taking [coin]) := by
  have hrange := h.candidate hcoin
  exact pays_single hcoin hrange.1 (by omega) htarget

theorem InRange.pays_larger (h : InRange mapWallet nTargetValue nConfMine nConfTheirs vCoins)
    {coinLowestLarger : Int × Option (Nat × Nat)} {outpoint : Nat × Nat}
    (hlarger : LargerFrom mapWallet nTargetValue nConfMine nConfTheirs vCoins coinLowestLarger)
    (hsome : coinLowestLarger.2 = some outpoint) :
    Pays mapWallet nTargetValue nConfMine nConfTheirs vCoins
      (Selection.taking [⟨coinLowestLarger.1, outpoint⟩]) := by
  rcases hlarger.present outpoint hsome with ⟨hle, hcandidate⟩
  have hcent : (0 : Int) ≤ CENT := by decide
  exact h.pays_coin hcandidate (by simp only; omega)

/-- Some of the coins which a round collects, in any order. -/
theorem InRange.pays_chosen (h : InRange mapWallet nTargetValue nConfMine nConfTheirs vCoins)
    {tryDenom : Nat} {coins vValue : List Coin}
    (hperm : vValue.Perm
      (lowerCoins mapWallet nTargetValue nConfMine nConfTheirs tryDenom vCoins))
    (hsub : coins.Sublist vValue) (htarget : nTargetValue ≤ sumOf coins) :
    Pays mapWallet nTargetValue nConfMine nConfTheirs vCoins (Selection.taking coins) := by
  have hcandidates : forall coin, coin ∈ coins ->
      IsCandidate mapWallet nConfMine nConfTheirs vCoins coin := fun coin hmem =>
    isCandidate_of_mem (hperm.subset (hsub.subset hmem))
  have hnonneg : forall coin, coin ∈ vValue -> 0 ≤ coin.first := fun coin hmem =>
    (h.candidate (isCandidate_of_mem (hperm.subset hmem))).1
  have hdistinct : ((lowerCoins mapWallet nTargetValue nConfMine nConfTheirs tryDenom
      vCoins).map Coin.second).Nodup := by
    unfold lowerCoins
    rw [List.map_map]
    exact h.distinct.sublist (List.filter_sublist.map _)
  have hle : sumOf coins ≤
      sumOf (lowerCoins mapWallet nTargetValue nConfMine nConfTheirs tryDenom vCoins) := by
    unfold sumOf
    rw [← (hperm.map Coin.first).sum_eq]
    apply (hsub.map Coin.first).sum_le_sum
    intro v hv
    rcases List.mem_map.mp hv with ⟨coin, hcoin, heq⟩
    exact heq ▸ hnonneg coin hcoin
  apply pays_taking hcandidates
  · exact ((hperm.map Coin.second).nodup_iff.mpr hdistinct).sublist (hsub.map Coin.second)
  · exact fun coin hmem => hnonneg coin (hsub.subset hmem)
  · exact lt_of_le_of_lt hle (h.sumOf_lowerCoins tryDenom)
  · exact htarget

theorem reaches_bestSubset {vValue : List Coin} (draws : Draws)
    (hnonneg : forall coin, coin ∈ vValue -> 0 ≤ coin.first)
    (hsum : sumOf vValue < 9223372036854775808)
    (hwrap : wrapInt64 (nTargetValue + CENT) = nTargetValue + CENT)
    (htarget : nTargetValue ≤ sumOf vValue) :
    Reaches vValue nTargetValue (bestSubset nTargetValue draws vValue (sumOf vValue)).1
      (bestSubset nTargetValue draws vValue (sumOf vValue)).2 := by
  have hcent : (0 : Int) ≤ CENT := by decide
  unfold bestSubset
  simp only
  rw [hwrap]
  split
  case isTrue hmore =>
    rw [Bool.and_eq_true, decide_eq_true_eq, decide_eq_true_eq] at hmore
    have hchange := reaches_approximateBestSubset hnonneg hsum (draws.insecureRand 1) 1000 hmore.2
    exact hchange.mono (by omega)
  case isFalse =>
    exact reaches_approximateBestSubset hnonneg hsum (draws.insecureRand 0) 1000 htarget

theorem InRange.pays_selectSubset
    (h : InRange mapWallet nTargetValue nConfMine nConfTheirs vCoins) (draws : Draws)
    {tryDenom : Nat} {start round : Round} (hstart : start.vValue = [])
    (hround : Collected mapWallet nTargetValue nConfMine nConfTheirs vCoins tryDenom vCoins start
      round)
    (htarget : nTargetValue ≤ round.nTotalLower) :
    (selectSubset nTargetValue draws round).fOk = true ∧
      Pays mapWallet nTargetValue nConfMine nConfTheirs vCoins
        (selectSubset nTargetValue draws round) := by
  have hperm := draws.orderValues_perm round.vValue
  have htotal : round.nTotalLower = sumOf (draws.orderValues round.vValue) := by
    rw [hround.nTotalLower_eq]
    exact (hperm.map Coin.first).sum_eq.symm
  have hvalue := hround.vValue_eq
  rw [hstart, List.nil_append] at hvalue
  have hlower := hperm.trans (List.Perm.of_eq hvalue)
  have hnonneg : forall coin, coin ∈ draws.orderValues round.vValue -> 0 ≤ coin.first :=
    fun coin hmem => (h.candidate (isCandidate_of_mem (hlower.subset hmem))).1
  have hsum : sumOf (draws.orderValues round.vValue) < 9223372036854775808 := by
    rw [← htotal, hround.nTotalLower_eq, hvalue]
    exact h.sumOf_lowerCoins tryDenom
  have hreaches := reaches_bestSubset draws hnonneg hsum h.wrap_target (htotal ▸ htarget)
  have hchosen := h.pays_chosen hlower (chosen_sublist _ _) (hreaches.sum_eq ▸ hreaches.target_le)
  unfold selectSubset
  simp only
  rw [htotal]
  split
  case h_1 outpoint hsome =>
    split
    · exact ⟨rfl, h.pays_larger hround.larger hsome⟩
    · exact ⟨rfl, hchosen⟩
  case h_2 => exact ⟨rfl, hchosen⟩

variable (mapWallet nTargetValue nConfMine nConfTheirs vCoins) in
/-- What a selection answers about the eligible outputs. -/
structure Answers (s : Selection) : Prop where
  pays : s.fOk = true -> Pays mapWallet nTargetValue nConfMine nConfTheirs vCoins s
  total_lt : s.fOk = false ->
    ((vCoins.filter (COutput.isEligible mapWallet nConfMine nConfTheirs)).map
      fun output => outputValue mapWallet output.outpoint).sum < nTargetValue

theorem Pays.answers {coins : List Coin}
    (h : Pays mapWallet nTargetValue nConfMine nConfTheirs vCoins (Selection.taking coins)) :
    Answers mapWallet nTargetValue nConfMine nConfTheirs vCoins (Selection.taking coins) :=
  ⟨fun _ => h, nofun⟩

theorem InRange.answers_tryRound
    (h : InRange mapWallet nTargetValue nConfMine nConfTheirs vCoins) (draws : Draws)
    (tryDenom : Nat) {coinLowestLarger : Int × Option (Nat × Nat)}
    (hlarger : LargerFrom mapWallet nTargetValue nConfMine nConfTheirs vCoins coinLowestLarger)
    {noLarger : Int × Option (Nat × Nat) -> Selection}
    (hnone : forall round,
      Collected mapWallet nTargetValue nConfMine nConfTheirs vCoins tryDenom vCoins
        ⟨[], 0, coinLowestLarger⟩ round ->
      round.coinLowestLarger.2 = none -> round.nTotalLower < nTargetValue ->
        Answers mapWallet nTargetValue nConfMine nConfTheirs vCoins
          (noLarger round.coinLowestLarger)) :
    Answers mapWallet nTargetValue nConfMine nConfTheirs vCoins
      (tryRound mapWallet nTargetValue nConfMine nConfTheirs draws vCoins tryDenom
        coinLowestLarger noLarger) := by
  have hempty : sumOf [] +
      sumOf (lowerCoins mapWallet nTargetValue nConfMine nConfTheirs tryDenom vCoins) <
        9223372036854775808 := by
    change 0 + _ < _
    rw [Int.zero_add]
    exact h.sumOf_lowerCoins tryDenom
  have hloop := @coinsLoop_spec mapWallet nTargetValue nConfMine nConfTheirs vCoins h tryDenom
    vCoins ⟨[], 0, coinLowestLarger⟩ (List.Subset.refl vCoins) hlarger rfl (Int.le_refl 0) hempty
  unfold tryRound
  cases hcoins : coinsLoop mapWallet nTargetValue nConfMine nConfTheirs tryDenom vCoins
    ⟨[], 0, coinLowestLarger⟩ with
  | error coin =>
      rw [hcoins] at hloop
      exact (h.pays_coin hloop.1 (Int.le_of_eq hloop.2.symm)).answers
  | ok round =>
      rw [hcoins] at hloop
      change Collected mapWallet nTargetValue nConfMine nConfTheirs vCoins tryDenom vCoins
        ⟨[], 0, coinLowestLarger⟩ round at hloop
      have hvalue := hloop.vValue_eq
      rw [List.nil_append] at hvalue
      simp only
      split
      case isTrue hexact =>
        apply Pays.answers
        apply h.pays_chosen (List.Perm.of_eq hvalue) (List.Sublist.refl _)
        rw [← hloop.nTotalLower_eq, hexact]
      case isFalse =>
        split
        case isTrue hlower =>
          split
          case h_1 hsome => exact hnone round hloop hsome hlower
          case h_2 outpoint hsome => exact (h.pays_larger hloop.larger hsome).answers
        case isFalse hlower =>
          have hsubset := h.pays_selectSubset draws rfl hloop (Int.not_lt.mp hlower)
          exact ⟨fun _ => hsubset.2, fun hfalse => nomatch hsubset.1.symm.trans hfalse⟩

/-- After both rounds every eligible output has been collected. -/
theorem Collected.answers_cleared {start round : Round}
    (hround : Collected mapWallet nTargetValue nConfMine nConfTheirs vCoins 1 vCoins start round)
    (hstart : start.vValue = []) (hnone : round.coinLowestLarger.2 = none)
    (hlt : round.nTotalLower < nTargetValue) :
    Answers mapWallet nTargetValue nConfMine nConfTheirs vCoins Selection.cleared := by
  refine ⟨nofun, fun _ => ?_⟩
  have hfilter : vCoins.filter (COutput.isEligible mapWallet nConfMine nConfTheirs) =
      vCoins.filter fun output => isLookedAt mapWallet nConfMine nConfTheirs 1 output &&
        (output.toCoin mapWallet).first < nTargetValue + CENT := by
    apply List.filter_congr
    intro output hmem
    have hlower := hround.larger_coins hnone output hmem
    have hlooked : isLookedAt mapWallet nConfMine nConfTheirs 1 output =
        output.isEligible mapWallet nConfMine nConfTheirs := Bool.and_true _
    rw [hlooked] at hlower ⊢
    cases heligible : output.isEligible mapWallet nConfMine nConfTheirs with
    | false => rfl
    | true => exact (decide_eq_true (hlower heligible)).symm
  rw [hround.nTotalLower_eq, hround.vValue_eq, hstart, List.nil_append] at hlt
  unfold sumOf lowerCoins at hlt
  rw [List.map_map, ← hfilter] at hlt
  exact hlt

theorem InRange.answers_loops
    (h : InRange mapWallet nTargetValue nConfMine nConfTheirs vCoins) (draws : Draws) :
    Answers mapWallet nTargetValue nConfMine nConfTheirs vCoins
      (tryRound mapWallet nTargetValue nConfMine nConfTheirs draws vCoins 0
        (9223372036854775807, none) fun coinLowestLarger =>
          tryRound mapWallet nTargetValue nConfMine nConfTheirs draws vCoins 1 coinLowestLarger
            fun _ => Selection.cleared) := by
  have hstart : LargerFrom mapWallet nTargetValue nConfMine nConfTheirs vCoins
      (9223372036854775807, none) := by
    refine ⟨fun _ => rfl, ?_⟩
    intro outpoint hsome
    cases hsome
  apply h.answers_tryRound draws 0 hstart
  intro round hround _ _
  apply h.answers_tryRound draws 1 hround.larger
  intro last hlast hnone hlt
  exact hlast.answers_cleared rfl hnone hlt

theorem InRange.perm {vCoins' : List COutput} (hperm : vCoins'.Perm vCoins)
    (h : InRange mapWallet nTargetValue nConfMine nConfTheirs vCoins) :
    InRange mapWallet nTargetValue nConfMine nConfTheirs vCoins' where
  distinct := (hperm.map _).nodup_iff.mpr h.distinct
  nonneg output hmem := h.nonneg output (hperm.subset hmem)
  lt_max output hmem := h.lt_max output (hperm.subset hmem)
  target_pos := h.target_pos
  target_lt := h.target_lt
  lower_lt := by
    have heq := ((hperm.filter fun output =>
      output.isEligible mapWallet nConfMine nConfTheirs &&
        (output.toCoin mapWallet).first < nTargetValue + CENT).map
          fun output => (output.toCoin mapWallet).first).sum_eq
    unfold lowerTotal
    rw [heq]
    exact h.lower_lt

theorem Answers.perm {vCoins' : List COutput} {s : Selection} (hperm : vCoins'.Perm vCoins)
    (h : Answers mapWallet nTargetValue nConfMine nConfTheirs vCoins' s) :
    Answers mapWallet nTargetValue nConfMine nConfTheirs vCoins s where
  pays hok := by
    refine ⟨?_, (h.pays hok).value_eq, (h.pays hok).target_le⟩
    intro outpoint hmem
    rcases (h.pays hok).eligible outpoint hmem with ⟨output, hin, heligible, heq⟩
    exact ⟨output, hperm.subset hin, heligible, heq⟩
  total_lt hno := by
    have heq := ((hperm.filter (COutput.isEligible mapWallet nConfMine nConfTheirs)).map
      fun output => outputValue mapWallet output.outpoint).sum_eq
    rw [← heq]
    exact h.total_lt hno

end Results

/--
The selection pays with eligible outputs or there are too few, as long as the target with a cent
on top is a 64-bit integer and what the eligible outputs below that add up to is one.
-/
theorem answers_selectCoinsMinConf (params : CChainParams) (draws : Draws) {vCoins : List COutput}
    (hdistinct : (vCoins.map COutput.outpoint).Nodup)
    (hmoney : forall output, output ∈ vCoins ->
      params.moneyRange (outputValue mapWallet output.outpoint) = true)
    (htarget : 0 < nTargetValue) (hcent : nTargetValue + CENT < 9223372036854775808)
    (hlower : lowerTotal mapWallet nTargetValue nConfMine nConfTheirs vCoins <
      9223372036854775808) :
    Answers mapWallet nTargetValue nConfMine nConfTheirs vCoins
      (selectCoinsMinConf mapWallet nTargetValue nConfMine nConfTheirs draws vCoins) := by
  have hmax := params.maxMoneyOut_lt
  have hrange : InRange mapWallet nTargetValue nConfMine nConfTheirs vCoins := by
    refine ⟨hdistinct, ?_, ?_, htarget, hcent, hlower⟩
    · intro output hmem
      exact (CChainParams.moneyRange_iff.mp (hmoney output hmem)).1
    · intro output hmem
      have hle := (CChainParams.moneyRange_iff.mp (hmoney output hmem)).2
      change outputValue mapWallet output.outpoint < _
      omega
  have hperm := draws.orderOutputs_perm vCoins
  exact ((hrange.perm hperm).answers_loops draws).perm hperm

/-- Nothing is moved, and every bit drawn is the same. -/
def plainDraws (bit : Bool) : Draws where
  orderOutputs := id
  orderOutputs_perm _ := List.Perm.refl _
  orderValues := id
  orderValues_perm _ := List.Perm.refl _
  insecureRand _ _ _ := bit

/-- A wallet of transactions with one output each. -/
def singleOutputs (nValue : Int) (tx : Nat) : CWalletTx :=
  { vout := [CTxOut.make (nValue + tx) []], isFromMe := false }

def outputsOf (n : Nat) : List COutput :=
  (List.range n).map fun tx => { tx := tx, i := 0, nDepth := 6, fSpendable := true }

theorem answers_three :
    Answers (singleOutputs 5000000) 12000000 1 6 (outputsOf 3)
      (selectCoinsMinConf (singleOutputs 5000000) 12000000 1 6 (plainDraws true) (outputsOf 3)) :=
  answers_selectCoinsMinConf _ _ _ _ CChainParams.mainParams _ (by decide) (by decide) (by decide)
    (by decide) (by decide)

/--
Values below the target wrap when they are added, and the coins do not seem to suffice; or the
target with a cent on top wraps, and a coin of five takes its place.
-/
theorem selectCoinsMinConf_wraps :
    ((outputsOf 93).map COutput.outpoint).Nodup ∧
    (forall output, output ∈ outputsOf 93 -> CChainParams.mainParams.moneyRange
      (outputValue (singleOutputs 99999999999999900) output.outpoint) = true) ∧
    ¬ Answers (singleOutputs 99999999999999900) 200000000000000000 1 6 (outputsOf 93)
      (selectCoinsMinConf (singleOutputs 99999999999999900) 200000000000000000 1 6
        (plainDraws true) (outputsOf 93)) ∧
    ¬ Answers (singleOutputs 5) 9223372036854775807 1 6 (outputsOf 1)
      (selectCoinsMinConf (singleOutputs 5) 9223372036854775807 1 6 (plainDraws true)
        (outputsOf 1)) := by
  refine ⟨by decide +kernel, by decide +kernel, ?_, ?_⟩
  · intro h
    exact absurd (h.total_lt (by decide +kernel)) (by decide +kernel)
  · intro h
    exact absurd (h.pays (by decide +kernel)).target_le (by decide +kernel)

end Wallet

end CoinSelection
end Hbcur
