import Mathlib.Algebra.Order.BigOperators.Group.List
import Hbcur.Foundation.Checks
import Hbcur.Masternode.BudgetVotes
import Hbcur.Script.SigOps

/-!
# Limits of budgets

`GetTotalBudget` and the checks of proposals and finalized budgets in `masternode-budget.cpp`.
What `IsBudgetCollateralValid` finds is a function of the node.
-/

namespace Hbcur

open Foundation Serialize

/-- `CBaseChainParams::Network` -/
inductive Network where
  | MAIN
  | TESTNET
  | REGTEST
  | UNITTEST
  deriving DecidableEq, Repr

def Network.getBudgetPaymentCycleBlocks (network : Network) : Int :=
  if network = Network.MAIN then 28800 else 144

/-- What the budget reads of the chain and of the masternodes. -/
structure BudgetContext extends BudgetEnv where
  networkID : Network
  nLastPOWBlock : Int
  /-- The height of the tip, if there is one. -/
  tipHeight : Option Int
  /-- `ActiveProtocol()` -/
  activeProtocol : Int
  /-- Why a transaction is no collateral for an item with a hash. -/
  collateralError : UInt256 -> UInt256 -> Option String

namespace BudgetContext

def countEnabled (ctx : BudgetContext) : Nat := ctx.mnodeman.countEnabled ctx.activeProtocol

def cycle (ctx : BudgetContext) : Int := ctx.networkID.getBudgetPaymentCycleBlocks

def getTotalBudget (ctx : BudgetContext) (nHeight : Int) : Int :=
  match ctx.tipHeight with
  | none => 0
  | some _ =>
      if ctx.networkID = Network.TESTNET then (500 * COIN / 100 * 10) * 146
      else
        let nSubsidy := if ctx.nLastPOWBlock < nHeight then 2 * COIN else 0 * COIN
        (nSubsidy / 100 * 10) * 720 * 30

def checkCollateral (ctx : BudgetContext) (nFeeTXHash hash : UInt256) : Except String Unit :=
  match ctx.collateralError nFeeTXHash hash with
  | none => Except.ok ()
  | some strError2 => Except.error ("Invalid Collateral : " ++ strError2)

/-- Whether a finalized budget is not older than the chain, if there is one. -/
def checkAge (ctx : BudgetContext) (nBlockStart : Int) : Except String Unit :=
  match ctx.tipHeight with
  | none => Except.ok ()
  | some nHeight => require (!decide (nBlockStart < nHeight - 100)) "Older than current blockHeight"

/-- The largest budget of all networks, that of the test network. -/
def maxBudget : Int := 730000000000

theorem getTotalBudget_bounds (ctx : BudgetContext) (nHeight : Int) :
    0 ≤ ctx.getTotalBudget nHeight ∧ ctx.getTotalBudget nHeight ≤ maxBudget := by
  have hmax : 0 ≤ maxBudget := by decide
  unfold getTotalBudget
  cases ctx.tipHeight with
  | none => exact ⟨Int.le_refl 0, hmax⟩
  | some nTip =>
      by_cases htest : ctx.networkID = Network.TESTNET
      · simp only [htest, if_true]
        decide
      · by_cases hstake : ctx.nLastPOWBlock < nHeight
        · simp only [htest, hstake, if_true, if_false]
          decide
        · simp only [htest, hstake, if_false]
          decide

end BudgetContext

/-!
# Finalized budgets
-/

namespace CFinalizedBudgetBroadcast

def getBlockEnd (fb : CFinalizedBudgetBroadcast) : Int :=
  fb.nBlockStart + ((fb.vecBudgetPayments.length : Int) - 1)

/-- The sum of the amounts in an `int64_t`. -/
def getTotalPayout (fb : CFinalizedBudgetBroadcast) : Int :=
  fb.vecBudgetPayments.foldl (fun ret payment => wrapInt64 (ret + payment.nAmount)) 0

def isValid (ctx : BudgetContext) (hash : UInt256) (fCheckCollateral : Bool)
    (fb : CFinalizedBudgetBroadcast) : Except String Unit := do
  -- must be the correct block for payment to happen
  require (decide (fb.nBlockStart.tmod ctx.cycle = 0)) "Invalid BlockStart"
  require (!decide (fb.getBlockEnd - fb.nBlockStart > 100)) "Invalid BlockEnd"
  require (!decide (fb.vecBudgetPayments.length > 100))
    "Invalid budget payments count (too many)"
  require (!decide (fb.strBudgetName = "")) "Invalid Budget Name"
  require (!decide (fb.nBlockStart = 0)) "Invalid BlockStart == 0"
  require (!decide (fb.nFeeTXHash = 0)) "Invalid FeeTx == 0"
  require (!decide (fb.getTotalPayout > ctx.getTotalBudget fb.nBlockStart))
    "Invalid Payout (more than max)"
  onlyIf fCheckCollateral (ctx.checkCollateral fb.nFeeTXHash hash)
  ctx.checkAge fb.nBlockStart

/-!
# What an accepted budget pays
-/

/-- The amounts are real payments which add up to no more than the budget. -/
structure PaymentsSound (ctx : BudgetContext) (fb : CFinalizedBudgetBroadcast) : Prop where
  nonneg : forall payment, payment ∈ fb.vecBudgetPayments -> 0 ≤ payment.nAmount
  sum_le : (fb.vecBudgetPayments.map CTxBudgetPayment.nAmount).sum ≤
    ctx.getTotalBudget fb.nBlockStart
  payout_exact : fb.getTotalPayout = (fb.vecBudgetPayments.map CTxBudgetPayment.nAmount).sum

/-- The hundredth part of the largest `int64_t`. -/
def hundredthOfInt64 : Int := 92233720368547758

section Payout

variable {ctx : BudgetContext} {hash : UInt256} {fCheckCollateral : Bool}
  {fb : CFinalizedBudgetBroadcast}

/-- What the checks of the payments amount to. -/
theorem isValid_payments (h : fb.isValid ctx hash fCheckCollateral = Except.ok ()) :
    fb.vecBudgetPayments.length ≤ 100 ∧
      fb.getTotalPayout ≤ ctx.getTotalBudget fb.nBlockStart := by
  unfold isValid at h
  simp only [then_eq_ok_iff, require_eq_ok_iff, Bool.not_eq_true', decide_eq_false_iff_not] at h
  rcases h with ⟨_, _, hcount, _, _, _, hpayout, _⟩
  omega

/-- The accumulated sum is the exact one as long as it fits. -/
theorem foldl_wrapInt64 (payments : List CTxBudgetPayment) :
    forall ret : Int, (forall payment, payment ∈ payments -> 0 ≤ payment.nAmount) -> 0 ≤ ret ->
      ret + (payments.map CTxBudgetPayment.nAmount).sum < 9223372036854775808 ->
      payments.foldl (fun ret payment => wrapInt64 (ret + payment.nAmount)) ret =
        ret + (payments.map CTxBudgetPayment.nAmount).sum := by
  induction payments with
  | nil =>
      intro ret _ _ _
      exact (Int.add_zero ret).symm
  | cons payment rest ih =>
      intro ret hnonneg hret hfits
      have hamount := hnonneg payment List.mem_cons_self
      have hothers : forall other, other ∈ rest -> 0 ≤ other.nAmount := fun other hmem =>
        hnonneg other (List.mem_cons_of_mem payment hmem)
      have hrest : 0 ≤ (rest.map CTxBudgetPayment.nAmount).sum := by
        apply List.sum_nonneg
        intro n hmem
        rcases List.mem_map.mp hmem with ⟨other, hother, rfl⟩
        exact hothers other hother
      rw [List.map_cons, List.sum_cons] at hfits ⊢
      rw [List.foldl_cons, wrapInt64_of_range _ (by omega) (by omega),
        ih _ hothers (by omega) (by omega)]
      omega

theorem sum_le_of_amounts {payments : List CTxBudgetPayment} {bound : Int}
    (h : forall payment, payment ∈ payments -> payment.nAmount ≤ bound) :
    (payments.map CTxBudgetPayment.nAmount).sum ≤ payments.length * bound := by
  induction payments with
  | nil => simp
  | cons payment rest ih =>
      have hfirst := h payment List.mem_cons_self
      have hrest := ih fun other hmem => h other (List.mem_cons_of_mem payment hmem)
      rw [List.map_cons, List.sum_cons, List.length_cons]
      push_cast
      rw [Int.add_mul, Int.one_mul]
      omega

/--
An accepted budget pays what it may exactly if none of its amounts is negative or so large that
a hundred of them can exceed an `int64_t`.
-/
theorem paymentsSound_iff (h : fb.isValid ctx hash fCheckCollateral = Except.ok ()) :
    fb.PaymentsSound ctx <-> forall payment, payment ∈ fb.vecBudgetPayments ->
      0 ≤ payment.nAmount ∧ payment.nAmount ≤ hundredthOfInt64 := by
  rcases isValid_payments h with ⟨hcount, hpayout⟩
  have htotal := ctx.getTotalBudget_bounds fb.nBlockStart
  constructor
  · intro hsound payment hmem
    refine ⟨hsound.nonneg payment hmem, ?_⟩
    have hle : payment.nAmount ≤ (fb.vecBudgetPayments.map CTxBudgetPayment.nAmount).sum := by
      apply List.single_le_sum
      · intro n hn
        rcases List.mem_map.mp hn with ⟨other, hother, rfl⟩
        exact hsound.nonneg other hother
      · exact List.mem_map_of_mem hmem
    have hsum := hsound.sum_le
    have hmax : BudgetContext.maxBudget ≤ hundredthOfInt64 := by decide
    omega
  · intro hamounts
    have hnonneg : forall payment, payment ∈ fb.vecBudgetPayments -> 0 ≤ payment.nAmount :=
      fun payment hmem => (hamounts payment hmem).1
    have hsum := sum_le_of_amounts fun payment hmem => (hamounts payment hmem).2
    have hfits : (fb.vecBudgetPayments.map CTxBudgetPayment.nAmount).sum < 9223372036854775808 := by
      have hle : (fb.vecBudgetPayments.length : Int) * hundredthOfInt64 ≤ 100 * hundredthOfInt64 :=
        Int.mul_le_mul_of_nonneg_right (by omega) (by decide)
      have hlimit : 100 * hundredthOfInt64 < 9223372036854775808 := by decide
      omega
    have hexact : fb.getTotalPayout = (fb.vecBudgetPayments.map CTxBudgetPayment.nAmount).sum := by
      unfold getTotalPayout
      rw [foldl_wrapInt64 _ 0 hnonneg (Int.le_refl 0) (by omega), Int.zero_add]
    exact ⟨hnonneg, hexact ▸ hpayout, hexact⟩

end Payout

end CFinalizedBudgetBroadcast

namespace BudgetExample

/-- The main network in its proof-of-stake phase. -/
def context : BudgetContext where
  toBudgetEnv := { node.toBudgetEnv with now := 100000 }
  networkID := Network.MAIN
  nLastPOWBlock := 26280000
  tipHeight := some 26290000
  activeProtocol := 70914
  collateralError := fun _ _ => none

def finalizedOf (amounts : List Int) : CFinalizedBudgetBroadcast where
  strBudgetName := "main"
  nBlockStart := 26294400
  vecBudgetPayments := amounts.map fun nAmount => { payee := [0], nAmount := nAmount }
  nFeeTXHash := 1

theorem paymentsSound_iff_one_payment :
    (finalizedOf [10 * COIN]).PaymentsSound context <-> forall payment,
      payment ∈ (finalizedOf [10 * COIN]).vecBudgetPayments ->
      0 ≤ payment.nAmount ∧ payment.nAmount ≤ CFinalizedBudgetBroadcast.hundredthOfInt64 :=
  CFinalizedBudgetBroadcast.paymentsSound_iff
    (show (finalizedOf [10 * COIN]).isValid context 7 true = Except.ok () by decide)

/-- A payment of five hundred million coins passes beside a negative one. -/
theorem negative_payment_accepted :
    (finalizedOf [500000000 * COIN, -500000000 * COIN]).isValid context 7 true =
      Except.ok () ∧
    ¬ (finalizedOf [500000000 * COIN, -500000000 * COIN]).PaymentsSound context := by
  refine ⟨by decide, ?_⟩
  intro hsound
  exact absurd (hsound.nonneg _ (List.mem_cons_of_mem _ List.mem_cons_self)) (by decide)

end BudgetExample

end Hbcur
