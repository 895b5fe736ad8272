import Hbcur.Primitives.Transaction

/-!
# Finalized budgets

The finalized budgets of `masternode-budget.h`, as far as the checks of a block
read them.  Votes only matter by their number.
-/

namespace Hbcur

structure CTxBudgetPayment where
  payee : CScript
  nAmount : Int
  deriving DecidableEq, Repr

structure CFinalizedBudget where
  nBlockStart : Int
  vecBudgetPayments : List CTxBudgetPayment
  voteCount : Nat
  deriving DecidableEq, Repr

namespace CFinalizedBudget

def getBlockEnd (fb : CFinalizedBudget) : Int :=
  fb.nBlockStart + ((fb.vecBudgetPayments.length : Int) - 1)

def covers (fb : CFinalizedBudget) (nBlockHeight : Int) : Bool :=
  decide (nBlockHeight ≥ fb.nBlockStart) && decide (nBlockHeight ≤ fb.getBlockEnd)

/-- `GetBudgetPaymentByBlock`: the payment due at a height. -/
def paymentAt (fb : CFinalizedBudget) (nBlockHeight : Int) : Option CTxBudgetPayment :=
  if nBlockHeight - fb.nBlockStart < 0 then none
  else fb.vecBudgetPayments[(nBlockHeight - fb.nBlockStart).toNat]?

def isTransactionValid (fb : CFinalizedBudget) (txNew : CTransaction)
    (nBlockHeight : Int) : Bool :=
  match fb.paymentAt nBlockHeight with
  | none => false
  | some payment =>
      txNew.vout.any fun out =>
        payment.payee == out.scriptPubKey && payment.nAmount == out.nValue

end CFinalizedBudget

structure CBudgetManager where
  mapFinalizedBudgets : List CFinalizedBudget
  /-- `mnodeman.CountEnabled(ActiveProtocol())` -/
  countEnabled : Nat
  deriving Repr

namespace CBudgetManager

/-- The scan for the highest number of votes, from a least value on. -/
def highestCount (least : Int) (nBlockHeight : Int) (budgets : List CFinalizedBudget) : Int :=
  budgets.foldl (fun nHighestCount fb =>
    if (fb.voteCount : Int) > nHighestCount ∧ fb.covers nBlockHeight then fb.voteCount
    else nHighestCount) least

def isBudgetPaymentBlock (budget : CBudgetManager) (nBlockHeight : Int) : Bool :=
  decide (highestCount (-1) nBlockHeight budget.mapFinalizedBudgets >
    (budget.countEnabled / 20 : Nat))

def isTransactionValid (budget : CBudgetManager) (txNew : CTransaction)
    (nBlockHeight : Int) : Bool :=
  let nHighestCount := highestCount 0 nBlockHeight budget.mapFinalizedBudgets
  if nHighestCount < (budget.countEnabled / 20 : Nat) then false
  else
    -- budgets within a tenth of the masternodes of the highest count are accepted too
    budget.mapFinalizedBudgets.any fun fb =>
      decide ((fb.voteCount : Int) > nHighestCount - (budget.countEnabled / 10 : Nat)) &&
        fb.covers nBlockHeight && fb.isTransactionValid txNew nBlockHeight

/-- The scan of `FillBlockPayee`: the payment of the highest-voted budget. -/
def highestVoted (nBlockHeight : Int) :
    Int -> Option CTxBudgetPayment -> List CFinalizedBudget -> Option CTxBudgetPayment
  | _, payment, [] => payment
  | nHighestCount, payment, fb :: rest =>
      match fb.paymentAt nBlockHeight with
      | some found =>
          if (fb.voteCount : Int) > nHighestCount ∧ fb.covers nBlockHeight then
            highestVoted nBlockHeight fb.voteCount (some found) rest
          else highestVoted nBlockHeight nHighestCount payment rest
      | none => highestVoted nBlockHeight nHighestCount payment rest

end CBudgetManager

end Hbcur
