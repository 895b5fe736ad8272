import Hbcur.Validation.CheckBlock

/-!
# Payments of a new block

`FillBlockPayee` of `masternode-payments.cpp` and of `masternode-budget.cpp`: how the
outputs of a coinbase or of a coinstake are filled in.
-/

namespace Hbcur

open Serialize

/-!
# Outputs by position
-/

namespace CMutableTransaction

/-- `vout.resize(nSize)` -/
def resizeOutputs (tx : CMutableTransaction) (nSize : Nat) : CMutableTransaction :=
  { tx with
    vout := tx.vout.take nSize ++ List.replicate (nSize - tx.vout.length) CTxOut.null }

def setPayee (tx : CMutableTransaction) (i : Nat) (payee : CScript) : CMutableTransaction :=
  { tx with vout := tx.vout.modify i fun out => { out with scriptPubKey := payee } }

def setValue (tx : CMutableTransaction) (i : Nat) (nValue : Int) : CMutableTransaction :=
  { tx with vout := tx.vout.modify i fun out => { out with nValue := nValue } }

def subtractValue (tx : CMutableTransaction) (i : Nat) (nValue : Int) : CMutableTransaction :=
  { tx with vout := tx.vout.modify i fun out => { out with nValue := out.nValue - nValue } }

/-- A further output at the end. -/
def appendPayment (tx : CMutableTransaction) (payee : CScript) (nValue : Int) :
    CMutableTransaction :=
  ((tx.resizeOutputs (tx.vout.length + 1)).setPayee tx.vout.length payee).setValue
    tx.vout.length nValue

end CMutableTransaction

/-!
# Masternode payments
-/

/-- The votes for payees and the list of masternodes. -/
structure CMasternodePayments where
  getBlockPayee : Int -> Option CScript
  /-- The script which pays to `GetCurrentMasterNode(1)`. -/
  currentMasterNode : Option CScript
  -- a share of the block value which depends on the number of masternodes
  getMasternodePayment : Int -> Int -> Int
  payment_bounds : forall (nHeight : Int) {blockValue : Int}, 0 ≤ blockValue ->
    0 ≤ getMasternodePayment nHeight blockValue ∧
      getMasternodePayment nHeight blockValue ≤ blockValue

namespace CMasternodePayments

/-- The payee for the block after the tip, if one can be found. -/
def payee (payments : CMasternodePayments) (nHeight : Int) : Option CScript :=
  match payments.getBlockPayee (nHeight + 1) with
  | some payee => some payee
  | none => payments.currentMasterNode

def fillBlockPayee (payments : CMasternodePayments) (nHeight : Int)
    (txNew : CMutableTransaction) (nFees : Int) (fProofOfStake : Bool) : CMutableTransaction :=
  let blockValue := getBlockValue nHeight
  let masternodePayment := payments.getMasternodePayment nHeight blockValue
  match payments.payee nHeight with
  | some payee =>
      if fProofOfStake then
        -- the payment is taken from the output before it
        (txNew.appendPayment payee (masternodePayment + nFees.tdiv 2)).subtractValue
          (txNew.vout.length - 1) (masternodePayment + nFees.tdiv 2)
      else
        (((txNew.resizeOutputs 2).setPayee 1 payee).setValue 1
          (masternodePayment + nFees.tdiv 2)).setValue 0
          (blockValue - masternodePayment + nFees.tdiv 2)
  | none =>
      if fProofOfStake then txNew
      else txNew.setValue 0 (wrapInt64 (blockValue + nFees))

end CMasternodePayments

/-!
# Budget payments
-/

namespace CBudgetManager

def fillBlockPayee (budget : CBudgetManager) (nHeight : Int) (txNew : CMutableTransaction)
    (fProofOfStake : Bool) : CMutableTransaction :=
  match highestVoted (nHeight + 1) 0 none budget.mapFinalizedBudgets with
  | some payment =>
      if fProofOfStake then txNew.appendPayment payment.payee payment.nAmount
      else
        (((txNew.setValue 0 (getBlockValue nHeight)).resizeOutputs 2).setPayee 1
          payment.payee).setValue 1 payment.nAmount
  | none =>
      if fProofOfStake then txNew else txNew.setValue 0 (getBlockValue nHeight)

end CBudgetManager

/-- Whether the block after the tip is one with a budget payment. -/
def paysBudget (node : NodeState) (nHeight : Int) : Bool :=
  node.sporkActive Spork.enableSuperblocks && node.budget.isBudgetPaymentBlock (nHeight + 1)

def fillBlockPayee (node : NodeState) (payments : CMasternodePayments) (nHeight : Int)
    (txNew : CMutableTransaction) (nFees : Int) (fProofOfStake : Bool) : CMutableTransaction :=
  if paysBudget node nHeight then node.budget.fillBlockPayee nHeight txNew fProofOfStake
  else payments.fillBlockPayee nHeight txNew nFees fProofOfStake

/-!
# Only outputs are filled in
-/

theorem CMasternodePayments.vin_fillBlockPayee (payments : CMasternodePayments) (nHeight : Int)
    (txNew : CMutableTransaction) (nFees : Int) (fProofOfStake : Bool) :
    (payments.fillBlockPayee nHeight txNew nFees fProofOfStake).vin = txNew.vin := by
  unfold CMasternodePayments.fillBlockPayee
  cases payments.payee nHeight <;> cases fProofOfStake <;> rfl

theorem CBudgetManager.vin_fillBlockPayee (budget : CBudgetManager) (nHeight : Int)
    (txNew : CMutableTransaction) (fProofOfStake : Bool) :
    (budget.fillBlockPayee nHeight txNew fProofOfStake).vin = txNew.vin := by
  unfold CBudgetManager.fillBlockPayee
  cases CBudgetManager.highestVoted (nHeight + 1) 0 none budget.mapFinalizedBudgets <;>
    cases fProofOfStake <;> rfl

theorem vin_fillBlockPayee (node : NodeState) (payments : CMasternodePayments) (nHeight : Int)
    (txNew : CMutableTransaction) (nFees : Int) (fProofOfStake : Bool) :
    (fillBlockPayee node payments nHeight txNew nFees fProofOfStake).vin = txNew.vin := by
  unfold fillBlockPayee
  split_ifs
  · exact CBudgetManager.vin_fillBlockPayee _ _ _ _
  · exact CMasternodePayments.vin_fillBlockPayee _ _ _ _ _

end Hbcur

/-!
# Blocks with a budget payment

Whether a block which was filled in by `FillBlockPayee` is accepted by `IsTransactionValid`
of the same node.  Both look for the finalized budget with the most votes, in two loops.
-/

namespace Hbcur

namespace CFinalizedBudget

/-- A budget covers the heights for which it has a payment. -/
theorem covers_iff (fb : CFinalizedBudget) (nBlockHeight : Int) :
    fb.covers nBlockHeight = true <-> exists payment, fb.paymentAt nBlockHeight = some payment := by
  unfold covers paymentAt getBlockEnd
  rw [Bool.and_eq_true, decide_eq_true_iff, decide_eq_true_iff]
  constructor
  · intro h
    have hlt : (nBlockHeight - fb.nBlockStart).toNat < fb.vecBudgetPayments.length := by omega
    rw [if_neg (by omega)]
    exact ⟨_, List.getElem?_eq_getElem hlt⟩
  · intro h
    rcases h with ⟨payment, hpayment⟩
    split_ifs at hpayment with hbefore
    rcases List.getElem?_eq_some_iff.mp hpayment with ⟨hlt, _⟩
    omega

theorem isTransactionValid_of_mem {fb : CFinalizedBudget} {txNew : CTransaction}
    {nBlockHeight : Int} {payment : CTxBudgetPayment} {out : CTxOut}
    (hpayment : fb.paymentAt nBlockHeight = some payment) (hmem : out ∈ txNew.vout)
    (hpayee : out.scriptPubKey = payment.payee) (hamount : out.nValue = payment.nAmount) :
    fb.isTransactionValid txNew nBlockHeight = true := by
  unfold isTransactionValid
  rw [hpayment]
  refine List.any_eq_true.mpr ⟨out, hmem, ?_⟩
  rw [hpayee, hamount, beq_self_eq_true, beq_self_eq_true]
  rfl

end CFinalizedBudget

namespace CBudgetManager

/-!
# The two loops
-/

section Loops

variable (nBlockHeight : Int)

theorem highestCount_cons (least : Int) (fb : CFinalizedBudget)
    (budgets : List CFinalizedBudget) :
    highestCount least nBlockHeight (fb :: budgets) =
      highestCount (if (fb.voteCount : Int) > least ∧ fb.covers nBlockHeight then fb.voteCount
        else least) nBlockHeight budgets := rfl

theorem le_highestCount (budgets : List CFinalizedBudget) (least : Int) :
    least ≤ highestCount least nBlockHeight budgets := by
  induction budgets generalizing least with
  | nil => exact Int.le_refl least
  | cons fb budgets ih =>
      rw [highestCount_cons]
      split_ifs with hmore
      · exact Int.le_trans (Int.le_of_lt hmore.1) (ih _)
      · exact ih least

theorem voteCount_le_highestCount {fb : CFinalizedBudget} (hcovers : fb.covers nBlockHeight = true)
    (budgets : List CFinalizedBudget) (least : Int) (hmem : fb ∈ budgets) :
    (fb.voteCount : Int) ≤ highestCount least nBlockHeight budgets := by
  induction budgets generalizing least with
  | nil => cases hmem
  | cons first budgets ih =>
      rw [highestCount_cons]
      rcases List.mem_cons.mp hmem with rfl | hrest
      · split_ifs with hmore
        · exact le_highestCount nBlockHeight budgets _
        · have hleast : (fb.voteCount : Int) ≤ least :=
            Int.not_lt.mp fun hlt => hmore ⟨hlt, hcovers⟩
          exact Int.le_trans hleast (le_highestCount nBlockHeight budgets least)
      · exact ih _ hrest

/-- The payment found belongs to a budget with the highest count, unless there is none. -/
theorem highestVoted_spec (budgets : List CFinalizedBudget) (least : Int)
    (payment : Option CTxBudgetPayment) :
    (highestCount least nBlockHeight budgets = least ∧
        highestVoted nBlockHeight least payment budgets = payment) ∨
      exists fb, fb ∈ budgets ∧ fb.covers nBlockHeight = true ∧
        (fb.voteCount : Int) = highestCount least nBlockHeight budgets ∧
        highestVoted nBlockHeight least payment budgets = fb.paymentAt nBlockHeight := by
  induction budgets generalizing least payment with
  | nil => exact Or.inl ⟨rfl, rfl⟩
  | cons fb budgets ih =>
      have hlater : forall {least' : Int} {payment' : Option CTxBudgetPayment},
          (exists other, other ∈ budgets ∧ other.covers nBlockHeight = true ∧
            (other.voteCount : Int) = highestCount least' nBlockHeight budgets ∧
            highestVoted nBlockHeight least' payment' budgets = other.paymentAt nBlockHeight) ->
          exists other, other ∈ fb :: budgets ∧ other.covers nBlockHeight = true ∧
            (other.voteCount : Int) = highestCount least' nBlockHeight budgets ∧
            highestVoted nBlockHeight least' payment' budgets = other.paymentAt nBlockHeight := by
        intro least' payment' h
        rcases h with ⟨other, hmem, hrest⟩
        exact ⟨other, List.mem_cons_of_mem fb hmem, hrest⟩
      rw [highestCount_cons]
      unfold highestVoted
      cases hpayment : fb.paymentAt nBlockHeight with
      | none =>
          have hnot : ¬ ((fb.voteCount : Int) > least ∧ fb.covers nBlockHeight = true) := by
            intro h
            rcases (fb.covers_iff nBlockHeight).mp h.2 with ⟨found, hfound⟩
            rw [hpayment] at hfound
            cases hfound
          rw [if_neg hnot]
          exact Or.imp id hlater (ih least payment)
      | some found =>
          simp only
          split_ifs with hmore
          · right
            rcases ih fb.voteCount (some found) with ⟨hcount, hfound⟩ | hrest
            · exact ⟨fb, List.mem_cons_self, hmore.2, hcount.symm, hfound.trans hpayment.symm⟩
            · exact hlater hrest
          · exact Or.imp id hlater (ih least payment)

end Loops

/-!
# What is filled in
-/

theorem getElem?_modify_vout (vout : List CTxOut) (i : Nat) (f : CTxOut -> CTxOut) {out : CTxOut}
    (h : vout[i]? = some out) : (vout.modify i f)[i]? = some (f out) := by
  rw [List.getElem?_modify, h]
  simp

/-- The output at a place, after a payee and a value have been set there. -/
theorem mem_setPayment (tx : CMutableTransaction) (i : Nat) (payee : CScript) (nValue : Int)
    (h : i < tx.vout.length) :
    exists out, out ∈ ((tx.setPayee i payee).setValue i nValue).vout ∧
      out.scriptPubKey = payee ∧ out.nValue = nValue := by
  unfold CMutableTransaction.setValue CMutableTransaction.setPayee
  have hout := getElem?_modify_vout _ i (fun out => { out with scriptPubKey := payee })
    (List.getElem?_eq_getElem h)
  have hset := getElem?_modify_vout _ i (fun out => { out with nValue := nValue }) hout
  exact ⟨_, List.mem_of_getElem? hset, rfl, rfl⟩

theorem length_resizeOutputs (tx : CMutableTransaction) (nSize : Nat) :
    (tx.resizeOutputs nSize).vout.length = nSize := by
  unfold CMutableTransaction.resizeOutputs
  rw [List.length_append, List.length_take, List.length_replicate]
  omega

theorem mem_fillBlockPayee {budget : CBudgetManager} {nHeight : Int} {payment : CTxBudgetPayment}
    (h : highestVoted (nHeight + 1) 0 none budget.mapFinalizedBudgets = some payment)
    (txNew : CMutableTransaction) (fProofOfStake : Bool) :
    exists out, out ∈ (budget.fillBlockPayee nHeight txNew fProofOfStake).vout ∧
      out.scriptPubKey = payment.payee ∧ out.nValue = payment.nAmount := by
  unfold fillBlockPayee
  rw [h]
  cases fProofOfStake with
  | true =>
      unfold CMutableTransaction.appendPayment
      apply mem_setPayment _ txNew.vout.length _ _
      rw [length_resizeOutputs]
      omega
  | false =>
      apply mem_setPayment _ 1 _ _
      rw [length_resizeOutputs]
      omega

/-!
# What is accepted
-/

/-- A block with a payment has a budget with votes. -/
theorem paid_of_isBudgetPaymentBlock {budget : CBudgetManager} {nBlockHeight : Int}
    (h : budget.isBudgetPaymentBlock nBlockHeight = true) :
    exists fb, fb ∈ budget.mapFinalizedBudgets ∧ fb.covers nBlockHeight = true ∧
      ((budget.countEnabled / 20 : Nat) : Int) < fb.voteCount := by
  unfold isBudgetPaymentBlock at h
  rw [decide_eq_true_iff] at h
  rcases highestVoted_spec nBlockHeight budget.mapFinalizedBudgets (-1) none with
    ⟨hleast, _⟩ | ⟨fb, hmem, hcovers, hcount, _⟩
  · omega
  · exact ⟨fb, hmem, hcovers, by omega⟩

theorem filled_block_valid_iff (getHash : CMutableTransaction -> UInt256)
    (budget : CBudgetManager) (nHeight : Int) (txNew : CMutableTransaction) (fProofOfStake : Bool)
    (h : budget.isBudgetPaymentBlock (nHeight + 1) = true) :
    budget.isTransactionValid
        ((budget.fillBlockPayee nHeight txNew fProofOfStake).toTransaction getHash)
        (nHeight + 1) = true <->
      10 ≤ budget.countEnabled := by
  rcases paid_of_isBudgetPaymentBlock h with ⟨voted, hmem, hcovers, hvotes⟩
  have hhighest := voteCount_le_highestCount (nHeight + 1) hcovers _ 0 hmem
  unfold isTransactionValid
  simp only
  rw [if_neg (by omega), List.any_eq_true]
  constructor
  · intro hfound
    rcases hfound with ⟨fb, hfb, hvalid⟩
    simp only [Bool.and_eq_true, decide_eq_true_iff] at hvalid
    -- No budget has more votes than the highest count, so some difference must be allowed.
    have hle := voteCount_le_highestCount (nHeight + 1) hvalid.1.2 _ 0 hfb
    omega
  · intro hcount
    rcases highestVoted_spec (nHeight + 1) budget.mapFinalizedBudgets 0 none with
      ⟨hleast, _⟩ | ⟨fb, hfb, hfbCovers, hfbCount, hfound⟩
    · omega
    · rcases (fb.covers_iff (nHeight + 1)).mp hfbCovers with ⟨payment, hpayment⟩
      rw [hpayment] at hfound
      rcases mem_fillBlockPayee hfound txNew fProofOfStake with ⟨out, hout, hpayee, hamount⟩
      refine ⟨fb, hfb, ?_⟩
      rw [Bool.and_eq_true, Bool.and_eq_true, decide_eq_true_iff]
      refine ⟨⟨by omega, hfbCovers⟩, ?_⟩
      exact CFinalizedBudget.isTransactionValid_of_mem hpayment hout hpayee hamount

/-- A budget of one payment, with one vote. -/
def smallBudget (countEnabled : Nat) : CBudgetManager where
  mapFinalizedBudgets :=
    [{ nBlockStart := 144
       vecBudgetPayments := [{ payee := [0], nAmount := 10 * COIN }]
       voteCount := 1 }]
  countEnabled := countEnabled

theorem ten_masternodes_accept :
    (smallBudget 10).isTransactionValid
      (((smallBudget 10).fillBlockPayee 143 { vout := [CTxOut.null] }
        true).toTransaction fun _ => 0) 144 = true :=
  (filled_block_valid_iff (fun _ => 0) (smallBudget 10) 143 _ true (by decide)).mpr (by decide)

theorem nine_masternodes_refuse :
    (smallBudget 9).isBudgetPaymentBlock 144 = true ∧
      forall fProofOfStake, (smallBudget 9).isTransactionValid
        (((smallBudget 9).fillBlockPayee 143 { vout := [CTxOut.null] }
          fProofOfStake).toTransaction fun _ => 0) 144 = false := by
  decide

end CBudgetManager

end Hbcur
