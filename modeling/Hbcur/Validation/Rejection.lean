import Hbcur.Validation.Supply

/-!
# Rejections for local reasons

What a node knows of locks, votes, budgets and sporks is its own.  A block which is refused
on that account is put into `mapRejectedBlocks`, from where `ReprocessBlocks` takes it up
again.  Here the places which do so are compared with those which mark a block as failed.
-/

namespace Hbcur

open Foundation Serialize

/-!
# The local data of a node
-/

/-- What two nodes with the same chain may disagree about. -/
structure LocalData where
  sporkActive : Spork -> Bool
  mapLockedInputs : COutPoint -> Option UInt256
  budget : CBudgetManager
  masternodePaymentValid : CTransaction -> Int -> Bool

def NodeState.withLocal (node : NodeState) (d : LocalData) : NodeState :=
  { node with
    sporkActive := d.sporkActive
    mapLockedInputs := d.mapLockedInputs
    budget := d.budget
    masternodePaymentValid := d.masternodePaymentValid }

/-!
# What a rejection leaves behind
-/

/-- Whether a failed check sets `BLOCK_FAILED_VALID`, in `AcceptBlock` and `InvalidBlockFound`. -/
def Failure.marksFailed : Failure -> Bool
  | Failure.refused vstate => vstate.isInvalid && !vstate.corruptionPossible
  | Failure.aborted => false

/-- The checks of `CheckBlock` before the scan for locked inputs. -/
def checkBlockForm (node : NodeState) (vstate : CValidationState) (block : CBlock)
    (fCheckPOW fCheckMerkleRoot : Bool) : Except Failure Unit := do
  checkProofOfWorkHeader node vstate block fCheckPOW
  require (!decide (block.getBlockTime >
      node.adjustedTime + if block.isProofOfStake then 180 else 7200))
    (Failure.invalid vstate RejectCode.invalid "time-too-new")
  onlyIf fCheckMerkleRoot (checkMerkleRoot node vstate block)
  require (!(block.vtx.isEmpty || decide (block.vtx.length > MAX_BLOCK_SIZE) ||
      decide (block.getSerializeSize > MAX_BLOCK_SIZE)))
    (Failure.dos vstate 100 RejectCode.invalid "bad-blk-length")
  require (match block.vtx.head? with
      | some first => first.isCoinBase
      | none => false)
    (Failure.dos vstate 100 RejectCode.invalid "bad-cb-missing")
  forEach (fun tx => require (!tx.isCoinBase)
    (Failure.dos vstate 100 RejectCode.invalid "bad-cb-multiple")) block.vtx.tail
  onlyIf block.isProofOfStake (checkStakeForm vstate block)

/-- The checks after the one of the payee. -/
def checkBlockTxs (node : NodeState) (vstate : CValidationState) (block : CBlock) :
    Except Failure Unit := do
  forEach (checkTransaction node.params vstate) block.vtx
  require (!decide ((block.vtx.map getLegacySigOpCount).sum > MAX_BLOCK_SIGOPS))
    (Failure.dos vstate 100 RejectCode.invalid "bad-blk-sigops" true)

def checkLocks (node : NodeState) (vstate : CValidationState) (block : CBlock) :
    Except Failure Unit :=
  onlyIf (node.sporkActive Spork.swiftTxBlockFiltering) (checkLockedInputs node vstate block)

/--
Whether `CheckBlock` inserts the hash of the block into `mapRejectedBlocks`: before it
returns on a conflicting lock, and before it returns on a payee which is not valid.
-/
def checkBlockRecords (node : NodeState) (vstate : CValidationState) (block : CBlock)
    (fCheckPOW fCheckMerkleRoot : Bool) : Bool :=
  match checkBlockForm node vstate block fCheckPOW fCheckMerkleRoot with
  | Except.error _ => false
  | Except.ok _ =>
      match checkLocks node vstate block with
      | Except.error _ => true
      | Except.ok _ =>
          match checkPayee node vstate block with
          | Except.error (Failure.refused _) => true
          | Except.error Failure.aborted => false
          | Except.ok _ => false

/-- `ConnectBlock` inserts nothing but through the check which it makes again. -/
def connectBlockRecords (node : NodeState) (vstate : CValidationState) (block : CBlock)
    (fJustCheck : Bool) : Bool :=
  checkBlockRecords node vstate block (!fJustCheck) (!fJustCheck)

/-- A rejection which is not final: no failure flag, or a record of the block. -/
def Recoverable (failure : Failure) (records : Bool) : Prop :=
  failure.marksFailed = true -> records = true

/-!
# The check of a block
-/

theorem checkBlock_eq (node : NodeState) (vstate : CValidationState) (block : CBlock)
    (fCheckPOW fCheckMerkleRoot : Bool) :
    checkBlock node vstate block fCheckPOW fCheckMerkleRoot = (do
      checkBlockForm node vstate block fCheckPOW fCheckMerkleRoot
      checkLocks node vstate block
      checkPayee node vstate block
      checkBlockTxs node vstate block) := by
  simp only [checkBlockForm, checkBlockTxs, checkLocks, bind_assoc]
  rfl

section Check

variable {node : NodeState} {d d' : LocalData} {vstate : CValidationState} {block : CBlock}
  {fCheckPOW fCheckMerkleRoot : Bool}

theorem checkBlockForm_withLocal :
    checkBlockForm (node.withLocal d) vstate block fCheckPOW fCheckMerkleRoot =
      checkBlockForm node vstate block fCheckPOW fCheckMerkleRoot := rfl

theorem checkBlockTxs_withLocal :
    checkBlockTxs (node.withLocal d) vstate block = checkBlockTxs node vstate block := rfl

theorem checkBlockRecords_of_ok
    (h : checkBlock node vstate block fCheckPOW fCheckMerkleRoot = Except.ok ()) :
    checkBlockRecords node vstate block fCheckPOW fCheckMerkleRoot = false := by
  rw [checkBlock_eq] at h
  simp only [then_eq_ok_iff] at h
  unfold checkBlockRecords
  rw [h.1, h.2.1, h.2.2.1]

/-- A block which `CheckBlock` refuses for local reasons stays recoverable. -/
theorem checkBlock_recoverable {failure : Failure}
    (h : checkBlock (node.withLocal d) vstate block fCheckPOW fCheckMerkleRoot =
      Except.error failure)
    (h' : checkBlock (node.withLocal d') vstate block fCheckPOW fCheckMerkleRoot =
      Except.ok ()) :
    Recoverable failure
      (checkBlockRecords (node.withLocal d) vstate block fCheckPOW fCheckMerkleRoot) := by
  intro hmarks
  rw [checkBlock_eq] at h h'
  simp only [then_eq_ok_iff] at h'
  rcases h' with ⟨hform, _, _, htxs⟩
  rw [checkBlockForm_withLocal] at h hform
  rw [checkBlockTxs_withLocal] at h htxs
  unfold checkBlockRecords
  rw [checkBlockForm_withLocal]
  rw [hform] at h ⊢
  cases hlocks : checkLocks (node.withLocal d) vstate block with
  | error _ => rfl
  | ok _ =>
      rw [hlocks] at h
      cases hpayee : checkPayee (node.withLocal d) vstate block with
      | error payeeFailure =>
          cases payeeFailure with
          | refused _ => rfl
          | aborted =>
              rw [hpayee] at h
              cases h
              exact hmarks
      | ok _ =>
          rw [hpayee, htxs] at h
          cases h

end Check

/-!
# Connecting a block
-/

section Connect

variable {state : Type} [CoinsState state]

/-- The part of `ConnectBlock` between the check of the block and the write to the index. -/
def connectSum (node : NodeState) (vstate : CValidationState) (v : state)
    (block : CBlock) (pindex : PIndex) : Except Failure (ConnectState state) := do
  require (!(decide (pindex.nHeight ≤ node.params.nLastPOWBlock) && block.isProofOfStake))
    (Failure.dos vstate 100 RejectCode.invalid "PoS-early")
  require (!(decide (pindex.nHeight > node.params.nLastPOWBlock) && block.isProofOfWork))
    (Failure.dos vstate 100 RejectCode.invalid "PoW-ended")
  checkOverwrite vstate v block pindex
  accumulate (connectContext node vstate pindex).connectTx (ConnectState.initial v) block.vtx

/-- What the value check and the checks after it depend on. -/
structure Tallied (state : Type) where
  s : ConnectState state
  prev : PrevIndex

def connectTally (node : NodeState) (vstate : CValidationState) (v : state)
    (block : CBlock) (pindex : PIndex) : Except Failure (Tallied state) := do
  let s ← connectSum node vstate v block pindex
  require node.writeBlockIndex (Failure.refused vstate)
  let prev ← expect pindex.pprev Failure.aborted
  Except.ok { s := s, prev := prev }

def Tallied.valueValid (t : Tallied state) (node : NodeState) (block : CBlock) : Bool :=
  isBlockValueValid node block (nExpectedMint block t.prev t.s.nFees)
    (recordedSupply t.prev.nMoneySupply t.s.nValueOut t.s.nValueIn).2

def Tallied.connected (t : Tallied state) : Connected state :=
  { view := t.s.view
    blockundo := { vtxundo := t.s.txundos.tail }
    nMoneySupply := (recordedSupply t.prev.nMoneySupply t.s.nValueOut t.s.nValueIn).1
    nMint := (recordedSupply t.prev.nMoneySupply t.s.nValueOut t.s.nValueIn).2 }

theorem connectTxs_eq (node : NodeState) (vstate : CValidationState) (v : state)
    (block : CBlock) (pindex : PIndex) :
    connectTxs node vstate v block pindex = (do
      let t ← connectTally node vstate v block pindex
      require (t.valueValid node block)
        (Failure.dos vstate 100 RejectCode.invalid "bad-cb-amount")
      require t.s.queued (Failure.dos vstate 100)
      Except.ok t.connected) := by
  simp only [connectTally, connectSum, bind_assoc]
  rfl

/-- What is left to do for a block which passes. -/
def connectFinish (node : NodeState) (vstate : CValidationState) (pindex : PIndex)
    (fJustCheck : Bool) (connected : Connected state) : Except Failure (Connected state) :=
  if fJustCheck then Except.ok connected
  else do
    require node.writeUndo (Failure.refused (vstate.error "Failed to write undo data"))
    require node.writeTxIndex
      (Failure.refused (vstate.error "Failed to write transaction index"))
    let hash ← expect pindex.phashBlock Failure.aborted
    Except.ok { connected with view := CoinsState.setBestBlock connected.view hash.val }

theorem connectBlock_eq {node : NodeState} {vstate : CValidationState} {v : state}
    {block : CBlock} {pindex : PIndex} {fJustCheck : Bool}
    (hgenesis : block.hash ≠ node.params.hashGenesisBlock) :
    connectBlock node vstate v block pindex fJustCheck = (do
      checkBlock node vstate block (!fJustCheck) (!fJustCheck)
      require (((pindex.pprev.map fun prev => prev.hash.val).getD 0) ==
        CoinsState.getBestBlock v) Failure.aborted
      let t ← connectTally node vstate v block pindex
      require (t.valueValid node block)
        (Failure.dos vstate 100 RejectCode.invalid "bad-cb-amount")
      require t.s.queued (Failure.dos vstate 100)
      connectFinish node vstate pindex fJustCheck t.connected) := by
  unfold connectBlock
  simp only [if_neg hgenesis, connectTxs_eq, bind_assoc]
  rfl

theorem connectTally_withLocal {node : NodeState} {d : LocalData} {vstate : CValidationState}
    {v : state} {block : CBlock} {pindex : PIndex} :
    connectTally (node.withLocal d) vstate v block pindex =
      connectTally node vstate v block pindex := by
  have htx : forall s : ConnectState state,
      (connectContext (node.withLocal d) vstate pindex).connectTx s =
        (connectContext node vstate pindex).connectTx s := fun _ => rfl
  unfold connectTally connectSum
  rw [funext htx]
  rfl

theorem connectSum_tallies {node : NodeState} {vstate : CValidationState} {v : state}
    {block : CBlock} {pindex : PIndex} {s : ConnectState state}
    (htxs : forall tx, tx ∈ block.vtx -> CheckedTransaction node.params tx)
    (h : connectSum node vstate v block pindex = Except.ok s) :
    Tallies s (totalFees (flows v pindex.nHeight block.vtx))
      (totalIn (flows v pindex.nHeight block.vtx))
      (totalOut (flows v pindex.nHeight block.vtx)) := by
  simp only [connectSum, then_eq_ok_iff] at h
  have hspec := connectLoop_spec (connectContext node vstate pindex) block.vtx
    (ConnectState.initial v) s 0 0 0 htxs (tallies_initial v) h.2.2.2
  simp only [Int.zero_add] at hspec
  exact hspec.2.2.1

/-- The genesis block is only checked. -/
theorem connectBlock_genesis {node : NodeState} {vstate : CValidationState} {v : state}
    {block : CBlock} {pindex : PIndex} {fJustCheck : Bool}
    (hgenesis : block.hash = node.params.hashGenesisBlock) :
    connectBlock node vstate v block pindex fJustCheck = (do
      checkBlock node vstate block (!fJustCheck) (!fJustCheck)
      require (((pindex.pprev.map fun prev => prev.hash.val).getD 0) ==
        CoinsState.getBestBlock v) Failure.aborted
      let hash ← expect pindex.phashBlock Failure.aborted
      Except.ok
        { view := CoinsState.setBestBlock v hash.val
          blockundo := { vtxundo := [] }
          nMoneySupply := 0
          nMint := 0 }) := by
  unfold connectBlock
  simp only [if_pos hgenesis]

/-- The value check is an exemption or a bound. -/
theorem isBlockValueValid_iff_exempt {node : NodeState} {block : CBlock}
    {nExpected nMinted : Int} :
    isBlockValueValid node block nExpected nMinted = true <->
      superblockExempt node block = true ∨ nMinted ≤ nExpected := by
  cases hexempt : superblockExempt node block with
  | false => simp [isBlockValueValid_iff hexempt]
  | true =>
      simp only [true_or, iff_true]
      unfold superblockExempt at hexempt
      unfold isBlockValueValid
      cases htip : node.tip with
      | none => rfl
      | some tip =>
          rw [htip] at hexempt
          simp only at hexempt ⊢
          split_ifs at hexempt ⊢ with hsynced hspork
          · rw [hexempt, Bool.true_or]
          · rw [Bool.not_eq_true'] at hspork
            rw [hspork] at hexempt
            cases hexempt
          · rw [Bool.and_eq_true] at hexempt
            rw [hexempt.2, Bool.true_or]

/-- Whether a block mints more than `ConnectBlock` expects of it. -/
def mintsTooMuch (v : state) (block : CBlock) (pindex : PIndex) : Bool :=
  match pindex.pprev with
  | none => false
  | some prev => decide
      (nExpectedMint block prev (wrapInt64 (totalFees (flows v pindex.nHeight block.vtx))) <
        wrapInt64 (netIncrease (flows v pindex.nHeight block.vtx)))

theorem valueValid_iff {node : NodeState} {d : LocalData} {vstate : CValidationState}
    {v : state} {block : CBlock} {pindex : PIndex} {t : Tallied state}
    (htxs : forall tx, tx ∈ block.vtx -> CheckedTransaction node.params tx)
    (h : connectTally node vstate v block pindex = Except.ok t) :
    t.valueValid (node.withLocal d) block = true <->
      superblockExempt (node.withLocal d) block = true ∨ mintsTooMuch v block pindex = false := by
  simp only [connectTally, bind_eq_ok_iff, Unique.exists_iff, require_eq_ok_iff,
    expect_eq_ok_iff, Except.ok.injEq] at h
  rcases h with ⟨s, hsum, _, prev, hprev, rfl⟩
  have htallies := connectSum_tallies htxs hsum
  have hmint : (recordedSupply prev.nMoneySupply s.nValueOut s.nValueIn).2 =
      wrapInt64 (netIncrease (flows v pindex.nHeight block.vtx)) := by
    rw [htallies.valueOut, htallies.valueIn, recordedSupply_mint]
    rfl
  have hmints : mintsTooMuch v block pindex = false <->
      wrapInt64 (netIncrease (flows v pindex.nHeight block.vtx)) ≤
        nExpectedMint block prev (wrapInt64 (totalFees (flows v pindex.nHeight block.vtx))) := by
    simp [mintsTooMuch, hprev]
  unfold Tallied.valueValid
  rw [isBlockValueValid_iff_exempt, hmint, htallies.fees, hmints]

/-!
# What becomes of a refused block
-/

section Refused

variable {node : NodeState} {d d' : LocalData} {vstate : CValidationState} {v : state}
  {block : CBlock} {pindex : PIndex} {fJustCheck : Bool}

/-- A block which passes the check again is refused by the value check, or not at all. -/
theorem connectBlock_of_checked {c' : Connected state}
    (hgenesis : block.hash ≠ node.params.hashGenesisBlock)
    (hcheck : checkBlock (node.withLocal d) vstate block (!fJustCheck) (!fJustCheck) =
      Except.ok ())
    (h' : connectBlock (node.withLocal d') vstate v block pindex fJustCheck = Except.ok c') :
    connectBlock (node.withLocal d) vstate v block pindex fJustCheck =
      if superblockExempt (node.withLocal d) block = true ∨ mintsTooMuch v block pindex = false then
        Except.ok c'
      else Except.error (Failure.dos vstate 100 RejectCode.invalid "bad-cb-amount") := by
  have hother : block.hash ≠ (node.withLocal d).params.hashGenesisBlock := hgenesis
  have hother' : block.hash ≠ (node.withLocal d').params.hashGenesisBlock := hgenesis
  rw [connectBlock_eq hother', connectTally_withLocal] at h'
  rw [connectBlock_eq hother, connectTally_withLocal, hcheck]
  simp only [then_eq_ok_iff, require_eq_ok_iff] at h'
  rcases h' with ⟨hcheck', hbest, h'⟩
  rw [bind_eq_ok_iff] at h'
  rcases h' with ⟨t, htally, h'⟩
  simp only [then_eq_ok_iff, require_eq_ok_iff] at h'
  rcases h' with ⟨_, hqueued, hfinish⟩
  have hvalid : t.valueValid (node.withLocal d) block = true <->
      superblockExempt (node.withLocal d) block = true ∨ mintsTooMuch v block pindex = false :=
    valueValid_iff (checkedBlock_of_ok hcheck').txs htally
  rw [htally, hbest]
  change (do
    require (t.valueValid (node.withLocal d) block)
      (Failure.dos vstate 100 RejectCode.invalid "bad-cb-amount")
    require t.s.queued (Failure.dos vstate 100)
    connectFinish (node.withLocal d) vstate pindex fJustCheck t.connected) = _
  cases hpass : t.valueValid (node.withLocal d) block with
  | true =>
      rw [if_pos (hvalid.mp hpass), hqueued, ← hfinish]
      rfl
  | false =>
      rw [if_neg (fun hcond => Bool.false_ne_true (hpass.symm.trans (hvalid.mpr hcond)))]
      rfl

/--
A refusal which another node with the same chain does not share is recoverable when it comes
from the check of the block; when it comes from connecting the block, it is so if and only if
the check refuses the block already, or the node grants the height its exemption, or the block
does not mint too much.
-/
theorem rejected_recoverable_iff (hmode : vstate.mode = ValidationMode.valid) :
    (forall fCheckPOW fCheckMerkleRoot failure,
      checkBlock (node.withLocal d) vstate block fCheckPOW fCheckMerkleRoot =
        Except.error failure ->
      checkBlock (node.withLocal d') vstate block fCheckPOW fCheckMerkleRoot = Except.ok () ->
      Recoverable failure
        (checkBlockRecords (node.withLocal d) vstate block fCheckPOW fCheckMerkleRoot)) ∧
    (forall c', connectBlock (node.withLocal d') vstate v block pindex fJustCheck =
        Except.ok c' ->
      ((forall failure, connectBlock (node.withLocal d) vstate v block pindex fJustCheck =
          Except.error failure ->
        Recoverable failure (connectBlockRecords (node.withLocal d) vstate block fJustCheck)) <->
      (block.hash = node.params.hashGenesisBlock ∨
        checkBlock (node.withLocal d) vstate block (!fJustCheck) (!fJustCheck) ≠ Except.ok () ∨
        superblockExempt (node.withLocal d) block = true ∨ mintsTooMuch v block pindex = false))) := by
  refine ⟨fun _ _ _ h h' => checkBlock_recoverable h h', ?_⟩
  intro c' h'
  have hcheck' : checkBlock (node.withLocal d') vstate block (!fJustCheck) (!fJustCheck) =
      Except.ok () := by
    unfold connectBlock at h'
    rw [then_eq_ok_iff] at h'
    exact h'.1
  cases hcheck : checkBlock (node.withLocal d) vstate block (!fJustCheck) (!fJustCheck) with
  | error checkFailure =>
      refine iff_of_true ?_ (Or.inr (Or.inl nofun))
      intro failure h
      unfold connectBlock at h
      rw [hcheck] at h
      cases h
      exact checkBlock_recoverable hcheck hcheck'
  | ok _ =>
      by_cases hgenesis : block.hash = node.params.hashGenesisBlock
      · refine iff_of_true ?_ (Or.inl hgenesis)
        intro failure h
        have hsame : block.hash = (node.withLocal d).params.hashGenesisBlock := hgenesis
        have hsame' : block.hash = (node.withLocal d').params.hashGenesisBlock := hgenesis
        rw [connectBlock_genesis hsame, hcheck] at h
        rw [connectBlock_genesis hsame', hcheck'] at h'
        exact absurd (h.symm.trans h') nofun
      · rw [connectBlock_of_checked hgenesis hcheck h']
        by_cases hcond : superblockExempt (node.withLocal d) block = true ∨
            mintsTooMuch v block pindex = false
        · rw [if_pos hcond]
          exact iff_of_true nofun (Or.inr (Or.inr hcond))
        · rw [if_neg hcond]
          refine iff_of_false ?_ ?_
          · -- the failure is marked and nothing is recorded
            intro hall
            have hrecords := hall _ rfl (by
              simp [Failure.marksFailed, Failure.dos, CValidationState.dos,
                CValidationState.isInvalid, hmode])
            unfold connectBlockRecords at hrecords
            rw [checkBlockRecords_of_ok hcheck] at hrecords
            cases hrecords
          · rintro (h | h | h)
            · exact hgenesis h
            · exact h rfl
            · exact hcond h

end Refused

end Connect

namespace RejectionExample

open SupplyExample

/-- No sporks, no budgets and no votes. -/
def noBudget : LocalData where
  sporkActive _ := false
  mapLockedInputs _ := none
  budget := { mapFinalizedBudgets := [], countEnabled := 0 }
  masternodePaymentValid _ _ := true

/-- The data of a node which knows of a payment at height two. -/
def withBudget : LocalData where
  sporkActive spork := spork == Spork.enableSuperblocks
  mapLockedInputs _ := none
  budget := superNode.budget
  masternodePaymentValid _ _ := true

def subsidyOnly : CBlock := blockOf [coinBase [pay 1]]

end RejectionExample

open SupplyExample RejectionExample in
theorem subsidyOnly_recoverable :
    (connectBlock (node.withLocal withBudget) {} view subsidyOnly pindex false).toBool = true ∧
      forall failure,
        connectBlock (node.withLocal noBudget) {} view subsidyOnly pindex false =
          Except.error failure ->
        Recoverable failure
          (connectBlockRecords (node.withLocal noBudget) {} subsidyOnly false) := by
  have hok : (connectBlock (node.withLocal withBudget) {} view subsidyOnly
      pindex false).toBool = true := by
    decide +kernel
  rcases exists_ok_of_toBool hok with ⟨c', haccept⟩
  refine ⟨hok, ?_⟩
  exact ((rejected_recoverable_iff rfl).2 c' haccept).mpr
    (Or.inr (Or.inr (Or.inr (by decide +kernel))))

/-- A node without the budget marks the block as failed and does not record it. -/
theorem scheduled_not_recoverable :
    exists failure, SupplyExample.node.withLocal RejectionExample.withBudget =
        { SupplyExample.node.withLocal RejectionExample.noBudget with
          sporkActive := RejectionExample.withBudget.sporkActive
          budget := SupplyExample.superNode.budget } ∧
      connectBlock (SupplyExample.node.withLocal RejectionExample.noBudget) {}
          SupplyExample.view SupplyExample.scheduled SupplyExample.pindex false =
        Except.error failure ∧
      (connectBlock (SupplyExample.node.withLocal RejectionExample.withBudget) {}
          SupplyExample.view SupplyExample.scheduled SupplyExample.pindex false).toBool = true ∧
      ¬ Recoverable failure
        (connectBlockRecords (SupplyExample.node.withLocal RejectionExample.noBudget) {}
          SupplyExample.scheduled false) := by
  refine ⟨Failure.dos {} 100 RejectCode.invalid "bad-cb-amount", rfl, ?_, by decide +kernel, ?_⟩
  · rfl
  · intro h
    exact absurd (h (by decide)) (by decide +kernel)

end Hbcur
