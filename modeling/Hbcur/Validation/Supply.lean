import Hbcur.Validation.Flows

/-!
# What a block adds to the money supply

The amounts of an accepted block, and how far the value check bounds them.
-/

namespace Hbcur

open Foundation Serialize

variable {state : Type} [CoinsState state]

/-!
# Accepted blocks
-/

/-- What is known of a block other than the genesis block which is connected. -/
structure AcceptedBlock (node : NodeState) (v : state) (block : CBlock) (pindex : PIndex)
    (prev : PrevIndex) : Prop where
  checked : CheckedBlock node block
  flows_tx : (flows v pindex.nHeight block.vtx).map TxFlow.tx = block.vtx
  flows_checked : forall flow, flow ∈ flows v pindex.nHeight block.vtx ->
    CheckedFlow node.params flow
  valueValid : isBlockValueValid node block
    (nExpectedMint block prev (wrapInt64 (totalFees (flows v pindex.nHeight block.vtx))))
    (wrapInt64 (netIncrease (flows v pindex.nHeight block.vtx))) = true

/-- Whatever the supply before, the recorded mint is the difference up to wrapping. -/
theorem recordedSupply_mint (nMoneySupplyPrev nValueOut nValueIn : Int) :
    (recordedSupply nMoneySupplyPrev (wrapInt64 nValueOut) (wrapInt64 nValueIn)).2 =
      wrapInt64 (nValueOut - nValueIn) := by
  show wrapInt64 (wrapInt64 (wrapInt64 (nMoneySupplyPrev + wrapInt64 nValueOut) -
    wrapInt64 nValueIn) - nMoneySupplyPrev) = wrapInt64 (nValueOut - nValueIn)
  unfold wrapInt64
  simp only [Int.add_bmod_bmod, Int.sub_bmod_bmod, Int.bmod_sub_bmod]
  congr 1
  omega

theorem connectTxs_accepted {node : NodeState} {vstate : CValidationState} {v : state}
    {block : CBlock} {pindex : PIndex} {prev : PrevIndex} {c : Connected state}
    (hblock : CheckedBlock node block) (hprev : pindex.pprev = some prev)
    (h : connectTxs node vstate v block pindex = Except.ok c) :
    AcceptedBlock node v block pindex prev ∧
      c.nMint = wrapInt64 (netIncrease (flows v pindex.nHeight block.vtx)) ∧
      exists undos, updateCoinsAll v pindex.nHeight block.vtx = some (undos, c.view) ∧
        c.blockundo = { vtxundo := undos.tail } := by
  simp only [connectTxs, bind_eq_ok_iff, Unique.exists_iff, require_eq_ok_iff,
    expect_eq_ok_iff, Except.ok.injEq] at h
  rcases h with ⟨_, _, _, s, hloop, _, prev', hprev', hvalue, _, rfl⟩
  rw [hprev, Option.some.injEq] at hprev'
  subst hprev'
  have hspec := connectLoop_spec (connectContext node vstate pindex) block.vtx
    (ConnectState.initial v) s 0 0 0 hblock.txs (tallies_initial v) hloop
  simp only [Int.zero_add] at hspec
  rcases hspec with ⟨htx, hchecked, htallies, undos, hall, hundos⟩
  have hmint : (recordedSupply prev.nMoneySupply s.nValueOut s.nValueIn).2 =
      wrapInt64 (netIncrease (flows v pindex.nHeight block.vtx)) := by
    rw [htallies.valueOut, htallies.valueIn, recordedSupply_mint]
    rfl
  rw [hmint, htallies.fees] at hvalue
  have hundo : ({ vtxundo := s.txundos.tail } : CBlockUndo) = { vtxundo := undos.tail } := by
    rw [hundos]
    rfl
  exact ⟨⟨hblock, htx, hchecked, hvalue⟩, hmint, undos, hall, hundo⟩

theorem connectBlock_accepted {node : NodeState} {vstate : CValidationState} {v : state}
    {block : CBlock} {pindex : PIndex} {fJustCheck : Bool} {prev : PrevIndex}
    {c : Connected state} (hgenesis : block.hash ≠ node.params.hashGenesisBlock)
    (hprev : pindex.pprev = some prev)
    (h : connectBlock node vstate v block pindex fJustCheck = Except.ok c) :
    AcceptedBlock node v block pindex prev ∧
      c.nMint = wrapInt64 (netIncrease (flows v pindex.nHeight block.vtx)) ∧
      exists undos v', updateCoinsAll v pindex.nHeight block.vtx = some (undos, v') ∧
        c.blockundo = { vtxundo := undos.tail } ∧
        (fJustCheck = false -> exists hash, pindex.phashBlock = some hash ∧
          c.view = CoinsState.setBestBlock v' hash.val) := by
  simp only [connectBlock, bind_eq_ok_iff, Unique.exists_iff, require_eq_ok_iff] at h
  rcases h with ⟨hcheck, _, h⟩
  rw [if_neg hgenesis, bind_eq_ok_iff] at h
  rcases h with ⟨c', htxs, h⟩
  rcases connectTxs_accepted (checkedBlock_of_ok hcheck) hprev htxs with
    ⟨haccepted, hmint, undos, hall, hundo⟩
  cases fJustCheck with
  | true =>
      rw [if_pos rfl, Except.ok.injEq] at h
      subst h
      refine ⟨haccepted, hmint, undos, c'.view, hall, hundo, ?_⟩
      intro hcheckOnly
      cases hcheckOnly
  | false =>
      rw [if_neg Bool.false_ne_true] at h
      simp only [bind_eq_ok_iff, Unique.exists_iff, expect_eq_ok_iff, Except.ok.injEq] at h
      rcases h with ⟨_, _, hash, hhash, rfl⟩
      exact ⟨haccepted, hmint, undos, c'.view, hall, hundo, fun _ => ⟨hash, hhash, rfl⟩⟩

/-- Connecting a block to the chain changes the coins as `connectCoins` does. -/
theorem connectBlock_connectCoins {node : NodeState} {vstate : CValidationState} {v : state}
    {block : CBlock} {pindex : PIndex} {prev : PrevIndex} {c : Connected state}
    (hgenesis : block.hash ≠ node.params.hashGenesisBlock)
    (hprev : pindex.pprev = some prev) (hhash : pindex.phashBlock = some block.hash)
    (h : connectBlock node vstate v block pindex false = Except.ok c) :
    connectCoins v block pindex.nHeight = some (c.blockundo, c.view) := by
  rcases connectBlock_accepted hgenesis hprev h with
    ⟨_, _, undos, v', hall, hundo, hview⟩
  rcases hview rfl with ⟨hash, hphash, hview⟩
  rw [hhash, Option.some.injEq] at hphash
  subst hphash
  rw [connectCoins, hall, hundo, hview]

/-!
# The value check without an exemption
-/

/-- Whether `IsBlockValueValid` lets every amount pass. -/
def superblockExempt (node : NodeState) (block : CBlock) : Bool :=
  match node.tip with
  | none => true
  | some tip =>
      if !node.isSynced then
        decide (Int.tmod (heightByPrevBlock node tip block)
          node.params.budgetPaymentCycleBlocks < 100)
      else node.sporkActive Spork.enableSuperblocks &&
        node.budget.isBudgetPaymentBlock (heightByPrevBlock node tip block)

theorem isBlockValueValid_iff {node : NodeState} {block : CBlock} {nExpected nMinted : Int}
    (h : superblockExempt node block = false) :
    isBlockValueValid node block nExpected nMinted = true <-> nMinted ≤ nExpected := by
  unfold superblockExempt at h
  unfold isBlockValueValid
  cases htip : node.tip with
  | none =>
      rw [htip] at h
      cases h
  | some tip =>
      rw [htip] at h
      simp only at h ⊢
      split_ifs at h ⊢ with hsynced hspork
      · rw [h, Bool.false_or, decide_eq_true_iff]
      · rw [decide_eq_true_iff]
      · rw [Bool.not_eq_true, Bool.not_eq_false'] at hspork
        rw [hspork, Bool.true_and] at h
        rw [h, Bool.false_or, decide_eq_true_iff]

/-!
# Proof of stake

Only the coinstake can pay out more than it spends, so the net increase is small
enough for the recorded mint to be exact whenever it is positive.
-/

namespace SupplyExample

def prevHash : BlockHash := ⟨7, by decide⟩

/-- A synced main-network node at height one, without masternodes or sporks. -/
def node : NodeState where
  params := CChainParams.mainParams
  adjustedTime := 1700000000
  sporkActive _ := false
  tip := some (prevHash, 1)
  mapBlockIndex hash :=
    if hash = prevHash.val then
      some { nHeight := 1, fFailed := false, fHaveData := true, medianTimePast := 1619651480 }
    else none
  mapLockedInputs _ := none
  isInitialBlockDownload := false
  isSynced := true
  budget := { mapFinalizedBudgets := [], countEnabled := 0 }
  masternodePaymentValid _ _ := false
  checkProofOfWork _ _ := true
  hashPair a b := a + 3 * b
  verifyScript _ _ _ _ := none
  scriptCheckThreads := false
  writeBlockIndex := true
  writeUndo := true
  writeTxIndex := true
  writeBlock := true
  getNextWorkRequired _ := 0
  checkProofOfStake _ := false
  lastCheckpoint := none

def anyoneCanSpend : CScript := [0x51]

def pay (coins : Int) : CTxOut := CTxOut.make (coins * COIN) anyoneCanSpend

/-- The view holds one output of two coins. -/
def view : CoinsMap where
  coins := Function.update (fun _ => CCoins.empty) 100
    { vout := [pay 2], nHeight := 1, nVersion := 1 }
  bestBlock := prevHash.val

def finalInput (prevout : COutPoint) (scriptSig : CScript) : CTxIn :=
  { prevout := prevout, scriptSig := scriptSig, nSequence := COutPoint.maxUInt32 }

def coinBase (vout : List CTxOut) : CTransaction where
  hash := 200
  nVersion := 1
  vin := [finalInput { hash := 0, n := COutPoint.maxUInt32 } [0x51, 0x51]]
  vout := vout
  nLockTime := 0

/-- Spends the two coins and pays out one of them. -/
def spender : CTransaction where
  hash := 201
  nVersion := 1
  vin := [finalInput { hash := 100, n := 0 } []]
  vout := [pay 1]
  nLockTime := 0

def blockOf (vtx : List CTransaction) : CBlock where
  hash := ⟨8, by decide⟩
  nVersion := 3
  hashPrevBlock := prevHash.val
  hashMerkleRoot := (buildMerkleTree node.hashPair vtx).1
  nTime := 1700000000
  nBits := 0
  nNonce := 0
  vtx := vtx
  vchBlockSig := []

def prev : PrevIndex := { hash := prevHash, nHeight := 1, nMoneySupply := 900000000 * COIN }

def pindex : PIndex where
  phashBlock := some ⟨8, by decide⟩
  nHeight := 2
  nTime := 1700000000
  pprev := some prev

/-- Pays its coinbase the subsidy and the fee of one coin. -/
def singleFees : CBlock := blockOf [coinBase [pay 2], spender]

end SupplyExample

namespace SupplyExample

/-- Superblocks are active and five coins are due at height two. -/
def superNode : NodeState :=
  { node with
    sporkActive := fun _ => true
    masternodePaymentValid := fun _ _ => true
    budget :=
      { mapFinalizedBudgets :=
          [{ nBlockStart := 2
             vecBudgetPayments := [{ payee := anyoneCanSpend, nAmount := 5 * COIN }]
             voteCount := 10 }]
        countEnabled := 20 } }

def scheduled : CBlock := blockOf [coinBase [pay 1, pay 5]]

end SupplyExample

end Hbcur
