import Hbcur.Masternode.Budget
import Hbcur.Validation.CheckTransaction

/-!
# Context-free checks of a block

`CheckBlock` of `main.cpp` and `IsBlockPayeeValid` of `masternode-payments.cpp`.
The node's own state enters as a record: its clock, its sporks, its active tip and
block index, its budgets.  Hashing, proof of work, masternode payments and script
verification are functions of that record.
-/

namespace Hbcur

open Foundation Serialize

inductive Spork where
  | swiftTxBlockFiltering
  | masternodePaymentEnforcement
  | masternodeBudgetEnforcement
  | enableSuperblocks
  deriving DecidableEq, Repr

/-- What `mapBlockIndex` knows of a block, as far as validation reads it. -/
structure IndexEntry where
  nHeight : Nat
  fFailed : Bool
  fHaveData : Bool
  medianTimePast : Nat
  deriving DecidableEq, Repr

structure ScriptFlags where
  p2sh : Bool
  dersig : Bool
  deriving DecidableEq, Repr

structure NodeState where
  params : CChainParams
  adjustedTime : Int
  sporkActive : Spork -> Bool
  tip : Option (BlockHash × Int)
  mapBlockIndex : UInt256 -> Option IndexEntry
  mapLockedInputs : COutPoint -> Option UInt256
  isInitialBlockDownload : Bool
  isSynced : Bool
  budget : CBudgetManager
  masternodePaymentValid : CTransaction -> Int -> Bool
  checkProofOfWork : BlockHash -> Nat -> Bool
  hashPair : UInt256 -> UInt256 -> UInt256
  /-- `VerifyScript` of an input; the text of the error if it fails. -/
  verifyScript : CScript -> CTransaction -> Nat -> ScriptFlags -> Option String
  scriptCheckThreads : Bool
  writeBlockIndex : Bool
  writeUndo : Bool
  writeTxIndex : Bool
  writeBlock : Bool
  getNextWorkRequired : CBlock -> Nat
  checkProofOfStake : CBlock -> Bool
  /-- The height of `Checkpoints::GetLastCheckpoint`. -/
  lastCheckpoint : Option Int

/-!
# The merkle root

Each level is as long as the one before it, halved and rounded up.
-/

/-- One level up, and whether the last two hashes are a repeated pair. -/
def merkleLevel (hashPair : UInt256 -> UInt256 -> UInt256) :
    List UInt256 -> Bool × List UInt256
  | [] => (false, [])
  | [a] => (false, [hashPair a a])
  | [a, b] => (a == b, [hashPair a b])
  | a :: b :: rest =>
      match merkleLevel hashPair rest with
      | (mutated, level) => (mutated, hashPair a b :: level)

def merkleLevels (hashPair : UInt256 -> UInt256 -> UInt256) :
    Nat -> List UInt256 -> UInt256 × Bool
  | _, [] => (0, false)
  | _, [root] => (root, false)
  | 0, _ => (0, false)
  | rounds + 1, level =>
      match merkleLevel hashPair level with
      | (mutated, level') =>
          match merkleLevels hashPair rounds level' with
          | (root, mutated') => (root, mutated || mutated')

def buildMerkleTree (hashPair : UInt256 -> UInt256 -> UInt256)
    (vtx : List CTransaction) : UInt256 × Bool :=
  merkleLevels hashPair vtx.length (vtx.map CTransaction.hash)

/-!
# The checks
-/

namespace CBlock

def getSerializeSize (block : CBlock) : Nat :=
  80 + (writeCompactSize block.vtx.length).length +
    (block.vtx.map CTransaction.getSerializeSize).sum +
    if block.isProofOfStake then sizeOfBytes block.vchBlockSig else 0

end CBlock

def checkBlockHeader (node : NodeState) (state : CValidationState) (block : CBlock)
    (fCheckPOW : Bool) : Except Failure Unit :=
  require (!(fCheckPOW && !node.checkProofOfWork block.hash block.nBits))
    (Failure.dos state 50 RejectCode.invalid "high-hash")

/-- A failed header check is reported on top of its own report. -/
def checkProofOfWorkHeader (node : NodeState) (state : CValidationState) (block : CBlock)
    (fCheckPOW : Bool) : Except Failure Unit :=
  onlyIf block.isProofOfWork
    (match checkBlockHeader node state block fCheckPOW with
      | Except.error (Failure.refused state') =>
          Except.error (Failure.dos state' 100 RejectCode.invalid "bad-header" true)
      | other => other)

def checkMerkleRoot (node : NodeState) (state : CValidationState) (block : CBlock) :
    Except Failure Unit := do
  require (block.hashMerkleRoot == (buildMerkleTree node.hashPair block.vtx).1)
    (Failure.dos state 100 RejectCode.invalid "bad-txnmrklroot" true)
  require (!(buildMerkleTree node.hashPair block.vtx).2)
    (Failure.dos state 100 RejectCode.invalid "bad-txns-duplicate" true)

def checkStakeForm (state : CValidationState) (block : CBlock) : Except Failure Unit := do
  require (match block.vtx.head? with
    | some first => first.vout.length == 1 && first.vout.all CTxOut.isEmpty
    | none => false) (Failure.dos state 100)
  require (match block.vtx[1]? with
    | some second => second.isCoinStake
    | none => false) (Failure.dos state 100)
  forEach (fun tx => require (!tx.isCoinStake) (Failure.dos state 100)) (block.vtx.drop 2)

def checkLockedInputs (node : NodeState) (state : CValidationState) (block : CBlock) :
    Except Failure Unit :=
  forEach (fun tx =>
    onlyIf (!tx.isCoinBase) (forEach (fun txin => require
      (match node.mapLockedInputs txin.prevout with
        | none => true
        | some hash => hash == tx.hash)
      (Failure.dos state 0 RejectCode.invalid "conflicting-tx-ix")) tx.vin)) block.vtx

/-- The height of a block by the active tip or the index, zero if unknown. -/
def heightByPrevBlock (node : NodeState) (tip : BlockHash × Int) (block : CBlock) : Int :=
  if tip.1.val = block.hashPrevBlock then tip.2 + 1
  else
    match node.mapBlockIndex block.hashPrevBlock with
    | none => 0
    | some entry => entry.nHeight + 1

/-- `IsBlockPayeeValid`; nothing when the transaction it looks at is not there. -/
def isBlockPayeeValid (node : NodeState) (block : CBlock) (nBlockHeight : Int) :
    Option Bool :=
  if !node.isSynced then some true
  else
    match block.vtx[if nBlockHeight > node.params.nLastPOWBlock then 1 else 0]? with
    | none => none
    | some txNew =>
        if node.sporkActive Spork.enableSuperblocks &&
            node.budget.isBudgetPaymentBlock nBlockHeight then
          if node.budget.isTransactionValid txNew nBlockHeight then some true
          else some (!node.sporkActive Spork.masternodeBudgetEnforcement)
        else if node.masternodePaymentValid txNew nBlockHeight then some true
        else some (!node.sporkActive Spork.masternodePaymentEnforcement)

def checkPayee (node : NodeState) (state : CValidationState) (block : CBlock) :
    Except Failure Unit :=
  match node.tip with
  | none => Except.ok ()
  | some tip =>
      onlyIf (decide (heightByPrevBlock node tip block ≠ 0) && !node.isInitialBlockDownload) do
        let valid ← expect (isBlockPayeeValid node block (heightByPrevBlock node tip block))
          Failure.aborted
        require valid (Failure.dos state 0 RejectCode.invalid "bad-cb-payee")

def checkBlock (node : NodeState) (state : CValidationState) (block : CBlock)
    (fCheckPOW fCheckMerkleRoot : Bool) : Except Failure Unit := do
  checkProofOfWorkHeader node state block fCheckPOW
  require (!decide (block.getBlockTime >
      node.adjustedTime + if block.isProofOfStake then 180 else 7200))
    (Failure.invalid state RejectCode.invalid "time-too-new")
  onlyIf fCheckMerkleRoot (checkMerkleRoot node state block)
  require (!(block.vtx.isEmpty || decide (block.vtx.length > MAX_BLOCK_SIZE) ||
      decide (block.getSerializeSize > MAX_BLOCK_SIZE)))
    (Failure.dos state 100 RejectCode.invalid "bad-blk-length")
  require (match block.vtx.head? with
      | some first => first.isCoinBase
      | none => false)
    (Failure.dos state 100 RejectCode.invalid "bad-cb-missing")
  forEach (fun tx => require (!tx.isCoinBase)
    (Failure.dos state 100 RejectCode.invalid "bad-cb-multiple")) block.vtx.tail
  onlyIf block.isProofOfStake (checkStakeForm state block)
  onlyIf (node.sporkActive Spork.swiftTxBlockFiltering) (checkLockedInputs node state block)
  checkPayee node state block
  forEach (checkTransaction node.params state) block.vtx
  require (!decide ((block.vtx.map getLegacySigOpCount).sum > MAX_BLOCK_SIGOPS))
    (Failure.dos state 100 RejectCode.invalid "bad-blk-sigops" true)

/-!
# What a checked block satisfies
-/

structure CheckedBlock (node : NodeState) (block : CBlock) : Prop where
  size : block.getSerializeSize ≤ MAX_BLOCK_SIZE
  coinBaseFirst : block.CoinBaseFirst
  txs : forall tx, tx ∈ block.vtx -> CheckedTransaction node.params tx
  stakeFirst : block.isProofOfStake = true ->
    exists first second rest, block.vtx = first :: second :: rest ∧
      first.valueOut = 0 ∧ second.isCoinStake = true ∧
      forall tx, tx ∈ rest -> tx.isCoinStake = false
  payee : forall tip, node.tip = some tip -> heightByPrevBlock node tip block ≠ 0 ->
    node.isInitialBlockDownload = false ->
      isBlockPayeeValid node block (heightByPrevBlock node tip block) = some true

theorem valueOut_of_all_isEmpty {tx : CTransaction} (h : tx.vout.all CTxOut.isEmpty = true) :
    tx.valueOut = 0 := by
  apply List.sum_eq_zero
  intro n hn
  rcases List.mem_map.mp hn with ⟨out, hmem, rfl⟩
  have hout := List.all_eq_true.mp h out hmem
  simp only [CTxOut.isEmpty, Bool.and_eq_true, beq_iff_eq] at hout
  exact hout.1

theorem stakeForm_of_ok {state : CValidationState} {block : CBlock}
    (h : checkStakeForm state block = Except.ok ()) :
    exists first second rest, block.vtx = first :: second :: rest ∧
      first.valueOut = 0 ∧ second.isCoinStake = true ∧
      forall tx, tx ∈ rest -> tx.isCoinStake = false := by
  simp only [checkStakeForm, then_eq_ok_iff, require_eq_ok_iff, forEach_eq_ok_iff] at h
  rcases h with ⟨hfirst, hsecond, hrest⟩
  cases hvtx : block.vtx with
  | nil =>
      rw [hvtx] at hfirst
      cases hfirst
  | cons first others =>
      rw [hvtx] at hfirst hsecond hrest
      cases others with
      | nil =>
          cases hsecond
      | cons second rest =>
          refine ⟨first, second, rest, rfl, ?_, hsecond, ?_⟩
          · simp only [List.head?_cons, Bool.and_eq_true] at hfirst
            exact valueOut_of_all_isEmpty hfirst.2
          · intro tx hmem
            simpa using hrest tx hmem

theorem payee_of_ok {node : NodeState} {state : CValidationState} {block : CBlock}
    (h : checkPayee node state block = Except.ok ()) {tip : BlockHash × Int}
    (htip : node.tip = some tip) (hheight : heightByPrevBlock node tip block ≠ 0)
    (hdownload : node.isInitialBlockDownload = false) :
    isBlockPayeeValid node block (heightByPrevBlock node tip block) = some true := by
  unfold checkPayee at h
  rw [htip] at h
  simp only at h
  rw [onlyIf_eq_ok_iff] at h
  rcases bind_eq_ok_iff.mp (h (by simp [hheight, hdownload])) with ⟨valid, hvalid, hrequire⟩
  rw [expect_eq_ok_iff] at hvalid
  rw [require_eq_ok_iff] at hrequire
  rw [hvalid, hrequire]

theorem coinBaseFirst_of_ok {block : CBlock}
    (hfirst : (match block.vtx.head? with
      | some first => first.isCoinBase
      | none => false) = true)
    (hrest : forall tx, tx ∈ block.vtx.tail -> tx.isCoinBase = false) :
    block.CoinBaseFirst := by
  unfold CBlock.CoinBaseFirst
  cases hvtx : block.vtx with
  | nil =>
      rw [hvtx] at hfirst
      cases hfirst
  | cons first rest =>
      rw [hvtx] at hfirst hrest
      exact ⟨hfirst, hrest⟩

theorem checkedBlock_of_ok {node : NodeState} {state : CValidationState} {block : CBlock}
    {fCheckPOW fCheckMerkleRoot : Bool}
    (h : checkBlock node state block fCheckPOW fCheckMerkleRoot = Except.ok ()) :
    CheckedBlock node block := by
  simp only [checkBlock, then_eq_ok_iff, require_eq_ok_iff, onlyIf_eq_ok_iff,
    forEach_eq_ok_iff] at h
  rcases h with ⟨_, _, _, hsize, hfirst, hothers, hstake, _, hpayee, htxs, _⟩
  constructor
  · simp only [Bool.not_eq_eq_eq_not, Bool.not_true, Bool.or_eq_false_iff,
      decide_eq_false_iff_not] at hsize
    omega
  · refine coinBaseFirst_of_ok hfirst ?_
    intro tx hmem
    simpa using hothers tx hmem
  · intro tx hmem
    exact checkedTransaction_of_ok (htxs tx hmem)
  · intro hpos
    exact stakeForm_of_ok (hstake hpos)
  · intro tip htip hheight hdownload
    exact payee_of_ok hpayee htip hheight hdownload

end Hbcur
