import Hbcur.Validation.Supply

/-!
# Accepting a block

`AcceptBlock` and `AcceptBlockHeader` of `main.cpp` against a given index, and the
finality of the transactions in the blocks they let through.
-/

namespace Hbcur

open Foundation Serialize

/-!
# Headers
-/

/-- `chainActive.Height()` -/
def NodeState.chainHeight (node : NodeState) : Int :=
  match node.tip with
  | none => -1
  | some tip => tip.2

/-- Whether a header is refused as a fork that is too deep. -/
def tooDeep (params : CChainParams) (chainHeight nHeight : Int) : Bool :=
  decide (chainHeight - nHeight ≥ params.nMaxReorganizationDepth)

def contextualCheckBlockHeader (node : NodeState) (vstate : CValidationState)
    (block : CBlock) (pindexPrev : Option IndexEntry) : Except Failure Unit :=
  if block.hash = node.params.hashGenesisBlock then Except.ok ()
  else do
    let prev ← expect pindexPrev Failure.aborted
    let nHeight : Int := prev.nHeight + 1
    require (!tooDeep node.params node.chainHeight nHeight) (Failure.dos vstate 1)
    require (!decide (block.getBlockTime ≤ prev.medianTimePast))
      (Failure.invalid vstate RejectCode.invalid "time-too-old")
    require (node.params.checkpointAllows nHeight block.hash.val)
      (Failure.dos vstate 100 RejectCode.checkpoint "checkpoint mismatch")
    require (match node.lastCheckpoint with
        | none => true
        | some height => !decide (nHeight < height))
      (Failure.dos vstate 0)
    require (!decide (block.nVersion < 2))
      (Failure.invalid vstate RejectCode.obsolete "bad-version")
    require (!decide (block.nVersion < 3))
      (Failure.invalid vstate RejectCode.obsolete "bad-version")

/-- The index entry of the previous block, which has to be known and not failed. -/
def findPrevBlock (node : NodeState) (vstate : CValidationState) (block : CBlock) :
    Except Failure (Option IndexEntry) :=
  if block.hash = node.params.hashGenesisBlock then Except.ok none
  else do
    let prev ← expect (node.mapBlockIndex block.hashPrevBlock)
      (Failure.dos vstate 0 RejectCode.none "bad-prevblk")
    require (!prev.fFailed) (Failure.dos vstate 100 RejectCode.invalid "bad-prevblk")
    Except.ok (some prev)

/-- The height under which a header is indexed, and whether its block is there. -/
structure IndexedHeader where
  nHeight : Int
  fHaveData : Bool

def acceptBlockHeader (node : NodeState) (vstate : CValidationState) (block : CBlock) :
    Except Failure IndexedHeader :=
  match node.mapBlockIndex block.hash.val with
  | some pindex => do
      require (!pindex.fFailed) (Failure.invalid vstate RejectCode.none "duplicate")
      Except.ok { nHeight := pindex.nHeight, fHaveData := pindex.fHaveData }
  | none => do
      checkBlockHeader node vstate block false
      let pindexPrev ← findPrevBlock node vstate block
      contextualCheckBlockHeader node vstate block pindexPrev
      Except.ok
        { nHeight := match node.mapBlockIndex block.hashPrevBlock with
            | none => 0
            | some prev => prev.nHeight + 1
          fHaveData := false }

/-!
# Blocks
-/

def checkWork (node : NodeState) (vstate : CValidationState) (block : CBlock) :
    Except Failure Unit := do
  require (block.nBits == node.getNextWorkRequired block) (Failure.refused vstate)
  require (!(block.isProofOfStake && !node.checkProofOfStake block)) (Failure.refused vstate)

/-- `AcceptBlock`: the height at which the block is indexed. -/
def acceptBlock (node : NodeState) (vstate : CValidationState) (block : CBlock) :
    Except Failure Int := do
  let _ ← findPrevBlock node vstate block
  onlyIf (decide (block.hash ≠ node.params.hashGenesisBlock)) (checkWork node vstate block)
  let header ← acceptBlockHeader node vstate block
  onlyIf (!header.fHaveData) do
    checkBlock node vstate block true true
    require node.writeBlock (Failure.refused (vstate.error "Failed to write block"))
  Except.ok header.nHeight

def LOCKTIME_THRESHOLD : Nat := 500000000

/-- The height or time which a lock is compared with; zero stands for the present. -/
def lockLimit (node : NodeState) (tx : CTransaction) (nBlockHeight nBlockTime : Int) : Int :=
  if tx.nLockTime < LOCKTIME_THRESHOLD then
    if nBlockHeight = 0 then node.chainHeight else nBlockHeight
  else if nBlockTime = 0 then node.adjustedTime else nBlockTime

def isFinalTx (node : NodeState) (tx : CTransaction) (nBlockHeight nBlockTime : Int) : Bool :=
  if tx.nLockTime = 0 then true
  else if (tx.nLockTime : Int) < lockLimit node tx nBlockHeight nBlockTime then true
  else tx.vin.all CTxIn.isFinal

section Finality

variable {state : Type} [CoinsState state]

end Finality

namespace FinalityExample

open SupplyExample

/-- Spends two coins, and is locked until a far height. -/
def locked : CTransaction :=
  { spender with
    vin := [{ prevout := { hash := 100, n := 0 }, scriptSig := [], nSequence := 0 }]
    nLockTime := 400000000 }

end FinalityExample

end Hbcur
