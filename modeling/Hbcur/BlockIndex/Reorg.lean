import Hbcur.BlockIndex.Runs
import Hbcur.Validation.AcceptBlock

/-!
# The depth of reorganisations

Blocks delivered to `AcceptBlock`, and calls of `ActivateBestChain`, in any order.
-/

namespace Hbcur
namespace BlockIndex

open Foundation

/-!
# Accepting a block into the index
-/

inductive StoreOutcome where
  /-- `CheckBlock` passes and the block is written to disk. -/
  | stored
  /-- `CheckBlock` finds the block invalid. -/
  | invalid
  /-- `CheckBlock` finds a block which may be corrupted, or writing it fails. -/
  | failed
deriving DecidableEq

/-- A block, with what the checks which do not read the index say about it. -/
structure Delivery where
  header : NewHeader
  nTx : Nat
  /-- `CheckWork` -/
  fCheckWork : Bool
  /-- `CheckBlockHeader`, and `ContextualCheckBlockHeader` after its depth check. -/
  fCheckHeader : Bool
  outcome : StoreOutcome

namespace IndexState

/-- `chainActive.Height()` -/
def height (s : IndexState) : Int := (s.vChain.length : Int) - 1

/-- The parent is there and not failed, which the genesis block does not need. -/
def prevAllows (s : IndexState) (params : CChainParams) (block : Delivery) : Bool :=
  decide (block.header.hash = params.hashGenesisBlock.val.toNat) ||
    match s.tree.mapBlockIndex block.header.hashPrevBlock with
    | none => false
    | some q => !(s.status q).failed

/-- `ContextualCheckBlockHeader` -/
def contextAllows (s : IndexState) (params : CChainParams) (block : Delivery) : Bool :=
  decide (block.header.hash = params.hashGenesisBlock.val.toNat) ||
    match s.tree.mapBlockIndex block.header.hashPrevBlock with
    | none => false
    | some q => !tooDeep params s.height ((s.header q).nHeight + 1)

def acceptBlockHeader (s : IndexState) (params : CChainParams) (block : Delivery) :
    Option (Nat × IndexState) :=
  match s.tree.mapBlockIndex block.header.hash with
  | some p => if (s.status p).failed then none else some (p, s)
  | none =>
      if s.prevAllows params block && s.contextAllows params block && block.fCheckHeader then
        some (s.addToBlockIndex block.header)
      else none

def acceptBlock (s : IndexState) (params : CChainParams) (block : Delivery) :
    Bool × IndexState :=
  if s.prevAllows params block &&
      (decide (block.header.hash = params.hashGenesisBlock.val.toNat) || block.fCheckWork) then
    match s.acceptBlockHeader params block with
    | none => (false, s)
    | some (p, s') =>
        if (s'.status p).fHaveData then (true, s')
        else
          match block.outcome with
          | StoreOutcome.stored => (true, s'.receivedBlockTransactions block.nTx p)
          | StoreOutcome.invalid =>
              (false, s'.updateStatus p (fun st => { st with fFailedValid := true }))
          | StoreOutcome.failed => (false, s')
  else (false, s)

end IndexState

/-!
# Runs
-/

namespace IndexState

section Delivered

variable {params : CChainParams} {hashGenesis depth : Nat} {s s' : IndexState} {t p : Nat}
  {block : Delivery}

end Delivered

/-!
# Calls
-/

section Calls

variable {params : CChainParams} {hashGenesis depth : Nat} {s : IndexState} {t b : Nat}

end Calls

/-!
# Reorganisations in every run
-/

end IndexState

namespace ReorgExample

def hashGenesis : Nat := CChainParams.mainParams.hashGenesisBlock.val.toNat

def genesis : IndexState := genesisIndex hashGenesis 0x207fffff id Function.injective_id

def turns : List Outcomes := [RunsExample.connectsAll, RunsExample.connectsAll]

/-- The tip and the index after a call, where the best candidate is the tip or its child. -/
def advance (s : IndexState) (t : Nat) : Option (Nat × IndexState) :=
  match s.bestCandidate s.setBlockIndexCandidates with
  | none => none
  | some r =>
      if r = t then some (t, s)
      else if (s.header r).pprev = some t ∧ (s.status r).failed = false ∧
          (s.status r).fHaveData = true ∧ (s.status r).nChainTx ≠ 0 ∧
          (s.header t).nChainWork < (s.header r).nChainWork then
        some (r, { s.connected r with vChain := s.vChain ++ [some r] })
      else none

end ReorgExample

end BlockIndex
end Hbcur
