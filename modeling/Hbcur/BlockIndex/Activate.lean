import Hbcur.BlockIndex.FindMostWork
import Hbcur.BlockIndex.Received

/-!
# Moving the active chain

`ActivateBestChain`, `InvalidateBlock` and `ReconsiderBlock` of `main.cpp`.  What
`ConnectBlock` and `DisconnectBlock` answer is an input.
-/

namespace Hbcur
namespace BlockIndex

open Foundation

/--
What becomes of connecting a block: a consensus failure marks it unless the block data
may be corrupt, and a system error may come before or after its level was raised.
-/
inductive ConnectOutcome where
  | connected
  | invalid
  | corrupt
  | error (fRaised : Bool)
deriving DecidableEq

structure Outcomes where
  disconnects : Nat -> Bool
  connects : Nat -> ConnectOutcome

namespace IndexState

/-!
# One block
-/

/-- `UpdateTip` -/
def updateTip (s : IndexState) (pindexNew : Option Nat) : IndexState :=
  { s with vChain := setTip s.tree s.vChain pindexNew }

/-- The level of a connected block; the genesis block keeps its own. -/
def raiseScripts (s : IndexState) (p : Nat) : IndexState :=
  match (s.header p).pprev with
  | none => s
  | some _ => s.updateStatus p (fun st => st.raiseValidity Validity.scripts)

/-- `InvalidBlockFound` -/
def invalidBlockFound (s : IndexState) (p : Nat) : IndexState :=
  (s.updateStatus p (fun st => { st with fFailedValid := true })).eraseCandidates [p]

/-- `ConnectTip`, which asserts that the block is a child of the tip. -/
def connectTip (s : IndexState) (outcome : ConnectOutcome) (p : Nat) : Option IndexState :=
  if (s.header p).pprev = s.tip then
    match outcome with
    | ConnectOutcome.connected => some ((s.raiseScripts p).updateTip (some p))
    | ConnectOutcome.invalid => some (s.invalidBlockFound p)
    | ConnectOutcome.corrupt => some s
    | ConnectOutcome.error fRaised => some (if fRaised then s.raiseScripts p else s)
  else none

/-- `PruneBlockIndexCandidates`, which asserts that a candidate is left. -/
def pruneBlockIndexCandidates (s : IndexState) : Option IndexState :=
  let kept := s.setBlockIndexCandidates.filter (fun c => !s.worseThanTip c)
  if kept = [] then none else some { s with setBlockIndexCandidates := kept }

/-!
# One step
-/

/-- How far a loop came, and which blocks it disconnected. -/
structure Moved where
  ok : Bool
  index : IndexState
  disconnected : List Nat := []

/-- Disconnect blocks until the tip is the fork. -/
def disconnectTo (disconnects : Nat -> Bool) (pindexFork : Option Nat) :
    Nat -> IndexState -> Moved
  | 0, s => { ok := true, index := s }
  | fuel + 1, s =>
      match s.tip with
      | none => { ok := true, index := s }
      | some t =>
          if pindexFork = some t then { ok := true, index := s }
          else if disconnects t then
            let rest := disconnectTo disconnects pindexFork fuel
              (s.updateTip (s.header t).pprev)
            { rest with disconnected := t :: rest.disconnected }
          else { ok := false, index := s }

inductive ConnectEnd where
  | finished
  | better
  | invalidFound
  | failed
deriving DecidableEq

/-- Whether the tip has more work than the tip before the step. -/
def hasMoreWork (s : IndexState) (pindexOldTip : Option Nat) : Bool :=
  match pindexOldTip, s.tip with
  | none, _ => true
  | some _, none => false
  | some old, some t => decide ((s.header old).nChainWork < (s.header t).nChainWork)

/-- Connect blocks in turn until one fails or the chain is better than before. -/
def connectAll (connects : Nat -> ConnectOutcome) (pindexOldTip : Option Nat) :
    List Nat -> IndexState -> Option (ConnectEnd × IndexState)
  | [], s => some (ConnectEnd.finished, s)
  | p :: ps, s =>
      match s.connectTip (connects p) p with
      | none => none
      | some s' =>
          match connects p with
          | ConnectOutcome.connected =>
              match s'.pruneBlockIndexCandidates with
              | none => none
              | some s'' =>
                  if s''.hasMoreWork pindexOldTip then some (ConnectEnd.better, s'')
                  else connectAll connects pindexOldTip ps s''
          | ConnectOutcome.invalid => some (ConnectEnd.invalidFound, s')
          | ConnectOutcome.corrupt => some (ConnectEnd.invalidFound, s')
          | ConnectOutcome.error _ => some (ConnectEnd.failed, s')

/-- `vpindexToConnect` for the heights from `next` to `nTargetHeight`, lowest first. -/
def toConnect (s : IndexState) (pindexMostWork next nTargetHeight : Nat) : List Nat :=
  match s.tree.getAncestor pindexMostWork nTargetHeight with
  | none => []
  | some pindexIter =>
      ((s.tree.ancestors pindexIter).takeWhile
        (fun x => decide ((s.header x).nHeight + 1 ≠ next))).reverse

/-- The loop over batches of 32 blocks; `next` is the height after `nHeight`. -/
def connectBatches (connects : Nat -> ConnectOutcome) (pindexOldTip : Option Nat)
    (pindexMostWork : Nat) : Nat -> Nat -> IndexState -> Option (ConnectEnd × IndexState)
  | 0, _, _ => none
  | fuel + 1, next, s =>
      if next = (s.header pindexMostWork).nHeight + 1 then some (ConnectEnd.finished, s)
      else
        let nTargetHeight := min (next + 31) (s.header pindexMostWork).nHeight
        match connectAll connects pindexOldTip
            (s.toConnect pindexMostWork next nTargetHeight) s with
        | some (ConnectEnd.finished, s') =>
            connectBatches connects pindexOldTip pindexMostWork fuel (nTargetHeight + 1) s'
        | result => result

def activateBestChainStep (s : IndexState) (outcomes : Outcomes) (pindexMostWork : Nat) :
    Option Moved :=
  let pindexFork := findFork s.tree s.vChain pindexMostWork
  let back := disconnectTo outcomes.disconnects pindexFork s.vChain.length s
  if back.ok then
    let next :=
      match pindexFork with
      | none => 0
      | some f => (s.header f).nHeight + 1
    match connectBatches outcomes.connects s.tip pindexMostWork
        ((s.header pindexMostWork).nHeight + 2) next back.index with
    | none => none
    | some (result, s') =>
        some { back with ok := decide (result ≠ ConnectEnd.failed), index := s' }
  else some back

/-!
# Whole calls
-/

/-- One turn of the loop of `ActivateBestChain`, and whether it is the last one. -/
structure Turn extends Moved where
  last : Bool

def activateTurn (s : IndexState) (outcomes : Outcomes) : Option Turn :=
  match s.findMostWorkChain with
  | none => none
  | some (none, s') => some { ok := true, index := s', last := true }
  | some (some pindexMostWork, s') =>
      if s'.tip = some pindexMostWork then some { ok := true, index := s', last := true }
      else
        match s'.activateBestChainStep outcomes pindexMostWork with
        | none => none
        | some moved =>
            some
              { moved with
                last := !moved.ok || decide (moved.index.tip = some pindexMostWork) }

/-- Disconnect blocks, marking them, until `pindex` is off the active chain. -/
def invalidateLoop (disconnects : Nat -> Bool) (pindex : Nat) :
    Nat -> IndexState -> Bool × IndexState
  | 0, s => (true, s)
  | fuel + 1, s =>
      if s.contains pindex then
        match s.tip with
        | none => (true, s)
        | some pindexWalk =>
            let marked := (s.updateStatus pindexWalk
              (fun st => { st with fFailedChild := true })).eraseCandidates [pindexWalk]
            if disconnects pindexWalk then
              invalidateLoop disconnects pindex fuel
                (marked.updateTip (s.header pindexWalk).pprev)
            else (false, marked)
      else (true, s)

/-- Make candidates of the entries of the map for which a test holds. -/
def insertWhere (s : IndexState) (test : Nat -> Bool) : IndexState :=
  { s with
    setBlockIndexCandidates := ((List.range s.tree.size).filter test).foldl
      (fun candidates p => candidates.insert p) s.setBlockIndexCandidates }

def invalidateBlock (s : IndexState) (disconnects : Nat -> Bool) (pindex : Nat) :
    Bool × IndexState :=
  let marked := (s.updateStatus pindex
    (fun st => { st with fFailedValid := true })).eraseCandidates [pindex]
  match invalidateLoop disconnects pindex s.vChain.length marked with
  | (false, s') => (false, s')
  | (true, s') =>
      (true, s'.insertWhere (fun x =>
        (s'.status x).isValid Validity.transactions &&
          decide ((s'.status x).nChainTx ≠ 0) && !s'.worseThanTip x))

/-- `nStatus &= ~BLOCK_FAILED_MASK` -/
def clearFailed (st : IndexStatus) : IndexStatus :=
  { st with fFailedValid := false, fFailedChild := false }

/-- The descendants of `pindex` whose flags `ReconsiderBlock` clears. -/
def reconsidered (s : IndexState) (pindex x : Nat) : Bool :=
  !(s.status x).isValid Validity.transactions &&
    decide (s.tree.getAncestor x (s.header pindex).nHeight = some pindex)

def clearDescendants (s : IndexState) (pindex : Nat) : IndexState :=
  { s with
    status := fun x =>
      if x < s.tree.size ∧ s.reconsidered pindex x = true then clearFailed (s.status x)
      else s.status x }

/-- Whether a descendant whose flags were cleared is better than the tip. -/
def readmits (s : IndexState) (pindex x : Nat) : Bool :=
  let cleared := s.clearDescendants pindex
  s.reconsidered pindex x && (cleared.status x).isValid Validity.transactions &&
    decide ((cleared.status x).nChainTx ≠ 0) &&
    match cleared.tip with
    | none => false
    | some t => cleared.less t x

def reconsiderBlock (s : IndexState) (pindex : Nat) : IndexState :=
  let offered := (s.clearDescendants pindex).insertWhere (s.readmits pindex)
  { offered with
    status := fun x =>
      if x ∈ s.tree.ancestors pindex then clearFailed (offered.status x)
      else offered.status x }

end IndexState

/-!
# The genesis index
-/

def genesisTree (hashGenesis nBits : Nat) (address : Nat -> Nat)
    (haddress : Function.Injective address) : BlockTree where
  size := 1
  header _ :=
    { hashBlock := hashGenesis
      pprev := none
      pskip := none
      nHeight := 0
      nChainWork := getBlockProof nBits % 2 ^ 256 }
  mapBlockIndex hash := if hash = hashGenesis then some 0 else none
  address := address
  pprev_lt := by
    intro p q h
    cases h
  pprev_indexed := by
    intro p q h
    cases h
  nHeight_root := by
    intro p _
    rfl
  nHeight_child := by
    intro p q h
    cases h
  pskip_ancestor := by
    intro p q h
    cases h
  mapBlockIndex_iff := by
    intro hash p
    split_ifs with hhash
    · subst hhash
      constructor
      · intro h
        cases h
        exact ⟨Nat.one_pos, rfl⟩
      · rintro ⟨hp, _⟩
        rw [Nat.lt_one_iff.mp hp]
    · constructor
      · intro h
        cases h
      · rintro ⟨_, heq⟩
        exact absurd heq.symm hhash
  address_injective := haddress

/-- The index after `InitBlockIndex` has connected the genesis block with its one transaction. -/
def genesisIndex (hashGenesis nBits : Nat) (address : Nat -> Nat)
    (haddress : Function.Injective address) : IndexState where
  tree := genesisTree hashGenesis nBits address haddress
  status p :=
    if p = 0 then
      { nTx := 1
        nChainTx := 1
        nSequenceId := 1
        validity := Validity.transactions
        fHaveData := true }
    else {}
  setBlockIndexCandidates := [0]
  mapBlocksUnlinked := []
  vChain := [some 0]
  nBlockSequenceId := 2

end BlockIndex
end Hbcur
