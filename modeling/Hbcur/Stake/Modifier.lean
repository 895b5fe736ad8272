import Hbcur.Primitives.Transaction
import Hbcur.Serialize.Integers
import Mathlib.Data.List.Sort

/-!
# Stake modifiers

`ComputeNextStakeModifier` of `kernel.cpp`, and what `AddToBlockIndex` does with it.
Entries of the index keep their stake fields and their parent for good, so that an entry
with its ancestors is the list of them, the entry itself first.
-/

namespace Hbcur
namespace Stake

open Serialize

/-!
# Entries
-/

structure StakeBlock where
  hash : UInt256
  hashPrevBlock : UInt256
  nTime : BitVec 32
  fProofOfStake : Bool
  deriving DecidableEq

structure StakeIndex extends StakeBlock where
  nHeight : Nat
  nStakeModifier : BitVec 64
  fGeneratedStakeModifier : Bool
  deriving DecidableEq

namespace StakeIndex

def getBlockTime (p : StakeIndex) : Int := p.nTime.toNat

def getStakeEntropyBit (p : StakeIndex) : Bool := p.hash.getLsbD 0

end StakeIndex

/-- `Hash`, and the parameter which `kernel.cpp` reads. -/
structure StakeEnv where
  Hash : List UInt8 -> UInt256
  nModifierUpdateBlock : Nat

/-!
# The last modifier
-/

/-- The modifier of the nearest ancestor which generated one, and its time. -/
def getLastStakeModifier : List StakeIndex -> Option (BitVec 64 × Int)
  | [] => none
  | p :: rest =>
      if p.fGeneratedStakeModifier then some (p.nStakeModifier, p.getBlockTime)
      else getLastStakeModifier rest

/-!
# Selection intervals
-/

def MODIFIER_INTERVAL : Int := 60

def MODIFIER_INTERVAL_RATIO : Int := 3

def selectionIntervalSection (nSection : Nat) : Int :=
  MODIFIER_INTERVAL * 63 / (63 + (63 - nSection) * ( MODIFIER_INTERVAL_RATIO - 1))

def selectionInterval : Int := ((List.range 64).map selectionIntervalSection).sum

/-!
# Selecting a block
-/

/-- The hash by which candidates are compared. -/
def selectionHash (env : StakeEnv) (fModifierV2 : Bool) (nStakeModifierPrev : BitVec 64)
    (p : StakeIndex) : UInt256 :=
  let hashProof : UInt256 := if fModifierV2 then p.hash else if p.fProofOfStake then 0 else p.hash
  let hashSelection := env.Hash
    (writeLE 32 hashProof.toNat ++ writeLE 8 nStakeModifierPrev.toNat)
  if p.fProofOfStake then hashSelection >>> 32 else hashSelection

section Selection

variable (env : StakeEnv) (find : UInt256 -> Option StakeIndex)

/-- The loop over the candidates, which fails for a candidate that is not indexed. -/
def selectLoop (fModifierV2 : Bool) (selected : List UInt256) (nSelectionIntervalStop : Int)
    (nStakeModifierPrev : BitVec 64) :
    Option (UInt256 × StakeIndex) -> List (Int × UInt256) ->
      Option (Option (UInt256 × StakeIndex))
  | best, [] => some best
  | best, item :: items =>
      match find item.2 with
      | none => none
      | some p =>
          if best.isSome && decide (nSelectionIntervalStop < p.getBlockTime) then some best
          else if p.hash ∈ selected then
            selectLoop fModifierV2 selected nSelectionIntervalStop nStakeModifierPrev best items
          else
            let hashSelection := selectionHash env fModifierV2 nStakeModifierPrev p
            let better :=
              match best with
              | none => true
              | some (hashBest, _) => decide (hashSelection < hashBest)
            selectLoop fModifierV2 selected nSelectionIntervalStop nStakeModifierPrev
              (if better then some (hashSelection, p) else best) items

/-- Whether the first candidate is high enough for the new selection hash. -/
def modifierV2 (sorted : List (Int × UInt256)) : Bool :=
  match sorted with
  | [] => false
  | item :: _ =>
      match find item.2 with
      | none => false
      | some p => decide (env.nModifierUpdateBlock ≤ p.nHeight)

def selectBlockFromCandidates (sorted : List (Int × UInt256)) (selected : List UInt256)
    (nSelectionIntervalStop : Int) (nStakeModifierPrev : BitVec 64) : Option StakeIndex :=
  match selectLoop env find (modifierV2 env find sorted) selected nSelectionIntervalStop
      nStakeModifierPrev none sorted with
  | some (some (_, p)) => some p
  | _ => none

/-- One bit of the new modifier for each round. -/
def selectionRounds (sorted : List (Int × UInt256)) (nStakeModifierPrev : BitVec 64) :
    Nat -> Nat -> Int -> List UInt256 -> BitVec 64 -> Option (BitVec 64)
  | 0, _, _, _, nStakeModifierNew => some nStakeModifierNew
  | rounds + 1, nRound, nSelectionIntervalStop, selected, nStakeModifierNew =>
      let stop := nSelectionIntervalStop + selectionIntervalSection nRound
      match selectBlockFromCandidates env find sorted selected stop nStakeModifierPrev with
      | none => none
      | some p =>
          selectionRounds sorted nStakeModifierPrev rounds (nRound + 1) stop
            (p.hash :: selected)
            (nStakeModifierNew ||| (BitVec.ofBool p.getStakeEntropyBit).setWidth 64 <<< nRound)

/-!
# The next modifier
-/

def selectionIntervalStart (p : StakeIndex) : Int :=
  p.getBlockTime / MODIFIER_INTERVAL * MODIFIER_INTERVAL - selectionInterval

def candidateLess (a b : Int × UInt256) : Prop := a.1 < b.1 ∨ (a.1 = b.1 ∧ a.2 ≤ b.2)

instance : DecidableRel candidateLess := fun _ _ => inferInstanceAs (Decidable (_ ∨ _))

def sortedCandidates (p : StakeIndex) (chain : List StakeIndex) : List (Int × UInt256) :=
  ((chain.takeWhile (fun q => decide (selectionIntervalStart p ≤ q.getBlockTime))).map
    (fun q => (q.getBlockTime, q.hash))).reverse.insertionSort candidateLess

/-- The values which `ComputeNextStakeModifier` leaves in its results. -/
structure NextModifier where
  ok : Bool
  nStakeModifier : BitVec 64
  fGeneratedStakeModifier : Bool

/--
The modifier for a block after the given chain.  The first block gets the address of a
string literal, converted to an integer.
-/
def computeNextStakeModifier (literal : BitVec 64) : List StakeIndex -> NextModifier
  | [] => { ok := true, nStakeModifier := 0, fGeneratedStakeModifier := true }
  | p :: rest =>
      if p.nHeight = 0 then
        { ok := true, nStakeModifier := literal, fGeneratedStakeModifier := true }
      else
        match getLastStakeModifier (p :: rest) with
        | none => { ok := false, nStakeModifier := 0, fGeneratedStakeModifier := false }
        | some (nStakeModifier, nModifierTime) =>
            if p.getBlockTime / MODIFIER_INTERVAL ≤ nModifierTime / MODIFIER_INTERVAL then
              { ok := true
                nStakeModifier := nStakeModifier
                fGeneratedStakeModifier := false }
            else
              let sorted := sortedCandidates p (p :: rest)
              match selectionRounds env find sorted nStakeModifier (min 64 sorted.length) 0
                  (selectionIntervalStart p) [] 0 with
              | none =>
                  { ok := false
                    nStakeModifier := nStakeModifier
                    fGeneratedStakeModifier := false }
              | some nStakeModifierNew =>
                  { ok := true
                    nStakeModifier := nStakeModifierNew
                    fGeneratedStakeModifier := true }

/-- The entry for a block, whose result is recorded even where the computation failed. -/
def newIndex (literal : BitVec 64) (block : StakeBlock) (pprev : List StakeIndex) : StakeIndex :=
  match pprev with
  | [] => { block with nHeight := 0, nStakeModifier := 0, fGeneratedStakeModifier := false }
  | p :: rest =>
      let next := computeNextStakeModifier env find literal (p :: rest)
      { block with
        nHeight := p.nHeight + 1
        nStakeModifier := next.nStakeModifier
        fGeneratedStakeModifier := next.fGeneratedStakeModifier }

end Selection

/-!
# The index
-/

/-- `mapBlockIndex`, each entry with its ancestors. -/
abbrev StakeMap := UInt256 -> Option (List StakeIndex)

def StakeMap.find (map : StakeMap) (hash : UInt256) : Option StakeIndex :=
  match map hash with
  | none => none
  | some chain => chain.head?

def addToBlockIndex (env : StakeEnv) (literal : BitVec 64) (map : StakeMap)
    (block : StakeBlock) : StakeMap :=
  match map block.hash with
  | some _ => map
  | none =>
      let pprev := (map block.hashPrevBlock).getD []
      Function.update map block.hash
        (some (newIndex env map.find literal block pprev :: pprev))

/-- `AcceptBlockHeader`, which drops a block whose parent is not known. -/
def receive (env : StakeEnv) (literal : BitVec 64) (map : StakeMap) (block : StakeBlock) :
    StakeMap :=
  match map block.hashPrevBlock with
  | none => map
  | some _ => addToBlockIndex env literal map block

/-- An execution: the genesis block, and then the blocks in the order of their arrival. -/
def execute (env : StakeEnv) (literal : BitVec 64) (genesis : StakeBlock)
    (blocks : List StakeBlock) : StakeMap :=
  blocks.foldl (receive env literal) (addToBlockIndex env literal (fun _ => none) genesis)

end Stake
end Hbcur
