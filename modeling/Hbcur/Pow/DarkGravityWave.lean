import Hbcur.Pow.BaseUint
import Mathlib.Data.List.Sort

/-!
# The difficulty of the next block

`GetNextWorkRequired` of `pow.cpp`.  A chain is the list of its entries from the last
block down to the genesis block.
-/

namespace Hbcur
namespace Pow

/-!
# Parameters and chains
-/

/-- What `pow.cpp` reads of the chain parameters, with what holds on every network. -/
structure PowParams where
  bnProofOfWorkLimit : BaseUint
  nTargetSpacing : Int
  nTargetSpacingSlowLaunch : Int
  nLastPOWBlock : Int
  limit_ge : 2 ^ 232 - 1 ≤ bnProofOfWorkLimit.value
  spacing_pos : 0 < nTargetSpacing
  spacing_lt : nTargetSpacing < 2 ^ 25
  slowLaunch_pos : 0 < nTargetSpacingSlowLaunch
  slowLaunch_lt : nTargetSpacingSlowLaunch < 2 ^ 25

def mainPowParams : PowParams where
  bnProofOfWorkLimit := BaseUint.allOnes.shr 20
  nTargetSpacing := 2 * 60
  nTargetSpacingSlowLaunch := 2 * 60
  nLastPOWBlock := 26280000
  limit_ge := by rw [BaseUint.value_shr, BaseUint.value_allOnes]; decide
  spacing_pos := by decide
  spacing_lt := by decide
  slowLaunch_pos := by decide
  slowLaunch_lt := by decide

def testNetPowParams : PowParams :=
  { mainPowParams with
    nTargetSpacing := 5 * 60
    nLastPOWBlock := 1000000
    spacing_pos := by decide
    spacing_lt := by decide }

def regTestPowParams : PowParams :=
  { testNetPowParams with
    bnProofOfWorkLimit := BaseUint.allOnes.shr 1
    nTargetSpacing := 1 * 60
    limit_ge := by rw [BaseUint.value_shr, BaseUint.value_allOnes]; decide
    spacing_pos := by decide
    spacing_lt := by decide }

structure PowIndex where
  nTime : BitVec 32
  nBits : BitVec 32

namespace PowIndex

def getBlockTime (b : PowIndex) : Int := b.nTime.toNat

/-- The median of the times of the last eleven entries of a chain. -/
def getMedianTimePast (chain : List PowIndex) : Int :=
  let times := ((chain.take 11).map getBlockTime).insertionSort (fun a b => a ≤ b)
  times[times.length / 2]?.getD 0

end PowIndex

/-!
# Operands
-/

/-- An `int64_t` passed to an operator with a `uint32_t` operand. -/
def toUint32 (n : Int) : BitVec 32 := BitVec.ofInt 32 n

/-- An `int64_t` converted to a 256-bit integer. -/
def ofInt64 (n : Int) : BaseUint := BaseUint.ofUint64 (n % 2 ^ 64).toNat

/-!
# Proof of stake
-/

/-- `~uint256(0) >> 24` -/
def bnTargetLimit : BaseUint := BaseUint.allOnes.shr 24

def actualSpacing (last prev : PowIndex) : Int :=
  let nActualSpacing := last.getBlockTime - prev.getBlockTime
  if nActualSpacing < 0 then 1 else nActualSpacing

/-- The factor of the moving average, with the interval 2880 / 120. -/
def stakeFactor (last prev : PowIndex) : Int :=
  (24 - 1) * 120 + actualSpacing last prev + actualSpacing last prev

def stakeTarget (last prev : PowIndex) : Option BaseUint :=
  match ((BaseUint.setCompact last.nBits).mulUint32 (toUint32 (stakeFactor last prev))).div
      (ofInt64 ((24 + 1) * 120)) with
  | none => none
  | some bnNew =>
      if bnNew.compareTo (BaseUint.ofUint64 0) ≠ Ordering.gt ∨
          bnNew.compareTo bnTargetLimit = Ordering.gt then some bnTargetLimit
      else some bnNew

/-!
# The average of the past targets
-/

/-- The local variables of the loop of `DarkGravityWave`. -/
structure Wave where
  nActualTimespan : Int
  lastBlockTime : Int
  countBlocks : Int
  average : BaseUint
  averagePrev : BaseUint

def Wave.start : Wave where
  nActualTimespan := 0
  lastBlockTime := 0
  countBlocks := 0
  average := BaseUint.ofUint64 0
  averagePrev := BaseUint.ofUint64 0

/-- `PastDifficultyAveragePrev * CountBlocks` -/
def averageProduct (averagePrev : BaseUint) (countBlocks : Int) : BaseUint :=
  averagePrev.mulUint32 (toUint32 countBlocks)

def nextAverage (s : Wave) (countBlocks : Int) (nBits : BitVec 32) : Option BaseUint :=
  if countBlocks = 1 then some (BaseUint.setCompact nBits)
  else
    ((averageProduct s.averagePrev countBlocks).add (BaseUint.setCompact nBits)).div
      (ofInt64 (countBlocks + 1))

def Wave.step (s : Wave) (b : PowIndex) : Option Wave :=
  let countBlocks := s.countBlocks + 1
  match if countBlocks ≤ 24 then nextAverage s countBlocks b.nBits else some s.average with
  | none => none
  | some average =>
      some
        { nActualTimespan :=
            if 0 < s.lastBlockTime then
              s.nActualTimespan + (s.lastBlockTime - b.getBlockTime)
            else s.nActualTimespan
          lastBlockTime := b.getBlockTime
          countBlocks := countBlocks
          average := average
          averagePrev := if countBlocks ≤ 24 then average else s.averagePrev }

/-- At most so many turns, and none for the genesis block. -/
def waveLoop : Nat -> List PowIndex -> Wave -> Option Wave
  | turns + 1, b :: prev :: rest, s =>
      match s.step b with
      | none => none
      | some s' => waveLoop turns (prev :: rest) s'
  | _, _, s => some s

def targetTimespan (params : PowParams) (countBlocks nHeight : Int) : Int :=
  countBlocks *
    (if 499 < nHeight then params.nTargetSpacing else params.nTargetSpacingSlowLaunch)

def clampTimespan (nTargetTimespan nActualTimespan : Int) : Int :=
  let raised :=
    if nActualTimespan < nTargetTimespan.tdiv 3 then nTargetTimespan.tdiv 3
    else nActualTimespan
  if nTargetTimespan * 3 < raised then nTargetTimespan * 3 else raised

def waveTarget (params : PowParams) (nHeight : Int) (s : Wave) : Option BaseUint :=
  let nTargetTimespan := targetTimespan params s.countBlocks nHeight
  let nActualTimespan := clampTimespan nTargetTimespan s.nActualTimespan
  match (s.average.mulUint32 (toUint32 nActualTimespan)).div (ofInt64 nTargetTimespan) with
  | none => none
  | some bnNew =>
      if bnNew.compareTo params.bnProofOfWorkLimit = Ordering.gt then
        some params.bnProofOfWorkLimit
      else some bnNew

/-!
# The whole function
-/

/-- The target before it is brought into compact form. -/
def nextTarget (params : PowParams) (chain : List PowIndex) : Option BaseUint :=
  match chain with
  | [] => some params.bnProofOfWorkLimit
  | last :: rest =>
      let nHeight : Int := rest.length
      if nHeight = 0 ∨ nHeight < 24 then some params.bnProofOfWorkLimit
      else if params.nLastPOWBlock < nHeight then
        match rest with
        | [] => none
        | prev :: _ => stakeTarget last prev
      else
        match waveLoop 24 chain Wave.start with
        | none => none
        | some s => waveTarget params nHeight s

def getNextWorkRequired (params : PowParams) (chain : List PowIndex) : Option Nat :=
  (nextTarget params chain).map BaseUint.getCompact

end Pow
end Hbcur
