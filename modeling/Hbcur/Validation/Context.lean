import Hbcur.Primitives.Transaction
import Hbcur.Serialize.Integers

/-!
# What validation reports and what it depends on

`CValidationState` of `main.h` and the chain parameters which the checks read.
-/

namespace Hbcur

/-!
# Validation states
-/

inductive ValidationMode where
  | valid
  | invalid
  | error
  deriving DecidableEq, Repr

inductive RejectCode where
  | none
  | invalid
  | obsolete
  | duplicate
  | nonstandard
  | checkpoint
  deriving DecidableEq, Repr

namespace RejectCode

def toNat : RejectCode -> Nat
  | none => 0
  | invalid => 0x10
  | obsolete => 0x11
  | duplicate => 0x12
  | nonstandard => 0x40
  | checkpoint => 0x43

end RejectCode

structure CValidationState where
  mode : ValidationMode := ValidationMode.valid
  nDoS : Int := 0
  strRejectReason : String := ""
  chRejectCode : RejectCode := RejectCode.none
  corruptionPossible : Bool := false
  deriving DecidableEq, Repr

namespace CValidationState

def dos (state : CValidationState) (level : Int) (chRejectCodeIn : RejectCode)
    (strRejectReasonIn : String) (corruptionIn : Bool) : CValidationState :=
  { mode := if state.mode = ValidationMode.error then ValidationMode.error
      else ValidationMode.invalid
    nDoS := if state.mode = ValidationMode.error then state.nDoS else state.nDoS + level
    strRejectReason := strRejectReasonIn
    chRejectCode := chRejectCodeIn
    corruptionPossible := corruptionIn }

def error (state : CValidationState) (strRejectReasonIn : String) : CValidationState :=
  { state with
    mode := ValidationMode.error
    strRejectReason := if state.mode = ValidationMode.valid then strRejectReasonIn
      else state.strRejectReason }

def isInvalid (state : CValidationState) : Bool :=
  state.mode = ValidationMode.invalid

end CValidationState

/--
How a validation routine ends when it does not succeed: it returns false, leaving
the state as given, or it does not return, because an exception is thrown or an
assertion fails or a missing object is used.
-/
inductive Failure where
  | refused (state : CValidationState)
  | aborted
  deriving DecidableEq, Repr

namespace Failure

def dos (state : CValidationState) (level : Int) (code : RejectCode := RejectCode.none)
    (reason : String := "") (corruption : Bool := false) : Failure :=
  refused (state.dos level code reason corruption)

def invalid (state : CValidationState) (code : RejectCode := RejectCode.none)
    (reason : String := "") : Failure :=
  refused (state.dos 0 code reason false)

end Failure

/-!
# Chain parameters

Amounts are bounded well below the `int64_t` range on every network.
-/

structure CChainParams where
  nMaxMoneyOut : Int
  nLastPOWBlock : Int
  nMaturity : Int
  nMaxReorganizationDepth : Int
  budgetPaymentCycleBlocks : Int
  hashGenesisBlock : BlockHash
  mapCheckpoints : List (Int × UInt256)
  maxMoneyOut_nonneg : 0 ≤ nMaxMoneyOut
  maxMoneyOut_lt : nMaxMoneyOut < 4611686018427387904

namespace CChainParams

def moneyRange (params : CChainParams) (nValueOut : Int) : Bool :=
  decide (0 ≤ nValueOut) && decide (nValueOut ≤ params.nMaxMoneyOut)

theorem moneyRange_iff {params : CChainParams} {n : Int} :
    params.moneyRange n = true <-> 0 ≤ n ∧ n ≤ params.nMaxMoneyOut := by
  simp [moneyRange]

/-- `Checkpoints::GetTotalBlocksEstimate` with checkpoints enabled. -/
def totalBlocksEstimate (params : CChainParams) : Int :=
  (params.mapCheckpoints.getLast?.map Prod.fst).getD 0

/-- `Checkpoints::CheckBlock` with checkpoints enabled. -/
def checkpointAllows (params : CChainParams) (nHeight : Int) (hash : UInt256) : Bool :=
  match params.mapCheckpoints.find? fun entry => entry.1 == nHeight with
  | none => true
  | some entry => hash == entry.2

def mainParams : CChainParams where
  nMaxMoneyOut := 1000000000 * COIN
  nLastPOWBlock := 26280000
  nMaturity := 10
  nMaxReorganizationDepth := 100
  budgetPaymentCycleBlocks := 28800
  hashGenesisBlock :=
    ⟨0x000007e7caecfe89ceb3a614982155aca5018c2c4a1634083f5cdea8b7a85379, by decide⟩
  mapCheckpoints := [(0, 0)]
  maxMoneyOut_nonneg := by decide
  maxMoneyOut_lt := by decide

end CChainParams

/-!
# The subsidy
-/

def getBlockValue (nHeight : Int) : Int :=
  let nSlowSubsidy := 2 * COIN
  let nSubsidy :=
    if nHeight = 0 then 900000000 * COIN
    else if nHeight ≥ 1 ∧ nHeight ≤ 1036800 then 1 * COIN
    else if nHeight ≤ 4147200 ∧ nHeight ≥ 1036801 then 1 * COIN
    else if nHeight ≥ 4147201 then 1 * COIN
    else 0 * COIN
  if nSubsidy > 0 then nSubsidy else nSlowSubsidy

theorem getBlockValue_bounds (nHeight : Int) :
    0 < getBlockValue nHeight ∧ getBlockValue nHeight ≤ 900000000 * COIN := by
  simp only [getBlockValue, COIN]
  split_ifs <;> omega

end Hbcur
