import Hbcur.Pow.BaseUint
import Hbcur.Primitives.Transaction
import Mathlib.Data.List.Perm.Basic
import Mathlib.Data.List.Sort

/-!
# Ranks of masternodes

`GetMasternodeRank`, `Find` and the counts of `masternodeman.cpp`.  The state of a masternode
is the one after its `Check`; scores, block hashes and the order of equal scores are functions
of the manager.
-/

namespace Hbcur

structure CMasternode where
  vin : CTxIn
  protocolVersion : Int
  sigTime : Int
  isEnabled : Bool
  pubKeyCollateralAddress : CScript
  pubKeyMasternode : List UInt8
  deriving DecidableEq, Repr

structure CMasternodeMan where
  vMasternodes : List CMasternode
  /-- Whether `GetBlockHash` finds a block at a height. -/
  getBlockHash : Int -> Option UInt256
  /-- `CalculateScore` in compact form. -/
  calculateScore : CMasternode -> Int -> Int
  adjustedTime : Int
  /-- `SPORK_8_MASTERNODE_PAYMENT_ENFORCEMENT` -/
  paymentEnforcement : Bool
  /-- `SPORK_16_MN_WINNER_MINIMUM_AGE` -/
  nMasternodeMinAge : Int
  /-- `sort`, which leaves the order of equal scores open. -/
  sortScores : List (Int × CTxIn) -> List (Int × CTxIn)
  sortScores_perm : forall scores, (sortScores scores).Perm scores
  sortScores_sorted : forall scores,
    (sortScores scores).Pairwise fun a b => b.1 ≤ a.1

namespace CMasternodeMan

def find (mnodeman : CMasternodeMan) (vin : CTxIn) : Option CMasternode :=
  mnodeman.vMasternodes.find? fun mn => mn.vin.prevout == vin.prevout

/-- Whether payments are enforced and a masternode has only just been activated. -/
def tooYoung (mnodeman : CMasternodeMan) (mn : CMasternode) : Bool :=
  mnodeman.paymentEnforcement &&
    decide (mnodeman.adjustedTime - mn.sigTime < mnodeman.nMasternodeMinAge)

/-- Whether a masternode takes part in the ranking. -/
def takesPart (mnodeman : CMasternodeMan) (minProtocol : Int) (fOnlyActive : Bool)
    (mn : CMasternode) : Bool :=
  !decide (mn.protocolVersion < minProtocol) && !mnodeman.tooYoung mn &&
    !(fOnlyActive && !mn.isEnabled)

def scores (mnodeman : CMasternodeMan) (nBlockHeight minProtocol : Int)
    (fOnlyActive : Bool) : List (Int × CTxIn) :=
  (mnodeman.vMasternodes.filter (mnodeman.takesPart minProtocol fOnlyActive)).map fun mn =>
    (mnodeman.calculateScore mn nBlockHeight, mn.vin)

/-- The position of a masternode by its score, or minus one. -/
def getMasternodeRank (mnodeman : CMasternodeMan) (vin : CTxIn)
    (nBlockHeight minProtocol : Int) (fOnlyActive : Bool := true) : Int :=
  match mnodeman.getBlockHash nBlockHeight with
  | none => -1
  | some _ =>
      match (mnodeman.sortScores (mnodeman.scores nBlockHeight minProtocol
          fOnlyActive)).findIdx? fun s => s.2.prevout == vin.prevout with
      | none => -1
      | some i => i + 1

def size (mnodeman : CMasternodeMan) : Nat :=
  mnodeman.vMasternodes.length

def stableSize (mnodeman : CMasternodeMan) (activeProtocol : Int) : Nat :=
  (mnodeman.vMasternodes.filter (mnodeman.takesPart activeProtocol true)).length

def countEnabled (mnodeman : CMasternodeMan) (protocolVersion : Int) : Nat :=
  (mnodeman.vMasternodes.filter fun mn =>
    !(decide (mn.protocolVersion < protocolVersion) || !mn.isEnabled)).length

/-- A manager of given masternodes, all of the same score, which knows the blocks of a chain. -/
def ofMasternodes (vMasternodes : List CMasternode) (tipHeight : Int) : CMasternodeMan where
  vMasternodes := vMasternodes
  getBlockHash := fun nHeight =>
    if 0 ≤ nHeight ∧ nHeight ≤ tipHeight then some (BitVec.ofInt 256 nHeight) else none
  calculateScore := fun _ _ => 1
  adjustedTime := 0
  paymentEnforcement := false
  nMasternodeMinAge := 0
  sortScores := List.insertionSort fun a b => b.1 ≤ a.1
  sortScores_perm := List.perm_insertionSort _
  sortScores_sorted := by
    have : IsTrans (Int × CTxIn) fun a b => b.1 ≤ a.1 := ⟨fun _ _ _ hab hbc => hbc.trans hab⟩
    have : Std.Total fun a b : Int × CTxIn => b.1 ≤ a.1 := ⟨fun a b => le_total b.1 a.1⟩
    exact fun scores => List.pairwise_insertionSort _ scores

/-!
# When a masternode is ranked
-/

theorem mem_scores_iff (mnodeman : CMasternodeMan) (vin : CTxIn)
    (nBlockHeight minProtocol : Int) (fOnlyActive : Bool) :
    (exists s, s ∈ mnodeman.scores nBlockHeight minProtocol fOnlyActive ∧
        s.2.prevout = vin.prevout) <->
      exists mn, mn ∈ mnodeman.vMasternodes ∧ mn.vin.prevout = vin.prevout ∧
        mnodeman.takesPart minProtocol fOnlyActive mn = true := by
  unfold scores
  constructor
  · rintro ⟨s, hmem, hvin⟩
    rcases List.mem_map.mp hmem with ⟨mn, hmn, rfl⟩
    rcases List.mem_filter.mp hmn with ⟨hin, htakes⟩
    exact ⟨mn, hin, hvin, htakes⟩
  · rintro ⟨mn, hin, hvin, htakes⟩
    exact ⟨_, List.mem_map.mpr ⟨mn, List.mem_filter.mpr ⟨hin, htakes⟩, rfl⟩, hvin⟩

variable {mnodeman : CMasternodeMan} {vin : CTxIn} {nBlockHeight minProtocol : Int}
  {fOnlyActive : Bool}

theorem one_le_rank_iff :
    1 ≤ mnodeman.getMasternodeRank vin nBlockHeight minProtocol fOnlyActive <->
      (mnodeman.getBlockHash nBlockHeight).isSome = true ∧
        exists mn, mn ∈ mnodeman.vMasternodes ∧ mn.vin.prevout = vin.prevout ∧
          mnodeman.takesPart minProtocol fOnlyActive mn = true := by
  rw [← mem_scores_iff mnodeman vin nBlockHeight minProtocol fOnlyActive]
  have hperm := mnodeman.sortScores_perm (mnodeman.scores nBlockHeight minProtocol fOnlyActive)
  unfold getMasternodeRank
  cases hhash : mnodeman.getBlockHash nBlockHeight with
  | none => simp
  | some hash =>
      simp only [Option.isSome_some, true_and]
      cases hidx : (mnodeman.sortScores (mnodeman.scores nBlockHeight minProtocol
          fOnlyActive)).findIdx? fun s => s.2.prevout == vin.prevout with
      | none =>
          have hnone := List.findIdx?_eq_none_iff.mp hidx
          simp only [Int.reduceLE, false_iff, Int.reduceNeg]
          rintro ⟨s, hmem, hvin⟩
          have hfalse := hnone s (hperm.mem_iff.mpr hmem)
          rw [hvin, beq_self_eq_true] at hfalse
          cases hfalse
      | some i =>
          simp only
          apply iff_of_true (by omega)
          rcases List.findIdx?_eq_some_iff_getElem.mp hidx with ⟨hlt, hvin, _⟩
          exact ⟨_, hperm.mem_iff.mp (List.getElem_mem hlt), eq_of_beq hvin⟩

end CMasternodeMan

end Hbcur

/-!
# Scores of masternodes

`CMasternode::CalculateScore`: how far the hash of a block and the hash of the block together
with an outpoint are apart.  In rankings it is compared in compact form.
-/

namespace Hbcur

/-- The two hashes which a score is made of. -/
structure ScoreHashes where
  hashBlock : UInt256 -> UInt256
  hashBlockAux : UInt256 -> UInt256 -> UInt256

namespace CMasternode

/-- `CalculateScore`, given the hash of the block if it is found. -/
def calculateScore (hashes : ScoreHashes) (blockHash : Option UInt256) (mn : CMasternode) :
    UInt256 :=
  match blockHash with
  | none => 0
  | some hash =>
      let aux := mn.vin.prevout.hash + BitVec.ofNat 256 mn.vin.prevout.n
      let hash2 := hashes.hashBlock hash
      let hash3 := hashes.hashBlockAux hash aux
      if hash3 > hash2 then hash3 - hash2 else hash2 - hash3

/-- A score is one of the outpoint. -/
theorem calculateScore_congr (hashes : ScoreHashes) (blockHash : Option UInt256)
    {mn mn' : CMasternode} (h : mn.vin.prevout = mn'.vin.prevout) :
    mn.calculateScore hashes blockHash = mn'.calculateScore hashes blockHash := by
  unfold calculateScore
  rw [h]

end CMasternode

/-- A manager which ranks by `CalculateScore`. -/
structure ScoredMan extends CMasternodeMan where
  hashes : ScoreHashes
  calculateScore_eq : forall mn nBlockHeight, calculateScore mn nBlockHeight =
    Pow.compactOf (mn.calculateScore hashes (getBlockHash nBlockHeight)).toNat

namespace ScoredMan

/-- The number of an outpoint is its score. -/
def ofMasternodes (vMasternodes : List CMasternode) (tipHeight : Int) : ScoredMan :=
  let mnodeman := CMasternodeMan.ofMasternodes vMasternodes tipHeight
  let hashes : ScoreHashes := { hashBlock := fun _ => 0, hashBlockAux := fun _ aux => aux }
  { mnodeman with
    calculateScore := fun mn nBlockHeight =>
      Pow.compactOf (mn.calculateScore hashes (mnodeman.getBlockHash nBlockHeight)).toNat
    hashes := hashes
    calculateScore_eq := fun _ _ => rfl }

variable (mnodeman : ScoredMan) (nBlockHeight : Int)

/-- No two masternodes have the same score. -/
def DistinctScores : Prop :=
  (mnodeman.vMasternodes.map fun mn => mnodeman.calculateScore mn nBlockHeight).Nodup

variable {mnodeman nBlockHeight}

theorem eq_of_prevout_eq (h : mnodeman.DistinctScores nBlockHeight) {mn mn' : CMasternode}
    (hin : mn ∈ mnodeman.vMasternodes) (hin' : mn' ∈ mnodeman.vMasternodes)
    (hvin : mn.vin.prevout = mn'.vin.prevout) : mn = mn' := by
  apply List.inj_on_of_nodup_map h hin hin'
  rw [mnodeman.calculateScore_eq, mnodeman.calculateScore_eq,
    CMasternode.calculateScore_congr _ _ hvin]

end ScoredMan

/-!
# A node which asks for masternodes of a certain age
-/

namespace RankExample

def masternode (n : Nat) (sigTime : Int) : CMasternode where
  vin := { prevout := { hash := BitVec.ofNat 256 n, n := 0 }, scriptSig := [], nSequence := 0 }
  protocolVersion := 70914
  sigTime := sigTime
  isEnabled := true
  pubKeyCollateralAddress := [UInt8.ofNat n]
  pubKeyMasternode := []

def node (vMasternodes : List CMasternode) : ScoredMan :=
  { ScoredMan.ofMasternodes vMasternodes 200 with
    adjustedTime := 20
    paymentEnforcement := true
    nMasternodeMinAge := 10 }

end RankExample

end Hbcur
