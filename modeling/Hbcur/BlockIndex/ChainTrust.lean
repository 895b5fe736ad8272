import Hbcur.BlockIndex.Disk

/-!
# Chain trust

`CBlockIndex::GetBlockTrust` of `chain.cpp`, and the sum of it which `AddToBlockIndex` records
for each entry.  The sum is kept in memory only, next to what the index stores.
-/

namespace Hbcur
namespace BlockIndex
namespace Disk

open Foundation
open Hbcur.Pow
open Hbcur.Pow.BaseUint

/-!
# The trust of a block
-/

/-- `GetBlockTrust`; nothing where a division by zero throws. -/
def CBlockIndex.getBlockTrust (e : CBlockIndex) : Option BaseUint :=
  let bnTarget := BaseUint.setCompact e.nBits
  if bnTarget.compareTo (ofUint64 0) ≠ Ordering.gt then some (ofUint64 0)
  else if e.isProofOfStake then ((ofUint64 1).shl 256).div (bnTarget.add (ofUint64 1))
  else
    match (allOnes.shr 20).div (bnTarget.add (ofUint64 1)) with
    | none => none
    | some bnPoWTrust =>
        some (if bnPoWTrust.compareTo (ofUint64 1) = Ordering.gt then bnPoWTrust else ofUint64 1)

/-- A target which is neither negative nor too large, and not zero. -/
def ValidTarget (nBits : BitVec 32) : Prop :=
  (BlockIndex.setCompact nBits.toNat).fNegative = false ∧
    (BlockIndex.setCompact nBits.toNat).fOverflow = false ∧
    (BlockIndex.setCompact nBits.toNat).bnTarget ≠ 0

instance (nBits : BitVec 32) : Decidable (ValidTarget nBits) :=
  inferInstanceAs (Decidable (_ ∧ _ ∧ _))

/-- The work of a block with a target, as its trust counts it. -/
def workTrust (bnTarget : Nat) : Nat := max 1 ((2 ^ 236 - 1) / (bnTarget + 1))

/-- A target has three bytes, so that one more does not wrap. -/
theorem bnTarget_lt (nCompact : Nat) : (BlockIndex.setCompact nCompact).bnTarget + 1 < 2 ^ 256 := by
  unfold BlockIndex.setCompact
  simp only
  have hmantissa : nCompact % 2 ^ 23 < 2 ^ 23 := Nat.mod_lt _ (Nat.two_pow_pos 23)
  split_ifs with hsize
  · have hle : (nCompact % 2 ^ 23) >>> (8 * (3 - nCompact / 2 ^ 24)) ≤ nCompact % 2 ^ 23 := by
      rw [Nat.shiftRight_eq_div_pow]
      exact Nat.div_le_self _ _
    have hpow : (2 : Nat) ^ 23 + 1 < 2 ^ 256 := by decide
    omega
  · -- the lowest byte is zero
    have hexp : 8 * (nCompact / 2 ^ 24 - 3) = 8 * (nCompact / 2 ^ 24 - 4) + 8 := by omega
    have hdvd : 2 ^ 8 ∣ ((nCompact % 2 ^ 23) <<< (8 * (nCompact / 2 ^ 24 - 3))) % 2 ^ 256 := by
      rw [Nat.dvd_mod_iff (Nat.pow_dvd_pow 2 (by decide)), Nat.shiftLeft_eq, hexp, Nat.pow_add]
      exact Dvd.dvd.mul_left (Nat.dvd_mul_left _ _) _
    have hlt := Nat.mod_lt ((nCompact % 2 ^ 23) <<< (8 * (nCompact / 2 ^ 24 - 3)))
      (Nat.two_pow_pos 256)
    have hpow : (2 : Nat) ^ 256 = 2 ^ 8 * 2 ^ 248 := by rw [← Nat.pow_add]
    omega

theorem value_add_one (nBits : BitVec 32) :
    ((BaseUint.setCompact nBits).add (ofUint64 1)).value =
      (BlockIndex.setCompact nBits.toNat).bnTarget + 1 := by
  rw [value_add, value_setCompact, value_ofUint64 (by decide),
    Nat.mod_eq_of_lt (bnTarget_lt nBits.toNat)]

/-- A block with a positive target has no trust with proof of stake, and some without. -/
theorem getBlockTrust_eq {e : CBlockIndex}
    (h : (BlockIndex.setCompact e.nBits.toNat).bnTarget ≠ 0) :
    exists trust, e.getBlockTrust = some trust ∧
      trust.value = if e.isProofOfStake then 0
        else workTrust (BlockIndex.setCompact e.nBits.toNat).bnTarget := by
  have hadd := value_add_one e.nBits
  have hne : ((BaseUint.setCompact e.nBits).add (ofUint64 1)).value ≠ 0 := by
    rw [hadd]
    exact Nat.succ_ne_zero _
  have hpositive : (BaseUint.setCompact e.nBits).compareTo (ofUint64 0) = Ordering.gt := by
    rw [compareTo_eq_gt, value_ofUint64 (by decide), value_setCompact]
    exact Nat.pos_of_ne_zero h
  unfold CBlockIndex.getBlockTrust
  simp only [hpositive, ne_eq, not_true_eq_false, if_false]
  cases hstake : e.isProofOfStake with
  | true =>
      rcases @div_eq_some ((ofUint64 1).shl 256) _ hne with ⟨trust, hdiv, hvalue⟩
      refine ⟨trust, hdiv, ?_⟩
      rw [hvalue, value_shl, value_ofUint64 (by decide), Nat.one_mul, Nat.mod_self, Nat.zero_div]
      rfl
  | false =>
      rcases @div_eq_some (allOnes.shr 20) _ hne with ⟨bnPoWTrust, hdiv, hvalue⟩
      have hall : (allOnes.shr 20).value = 2 ^ 236 - 1 := by
        rw [value_shr, value_allOnes]
        decide
      rw [hall, hadd] at hvalue
      simp only [Bool.false_eq_true, if_false, hdiv, compareTo_eq_gt]
      refine ⟨_, rfl, ?_⟩
      have hone : (ofUint64 1).value = 1 := value_ofUint64 (by decide)
      unfold workTrust
      rw [hone, ← hvalue]
      split_ifs with hlarge
      · rw [Nat.max_eq_right (Nat.le_of_lt hlarge)]
      · rw [hone, Nat.max_eq_left (Nat.not_lt.mp hlarge)]

/-!
# The sum along a chain
-/

/-- The index with the trust of the chains up to its entries. -/
structure TrustIndex where
  map : BlockMap
  bnChainTrust : StdMap UInt256 BaseUint

namespace TrustIndex

def trustOf (s : TrustIndex) (hash : UInt256) : BaseUint :=
  (s.bnChainTrust.lookup hash).getD (ofUint64 0)

section Adding

variable (getHash : CBlockHeader -> BlockHash)

/-- `AddToBlockIndex` with the trust it records. -/
def add (s : TrustIndex) (mapProofOfStake : StdMap UInt256 UInt256) (next : Stake.NextModifier)
    (block : Block) : Option TrustIndex :=
  let hash := (getHash block.header).val
  let map := addToBlockIndex getHash s.map mapProofOfStake next block
  match s.map.lookup hash with
  | some _ => some s
  | none =>
      match s.map.lookup block.hashPrevBlock with
      | none =>
          some { map := map, bnChainTrust := s.bnChainTrust.insert hash (ofUint64 0) }
      | some _ =>
          (CBlockIndex.ofBlock block).getBlockTrust.map fun trust =>
            { map := map
              bnChainTrust := s.bnChainTrust.insert hash
                ((s.trustOf block.hashPrevBlock).add trust) }

/-- The block has trust, and the chain up to it has more than the chain up to its parent. -/
def Grows (s : TrustIndex) (mapProofOfStake : StdMap UInt256 UInt256) (next : Stake.NextModifier)
    (block : Block) : Prop :=
  exists trust s', (CBlockIndex.ofBlock block).getBlockTrust = some trust ∧ 0 < trust.value ∧
    s.add getHash mapProofOfStake next block = some s' ∧
    (s'.trustOf block.hashPrevBlock).value < (s'.trustOf (getHash block.header).val).value

variable {getHash}

theorem add_eq {s : TrustIndex} {mapProofOfStake : StdMap UInt256 UInt256}
    {next : Stake.NextModifier} {block : Block} {prev : Entry} {trust : BaseUint}
    (hnew : s.map.lookup (getHash block.header).val = none)
    (hprev : s.map.lookup block.hashPrevBlock = some prev)
    (htrust : (CBlockIndex.ofBlock block).getBlockTrust = some trust) :
    exists s', s.add getHash mapProofOfStake next block = some s' ∧
      s'.trustOf block.hashPrevBlock = s.trustOf block.hashPrevBlock ∧
      s'.trustOf (getHash block.header).val = (s.trustOf block.hashPrevBlock).add trust := by
  have hne : block.hashPrevBlock ≠ (getHash block.header).val := by
    intro heq
    rw [heq, hnew] at hprev
    cases hprev
  unfold add
  simp only [hnew, hprev, htrust, Option.map_some]
  refine ⟨_, rfl, ?_, ?_⟩
  · unfold trustOf
    rw [AList.lookup_insert_ne hne]
  · unfold trustOf
    rw [AList.lookup_insert]
    rfl

theorem isProofOfStake_ofBlock (block : Block) :
    (CBlockIndex.ofBlock block).isProofOfStake = block.fProofOfStake := by
  change ((if block.fProofOfStake then BLOCK_PROOF_OF_STAKE else 0) &&& BLOCK_PROOF_OF_STAKE != 0) =
    block.fProofOfStake
  cases block.fProofOfStake <;> decide

theorem grows_iff_lt {s : TrustIndex} {mapProofOfStake : StdMap UInt256 UInt256}
    {next : Stake.NextModifier} {block : Block} {prev : Entry} {trust : BaseUint}
    (hnew : s.map.lookup (getHash block.header).val = none)
    (hprev : s.map.lookup block.hashPrevBlock = some prev)
    (htrust : (CBlockIndex.ofBlock block).getBlockTrust = some trust) :
    s.Grows getHash mapProofOfStake next block <-> 0 < trust.value ∧
      (s.trustOf block.hashPrevBlock).value <
        ((s.trustOf block.hashPrevBlock).value + trust.value) % 2 ^ 256 := by
  rcases @add_eq getHash s mapProofOfStake next block prev trust hnew hprev htrust with
    ⟨s', hadd, hparent, hchild⟩
  rw [← value_add, ← hchild]
  constructor
  · rintro ⟨trust', s'', htrust', hpositive, hadd', hmore⟩
    rw [htrust, Option.some.injEq] at htrust'
    rw [hadd, Option.some.injEq] at hadd'
    subst htrust' hadd'
    rw [hparent] at hmore
    exact ⟨hpositive, hmore⟩
  · rintro ⟨hpositive, hmore⟩
    refine ⟨trust, s', htrust, hpositive, hadd, ?_⟩
    rw [hparent]
    exact hmore

/-- A sum which wraps comes below its first part. -/
theorem lt_add_mod_iff {a b m : Nat} (ha : a < m) (hb : b < m) (hpos : 0 < b) :
    a < (a + b) % m <-> a + b < m := by
  constructor
  · intro hmore
    by_contra hwraps
    rw [Nat.mod_eq_sub_mod (Nat.not_lt.mp hwraps), Nat.mod_eq_of_lt (by omega)] at hmore
    omega
  · intro hfits
    rw [Nat.mod_eq_of_lt hfits]
    exact Nat.lt_add_of_pos_right hpos

/--
The trust grows with the blocks which have proof of work, as long as the sum stays within 256
bits.  The shift by the whole width leaves nothing for a block with proof of stake.
-/
theorem grows_iff {s : TrustIndex} {mapProofOfStake : StdMap UInt256 UInt256}
    {next : Stake.NextModifier} {block : Block} (hvalid : ValidTarget block.nBits)
    (hnew : s.map.lookup (getHash block.header).val = none)
    (hprev : exists prev, s.map.lookup block.hashPrevBlock = some prev) :
    s.Grows getHash mapProofOfStake next block <->
      block.fProofOfStake = false ∧
        (s.trustOf block.hashPrevBlock).value +
          workTrust (BlockIndex.setCompact block.nBits.toNat).bnTarget < 2 ^ 256 := by
  rcases hprev with ⟨prev, hprev⟩
  rcases @getBlockTrust_eq (CBlockIndex.ofBlock block) hvalid.2.2 with ⟨trust, htrust, hvalue⟩
  rw [isProofOfStake_ofBlock] at hvalue
  change trust.value = if block.fProofOfStake = true then 0
    else workTrust (BlockIndex.setCompact block.nBits.toNat).bnTarget at hvalue
  rw [grows_iff_lt hnew hprev htrust]
  cases hstake : block.fProofOfStake with
  | true =>
      rw [hstake, if_pos rfl] at hvalue
      rw [hvalue]
      constructor
      · intro h
        exact absurd h.1 (Nat.lt_irrefl 0)
      · intro h
        cases h.1
  | false =>
      rw [hstake, if_neg Bool.false_ne_true] at hvalue
      have hpos : 0 < workTrust (BlockIndex.setCompact block.nBits.toNat).bnTarget :=
        Nat.le_max_left _ _
      have htrustLt := trust.value_lt
      rw [hvalue] at htrustLt ⊢
      rw [lt_add_mod_iff (s.trustOf block.hashPrevBlock).value_lt htrustLt hpos]
      constructor
      · intro h
        exact ⟨rfl, h.2⟩
      · intro h
        exact ⟨hpos, h.2⟩

end Adding

namespace ChainTrustExample

def getHash (header : CBlockHeader) : BlockHash :=
  if header.nNonce = 0 then ⟨3, by decide⟩ else ⟨4, by decide⟩

def blockOf (nNonce : BitVec 32) (hashPrevBlock : UInt256) (fProofOfStake : Bool) : Block where
  nVersion := 1
  hashPrevBlock := hashPrevBlock
  hashMerkleRoot := 0
  nTime := 0
  nBits := 0x1e0fffff
  nNonce := nNonce
  fProofOfStake := fProofOfStake
  prevoutStake := nullOutPoint
  prevout_range := by decide
  vtxSize := 1

def genesis : TrustIndex where
  map := addToBlockIndex getHash ∅ ∅ ⟨true, 0, false⟩ (blockOf 0 0 false)
  bnChainTrust := (∅ : StdMap UInt256 BaseUint).insert 3 (ofUint64 0)

end ChainTrustExample

open ChainTrustExample

/-- A block with proof of stake after the genesis block has a valid target and no trust. -/
theorem stake_leaves_trust :
    ValidTarget (blockOf 1 3 true).nBits ∧
    (∅ : BlockMap).lookup 3 = none ∧
    TrustIndex.add ChainTrustExample.getHash ⟨∅, ∅⟩ ∅ ⟨true, 0, false⟩ (blockOf 0 0 false) =
      some genesis ∧
    genesis.map.lookup (ChainTrustExample.getHash (blockOf 1 3 true).header).val = none ∧
    (genesis.map.lookup (blockOf 1 3 true).hashPrevBlock).isSome = true ∧
    ¬ genesis.Grows ChainTrustExample.getHash ∅ ⟨true, 0, false⟩ (blockOf 1 3 true) := by
  have hvalid : ValidTarget (blockOf 1 3 true).nBits := by decide +kernel
  refine ⟨hvalid, rfl, rfl, by decide +kernel, by decide +kernel, ?_⟩
  rintro ⟨trust, s', htrust, hpositive, -⟩
  rcases @getBlockTrust_eq (CBlockIndex.ofBlock (blockOf 1 3 true)) hvalid.2.2 with
    ⟨trust', htrust', hzero⟩
  rw [htrust, Option.some.injEq] at htrust'
  rw [htrust', hzero] at hpositive
  exact absurd hpositive (by decide +kernel)

/-- A block with proof of work after the genesis block adds trust. -/
theorem grows_iff_proofOfWork :
    ValidTarget (blockOf 1 3 false).nBits ∧
    genesis.map.lookup (ChainTrustExample.getHash (blockOf 1 3 false).header).val = none ∧
    (exists prev, genesis.map.lookup (blockOf 1 3 false).hashPrevBlock = some prev) ∧
    genesis.Grows ChainTrustExample.getHash ∅ ⟨true, 0, false⟩ (blockOf 1 3 false) := by
  have hvalid : ValidTarget (blockOf 1 3 false).nBits := by decide +kernel
  have hnew : genesis.map.lookup (ChainTrustExample.getHash (blockOf 1 3 false).header).val =
      none := by decide +kernel
  have hprev : exists prev, genesis.map.lookup (blockOf 1 3 false).hashPrevBlock = some prev :=
    Option.isSome_iff_exists.mp (by decide +kernel)
  exact ⟨hvalid, hnew, hprev, (grows_iff hvalid hnew hprev).mpr (by decide +kernel)⟩

end TrustIndex

end Disk
end BlockIndex
end Hbcur
