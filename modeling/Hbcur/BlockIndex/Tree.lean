import Hbcur.Foundation.Graphs
import Mathlib.Algebra.GroupWithZero.Nat

/-!
# The tree of block headers

`CBlockIndex` of `chain.h`, as far as its fields are fixed when `AddToBlockIndex`
makes an entry.  Entries are numbered in the order of their creation.
-/

namespace Hbcur
namespace BlockIndex

open Foundation

/-!
# Work

`uint256::SetCompact` and `GetBlockProof` of `pow.cpp`.
-/

structure CompactTarget where
  bnTarget : Nat
  fNegative : Bool
  fOverflow : Bool

def setCompact (nCompact : Nat) : CompactTarget :=
  let nSize := nCompact / 2 ^ 24
  let mantissa := nCompact % 2 ^ 23
  let nWord := if nSize ≤ 3 then mantissa >>> (8 * (3 - nSize)) else mantissa
  { bnTarget := if nSize ≤ 3 then nWord else (nWord <<< (8 * (nSize - 3))) % 2 ^ 256
    fNegative := decide (nWord ≠ 0) && nCompact.testBit 23
    fOverflow := decide (nWord ≠ 0) &&
      (decide (34 < nSize) || (decide (0xff < nWord) && decide (33 < nSize)) ||
        (decide (0xffff < nWord) && decide (32 < nSize))) }

def getBlockProof (nBits : Nat) : Nat :=
  let target := setCompact nBits
  if target.fNegative || target.fOverflow || decide (target.bnTarget = 0) then 0
  else (2 ^ 256 - 1 - target.bnTarget) / (target.bnTarget + 1) + 1

/-!
# Skip heights
-/

def invertLowestOne (n : Nat) : Nat := n &&& (n - 1)

/-- The height to which the skip pointer of an entry jumps back. -/
def getSkipHeight (height : Nat) : Nat :=
  if height < 2 then 0
  else if height % 2 = 1 then invertLowestOne (invertLowestOne (height - 1)) + 1
  else invertLowestOne height

theorem invertLowestOne_le (n : Nat) : invertLowestOne n ≤ n - 1 := Nat.and_le_right

theorem getSkipHeight_lt {height : Nat} (h : 0 < height) : getSkipHeight height < height := by
  have hone := invertLowestOne_le (height - 1)
  have htwo := invertLowestOne_le (invertLowestOne (height - 1))
  have heven := invertLowestOne_le height
  unfold getSkipHeight
  split_ifs <;> omega

/-!
# Entries
-/

structure IndexHeader where
  hashBlock : Nat
  pprev : Option Nat
  pskip : Option Nat
  nHeight : Nat
  nChainWork : Nat

/--
All entries, with `mapBlockIndex` and the addresses which the allocator hands out
to them in turn.
-/
structure BlockTree where
  size : Nat
  header : Nat -> IndexHeader
  mapBlockIndex : Nat -> Option Nat
  address : Nat -> Nat
  pprev_lt : forall p q, (header p).pprev = some q -> q < p
  pprev_indexed : forall p q, (header p).pprev = some q -> p < size
  nHeight_root : forall p, (header p).pprev = none -> (header p).nHeight = 0
  nHeight_child : forall p q, (header p).pprev = some q ->
    (header p).nHeight = (header q).nHeight + 1
  pskip_ancestor : forall p q, (header p).pprev = some q -> exists k,
    (header p).pskip = some k ∧ (header k).nHeight = getSkipHeight (header p).nHeight ∧
      k ∈ (Forest.mk (fun p => (header p).pprev) pprev_lt).ancestors q
  mapBlockIndex_iff : forall hash p,
    mapBlockIndex hash = some p <-> p < size ∧ (header p).hashBlock = hash
  address_injective : Function.Injective address

namespace BlockTree

def forest (tree : BlockTree) : Forest where
  parent p := (tree.header p).pprev
  parent_lt := tree.pprev_lt

/-- An entry, its `pprev` and so on. -/
def ancestors (tree : BlockTree) (p : Nat) : List Nat := tree.forest.ancestors p

variable {tree : BlockTree}

theorem depth_eq_nHeight (p : Nat) : tree.forest.depth p = (tree.header p).nHeight := by
  induction p using tree.forest.node_induction with
  | root p h => rw [Forest.depth_of_root h, tree.nHeight_root p h]
  | child p q h ih => rw [Forest.depth_of_parent h, ih, tree.nHeight_child p q h]

theorem length_ancestors (p : Nat) : (tree.ancestors p).length = (tree.header p).nHeight + 1 := by
  rw [ancestors, Forest.length_ancestors, depth_eq_nHeight]

theorem nHeight_le_of_mem_ancestors {a p : Nat} (h : a ∈ tree.ancestors p) :
    (tree.header a).nHeight ≤ (tree.header p).nHeight := by
  rw [← depth_eq_nHeight, ← depth_eq_nHeight]
  exact Forest.depth_le_of_mem_ancestors h

theorem nHeight_eq_zero_iff {p : Nat} :
    (tree.header p).nHeight = 0 <-> (tree.header p).pprev = none := by
  constructor
  · intro h
    cases hprev : (tree.header p).pprev with
    | none => rfl
    | some q =>
        rw [tree.nHeight_child p q hprev] at h
        cases h
  · exact tree.nHeight_root p

theorem size_pos_of_pprev {p q : Nat} (h : (tree.header p).pprev = some q) :
    q < tree.size := by
  have hlt := tree.pprev_lt p q h
  have hsize := tree.pprev_indexed p q h
  omega

theorem lt_size_of_mem_ancestors {a p : Nat} (h : a ∈ tree.ancestors p)
    (hp : p < tree.size) : a < tree.size :=
  Nat.lt_of_le_of_lt (Forest.le_of_mem_ancestors h) hp

/-!
# Ancestors at a height
-/

/-- Whether `GetAncestor` follows the skip pointer. -/
def followsSkip (height heightWalk : Nat) : Bool :=
  let heightSkip := getSkipHeight heightWalk
  let heightSkipPrev := getSkipHeight (heightWalk - 1)
  decide (heightSkip = height) ||
    (decide (height < heightSkip) &&
      !(decide (heightSkipPrev + 2 < heightSkip) && decide (height ≤ heightSkipPrev)))

def walkBack (tree : BlockTree) (height : Nat) : Nat -> Nat -> Nat -> Option Nat
  | 0, pindexWalk, _ => some pindexWalk
  | fuel + 1, pindexWalk, heightWalk =>
      if heightWalk ≤ height then some pindexWalk
      else if followsSkip height heightWalk then
        match (tree.header pindexWalk).pskip with
        | none => none
        | some k => walkBack tree height fuel k (getSkipHeight heightWalk)
      else
        match (tree.header pindexWalk).pprev with
        | none => none
        | some q => walkBack tree height fuel q (heightWalk - 1)

def getAncestor (tree : BlockTree) (p height : Nat) : Option Nat :=
  if (tree.header p).nHeight < height then none
  else tree.walkBack height (tree.header p).nHeight p (tree.header p).nHeight

theorem le_getSkipHeight_of_followsSkip {height heightWalk : Nat}
    (h : followsSkip height heightWalk = true) : height ≤ getSkipHeight heightWalk := by
  simp only [followsSkip, Bool.or_eq_true, Bool.and_eq_true, decide_eq_true_eq] at h
  omega

theorem walkBack_spec {height : Nat} (fuel : Nat) :
    forall p, (tree.header p).nHeight ≤ fuel -> height ≤ (tree.header p).nHeight ->
      exists a, tree.walkBack height fuel p (tree.header p).nHeight = some a ∧
        a ∈ tree.ancestors p ∧ (tree.header a).nHeight = height := by
  induction fuel with
  | zero =>
      intro p hfuel hheight
      exact ⟨p, rfl, Forest.mem_ancestors_self p, by omega⟩
  | succ fuel ih =>
      intro p hfuel hheight
      unfold walkBack
      by_cases hstop : (tree.header p).nHeight ≤ height
      · rw [if_pos hstop]
        exact ⟨p, rfl, Forest.mem_ancestors_self p, by omega⟩
      rw [if_neg hstop]
      cases hprev : (tree.header p).pprev with
      | none =>
          have := tree.nHeight_root p hprev
          omega
      | some q =>
          have hchild := tree.nHeight_child p q hprev
          rcases tree.pskip_ancestor p q hprev with ⟨k, hskip, hkheight, hk⟩
          have hlt : getSkipHeight (tree.header p).nHeight < (tree.header p).nHeight :=
            getSkipHeight_lt (by omega)
          by_cases hfollow : followsSkip height (tree.header p).nHeight = true
          · rw [if_pos hfollow, hskip]
            have hle := le_getSkipHeight_of_followsSkip hfollow
            rcases ih k (by omega) (by omega) with ⟨a, ha, hmem, hah⟩
            rw [hkheight] at ha
            exact ⟨a, ha, Forest.mem_ancestors_of_parent hprev
              (Forest.mem_ancestors_trans hmem hk), hah⟩
          · rw [if_neg hfollow]
            rcases ih q (by omega) (by omega) with ⟨a, ha, hmem, hah⟩
            have hpred : (tree.header p).nHeight - 1 = (tree.header q).nHeight := by omega
            simp only [hpred]
            exact ⟨a, ha, Forest.mem_ancestors_of_parent hprev hmem, hah⟩

/-- The skip list finds the one ancestor at a height. -/
theorem getAncestor_eq_some_iff {p height a : Nat} :
    tree.getAncestor p height = some a <->
      a ∈ tree.ancestors p ∧ (tree.header a).nHeight = height := by
  unfold getAncestor
  by_cases hlt : (tree.header p).nHeight < height
  · rw [if_pos hlt]
    constructor
    · intro h
      cases h
    · rintro ⟨ha, rfl⟩
      have hle := nHeight_le_of_mem_ancestors ha
      omega
  · rw [if_neg hlt]
    rcases tree.walkBack_spec (tree.header p).nHeight p le_rfl (Nat.not_lt.mp hlt) with
      ⟨b, hb, hbmem, hbheight⟩
    rw [hb]
    constructor
    · intro h
      cases h
      exact ⟨hbmem, hbheight⟩
    · rintro ⟨ha, hheight⟩
      have hdepth : tree.forest.depth b = tree.forest.depth a := by
        rw [depth_eq_nHeight, depth_eq_nHeight, hbheight, hheight]
      rw [Forest.eq_of_depth_eq hbmem ha hdepth]

/-- `GetAncestor` of another entry's height compares with that entry. -/
theorem getAncestor_nHeight_eq_iff {p x : Nat} :
    tree.getAncestor x (tree.header p).nHeight = some p <-> p ∈ tree.ancestors x := by
  rw [getAncestor_eq_some_iff]
  exact and_iff_left rfl

end BlockTree

end BlockIndex
end Hbcur
