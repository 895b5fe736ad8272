import Hbcur.Merkle.Completeness

/-!
# The size of a partial merkle tree

The comment of `merkleblock.h` promises at most `2*N-1` bits for `N` stored hashes, and at most
`10 + ceil(32.25*N)` bytes.  Its count is that of a tree in which every inner node has two
children; a node on the right edge may have one.
-/

namespace Hbcur
namespace Merkle

open Foundation Serialize

/-!
# The inner nodes above a match
-/

/-- The inner nodes at and below a node, each with its height and position. -/
def innerNodes (nTransactions : Nat) : Nat -> Nat -> List (Nat × Nat)
  | 0, _ => []
  | height + 1, pos =>
      (height + 1, pos) :: (innerNodes nTransactions height (pos * 2) ++
        if pos * 2 + 1 < calcTreeWidth nTransactions height then
          innerNodes nTransactions height (pos * 2 + 1)
        else [])

def isAboveMatch (vMatch : List Bool) (node : Nat × Nat) : Bool :=
  (below vMatch node.1 node.2).any id

def hasTwoChildren (nTransactions : Nat) (node : Nat × Nat) : Bool :=
  node.2 * 2 + 1 < calcTreeWidth nTransactions (node.1 - 1)

/-- The inner nodes which have a matched transaction below them. -/
def nodesAbove (vMatch : List Bool) (height pos : Nat) : List (Nat × Nat) :=
  (innerNodes vMatch.length height pos).filter (isAboveMatch vMatch)

def forks (vMatch : List Bool) (height pos : Nat) : Nat :=
  (nodesAbove vMatch height pos).countP (hasTwoChildren vMatch.length)

def onlyChildren (vMatch : List Bool) (height pos : Nat) : Nat :=
  (nodesAbove vMatch height pos).countP (fun node => !hasTwoChildren vMatch.length node)

section Counting

variable {vMatch : List Bool}

theorem nodesAbove_eq_nil {height pos : Nat} (h : (below vMatch height pos).any id = false) :
    nodesAbove vMatch height pos = [] := by
  induction height generalizing pos with
  | zero => rfl
  | succ height ih =>
      have hhalves := h
      rw [below_succ, List.any_append, Bool.or_eq_false_iff] at hhalves
      have hleft := ih hhalves.1
      have hright := ih hhalves.2
      unfold nodesAbove at hleft hright ⊢
      rw [innerNodes, List.filter_cons_of_neg (by simp [isAboveMatch, h]), List.filter_append,
        hleft, List.nil_append]
      split
      · exact hright
      · rfl

theorem nodesAbove_succ {height pos : Nat} (h : (below vMatch (height + 1) pos).any id = true) :
    nodesAbove vMatch (height + 1) pos =
      (height + 1, pos) :: (nodesAbove vMatch height (pos * 2) ++
        if pos * 2 + 1 < calcTreeWidth vMatch.length height then
          nodesAbove vMatch height (pos * 2 + 1)
        else []) := by
  unfold nodesAbove
  rw [innerNodes, List.filter_cons_of_pos (by simp [isAboveMatch, h]), List.filter_append]
  split
  · rfl
  · rfl

/-- A node with two children adds a fork, and one with an only child adds that. -/
theorem counts_succ {height pos : Nat} (h : (below vMatch (height + 1) pos).any id = true) :
    if pos * 2 + 1 < calcTreeWidth vMatch.length height then
      forks vMatch (height + 1) pos =
        forks vMatch height (pos * 2) + forks vMatch height (pos * 2 + 1) + 1 ∧
      onlyChildren vMatch (height + 1) pos =
        onlyChildren vMatch height (pos * 2) + onlyChildren vMatch height (pos * 2 + 1)
    else
      forks vMatch (height + 1) pos = forks vMatch height (pos * 2) ∧
      onlyChildren vMatch (height + 1) pos = onlyChildren vMatch height (pos * 2) + 1 := by
  have hnode : hasTwoChildren vMatch.length (height + 1, pos) =
      decide (pos * 2 + 1 < calcTreeWidth vMatch.length height) := rfl
  unfold forks onlyChildren
  rw [nodesAbove_succ h]
  split
  case isTrue htwo =>
    simp only [List.countP_cons, List.countP_append, hnode, decide_eq_true htwo,
      Bool.not_true, if_true, Bool.false_eq_true, if_false, Nat.add_zero, and_self]
  case isFalse hone =>
    simp only [List.countP_cons, List.countP_append, List.countP_nil, hnode,
      decide_eq_false hone, Bool.not_false, if_true, Bool.false_eq_true, if_false, Nat.add_zero,
      and_self]

variable (vMatch) in
theorem onlyChildren_eq_zero_iff (height pos : Nat) :
    onlyChildren vMatch height pos = 0 <->
      forall node, node ∈ nodesAbove vMatch height pos ->
        hasTwoChildren vMatch.length node = true := by
  unfold onlyChildren
  rw [List.countP_eq_zero]
  apply forall_congr'
  intro node
  apply imp_congr_right
  intro _
  rw [Bool.not_eq_true', Bool.not_eq_false]

theorem forks_eq_length {height pos : Nat}
    (h : forall node, node ∈ nodesAbove vMatch height pos ->
      hasTwoChildren vMatch.length node = true) :
    forks vMatch height pos = (nodesAbove vMatch height pos).length :=
  List.countP_eq_length.mpr h

/-!
# What the traversal stores
-/

variable (hashPair : UInt256 -> UInt256 -> UInt256) {vTxid : List UInt256}

/-- One bit for every node visited, one hash for every node not descended into. -/
theorem lengths_traverseAndBuild (hlength : vMatch.length = vTxid.length) (height pos : Nat)
    (tree : CPartialMerkleTree) :
    (traverseAndBuild hashPair vTxid vMatch height pos tree).vHash.length =
        tree.vHash.length + forks vMatch height pos + 1 ∧
      (traverseAndBuild hashPair vTxid vMatch height pos tree).vBits.length =
        tree.vBits.length + 2 * forks vMatch height pos + onlyChildren vMatch height pos + 1 := by
  induction height generalizing pos tree with
  | zero =>
      rw [traverseAndBuild_stored (Or.inl rfl)]
      exact ⟨List.length_append, List.length_append⟩
  | succ height ih =>
      have hparent := isParentOfMatch_eq vTxid vMatch hlength (height + 1) pos
      cases hany : (below vMatch (height + 1) pos).any id with
      | false =>
          rw [traverseAndBuild_stored (Or.inr (hparent.trans hany))]
          unfold forks onlyChildren
          rw [nodesAbove_eq_nil hany]
          exact ⟨List.length_append, List.length_append⟩
      | true =>
          have hcounts := counts_succ hany
          have hleft := ih (pos * 2)
            { tree with vBits := tree.vBits ++ [isParentOfMatch vTxid vMatch (height + 1) pos] }
          rw [traverseAndBuild]
          simp only [hparent.trans hany, Bool.not_true, Bool.false_eq_true, if_false] at hleft ⊢
          rw [List.length_append, List.length_singleton] at hleft
          rw [← hlength]
          split
          case isTrue htwo =>
            rw [if_pos htwo] at hcounts
            have hright := ih (pos * 2 + 1) (traverseAndBuild hashPair vTxid vMatch height (pos * 2)
              { tree with vBits := tree.vBits ++ [true] })
            omega
          case isFalse hone =>
            rw [if_neg hone] at hcounts
            omega

/-- `B = 2 * N - 1 + S`, where `S` nodes above a match have an only child. -/
theorem lengths_new (hlength : vMatch.length = vTxid.length) :
    (CPartialMerkleTree.new hashPair vTxid vMatch).vHash.length =
        forks vMatch (treeHeight vMatch.length) 0 + 1 ∧
      (CPartialMerkleTree.new hashPair vTxid vMatch).vBits.length =
        2 * forks vMatch (treeHeight vMatch.length) 0 +
          onlyChildren vMatch (treeHeight vMatch.length) 0 + 1 := by
  have hlengths := lengths_traverseAndBuild hashPair hlength (treeHeight vMatch.length) 0
    { nTransactions := vTxid.length, vBits := [], vHash := [], fBad := false }
  simp only [List.length_nil, Nat.zero_add] at hlengths
  unfold CPartialMerkleTree.new
  rw [← hlength] at hlengths ⊢
  exact hlengths

end Counting

/-!
# The size of the serialization
-/

theorem length_writeCompactSize_eq (nSize : Nat) :
    (writeCompactSize nSize).length =
      if nSize < 253 then 1 else if nSize ≤ 0xffff then 3 else if nSize ≤ 0xffffffff then 5
        else 9 := by
  unfold writeCompactSize
  split_ifs
  · rfl
  · rw [List.length_cons, length_writeLE]
  · rw [List.length_cons, length_writeLE]
  · rw [List.length_cons, length_writeLE]

theorem length_writeVector_uint256 (vHash : List UInt256) :
    (writeVector writeUInt256 vHash).length =
      (writeCompactSize vHash.length).length + 32 * vHash.length := by
  have hflat : (vHash.flatMap writeUInt256).length = 32 * vHash.length := by
    induction vHash with
    | nil => rfl
    | cons hash vHash ih =>
        rw [List.flatMap_cons, List.length_append, ih, List.length_cons]
        have hone : (writeUInt256 hash).length = 32 := length_writeLE _ _
        omega
  rw [writeVector, List.length_append, hflat]

theorem length_serialize (tree : CPartialMerkleTree) :
    tree.serialize.length =
      4 + ((writeCompactSize tree.vHash.length).length + 32 * tree.vHash.length) +
        ((writeCompactSize ((tree.vBits.length + 7) / 8)).length +
          (tree.vBits.length + 7) / 8) := by
  unfold CPartialMerkleTree.serialize writeBytes
  rw [List.length_append, List.length_append, List.length_append, length_writeLE,
    length_writeVector_uint256, length_packBits]

/-- The promise, where `ceil(32.25*N)` is rounded up from quarters. -/
def CPartialMerkleTree.IsGuaranteed (tree : CPartialMerkleTree) : Prop :=
  tree.vBits.length ≤ 2 * tree.vHash.length - 1 ∧
    tree.serialize.length ≤ 10 + (129 * tree.vHash.length + 3) / 4

/-- With one bit less than twice the hashes, the bytes fit as long as a count takes three. -/
theorem length_serialize_le_iff {tree : CPartialMerkleTree}
    (h : tree.vBits.length + 1 = 2 * tree.vHash.length) :
    tree.serialize.length ≤ 10 + (129 * tree.vHash.length + 3) / 4 <->
      tree.vHash.length < 65536 := by
  have hbytes : (tree.vBits.length + 7) / 8 = (tree.vHash.length + 3) / 4 := by omega
  rw [length_serialize, hbytes, length_writeCompactSize_eq, length_writeCompactSize_eq]
  constructor
  · intro hle
    split_ifs at hle <;> omega
  · intro hlt
    split_ifs <;> omega

/--
The guarantee holds if and only if each node above a match has two children, and fewer than
65535 nodes are above a match.
-/
theorem isGuaranteed_iff (hashPair : UInt256 -> UInt256 -> UInt256) {vTxid : List UInt256}
    {vMatch : List Bool} (hlength : vMatch.length = vTxid.length) :
    (CPartialMerkleTree.new hashPair vTxid vMatch).IsGuaranteed <->
      (forall node, node ∈ nodesAbove vMatch (treeHeight vMatch.length) 0 ->
        hasTwoChildren vMatch.length node = true) ∧
      (nodesAbove vMatch (treeHeight vMatch.length) 0).length < 65535 := by
  rcases lengths_new hashPair hlength with ⟨hhashes, hbits⟩
  have hnone := onlyChildren_eq_zero_iff vMatch (treeHeight vMatch.length) 0
  constructor
  · intro h
    have hzero : onlyChildren vMatch (treeHeight vMatch.length) 0 = 0 := by
      have hle := h.1
      omega
    have hsize := (length_serialize_le_iff (by omega)).mp h.2
    have hall := hnone.mp hzero
    rw [hhashes, forks_eq_length hall] at hsize
    exact ⟨hall, by omega⟩
  · intro h
    have hzero := hnone.mpr h.1
    rw [← forks_eq_length h.1] at h
    exact ⟨by omega, (length_serialize_le_iff (by omega)).mpr (by omega)⟩

theorem isGuaranteed_four :
    (CPartialMerkleTree.new (fun _ _ => 0) [1, 2, 3, 4]
      [false, false, true, false]).IsGuaranteed :=
  (isGuaranteed_iff _ rfl).mpr ⟨by decide, by decide⟩

/-- Three transactions of which the last is matched: four bits for two hashes. -/
theorem new_onlyChild :
    ¬ (CPartialMerkleTree.new (fun _ _ => 0) [1, 2, 3] [false, false, true]).IsGuaranteed := by
  have hbits : (CPartialMerkleTree.new (fun _ _ => 0) [1, 2, 3] [false, false, true]).vBits =
      [true, false, true, true] := by decide
  have hhashes : (CPartialMerkleTree.new (fun _ _ => 0) [1, 2, 3]
      [false, false, true]).vHash.length = 2 := by decide
  intro h
  have hle := h.1
  rw [hbits, hhashes] at hle
  exact absurd hle (by decide)

end Merkle
end Hbcur
