import Hbcur.Serialize.Bytes
import Hbcur.Validation.CheckBlock

/-!
# Merkle trees

`CBlock::BuildMerkleTree` of `primitives/block.cpp`, and the nodes of the tree as
`CPartialMerkleTree` of `merkleblock.h` computes them.  A level whose width is odd repeats its
last node.
-/

namespace Hbcur
namespace Merkle

/-!
# Widths and heights

The number of transactions is at most `MAX_BLOCK_SIZE / 60` wherever the width is used, so the
sums fit an `unsigned int`.
-/

def calcTreeWidth (nTransactions height : Nat) : Nat :=
  (nTransactions + (1 <<< height) - 1) >>> height

/-- A position is in the tree if it stands above a transaction. -/
theorem lt_calcTreeWidth_iff {nTransactions height pos : Nat} :
    pos < calcTreeWidth nTransactions height <-> pos * 2 ^ height < nTransactions := by
  have hpow := Nat.two_pow_pos height
  unfold calcTreeWidth
  rw [Nat.shiftRight_eq_div_pow, Nat.shiftLeft_eq, Nat.one_mul, Nat.lt_iff_add_one_le,
    Nat.le_div_iff_mul_le hpow, Nat.succ_mul]
  omega

@[simp]
theorem calcTreeWidth_zero (nTransactions : Nat) : calcTreeWidth nTransactions 0 = nTransactions := by
  simp [calcTreeWidth]

theorem calcTreeWidth_succ (nTransactions height : Nat) :
    calcTreeWidth nTransactions (height + 1) = (calcTreeWidth nTransactions height + 1) / 2 := by
  apply eq_of_forall_lt_iff
  intro pos
  have hdouble : pos * 2 ^ (height + 1) = 2 * pos * 2 ^ height := by
    rw [Nat.pow_succ, Nat.mul_comm (2 ^ height), ← Nat.mul_assoc, Nat.mul_comm pos]
  rw [lt_calcTreeWidth_iff, hdouble, ← lt_calcTreeWidth_iff]
  omega

theorem calcTreeWidth_pos {nTransactions : Nat} (h : 0 < nTransactions) (height : Nat) :
    0 < calcTreeWidth nTransactions height := by
  rw [lt_calcTreeWidth_iff, Nat.zero_mul]
  exact h

/-- `while (CalcTreeWidth(nHeight) > 1) nHeight++` -/
def heightLoop (nTransactions : Nat) : Nat -> Nat -> Nat
  | 0, nHeight => nHeight
  | rounds + 1, nHeight =>
      if 1 < calcTreeWidth nTransactions nHeight then
        heightLoop nTransactions rounds (nHeight + 1)
      else nHeight

/-- The height of the tree; there are fewer levels than transactions. -/
def treeHeight (nTransactions : Nat) : Nat :=
  heightLoop nTransactions nTransactions 0

theorem heightLoop_spec (nTransactions : Nat) :
    forall rounds nHeight, nTransactions ≤ nHeight + rounds ->
      calcTreeWidth nTransactions (heightLoop nTransactions rounds nHeight) ≤ 1 := by
  intro rounds
  induction rounds with
  | zero =>
      intro nHeight hrounds
      have hpow := Nat.lt_two_pow_self (n := nHeight)
      apply Nat.le_of_not_lt
      intro hwide
      rw [heightLoop, lt_calcTreeWidth_iff] at hwide
      omega
  | succ rounds ih =>
      intro nHeight hrounds
      rw [heightLoop]
      split
      · exact ih (nHeight + 1) (by omega)
      · omega

/-- The loop ends at the root. -/
theorem calcTreeWidth_treeHeight {nTransactions : Nat} (h : 0 < nTransactions) :
    calcTreeWidth nTransactions (treeHeight nTransactions) = 1 := by
  have hle := heightLoop_spec nTransactions nTransactions 0 (Nat.le_add_left _ _)
  have hpos := calcTreeWidth_pos h (treeHeight nTransactions)
  exact Nat.le_antisymm hle hpos

/-!
# The nodes
-/

variable (hashPair : UInt256 -> UInt256 -> UInt256)

def calcHash (vTxid : List UInt256) : Nat -> Nat -> UInt256
  | 0, pos => vTxid.getD pos 0
  | height + 1, pos =>
      let left := calcHash vTxid height (pos * 2)
      let right :=
        if pos * 2 + 1 < calcTreeWidth vTxid.length height then
          calcHash vTxid height (pos * 2 + 1)
        else left
      hashPair left right

/-- All nodes of one height, from left to right. -/
def nodesAt (vTxid : List UInt256) (height : Nat) : List UInt256 :=
  (List.range (calcTreeWidth vTxid.length height)).map (calcHash hashPair vTxid height)

theorem nodesAt_zero (vTxid : List UInt256) : nodesAt hashPair vTxid 0 = vTxid := by
  apply List.ext_getElem
  · simp [nodesAt]
  · intro pos hpos hpos'
    simp [nodesAt, calcHash, hpos']

/-!
# One level up
-/

/-- The hash above a pair of positions, the last of which may be missing. -/
def hashAbove (level : List UInt256) (pos : Nat) : UInt256 :=
  hashPair (level.getD (2 * pos) 0) (level.getD (min (2 * pos + 1) (level.length - 1)) 0)

theorem hashAbove_zero (a b : UInt256) (rest : List UInt256) :
    hashAbove hashPair (a :: b :: rest) 0 = hashPair a b := by
  simp [hashAbove]

theorem hashAbove_succ (a b : UInt256) {rest : List UInt256} (h : rest ≠ []) (pos : Nat) :
    hashAbove hashPair (a :: b :: rest) (pos + 1) = hashAbove hashPair rest pos := by
  have hlength := List.length_pos_of_ne_nil h
  have hleft : 2 * (pos + 1) = 2 * pos + 1 + 1 := rfl
  have hright : min (2 * (pos + 1) + 1) ((a :: b :: rest).length - 1) =
      min (2 * pos + 1) (rest.length - 1) + 1 + 1 := by
    simp only [List.length_cons]
    omega
  rw [hashAbove, hright]
  simp only [hleft, List.getD_cons_succ, hashAbove]

theorem merkleLevel_eq_map :
    forall level, (merkleLevel hashPair level).2 =
      (List.range ((level.length + 1) / 2)).map (hashAbove hashPair level)
  | [] => by simp [merkleLevel]
  | [a] => by simp [merkleLevel, hashAbove]
  | [a, b] => by simp [merkleLevel, hashAbove]
  | a :: b :: c :: rest => by
      have hwidth : ((a :: b :: c :: rest).length + 1) / 2 =
          ((c :: rest).length + 1) / 2 + 1 := by
        simp only [List.length_cons]
        omega
      have hrest : c :: rest ≠ [] := List.cons_ne_nil c rest
      rw [hwidth, List.range_succ_eq_map, List.map_cons, hashAbove_zero, List.map_map,
        merkleLevel]
      · simp only [merkleLevel_eq_map (c :: rest)]
        congr 1
        apply List.map_congr_left
        intro pos hmem
        exact (hashAbove_succ hashPair a b hrest pos).symm
      · exact hrest

theorem merkleLevel_nodesAt (vTxid : List UInt256) (height : Nat) :
    (merkleLevel hashPair (nodesAt hashPair vTxid height)).2 =
      nodesAt hashPair vTxid (height + 1) := by
  have hlength : (nodesAt hashPair vTxid height).length =
      calcTreeWidth vTxid.length height := by
    simp [nodesAt]
  rw [merkleLevel_eq_map, hlength, ← calcTreeWidth_succ]
  apply List.map_congr_left
  intro pos hmem
  have hpos := List.mem_range.mp hmem
  rw [calcTreeWidth_succ] at hpos
  have hnode : forall pos', pos' < calcTreeWidth vTxid.length height ->
      (nodesAt hashPair vTxid height).getD pos' 0 = calcHash hashPair vTxid height pos' := by
    intro pos' hlt
    simp [nodesAt, List.getD, hlt]
  rw [hashAbove, hlength, hnode _ (by omega), hnode _ (by omega), calcHash, Nat.mul_comm pos]
  split
  · rw [Nat.min_eq_left (by omega)]
  · rw [show min (2 * pos + 1) (calcTreeWidth vTxid.length height - 1) = 2 * pos by omega]

/-!
# The loops of `BuildMerkleTree`
-/

/-- `for (int i = 0; i < nSize; i += 2)`, over the row which starts at `j`. -/
def buildRow (j nSize : Nat) : Nat -> Nat -> List UInt256 -> Bool -> List UInt256 × Bool
  | 0, _, vMerkleTree, mutated => (vMerkleTree, mutated)
  | rounds + 1, i, vMerkleTree, mutated =>
      if i < nSize then
        let i2 := min (i + 1) (nSize - 1)
        let left := vMerkleTree.getD (j + i) 0
        let right := vMerkleTree.getD (j + i2) 0
        buildRow j nSize rounds (i + 2) (vMerkleTree ++ [hashPair left right])
          (mutated || (i2 == i + 1 && i2 + 1 == nSize && left == right))
      else (vMerkleTree, mutated)

/-- `for (int nSize = vtx.size(); nSize > 1; nSize = (nSize + 1) / 2)` -/
def buildRows : Nat -> Nat -> Nat -> List UInt256 -> Bool -> List UInt256 × Bool
  | 0, _, _, vMerkleTree, mutated => (vMerkleTree, mutated)
  | rounds + 1, nSize, j, vMerkleTree, mutated =>
      if 1 < nSize then
        match buildRow hashPair j nSize nSize 0 vMerkleTree mutated with
        | (vMerkleTree', mutated') =>
            buildRows rounds ((nSize + 1) / 2) (j + nSize) vMerkleTree' mutated'
      else (vMerkleTree, mutated)

/-- The root and `*fMutated`, from the hashes of `vtx`. -/
def buildMerkleTree (vtx : List UInt256) : UInt256 × Bool :=
  match buildRows hashPair vtx.length vtx.length 0 vtx false with
  | (vMerkleTree, mutated) => (vMerkleTree.getLastD 0, mutated)

theorem getD_of_prefix {row vMerkleTree : List UInt256} {start pos : Nat}
    (hrow : row <+: vMerkleTree.drop start) (hpos : pos < row.length) :
    vMerkleTree.getD (start + pos) 0 = row.getD pos 0 := by
  rcases hrow with ⟨pushed, hpushed⟩
  have hget := congrArg (fun l => l.getD pos 0) hpushed
  simp only [List.getD_eq_getElem?_getD, List.getElem?_drop] at hget
  rw [List.getElem?_append_left hpos] at hget
  rw [List.getD_eq_getElem?_getD, List.getD_eq_getElem?_getD, hget]

theorem prefix_after_push {a b h : UInt256} {rest vMerkleTree : List UInt256} {start : Nat}
    (hrow : a :: b :: rest <+: vMerkleTree.drop start) :
    rest <+: (vMerkleTree ++ [h]).drop (start + 2) := by
  rcases hrow with ⟨pushed, hpushed⟩
  have hdrop : vMerkleTree.drop (start + 2) = rest ++ pushed := by
    rw [← List.drop_drop, ← hpushed]
    rfl
  rw [List.drop_append, hdrop, List.append_assoc]
  exact List.prefix_append rest _

theorem buildRow_done {j nSize i : Nat} (h : nSize ≤ i) (rounds : Nat)
    (vMerkleTree : List UInt256) (mutated : Bool) :
    buildRow hashPair j nSize rounds i vMerkleTree mutated = (vMerkleTree, mutated) := by
  cases rounds with
  | zero => rfl
  | succ rounds => rw [buildRow, if_neg (Nat.not_lt.mpr h)]

/-- One pass, which hashes the first two positions left in the row. -/
theorem buildRow_pair {j nSize i : Nat} {a b : UInt256} {rest vMerkleTree : List UInt256}
    (hsize : i + (a :: b :: rest).length = nSize)
    (hrow : a :: b :: rest <+: vMerkleTree.drop (j + i)) (rounds : Nat) (mutated : Bool) :
    buildRow hashPair j nSize (rounds + 1) i vMerkleTree mutated =
      buildRow hashPair j nSize rounds (i + 2) (vMerkleTree ++ [hashPair a b])
        (mutated || (rest.isEmpty && a == b)) := by
  simp only [List.length_cons] at hsize
  have hi2 : min (i + 1) (nSize - 1) = i + 1 := by omega
  have hleft : vMerkleTree.getD (j + i) 0 = a := getD_of_prefix hrow (Nat.zero_lt_succ _)
  have hright : vMerkleTree.getD (j + (i + 1)) 0 = b :=
    getD_of_prefix hrow (Nat.succ_lt_succ (Nat.zero_lt_succ _))
  have hlast : (i + 1 + 1 == nSize) = rest.isEmpty := by
    cases rest with
    | nil =>
        rw [List.isEmpty_nil, beq_iff_eq]
        simpa using hsize
    | cons c rest =>
        rw [List.isEmpty_cons, beq_eq_false_iff_ne]
        simp only [List.length_cons] at hsize
        omega
  rw [buildRow, if_pos (by omega)]
  simp only [hi2, hleft, hright, hlast, beq_self_eq_true, Bool.true_and]

/-- The inner loop pushes the level above the row. -/
theorem buildRow_spec (j nSize : Nat) :
    forall (row : List UInt256) (rounds i : Nat) (vMerkleTree : List UInt256) (mutated : Bool),
      row.length ≤ rounds -> i + row.length = nSize -> row <+: vMerkleTree.drop (j + i) ->
      buildRow hashPair j nSize rounds i vMerkleTree mutated =
        (vMerkleTree ++ (merkleLevel hashPair row).2,
          mutated || (merkleLevel hashPair row).1)
  | [], rounds, i, vMerkleTree, mutated, _, hsize, _ => by
      have hdone : nSize ≤ i := Nat.le_of_eq hsize.symm
      rw [buildRow_done hashPair hdone]
      simp [merkleLevel]
  | [a], rounds + 1, i, vMerkleTree, mutated, _, hsize, hrow => by
      simp only [List.length_singleton] at hsize
      have hi2 : min (i + 1) (nSize - 1) = i := by omega
      have hleft : vMerkleTree.getD (j + i) 0 = a := getD_of_prefix hrow Nat.one_pos
      rw [buildRow, if_pos (by omega)]
      simp only [hi2, hleft]
      rw [buildRow_done hashPair (by omega)]
      simp [merkleLevel]
  | [a, b], rounds + 1, i, vMerkleTree, mutated, _, hsize, hrow => by
      have hdone : nSize ≤ i + 2 := Nat.le_of_eq hsize.symm
      rw [buildRow_pair hashPair hsize hrow, buildRow_done hashPair hdone]
      simp [merkleLevel]
  | a :: b :: c :: rest, rounds + 1, i, vMerkleTree, mutated, hrounds, hsize, hrow => by
      have hlength := hrounds
      simp only [List.length_cons] at hlength hsize
      have hrest := buildRow_spec j nSize (c :: rest) rounds (i + 2)
        (vMerkleTree ++ [hashPair a b]) mutated (by simp only [List.length_cons]; omega)
        (by simp only [List.length_cons]; omega) (prefix_after_push hrow)
      rw [buildRow_pair hashPair hsize hrow, List.isEmpty_cons, Bool.false_and,
        Bool.or_false, hrest, merkleLevel]
      · simp
      · exact List.cons_ne_nil c rest

theorem length_merkleLevel (level : List UInt256) :
    (merkleLevel hashPair level).2.length = (level.length + 1) / 2 := by
  rw [merkleLevel_eq_map, List.length_map, List.length_range]

theorem merkleLevels_of_long {level : List UInt256} (h : 1 < level.length) (rounds : Nat) :
    merkleLevels hashPair (rounds + 1) level =
      ((merkleLevels hashPair rounds (merkleLevel hashPair level).2).1,
        (merkleLevel hashPair level).1 ||
          (merkleLevels hashPair rounds (merkleLevel hashPair level).2).2) := by
  match level, h with
  | a :: b :: rest, _ => simp only [merkleLevels]

/-- The outer loop, over a last row which is the level reached. -/
theorem buildRows_spec :
    forall (rounds : Nat) (level before : List UInt256) (mutated : Bool),
      level ≠ [] -> level.length ≤ rounds + 1 ->
      ((buildRows hashPair rounds level.length before.length (before ++ level) mutated).1.getLastD 0,
        (buildRows hashPair rounds level.length before.length (before ++ level) mutated).2) =
      ((merkleLevels hashPair rounds level).1,
        mutated || (merkleLevels hashPair rounds level).2) := by
  intro rounds
  induction rounds with
  | zero =>
      intro level before mutated hne hlength
      rcases List.length_eq_one_iff.mp
        (Nat.le_antisymm hlength (List.length_pos_of_ne_nil hne)) with ⟨root, rfl⟩
      simp [buildRows, merkleLevels]
  | succ rounds ih =>
      intro level before mutated hne hlength
      by_cases hlong : 1 < level.length
      · have hrow := buildRow_spec hashPair before.length level.length level level.length 0
          (before ++ level) mutated (Nat.le_refl _) (Nat.zero_add _) (by simp)
        have hwidth := length_merkleLevel hashPair level
        have hnext := ih (merkleLevel hashPair level).2 (before ++ level)
          (mutated || (merkleLevel hashPair level).1)
          (List.ne_nil_of_length_pos (by omega)) (by omega)
        rw [hwidth, List.length_append] at hnext
        rw [buildRows, if_pos hlong, merkleLevels_of_long hashPair hlong]
        simp only [hrow]
        rw [hnext, Bool.or_assoc]
      · rcases List.length_eq_one_iff.mp
          (Nat.le_antisymm (Nat.le_of_not_lt hlong) (List.length_pos_of_ne_nil hne))
          with ⟨root, rfl⟩
        simp [buildRows, merkleLevels]

/-- The loops over one array and the levels of block validation agree. -/
theorem buildMerkleTree_eq_merkleLevels (vtx : List UInt256) :
    buildMerkleTree hashPair vtx = merkleLevels hashPair vtx.length vtx := by
  cases vtx with
  | nil => rfl
  | cons txid rest =>
      have hrows := buildRows_spec hashPair (rest.length + 1) (txid :: rest) [] false
        (List.cons_ne_nil txid rest) (Nat.le_succ _)
      rw [Bool.false_or] at hrows
      exact hrows

/-!
# The root
-/

theorem merkleLevels_nodesAt {vTxid : List UInt256} (h : vTxid ≠ []) :
    forall rounds height, vTxid.length ≤ height + rounds ->
      (merkleLevels hashPair rounds (nodesAt hashPair vTxid height)).1 =
        calcHash hashPair vTxid (heightLoop vTxid.length rounds height) 0 := by
  have hpos := List.length_pos_of_ne_nil h
  have hnodes : forall height, (nodesAt hashPair vTxid height).length =
      calcTreeWidth vTxid.length height := by
    intro height
    simp [nodesAt]
  have hroot : forall rounds height, calcTreeWidth vTxid.length height ≤ 1 ->
      (merkleLevels hashPair rounds (nodesAt hashPair vTxid height)).1 =
        calcHash hashPair vTxid height 0 := by
    intro rounds height hwidth
    have hone := Nat.le_antisymm hwidth (calcTreeWidth_pos hpos height)
    have hlevel : nodesAt hashPair vTxid height = [calcHash hashPair vTxid height 0] := by
      rw [nodesAt, hone]
      rfl
    rw [hlevel]
    simp [merkleLevels]
  intro rounds
  induction rounds with
  | zero =>
      intro height hrounds
      exact hroot 0 height (heightLoop_spec vTxid.length 0 height hrounds)
  | succ rounds ih =>
      intro height hrounds
      rw [heightLoop]
      split
      · rename_i hwide
        rw [merkleLevels_of_long hashPair (by rw [hnodes]; exact hwide), merkleLevel_nodesAt]
        exact ih (height + 1) (by omega)
      · rename_i hnarrow
        exact hroot (rounds + 1) height (Nat.le_of_not_lt hnarrow)

/-- The iterative algorithm computes the node at the top of the recursive tree. -/
theorem buildMerkleTree_root {vTxid : List UInt256} (h : vTxid ≠ []) :
    (buildMerkleTree hashPair vTxid).1 =
      calcHash hashPair vTxid (treeHeight vTxid.length) 0 := by
  have hlevels := merkleLevels_nodesAt hashPair h vTxid.length 0 (Nat.le_add_left _ _)
  rw [nodesAt_zero] at hlevels
  rw [buildMerkleTree_eq_merkleLevels, hlevels, treeHeight]

end Merkle
end Hbcur

/-!
# Merkle branches

`GetMerkleBranch` and `CheckMerkleBranch` of `primitives/block.cpp`: the siblings on the way
from a transaction to the root, read off the array which `BuildMerkleTree` leaves.
-/

namespace Hbcur
namespace Merkle

variable (hashPair : UInt256 -> UInt256 -> UInt256)

/-- `vMerkleTree`, all rows one after another. -/
def merkleTree (vtx : List UInt256) : List UInt256 :=
  (buildRows hashPair vtx.length vtx.length 0 vtx false).1

/-- The loop over the rows; a row which ends early repeats its last node. -/
def branchLoop (vMerkleTree : List UInt256) : Nat -> Nat -> Nat -> Nat -> List UInt256
  | 0, _, _, _ => []
  | rounds + 1, nSize, j, nIndex =>
      if 1 < nSize then
        let i := min (nIndex ^^^ 1) (nSize - 1)
        vMerkleTree.getD (j + i) 0 ::
          branchLoop vMerkleTree rounds ((nSize + 1) / 2) (j + nSize) (nIndex >>> 1)
      else []

def getMerkleBranch (vtx : List UInt256) (nIndex : Nat) : List UInt256 :=
  branchLoop (merkleTree hashPair vtx) vtx.length vtx.length 0 nIndex

def climb : UInt256 -> List UInt256 -> Int -> UInt256
  | hash, [], _ => hash
  | hash, sibling :: rest, nIndex =>
      climb (if nIndex % 2 = 1 then hashPair sibling hash else hashPair hash sibling) rest
        (nIndex / 2)

def checkMerkleBranch (hash : UInt256) (vMerkleBranch : List UInt256) (nIndex : Int) :
    UInt256 :=
  if nIndex = -1 then 0 else climb hashPair hash vMerkleBranch nIndex

/-!
# The rows of the array
-/

/-- A level and all levels above it. -/
def rowsFrom : Nat -> List UInt256 -> List UInt256
  | 0, level => level
  | rounds + 1, level =>
      if 1 < level.length then level ++ rowsFrom rounds (merkleLevel hashPair level).2
      else level

theorem buildRows_rows :
    forall (rounds : Nat) (level before : List UInt256) (mutated : Bool),
      (buildRows hashPair rounds level.length before.length (before ++ level) mutated).1 =
        before ++ rowsFrom hashPair rounds level := by
  intro rounds
  induction rounds with
  | zero => exact fun _ _ _ => rfl
  | succ rounds ih =>
      intro level before mutated
      unfold buildRows rowsFrom
      split_ifs with hlong
      · have hrow := buildRow_spec hashPair before.length level.length level level.length 0
          (before ++ level) mutated (Nat.le_refl _) (Nat.zero_add _) (by simp)
        have hnext := ih (merkleLevel hashPair level).2 (before ++ level)
          (mutated || (merkleLevel hashPair level).1)
        rw [length_merkleLevel, List.length_append, List.append_assoc] at hnext
        simp only [hrow]
        rw [List.append_assoc, hnext, List.append_assoc]
      · rfl

theorem merkleTree_eq (vtx : List UInt256) :
    merkleTree hashPair vtx = rowsFrom hashPair vtx.length vtx :=
  buildRows_rows hashPair vtx.length vtx [] false

theorem getD_rowsFrom {rounds i : Nat} {level : List UInt256} (before : List UInt256)
    (h : i < level.length) :
    (before ++ rowsFrom hashPair rounds level).getD (before.length + i) 0 = level.getD i 0 := by
  apply getD_of_prefix _ h
  rw [List.drop_left]
  cases rounds with
  | zero => exact List.prefix_refl level
  | succ rounds =>
      unfold rowsFrom
      split_ifs
      · exact List.prefix_append _ _
      · exact List.prefix_refl level

/-!
# Climbing
-/

theorem xor_one (n : Nat) : n ^^^ 1 = if n % 2 = 1 then n - 1 else n + 1 := by
  have hdiv : (n ^^^ 1) / 2 = n / 2 := by
    rw [Nat.xor_div_two]
    exact Nat.xor_zero _
  have hmod : (n ^^^ 1) % 2 = 1 <-> ¬ n % 2 = 1 := by
    rw [Nat.xor_mod_two_eq_one]
    simp
  split_ifs <;> omega

/-- A node and its sibling hash to the node above them. -/
theorem hashAbove_of_sibling {level : List UInt256} {nIndex : Nat} (h : nIndex < level.length) :
    (if nIndex % 2 = 1 then
        hashPair (level.getD (min (nIndex ^^^ 1) (level.length - 1)) 0) (level.getD nIndex 0)
      else
        hashPair (level.getD nIndex 0) (level.getD (min (nIndex ^^^ 1) (level.length - 1)) 0)) =
      hashAbove hashPair level (nIndex / 2) := by
  unfold hashAbove
  rw [xor_one]
  split_ifs with hodd
  · have hleft : min (nIndex - 1) (level.length - 1) = 2 * (nIndex / 2) := by omega
    have hright : min (2 * (nIndex / 2) + 1) (level.length - 1) = nIndex := by omega
    rw [hleft, hright]
  · have hleft : 2 * (nIndex / 2) = nIndex := by omega
    rw [hleft]

theorem getD_merkleLevel {level : List UInt256} {pos : Nat}
    (h : pos < (level.length + 1) / 2) :
    (merkleLevel hashPair level).2.getD pos 0 = hashAbove hashPair level pos := by
  rw [merkleLevel_eq_map, List.getD_eq_getElem?_getD, List.getElem?_map,
    List.getElem?_range h]
  rfl

theorem climb_branchLoop :
    forall (rounds : Nat) (level before : List UInt256) (nIndex : Nat),
      level.length ≤ rounds + 1 -> nIndex < level.length ->
      climb hashPair (level.getD nIndex 0)
          (branchLoop (before ++ rowsFrom hashPair rounds level) rounds level.length
            before.length nIndex) nIndex =
        (merkleLevels hashPair rounds level).1 := by
  intro rounds
  induction rounds with
  | zero =>
      intro level before nIndex hlength hindex
      rcases List.length_eq_one_iff.mp (by omega : level.length = 1) with ⟨root, rfl⟩
      rw [Nat.lt_one_iff.mp hindex]
      simp [branchLoop, climb, merkleLevels]
  | succ rounds ih =>
      intro level before nIndex hlength hindex
      by_cases hlong : 1 < level.length
      · have hsibling : min (nIndex ^^^ 1) (level.length - 1) < level.length := by omega
        have hrows : before ++ rowsFrom hashPair (rounds + 1) level =
            (before ++ level) ++ rowsFrom hashPair rounds (merkleLevel hashPair level).2 := by
          rw [rowsFrom, if_pos hlong, List.append_assoc]
        have hnext := ih (merkleLevel hashPair level).2 (before ++ level) (nIndex / 2)
          (by rw [length_merkleLevel]; omega) (by rw [length_merkleLevel]; omega)
        rw [length_merkleLevel, List.length_append, getD_merkleLevel hashPair (by omega)] at hnext
        rw [merkleLevels_of_long hashPair hlong, branchLoop, if_pos hlong]
        simp only [getD_rowsFrom hashPair before hsibling]
        rw [climb, hrows, Nat.shiftRight_one]
        have hmod : ((nIndex : Int) % 2 = 1) = (nIndex % 2 = 1) := by
          apply propext
          omega
        have hdiv : (nIndex : Int) / 2 = ((nIndex / 2 : Nat) : Int) := by omega
        simp only [hmod, hdiv, hashAbove_of_sibling hashPair hindex]
        exact hnext
      · rcases List.length_eq_one_iff.mp (by omega : level.length = 1) with ⟨root, rfl⟩
        rw [Nat.lt_one_iff.mp hindex]
        simp [branchLoop, climb, merkleLevels]

/-- The branch of a transaction leads to the root. -/
theorem checkMerkleBranch_getMerkleBranch {vtx : List UInt256} {nIndex : Nat}
    (h : nIndex < vtx.length) :
    checkMerkleBranch hashPair (vtx.getD nIndex 0) (getMerkleBranch hashPair vtx nIndex) nIndex =
      (buildMerkleTree hashPair vtx).1 := by
  unfold checkMerkleBranch getMerkleBranch
  rw [if_neg (by omega), merkleTree_eq, buildMerkleTree_eq_merkleLevels]
  exact climb_branchLoop hashPair vtx.length vtx [] nIndex (Nat.le_succ _) h

end Merkle
end Hbcur

/-!
# Partial merkle trees

`CPartialMerkleTree` of `merkleblock.h` and `merkleblock.cpp`: a depth-first traversal which
stores one bit for every node it visits and one hash for every node it does not descend into, its
serialization, and the traversal which consumes the bits and hashes again.
-/

namespace Hbcur
namespace Merkle

open Foundation Serialize

structure CPartialMerkleTree where
  nTransactions : Nat
  vBits : List Bool
  vHash : List UInt256
  fBad : Bool
  deriving DecidableEq, Repr

section Building

variable (hashPair : UInt256 -> UInt256 -> UInt256) (vTxid : List UInt256) (vMatch : List Bool)

/-!
# Building
-/

/-- `for (p = pos << height; p < (pos + 1) << height && p < nTransactions; p++)` -/
def parentLoop (bound : Nat) : Nat -> Nat -> Bool -> Bool
  | 0, _, fParentOfMatch => fParentOfMatch
  | rounds + 1, p, fParentOfMatch =>
      if p < bound && p < vTxid.length then
        parentLoop bound rounds (p + 1) (fParentOfMatch || vMatch.getD p false)
      else fParentOfMatch

def isParentOfMatch (height pos : Nat) : Bool :=
  parentLoop vTxid vMatch ((pos + 1) <<< height) (1 <<< height) (pos <<< height) false

def storeHash (tree : CPartialMerkleTree) (fParentOfMatch : Bool) (hash : UInt256) :
    CPartialMerkleTree :=
  { tree with vBits := tree.vBits ++ [fParentOfMatch], vHash := tree.vHash ++ [hash] }

def traverseAndBuild : Nat -> Nat -> CPartialMerkleTree -> CPartialMerkleTree
  | 0, pos, tree =>
      storeHash tree (isParentOfMatch vTxid vMatch 0 pos) (calcHash hashPair vTxid 0 pos)
  | height + 1, pos, tree =>
      let fParentOfMatch := isParentOfMatch vTxid vMatch (height + 1) pos
      if !fParentOfMatch then
        storeHash tree fParentOfMatch (calcHash hashPair vTxid (height + 1) pos)
      else
        let tree' := traverseAndBuild height (pos * 2)
          { tree with vBits := tree.vBits ++ [fParentOfMatch] }
        if pos * 2 + 1 < calcTreeWidth vTxid.length height then
          traverseAndBuild height (pos * 2 + 1) tree'
        else tree'

/-- The constructor from the transaction ids and the mask. -/
def CPartialMerkleTree.new : CPartialMerkleTree :=
  traverseAndBuild hashPair vTxid vMatch (treeHeight vTxid.length) 0
    { nTransactions := vTxid.length, vBits := [], vHash := [], fBad := false }

end Building

/-!
# Serialization
-/

namespace CPartialMerkleTree

def serialize (tree : CPartialMerkleTree) : List UInt8 :=
  writeLE 4 tree.nTransactions ++ writeVector writeUInt256 tree.vHash ++
    writeBytes (packBits tree.vBits)

def unserialize (bytes : List UInt8) : Option (CPartialMerkleTree × List UInt8) :=
  match readLE 4 bytes with
  | none => none
  | some (nTransactions, bytes) =>
      match readVector readUInt256 bytes with
      | none => none
      | some (vHash, bytes) =>
          match readBytes bytes with
          | none => none
          | some (vBytes, bytes) =>
              some ({ nTransactions, vBits := unpackBits vBytes, vHash, fBad := false }, bytes)

end CPartialMerkleTree

/-!
# Extracting
-/

/-- What `TraverseAndExtract` updates. -/
structure Traversal where
  nBitsUsed : Nat
  nHashUsed : Nat
  vMatch : List UInt256
  fBad : Bool
  deriving DecidableEq, Repr

section Extracting

variable (hashPair : UInt256 -> UInt256 -> UInt256) (tree : CPartialMerkleTree)

/-- The branch without descent; the hash is a match at height zero only. -/
def useStoredHash (matched : Bool) (t : Traversal) : UInt256 × Traversal :=
  match tree.vHash[t.nHashUsed]? with
  | none => (0, { t with fBad := true })
  | some hash =>
      (hash, { t with
        nHashUsed := t.nHashUsed + 1
        vMatch := if matched then t.vMatch ++ [hash] else t.vMatch })

def traverseAndExtract : Nat -> Nat -> Traversal -> UInt256 × Traversal
  | height, pos, t =>
      match tree.vBits[t.nBitsUsed]? with
      | none => (0, { t with fBad := true })
      | some fParentOfMatch =>
          let t := { t with nBitsUsed := t.nBitsUsed + 1 }
          match height with
          | 0 => useStoredHash tree fParentOfMatch t
          | height + 1 =>
              if !fParentOfMatch then useStoredHash tree false t
              else
                match traverseAndExtract height (pos * 2) t with
                | (left, t) =>
                    if pos * 2 + 1 < calcTreeWidth tree.nTransactions height then
                      match traverseAndExtract height (pos * 2 + 1) t with
                      | (right, t) => (hashPair left right, t)
                    else (hashPair left left, t)

/-- What `ExtractMatches` returns, writes to its argument and leaves in `fBad`. -/
structure Extraction where
  hashMerkleRoot : UInt256
  vMatch : List UInt256
  fBad : Bool
  deriving DecidableEq, Repr

/-- A failure returns zero and keeps the matches pushed so far. -/
def extractMatches : Extraction :=
  if tree.nTransactions = 0 then ⟨0, [], tree.fBad⟩
  else if MAX_BLOCK_SIZE / 60 < tree.nTransactions then ⟨0, [], tree.fBad⟩
  else if tree.nTransactions < tree.vHash.length then ⟨0, [], tree.fBad⟩
  else if tree.vBits.length < tree.vHash.length then ⟨0, [], tree.fBad⟩
  else
    match traverseAndExtract hashPair tree (treeHeight tree.nTransactions) 0
      ⟨0, 0, [], tree.fBad⟩ with
    | (hashMerkleRoot, t) =>
        if t.fBad then ⟨0, t.vMatch, t.fBad⟩
        else if (t.nBitsUsed + 7) / 8 ≠ (tree.vBits.length + 7) / 8 then ⟨0, t.vMatch, t.fBad⟩
        else if t.nHashUsed ≠ tree.vHash.length then ⟨0, t.vMatch, t.fBad⟩
        else ⟨hashMerkleRoot, t.vMatch, t.fBad⟩

end Extracting

end Merkle
end Hbcur
