import Hbcur.Merkle.Completeness

/-!
# Soundness of partial merkle trees

A tree which arrives from a peer carries arbitrary bits and hashes.  If the pairs hashed while
extracting do not collide with the pairs hashed in the tree of the transactions, then a node which
extracts to the right hash has the right children, down to the matched transaction ids.
-/

namespace Hbcur
namespace Merkle

open Serialize

section Sound

variable (hashPair : UInt256 -> UInt256 -> UInt256)

/-!
# The pairs hashed
-/

/-- No two of the pairs have the same hash. -/
def CollisionFree (pairs : List (UInt256 × UInt256)) : Prop :=
  forall p, p ∈ pairs -> forall q, q ∈ pairs ->
    hashPair p.1 p.2 = hashPair q.1 q.2 -> p = q

instance (pairs : List (UInt256 × UInt256)) : Decidable (CollisionFree hashPair pairs) :=
  decidable_of_iff
    (pairs.all fun p => pairs.all fun q =>
      decide (hashPair p.1 p.2 = hashPair q.1 q.2 -> p = q))
    (by simp only [CollisionFree, List.all_eq_true, decide_eq_true_eq])

/-- The pairs hashed by `CalcHash`. -/
def nodePairs (vTxid : List UInt256) : Nat -> Nat -> List (UInt256 × UInt256)
  | 0, _ => []
  | height + 1, pos =>
      let left := calcHash hashPair vTxid height (pos * 2)
      if pos * 2 + 1 < calcTreeWidth vTxid.length height then
        (left, calcHash hashPair vTxid height (pos * 2 + 1)) ::
          (nodePairs vTxid height (pos * 2) ++ nodePairs vTxid height (pos * 2 + 1))
      else (left, left) :: nodePairs vTxid height (pos * 2)

/-- The traversal after its next bit. -/
def Traversal.nextBit (t : Traversal) : Traversal := { t with nBitsUsed := t.nBitsUsed + 1 }

/-- The pairs hashed by `TraverseAndExtract`. -/
def extractPairs (tree : CPartialMerkleTree) : Nat -> Nat -> Traversal -> List (UInt256 × UInt256)
  | 0, _, _ => []
  | height + 1, pos, t =>
      if tree.vBits[t.nBitsUsed]? = some true then
        let left := traverseAndExtract hashPair tree height (pos * 2) t.nextBit
        if pos * 2 + 1 < calcTreeWidth tree.nTransactions height then
          (left.1, (traverseAndExtract hashPair tree height (pos * 2 + 1) left.2).1) ::
            (extractPairs tree height (pos * 2) t.nextBit ++
              extractPairs tree height (pos * 2 + 1) left.2)
        else (left.1, left.1) :: extractPairs tree height (pos * 2) t.nextBit
      else []

variable {hashPair}

theorem CollisionFree.mono {pairs pairs' : List (UInt256 × UInt256)}
    (h : CollisionFree hashPair pairs') (hsub : forall p, p ∈ pairs -> p ∈ pairs') :
    CollisionFree hashPair pairs :=
  fun p hp q hq => h p (hsub p hp) q (hsub q hq)

/-!
# The cases of a visit
-/

theorem traverseAndExtract_overflow {tree : CPartialMerkleTree} {t : Traversal}
    (h : tree.vBits[t.nBitsUsed]? = none) (height pos : Nat) :
    traverseAndExtract hashPair tree height pos t = (0, { t with fBad := true }) := by
  rw [traverseAndExtract]
  simp only [h]

theorem traverseAndExtract_stop {tree : CPartialMerkleTree} {t : Traversal} {height : Nat}
    {fParentOfMatch : Bool} (hbit : tree.vBits[t.nBitsUsed]? = some fParentOfMatch)
    (h : height = 0 ∨ fParentOfMatch = false) (pos : Nat) :
    traverseAndExtract hashPair tree height pos t =
      useStoredHash tree fParentOfMatch t.nextBit := by
  rw [traverseAndExtract]
  simp only [hbit]
  cases height with
  | zero => rfl
  | succ height =>
      rcases h with hzero | hfalse
      · cases hzero
      · rw [hfalse]
        rfl

theorem traverseAndExtract_descend {tree : CPartialMerkleTree} {t : Traversal}
    (hbit : tree.vBits[t.nBitsUsed]? = some true) (height pos : Nat) :
    traverseAndExtract hashPair tree (height + 1) pos t =
      let left := traverseAndExtract hashPair tree height (pos * 2) t.nextBit
      let right := traverseAndExtract hashPair tree height (pos * 2 + 1) left.2
      if pos * 2 + 1 < calcTreeWidth tree.nTransactions height then
        (hashPair left.1 right.1, right.2)
      else (hashPair left.1 left.1, left.2) := by
  rw [traverseAndExtract]
  simp only [hbit]
  rfl

/-- A stored hash was there and was returned. -/
theorem useStoredHash_of_good {tree : CPartialMerkleTree} {matched : Bool} {t : Traversal}
    (h : (useStoredHash tree matched t).2.fBad = false) :
    t.fBad = false ∧ (useStoredHash tree matched t).2.vMatch =
      t.vMatch ++ if matched then [(useStoredHash tree matched t).1] else [] := by
  unfold useStoredHash at h ⊢
  cases hhash : tree.vHash[t.nHashUsed]? with
  | none =>
      rw [hhash] at h
      cases h
  | some hash =>
      rw [hhash] at h
      constructor
      · exact h
      · cases matched with
        | false => exact (List.append_nil _).symm
        | true => rfl

/-- The failure flag is never reset. -/
theorem fBad_of_traverseAndExtract {tree : CPartialMerkleTree} :
    forall height pos t, (traverseAndExtract hashPair tree height pos t).2.fBad = false ->
      t.fBad = false := by
  intro height
  induction height with
  | zero =>
      intro pos t h
      cases hbit : tree.vBits[t.nBitsUsed]? with
      | none =>
          rw [traverseAndExtract_overflow hbit] at h
          cases h
      | some fParentOfMatch =>
          rw [traverseAndExtract_stop hbit (Or.inl rfl)] at h
          exact (useStoredHash_of_good h).1
  | succ height ih =>
      intro pos t h
      cases hbit : tree.vBits[t.nBitsUsed]? with
      | none =>
          rw [traverseAndExtract_overflow hbit] at h
          cases h
      | some fParentOfMatch =>
          cases fParentOfMatch with
          | false =>
              rw [traverseAndExtract_stop hbit (Or.inr rfl)] at h
              exact (useStoredHash_of_good h).1
          | true =>
              rw [traverseAndExtract_descend hbit] at h
              dsimp only at h
              split at h
              · exact ih (pos * 2) t.nextBit (ih (pos * 2 + 1) _ h)
              · exact ih (pos * 2) t.nextBit h

/-!
# Binding to the transactions
-/

/-- The right hash at a node binds the matches below it; the induction is on the height, and a
hash equal to the node's has the node's children below it. -/
theorem matches_sublist_below {tree : CPartialMerkleTree} {vTxid : List UInt256}
    (hcount : tree.nTransactions = vTxid.length) :
    forall height pos t, pos < calcTreeWidth vTxid.length height ->
      CollisionFree hashPair
        (extractPairs hashPair tree height pos t ++ nodePairs hashPair vTxid height pos) ->
      (traverseAndExtract hashPair tree height pos t).2.fBad = false ->
      (traverseAndExtract hashPair tree height pos t).1 = calcHash hashPair vTxid height pos ->
      exists found, found.Sublist (below vTxid height pos) ∧
        (traverseAndExtract hashPair tree height pos t).2.vMatch = t.vMatch ++ found := by
  intro height
  induction height with
  | zero =>
      intro pos t hpos hfree hgood hhash
      cases hbit : tree.vBits[t.nBitsUsed]? with
      | none =>
          rw [traverseAndExtract_overflow hbit] at hgood
          cases hgood
      | some fParentOfMatch =>
          rw [traverseAndExtract_stop hbit (Or.inl rfl)] at hgood hhash ⊢
          rw [(useStoredHash_of_good hgood).2, hhash]
          rw [calcTreeWidth_zero] at hpos
          have hbelow : below vTxid 0 pos = [vTxid[pos]] := by
            rw [below, Nat.pow_zero, Nat.mul_one, List.drop_eq_getElem_cons hpos,
              List.take_succ_cons, List.take_zero]
          have hnode : calcHash hashPair vTxid 0 pos = vTxid[pos] := by
            simp [calcHash, hpos]
          rw [hbelow, hnode]
          cases fParentOfMatch with
          | false => exact ⟨[], List.nil_sublist _, rfl⟩
          | true => exact ⟨[vTxid[pos]], List.Sublist.refl _, rfl⟩
  | succ height ih =>
      intro pos t hpos hfree hgood hhash
      cases hbit : tree.vBits[t.nBitsUsed]? with
      | none =>
          rw [traverseAndExtract_overflow hbit] at hgood
          cases hgood
      | some fParentOfMatch =>
          cases fParentOfMatch with
          | false =>
              rw [traverseAndExtract_stop hbit (Or.inr rfl)] at hgood hhash ⊢
              exact ⟨[], List.nil_sublist _, (useStoredHash_of_good hgood).2⟩
          | true =>
              rw [calcTreeWidth_succ] at hpos
              have hleftpos : pos * 2 < calcTreeWidth vTxid.length height := by omega
              rw [traverseAndExtract_descend hbit, hcount] at hgood hhash ⊢
              dsimp only at hgood hhash ⊢
              rw [extractPairs, if_pos hbit, hcount] at hfree
              rw [calcHash] at hhash
              rw [nodePairs] at hfree
              dsimp only at hhash hfree
              by_cases hin : pos * 2 + 1 < calcTreeWidth vTxid.length height
              · simp only [if_pos hin] at hgood hhash hfree ⊢
                have hpair := hfree _ List.mem_cons_self _
                  (List.mem_append_right _ List.mem_cons_self) hhash
                rw [Prod.mk.injEq] at hpair
                rcases ih (pos * 2) t.nextBit hleftpos (hfree.mono (by simp; grind))
                  (fBad_of_traverseAndExtract _ _ _ hgood) hpair.1 with ⟨found, hsub, hfound⟩
                rcases ih (pos * 2 + 1) _ hin (hfree.mono (by simp; grind)) hgood hpair.2 with
                  ⟨found', hsub', hfound'⟩
                apply Exists.intro (found ++ found')
                constructor
                · rw [below_succ]
                  exact hsub.append hsub'
                · rw [hfound', hfound, List.append_assoc]
                  rfl
              · simp only [if_neg hin] at hgood hhash hfree ⊢
                have hpair := hfree _ List.mem_cons_self _
                  (List.mem_append_right _ List.mem_cons_self) hhash
                rw [Prod.mk.injEq] at hpair
                rcases ih (pos * 2) t.nextBit hleftpos (hfree.mono (by simp; grind))
                  hgood hpair.1 with ⟨found, hsub, hfound⟩
                apply Exists.intro found
                constructor
                · rw [below_succ, below_eq_nil hin, List.append_nil]
                  exact hsub
                · exact hfound

/-- The checks of `ExtractMatches` before and after the traversal. -/
theorem extractMatches_of_root {tree : CPartialMerkleTree} {root : UInt256} (hroot : root ≠ 0)
    (h : (extractMatches hashPair tree).hashMerkleRoot = root) :
    let top := traverseAndExtract hashPair tree (treeHeight tree.nTransactions) 0
      ⟨0, 0, [], tree.fBad⟩
    top.2.fBad = false ∧ top.1 = root ∧ (extractMatches hashPair tree).vMatch = top.2.vMatch := by
  rcases htop : traverseAndExtract hashPair tree (treeHeight tree.nTransactions) 0
    ⟨0, 0, [], tree.fBad⟩ with ⟨hash, t⟩
  unfold extractMatches at h ⊢
  simp only [htop] at h ⊢
  split_ifs at h ⊢ with hempty hmany hhashes hbits hbad hbytes hused
  -- every failure has returned zero
  all_goals try exact absurd h.symm hroot
  exact ⟨Bool.eq_false_iff.mpr hbad, h, rfl⟩

/-- The pairs hashed for a tree and for the transactions it is compared with. -/
def comparedPairs (hashPair : UInt256 -> UInt256 -> UInt256) (vTxid : List UInt256)
    (tree : CPartialMerkleTree) : List (UInt256 × UInt256) :=
  extractPairs hashPair tree (treeHeight tree.nTransactions) 0 ⟨0, 0, [], tree.fBad⟩ ++
    nodePairs hashPair vTxid (treeHeight vTxid.length) 0

/-- Whatever a peer sent, a tree which extracts to the merkle root matches transactions of the
block only, in their order.  A root of zero is also what a failure returns. -/
theorem extractMatches_sound (hashPair : UInt256 -> UInt256 -> UInt256) (vTxid : List UInt256)
    (tree : CPartialMerkleTree) (hne : vTxid ≠ []) (hcount : tree.nTransactions = vTxid.length)
    (hfree : CollisionFree hashPair (comparedPairs hashPair vTxid tree))
    (hnonzero : (buildMerkleTree hashPair vTxid).1 ≠ 0)
    (hroot : (extractMatches hashPair tree).hashMerkleRoot = (buildMerkleTree hashPair vTxid).1) :
    (extractMatches hashPair tree).vMatch.Sublist vTxid := by
  have hwidth := calcTreeWidth_treeHeight (List.length_pos_of_ne_nil hne)
  rcases extractMatches_of_root hnonzero hroot with ⟨hgood, hhash, hmatch⟩
  rw [buildMerkleTree_root hashPair hne] at hhash
  rw [hcount] at hgood hhash hmatch
  rw [comparedPairs, hcount] at hfree
  rcases matches_sublist_below hcount (treeHeight vTxid.length) 0 _ (by rw [hwidth]; exact Nat.one_pos)
    hfree hgood hhash with ⟨found, hsub, hfound⟩
  rw [below_top (Nat.le_of_eq hwidth)] at hsub
  rw [hmatch, hfound, List.nil_append]
  exact hsub

/-- A pair of small hashes determines this one. -/
def exampleHash (left right : UInt256) : UInt256 := left * 1000 + right + 1

/-- Three transactions, of which the third is matched. -/
def exampleTree : CPartialMerkleTree where
  nTransactions := 3
  vBits := [true, false, true, true, false, false, false, false]
  vHash := [1003, 3]
  fBad := false

theorem extractMatches_sound_example :
    (extractMatches exampleHash exampleTree).hashMerkleRoot =
      (buildMerkleTree exampleHash [1, 2, 3]).1 ∧
    (extractMatches exampleHash exampleTree).vMatch.Sublist [1, 2, 3] :=
  ⟨by decide, extractMatches_sound exampleHash [1, 2, 3] exampleTree (by decide) rfl
    (by decide) (by decide) (by decide)⟩

/-- One transaction with a zero id, and a match which is not it. -/
def zeroRootTree : List UInt8 :=
  writeLE 4 1 ++ [1] ++ writeLE 32 5 ++ [2, 1, 0]

/-- Nine bits too many make extraction fail, with the root of the block as its result and the
match already pushed. -/
theorem failure_returns_zero_root :
    exists tree, CPartialMerkleTree.unserialize zeroRootTree = some (tree, []) ∧
      tree.nTransactions = [(0 : UInt256)].length ∧
      CollisionFree exampleHash (comparedPairs exampleHash [0] tree) ∧
      (extractMatches exampleHash tree).hashMerkleRoot = (buildMerkleTree exampleHash [0]).1 ∧
      ¬ (extractMatches exampleHash tree).vMatch.Sublist [0] := by
  apply Exists.intro
    { nTransactions := 1, vBits := true :: List.replicate 15 false, vHash := [5], fBad := false }
  constructor
  · decide
  · exact ⟨rfl, by decide, by decide, by decide⟩

end Sound

end Merkle
end Hbcur
