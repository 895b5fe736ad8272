import Hbcur.Merkle.Tree

/-!
# Completeness of partial merkle trees

The extracting traversal undoes the building traversal.  At every node of the tree the bits and
hashes which building pushes are the ones which extracting consumes, and extracting returns the
node and pushes the masked transaction ids below it.
-/

namespace Hbcur
namespace Merkle

open Foundation Serialize

/-!
# The transactions below a node
-/

section Below

variable {item : Type}

/-- The part of a list indexed by transactions which is below a node. -/
def below (l : List item) (height pos : Nat) : List item :=
  (l.drop (pos * 2 ^ height)).take (2 ^ height)

theorem below_succ (l : List item) (height pos : Nat) :
    below l (height + 1) pos = below l height (pos * 2) ++ below l height (pos * 2 + 1) := by
  have hstart : pos * 2 ^ (height + 1) = pos * 2 * 2 ^ height := by
    rw [Nat.pow_succ, Nat.mul_comm (2 ^ height), ← Nat.mul_assoc]
  have hmiddle : (pos * 2 + 1) * 2 ^ height = pos * 2 * 2 ^ height + 2 ^ height :=
    Nat.succ_mul _ _
  have hsize : 2 ^ (height + 1) = 2 ^ height + 2 ^ height := by
    rw [Nat.pow_succ, Nat.mul_two]
  unfold below
  rw [hstart, hmiddle, hsize, List.take_add, List.drop_drop]

theorem length_below_pos {l : List item} {height pos : Nat}
    (h : pos < calcTreeWidth l.length height) : 0 < (below l height pos).length := by
  have hstart := lt_calcTreeWidth_iff.mp h
  have hpow := Nat.two_pow_pos height
  rw [below, List.length_take, List.length_drop]
  omega

theorem below_eq_nil {l : List item} {height pos : Nat}
    (h : ¬ pos < calcTreeWidth l.length height) : below l height pos = [] := by
  rw [lt_calcTreeWidth_iff] at h
  rw [below, List.drop_eq_nil_of_le (Nat.le_of_not_lt h), List.take_nil]

/-- Everything is below the top. -/
theorem below_top {l : List item} {height : Nat} (h : calcTreeWidth l.length height ≤ 1) :
    below l height 0 = l := by
  have hlength : ¬ 1 < calcTreeWidth l.length height := Nat.not_lt.mpr h
  rw [lt_calcTreeWidth_iff, Nat.one_mul] at hlength
  rw [below, Nat.zero_mul, List.drop_zero, List.take_of_length_le (Nat.le_of_not_lt hlength)]

end Below

/-- The transaction ids which the mask selects. -/
def masked (l : List (UInt256 × Bool)) : List UInt256 :=
  (l.filter Prod.snd).map Prod.fst

theorem masked_append (l l' : List (UInt256 × Bool)) :
    masked (l ++ l') = masked l ++ masked l' := by
  simp [masked]

theorem masked_eq_nil {l : List (UInt256 × Bool)} (h : (l.map Prod.snd).any id = false) :
    masked l = [] := by
  rw [masked, List.filter_eq_nil_iff.mpr, List.map_nil]
  intro entry hmem hset
  rw [List.any_eq_false] at h
  exact h entry.2 (List.mem_map_of_mem hmem) hset

section Encoding

variable (hashPair : UInt256 -> UInt256 -> UInt256) (vTxid : List UInt256) (vMatch : List Bool)

theorem parentLoop_spec (hlength : vMatch.length = vTxid.length) (bound : Nat) :
    forall rounds p fParentOfMatch, p + rounds = bound ->
      parentLoop vTxid vMatch bound rounds p fParentOfMatch =
        (fParentOfMatch || ((vMatch.drop p).take rounds).any id) := by
  intro rounds
  induction rounds with
  | zero =>
      intro p fParentOfMatch hbound
      simp [parentLoop]
  | succ rounds ih =>
      intro p fParentOfMatch hbound
      have hin : p < bound := by omega
      by_cases hp : p < vTxid.length
      · have hget : p < vMatch.length := by
          rw [hlength]
          exact hp
        rw [parentLoop, if_pos (by simp [hin, hp]), ih (p + 1) _ (by omega),
          List.drop_eq_getElem_cons hget, List.take_succ_cons, List.any_cons, Bool.or_assoc,
          List.getD_eq_getElem?_getD, List.getElem?_eq_getElem hget, Option.getD_some, id]
      · have hend : vMatch.length ≤ p := by
          rw [hlength]
          exact Nat.le_of_not_lt hp
        rw [parentLoop, if_neg (by simp [hp]), List.drop_eq_nil_of_le hend]
        simp

theorem isParentOfMatch_eq (hlength : vMatch.length = vTxid.length) (height pos : Nat) :
    isParentOfMatch vTxid vMatch height pos = (below vMatch height pos).any id := by
  unfold isParentOfMatch below
  rw [Nat.shiftLeft_eq, Nat.shiftLeft_eq, Nat.shiftLeft_eq, Nat.one_mul,
    parentLoop_spec vTxid vMatch hlength _ _ _ _ (Nat.succ_mul pos _).symm, Bool.false_or]

/-!
# Reading at a position
-/

theorem getElem?_of_prefix_cons {item : Type} {x : item} {xs l : List item} {k : Nat}
    (h : x :: xs <+: l.drop k) : l[k]? = some x ∧ xs <+: l.drop (k + 1) := by
  rcases h with ⟨rest, hrest⟩
  constructor
  · have hget := congrArg (fun l' => l'[0]?) hrest
    simpa using hget.symm
  · exact ⟨rest, by rw [← List.drop_drop, ← hrest]; rfl⟩

theorem prefix_of_append_prefix {item : Type} {xs ys l : List item} {k : Nat}
    (h : xs ++ ys <+: l.drop k) : xs <+: l.drop k ∧ ys <+: l.drop (k + xs.length) := by
  rcases h with ⟨rest, hrest⟩
  constructor
  · exact ⟨ys ++ rest, by rw [← List.append_assoc, hrest]⟩
  · exact ⟨rest, by rw [← List.drop_drop, ← hrest, List.append_assoc, List.drop_left]⟩

/-!
# One node
-/

/-- The bits and hashes which stand for the part of the tree below a node. -/
structure Encodes (height pos : Nat) (bits : List Bool) (hashes : List UInt256) : Prop where
  built : forall tree : CPartialMerkleTree, traverseAndBuild hashPair vTxid vMatch height pos tree =
    { tree with vBits := tree.vBits ++ bits, vHash := tree.vHash ++ hashes }
  extracted : forall (tree : CPartialMerkleTree) (t : Traversal),
    tree.nTransactions = vTxid.length -> bits <+: tree.vBits.drop t.nBitsUsed ->
    hashes <+: tree.vHash.drop t.nHashUsed ->
    traverseAndExtract hashPair tree height pos t =
      (calcHash hashPair vTxid height pos,
        { nBitsUsed := t.nBitsUsed + bits.length
          nHashUsed := t.nHashUsed + hashes.length
          vMatch := t.vMatch ++ masked (below (vTxid.zip vMatch) height pos)
          fBad := t.fBad })
  hashes_le : hashes.length ≤ (below vTxid height pos).length
  hashes_le_bits : hashes.length ≤ bits.length
  bits_lt : bits.length < 2 ^ (height + 1)

variable {hashPair vTxid vMatch}

theorem traverseAndBuild_stored {height pos : Nat}
    (h : height = 0 ∨ isParentOfMatch vTxid vMatch height pos = false)
    (tree : CPartialMerkleTree) :
    traverseAndBuild hashPair vTxid vMatch height pos tree =
      storeHash tree (isParentOfMatch vTxid vMatch height pos)
        (calcHash hashPair vTxid height pos) := by
  cases height with
  | zero => rfl
  | succ height =>
      rcases h with hzero | hfalse
      · cases hzero
      · rw [traverseAndBuild]
        simp [hfalse]

theorem traverseAndExtract_stored {tree : CPartialMerkleTree} {t : Traversal} {height pos : Nat}
    {bit : Bool} {hash : UInt256} (h : height = 0 ∨ bit = false)
    (hbit : tree.vBits[t.nBitsUsed]? = some bit) (hhash : tree.vHash[t.nHashUsed]? = some hash) :
    traverseAndExtract hashPair tree height pos t =
      (hash, { nBitsUsed := t.nBitsUsed + 1, nHashUsed := t.nHashUsed + 1,
               vMatch := t.vMatch ++ if bit then [hash] else [], fBad := t.fBad }) := by
  have hmatch : (if bit then t.vMatch ++ [hash] else t.vMatch) =
      t.vMatch ++ if bit then [hash] else [] := by
    cases bit with
    | false => simp
    | true => rfl
  cases height with
  | zero => simp only [traverseAndExtract, hbit, useStoredHash, hhash, hmatch]
  | succ height =>
      rcases h with hzero | hfalse
      · cases hzero
      · simp [traverseAndExtract, hbit, useStoredHash, hhash, hfalse]

/-- The matches pushed at a node which stores its hash. -/
theorem masked_below_stored (hlength : vMatch.length = vTxid.length) {height pos : Nat}
    (hpos : pos < calcTreeWidth vTxid.length height)
    (h : height = 0 ∨ isParentOfMatch vTxid vMatch height pos = false) :
    masked (below (vTxid.zip vMatch) height pos) =
      if isParentOfMatch vTxid vMatch height pos then [calcHash hashPair vTxid height pos]
      else [] := by
  rw [isParentOfMatch_eq vTxid vMatch hlength] at h ⊢
  have hmask : (below (vTxid.zip vMatch) height pos).map Prod.snd = below vMatch height pos := by
    rw [below, below, List.map_take, List.map_drop, List.map_snd_zip (Nat.le_of_eq hlength)]
  by_cases hany : (below vMatch height pos).any id
  · have hzero : height = 0 := h.resolve_right (by rw [hany]; exact Bool.noConfusion)
    subst hzero
    rw [calcTreeWidth_zero] at hpos
    have hpos' : pos < vMatch.length := by rw [hlength]; exact hpos
    have hone : forall {item : Type} (l : List item) (hl : pos < l.length),
        below l 0 pos = [l[pos]] := by
      intro item l hl
      rw [below, Nat.pow_zero, Nat.mul_one, List.drop_eq_getElem_cons hl, List.take_succ_cons,
        List.take_zero]
    rw [hone vMatch hpos'] at hany ⊢
    rw [hone _ (by rw [List.length_zip]; omega), if_pos hany]
    have hset : vMatch[pos] = true := by simpa using hany
    simp [masked, calcHash, hset, hpos]
  · rw [if_neg hany, masked_eq_nil]
    rw [hmask]
    exact Bool.eq_false_iff.mpr hany

theorem encodes_stored (hlength : vMatch.length = vTxid.length) {height pos : Nat}
    (hpos : pos < calcTreeWidth vTxid.length height)
    (h : height = 0 ∨ isParentOfMatch vTxid vMatch height pos = false) :
    Encodes hashPair vTxid vMatch height pos [isParentOfMatch vTxid vMatch height pos]
      [calcHash hashPair vTxid height pos] where
  built := traverseAndBuild_stored h
  extracted := by
    intro tree t hcount hbits hhashes
    rw [traverseAndExtract_stored h (getElem?_of_prefix_cons hbits).1
      (getElem?_of_prefix_cons hhashes).1, masked_below_stored hlength hpos h]
    rfl
  hashes_le := length_below_pos hpos
  hashes_le_bits := Nat.le_refl 1
  bits_lt := Nat.one_lt_two_pow (Nat.succ_ne_zero height)

/-- A descent into both children, or into the only one. -/
theorem encodes_descend {height pos : Nat} {bits bits' : List Bool} {hashes hashes' : List UInt256}
    (hparent : isParentOfMatch vTxid vMatch (height + 1) pos = true)
    (hlength : vMatch.length = vTxid.length)
    (hleft : Encodes hashPair vTxid vMatch height (pos * 2) bits hashes)
    (hright : if pos * 2 + 1 < calcTreeWidth vTxid.length height then
        Encodes hashPair vTxid vMatch height (pos * 2 + 1) bits' hashes'
      else bits' = [] ∧ hashes' = []) :
    Encodes hashPair vTxid vMatch (height + 1) pos (true :: (bits ++ bits')) (hashes ++ hashes') where
  built := by
    intro tree
    rw [traverseAndBuild]
    simp only [hparent, Bool.not_true, Bool.false_eq_true, if_false, hleft.built]
    split
    · rename_i hin
      rw [if_pos hin] at hright
      rw [hright.built]
      simp
    · rename_i hout
      rw [if_neg hout] at hright
      rw [hright.1, hright.2]
      simp
  extracted := by
    intro tree t hcount hbits hhashes
    rcases getElem?_of_prefix_cons hbits with ⟨hbit, hrest⟩
    rcases prefix_of_append_prefix hrest with ⟨hbits1, hbits2⟩
    rcases prefix_of_append_prefix hhashes with ⟨hhashes1, hhashes2⟩
    have hfirst := hleft.extracted tree { t with nBitsUsed := t.nBitsUsed + 1 } hcount hbits1
      hhashes1
    rw [traverseAndExtract]
    simp only [hbit, Bool.not_true, Bool.false_eq_true, if_false, hfirst, hcount, calcHash,
      below_succ, masked_append]
    split
    · rename_i hin
      rw [if_pos hin] at hright
      rw [hright.extracted tree _ hcount hbits2 hhashes2]
      simp only [List.length_cons, List.length_append, List.append_assoc]
      congr 2 <;> omega
    · rename_i hout
      rw [if_neg hout] at hright
      have hnone : ¬ pos * 2 + 1 < calcTreeWidth (vTxid.zip vMatch).length height := by
        rw [List.length_zip, hlength, Nat.min_self]
        exact hout
      rw [below_eq_nil hnone, hright.1, hright.2]
      simp [masked]
      omega
  hashes_le := by
    have hleft' := hleft.hashes_le
    rw [below_succ, List.length_append, List.length_append]
    split at hright
    · have hright' := hright.hashes_le
      omega
    · rw [hright.2, List.length_nil]
      omega
  hashes_le_bits := by
    have hleft' := hleft.hashes_le_bits
    rw [List.length_cons, List.length_append, List.length_append]
    split at hright
    · have hright' := hright.hashes_le_bits
      omega
    · rw [hright.2, List.length_nil]
      omega
  bits_lt := by
    have hleft' := hleft.bits_lt
    rw [List.length_cons, List.length_append, Nat.pow_succ]
    split at hright
    · have hright' := hright.bits_lt
      omega
    · rw [hright.1, List.length_nil]
      omega

/-- Every node of the tree has its bits and hashes; the children's come from the induction. -/
theorem exists_encodes (hlength : vMatch.length = vTxid.length) :
    forall height pos, pos < calcTreeWidth vTxid.length height ->
      exists bits hashes, Encodes hashPair vTxid vMatch height pos bits hashes := by
  intro height
  induction height with
  | zero =>
      intro pos hpos
      exact ⟨_, _, encodes_stored hlength hpos (Or.inl rfl)⟩
  | succ height ih =>
      intro pos hpos
      cases hparent : isParentOfMatch vTxid vMatch (height + 1) pos with
      | false => exact ⟨_, _, encodes_stored hlength hpos (Or.inr hparent)⟩
      | true =>
          rw [calcTreeWidth_succ] at hpos
          rcases ih (pos * 2) (by omega) with ⟨bits, hashes, hleft⟩
          by_cases hin : pos * 2 + 1 < calcTreeWidth vTxid.length height
          · rcases ih (pos * 2 + 1) hin with ⟨bits', hashes', hright⟩
            exact ⟨_, _, encodes_descend hparent hlength hleft (by rw [if_pos hin]; exact hright)⟩
          · exact ⟨_, _, encodes_descend hparent hlength hleft
              (by rw [if_neg hin]; exact ⟨rfl, rfl⟩)⟩

end Encoding

/-!
# The round trip
-/

/-- The tree read back: its bits are padded to whole bytes. -/
def CPartialMerkleTree.received (tree : CPartialMerkleTree) : CPartialMerkleTree :=
  { tree with vBits := unpackBits (packBits tree.vBits), fBad := false }

theorem reads_serialize {tree : CPartialMerkleTree} (hcount : tree.nTransactions < 256 ^ 4)
    (hhashes : tree.vHash.length ≤ MAX_SIZE) (hbits : (packBits tree.vBits).length ≤ MAX_SIZE) :
    Reads CPartialMerkleTree.unserialize tree.serialize tree.received := by
  intro rest
  have h1 := reads_writeLE hcount (writeVector writeUInt256 tree.vHash ++
    (writeBytes (packBits tree.vBits) ++ rest))
  have h2 := reads_writeVector hhashes (fun hash _ => reads_writeUInt256 hash)
    (writeBytes (packBits tree.vBits) ++ rest)
  have h3 := reads_writeBytes hbits rest
  rw [List.map_id'] at h2
  simp only [CPartialMerkleTree.unserialize, CPartialMerkleTree.serialize, List.append_assoc, h1,
    h2, h3]
  rfl

theorem heightLoop_le {nTransactions bound : Nat} (h : nTransactions ≤ 2 ^ bound) :
    forall rounds nHeight, nHeight ≤ bound -> heightLoop nTransactions rounds nHeight ≤ bound := by
  intro rounds
  induction rounds with
  | zero =>
      intro nHeight hle
      exact hle
  | succ rounds ih =>
      intro nHeight hle
      rw [heightLoop]
      split
      · rename_i hwide
        apply ih
        rcases Nat.lt_or_eq_of_le hle with hlt | heq
        · exact hlt
        · rw [lt_calcTreeWidth_iff, heq] at hwide
          omega
      · exact hle

/-- A block's transactions make a tree of at most 17 levels above them. -/
theorem treeHeight_le {nTransactions : Nat} (h : nTransactions ≤ MAX_BLOCK_SIZE / 60) :
    treeHeight nTransactions ≤ 17 := by
  have hmax : MAX_BLOCK_SIZE / 60 ≤ 2 ^ 17 := by decide
  exact heightLoop_le (Nat.le_trans h hmax) _ _ (Nat.zero_le 17)

/-- An encoding of the root is short enough to be sent. -/
theorem Encodes.root_lengths {bits : List Bool} {hashes : List UInt256} (hne : vTxid ≠ [])
    (hmax : vTxid.length ≤ MAX_BLOCK_SIZE / 60)
    (henc : Encodes hashPair vTxid vMatch (treeHeight vTxid.length) 0 bits hashes) :
    hashes.length ≤ vTxid.length ∧ bits.length < 2 ^ 18 := by
  have hwidth := calcTreeWidth_treeHeight (List.length_pos_of_ne_nil hne)
  constructor
  · have hle := henc.hashes_le
    rw [below_top (Nat.le_of_eq hwidth)] at hle
    exact hle
  · exact Nat.lt_of_lt_of_le henc.bits_lt
      (Nat.pow_le_pow_right Nat.two_pos (Nat.succ_le_succ (treeHeight_le hmax)))

/-- Extraction passes all its checks, although padding bits have been received. -/
theorem Encodes.extractMatches_received {bits : List Bool} {hashes : List UInt256}
    (hne : vTxid ≠ []) (hmax : vTxid.length ≤ MAX_BLOCK_SIZE / 60)
    (hlength : vMatch.length = vTxid.length)
    (henc : Encodes hashPair vTxid vMatch (treeHeight vTxid.length) 0 bits hashes) :
    extractMatches hashPair (CPartialMerkleTree.mk vTxid.length bits hashes false).received =
      { hashMerkleRoot := (buildMerkleTree hashPair vTxid).1
        vMatch := masked (vTxid.zip vMatch)
        fBad := false } := by
  have hcount := List.length_pos_of_ne_nil hne
  have hwidth := calcTreeWidth_treeHeight hcount
  have hlimit : MAX_BLOCK_SIZE / 60 = 66666 := rfl
  rcases henc.root_lengths hne hmax with ⟨hhashes, hbits⟩
  have hpacked := length_packBits bits
  have hunpacked := length_unpackBits (packBits bits)
  have hpadded : bits.length ≤ (unpackBits (packBits bits)).length := by omega
  have hfew := henc.hashes_le_bits
  have hextract := henc.extracted (CPartialMerkleTree.mk vTxid.length bits hashes false).received
    ⟨0, 0, [], false⟩ rfl (prefix_unpackBits bits) List.prefix_rfl
  have hzip : calcTreeWidth (vTxid.zip vMatch).length (treeHeight vTxid.length) ≤ 1 := by
    rw [List.length_zip, hlength, Nat.min_self]
    exact Nat.le_of_eq hwidth
  have hbytes : (bits.length + 7) / 8 = ((unpackBits (packBits bits)).length + 7) / 8 := by omega
  rw [below_top hzip] at hextract
  rw [buildMerkleTree_root hashPair hne]
  simp only [CPartialMerkleTree.received] at hextract ⊢
  simp only [extractMatches]
  rw [if_neg (by omega), if_neg (by omega), if_neg (by omega), if_neg (by omega), hextract]
  simp [hbytes]

/-- A tree built from a mask and sent over the wire yields the merkle root of the block and the
masked transaction ids in order. -/
theorem extractMatches_of_new (hashPair : UInt256 -> UInt256 -> UInt256) (vTxid : List UInt256)
    (vMatch : List Bool) (hne : vTxid ≠ []) (hmax : vTxid.length ≤ MAX_BLOCK_SIZE / 60)
    (hlength : vMatch.length = vTxid.length) :
    (CPartialMerkleTree.unserialize
        (CPartialMerkleTree.new hashPair vTxid vMatch).serialize).map
      (fun found => (extractMatches hashPair found.1, found.2)) =
    some ({ hashMerkleRoot := (buildMerkleTree hashPair vTxid).1
            vMatch := masked (vTxid.zip vMatch)
            fBad := false }, []) := by
  have hwidth := calcTreeWidth_treeHeight (List.length_pos_of_ne_nil hne)
  have hroot : 0 < calcTreeWidth vTxid.length (treeHeight vTxid.length) := by omega
  have hencodes : exists bits hashes,
      Encodes hashPair vTxid vMatch (treeHeight vTxid.length) 0 bits hashes :=
    exists_encodes hlength _ 0 hroot
  rcases hencodes with ⟨bits, hashes, henc⟩
  have hnew : CPartialMerkleTree.new hashPair vTxid vMatch =
      CPartialMerkleTree.mk vTxid.length bits hashes false := by
    rw [CPartialMerkleTree.new, henc.built]
    rfl
  have hlimit : MAX_BLOCK_SIZE / 60 = 66666 := rfl
  have hsize : MAX_SIZE = 33554432 := rfl
  have hpacked := length_packBits bits
  rcases henc.root_lengths hne hmax with ⟨hhashes, hbits⟩
  have hread : Reads CPartialMerkleTree.unserialize
      (CPartialMerkleTree.mk vTxid.length bits hashes false).serialize
      (CPartialMerkleTree.mk vTxid.length bits hashes false).received := by
    apply reads_serialize
    · change vTxid.length < 4294967296
      omega
    · change hashes.length ≤ MAX_SIZE
      omega
    · change (packBits bits).length ≤ MAX_SIZE
      omega
  have hwhole := hread []
  rw [List.append_nil] at hwhole
  rw [hnew, hwhole, Option.map_some, henc.extractMatches_received hne hmax hlength]

theorem extractMatches_of_new_three :
    [1, 2, 3] ≠ ([] : List UInt256) ∧
    (CPartialMerkleTree.unserialize
        (CPartialMerkleTree.new (fun a b => a + 2 * b + 1) [1, 2, 3] [false, true, true]).serialize).map
      (fun found => (extractMatches (fun a b => a + 2 * b + 1) found.1, found.2)) =
    some ({ hashMerkleRoot := 27, vMatch := [2, 3], fBad := false }, []) :=
  ⟨List.cons_ne_nil 1 [2, 3],
    extractMatches_of_new (fun a b => a + 2 * b + 1) [1, 2, 3] [false, true, true]
      (List.cons_ne_nil 1 [2, 3]) (by decide) rfl⟩

end Merkle
end Hbcur
