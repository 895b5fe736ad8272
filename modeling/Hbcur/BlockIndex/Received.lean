import Hbcur.BlockIndex.State

/-!
# New entries and new blocks

`AddToBlockIndex` and `ReceivedBlockTransactions` of `main.cpp`.
-/

namespace Hbcur
namespace BlockIndex

open Foundation

/-!
# New entries
-/

/-- What `AddToBlockIndex` reads of a block header. -/
structure NewHeader where
  hash : Nat
  hashPrevBlock : Nat
  nBits : Nat

namespace BlockTree

def newEntry (tree : BlockTree) (block : NewHeader) : IndexHeader :=
  match tree.mapBlockIndex block.hashPrevBlock with
  | none =>
      { hashBlock := block.hash
        pprev := none
        pskip := none
        nHeight := 0
        nChainWork := getBlockProof block.nBits % 2 ^ 256 }
  | some prev =>
      { hashBlock := block.hash
        pprev := some prev
        pskip := tree.getAncestor prev (getSkipHeight ((tree.header prev).nHeight + 1))
        nHeight := (tree.header prev).nHeight + 1
        nChainWork := ((tree.header prev).nChainWork + getBlockProof block.nBits) % 2 ^ 256 }

variable {tree : BlockTree} {block : NewHeader}

theorem newEntry_hashBlock : (tree.newEntry block).hashBlock = block.hash := by
  unfold newEntry
  cases tree.mapBlockIndex block.hashPrevBlock <;> rfl

theorem newEntry_pprev : (tree.newEntry block).pprev = tree.mapBlockIndex block.hashPrevBlock := by
  unfold newEntry
  cases tree.mapBlockIndex block.hashPrevBlock <;> rfl

theorem lt_size_of_mapBlockIndex {hash p : Nat} (h : tree.mapBlockIndex hash = some p) :
    p < tree.size :=
  ((tree.mapBlockIndex_iff hash p).mp h).1

theorem extended_pprev_lt (p q : Nat)
    (h : (Function.update tree.header tree.size (tree.newEntry block) p).pprev = some q) :
    q < p := by
  by_cases hp : p = tree.size
  · subst hp
    rw [Function.update_self, newEntry_pprev] at h
    exact lt_size_of_mapBlockIndex h
  · rw [Function.update_of_ne hp] at h
    exact tree.pprev_lt p q h

/-- The parents of the old entries are as before. -/
theorem extended_ancestors {p : Nat} (hp : p < tree.size) :
    (Forest.mk (fun p => (Function.update tree.header tree.size (tree.newEntry block) p).pprev)
      extended_pprev_lt).ancestors p = tree.ancestors p := by
  apply Forest.ancestors_congr
  intro x hx
  have hne : x ≠ tree.size := by omega
  change (Function.update tree.header tree.size (tree.newEntry block) x).pprev = _
  rw [Function.update_of_ne hne]
  rfl

/-- The tree with one more entry. -/
def extend (tree : BlockTree) (block : NewHeader)
    (hnew : tree.mapBlockIndex block.hash = none) : BlockTree where
  size := tree.size + 1
  header := Function.update tree.header tree.size (tree.newEntry block)
  mapBlockIndex := Function.update tree.mapBlockIndex block.hash (some tree.size)
  address := tree.address
  pprev_lt := extended_pprev_lt
  pprev_indexed := by
    intro p q h
    by_cases hp : p = tree.size
    · omega
    · rw [Function.update_of_ne hp] at h
      exact Nat.lt_succ_of_lt (tree.pprev_indexed p q h)
  nHeight_root := by
    intro p h
    by_cases hp : p = tree.size
    · subst hp
      rw [Function.update_self] at h ⊢
      rw [newEntry_pprev] at h
      simp [newEntry, h]
    · rw [Function.update_of_ne hp] at h ⊢
      exact tree.nHeight_root p h
  nHeight_child := by
    intro p q h
    by_cases hp : p = tree.size
    · subst hp
      rw [Function.update_self] at h ⊢
      rw [newEntry_pprev] at h
      have hq := lt_size_of_mapBlockIndex h
      rw [Function.update_of_ne (Nat.ne_of_lt hq)]
      simp [newEntry, h]
    · rw [Function.update_of_ne hp] at h ⊢
      have hq := tree.size_pos_of_pprev h
      rw [Function.update_of_ne (Nat.ne_of_lt hq)]
      exact tree.nHeight_child p q h
  pskip_ancestor := by
    intro p q h
    by_cases hp : p = tree.size
    · subst hp
      rw [Function.update_self] at h ⊢
      rw [newEntry_pprev] at h
      have hq := lt_size_of_mapBlockIndex h
      have hheight : getSkipHeight ((tree.header q).nHeight + 1) ≤ tree.forest.depth q := by
        rw [depth_eq_nHeight]
        exact Nat.lt_succ_iff.mp (getSkipHeight_lt (Nat.succ_pos _))
      rcases Forest.exists_ancestor_of_depth hheight with ⟨k, hk, hdepth⟩
      rw [depth_eq_nHeight] at hdepth
      have hklt := lt_size_of_mem_ancestors hk hq
      refine ⟨k, ?_, ?_, ?_⟩
      · simp only [newEntry, h]
        exact getAncestor_eq_some_iff.mpr ⟨hk, hdepth⟩
      · rw [Function.update_of_ne (Nat.ne_of_lt hklt)]
        simpa only [newEntry, h] using hdepth
      · rw [extended_ancestors hq]
        exact hk
    · rw [Function.update_of_ne hp] at h ⊢
      have hq := tree.size_pos_of_pprev h
      rcases tree.pskip_ancestor p q h with ⟨k, hskip, hheight, hk⟩
      have hklt := lt_size_of_mem_ancestors hk hq
      refine ⟨k, hskip, ?_, ?_⟩
      · rw [Function.update_of_ne (Nat.ne_of_lt hklt)]
        exact hheight
      · rw [extended_ancestors hq]
        exact hk
  mapBlockIndex_iff := by
    intro hash p
    by_cases hhash : hash = block.hash
    · subst hhash
      rw [Function.update_self]
      constructor
      · intro h
        cases h
        rw [Function.update_self, newEntry_hashBlock]
        exact ⟨Nat.lt_succ_self _, rfl⟩
      · rintro ⟨hp, heq⟩
        by_cases hps : p = tree.size
        · rw [hps]
        · rw [Function.update_of_ne hps] at heq
          have hsome := (tree.mapBlockIndex_iff block.hash p).mpr ⟨by omega, heq⟩
          rw [hnew] at hsome
          cases hsome
    · rw [Function.update_of_ne hhash, tree.mapBlockIndex_iff]
      by_cases hps : p = tree.size
      · subst hps
        rw [Function.update_self, newEntry_hashBlock]
        constructor
        · rintro ⟨hlt, _⟩
          omega
        · rintro ⟨_, heq⟩
          exact absurd heq.symm hhash
      · rw [Function.update_of_ne hps]
        constructor
        · rintro ⟨hlt, heq⟩
          exact ⟨by omega, heq⟩
        · rintro ⟨hlt, heq⟩
          exact ⟨by omega, heq⟩
  address_injective := tree.address_injective

end BlockTree

namespace IndexState

/-- `AddToBlockIndex`, with the entry which it returns. -/
def addToBlockIndex (s : IndexState) (block : NewHeader) : Nat × IndexState :=
  match hnew : s.tree.mapBlockIndex block.hash with
  | some p => (p, s)
  | none =>
      (s.tree.size,
        { s with
          tree := s.tree.extend block hnew
          status := Function.update s.status s.tree.size
            (({} : IndexStatus).raiseValidity Validity.tree) })

/-!
# New blocks
-/

/-- The `nChainTx` of the parent. -/
def nChainTxPrev (s : IndexState) (p : Nat) : Nat :=
  match (s.header p).pprev with
  | none => 0
  | some q => (s.status q).nChainTx

/-- The entry gets its total and its sequence id. -/
def number (s : IndexState) (p : Nat) : IndexState :=
  { s.updateStatus p (fun st =>
      { st with
        nChainTx := (s.nChainTxPrev p + st.nTx) % 2 ^ 32
        nSequenceId := s.nBlockSequenceId }) with
    nBlockSequenceId := (s.nBlockSequenceId + 1) % 2 ^ 32 }

/-- Make an entry a candidate unless it is worse than the tip. -/
def offer (s : IndexState) (p : Nat) : IndexState :=
  if s.worseThanTip p then s else s.insertCandidate p

/-- One turn of the queue. -/
def link (s : IndexState) (p : Nat) : IndexState := (s.number p).offer p

/-- Take the entries which wait for `p` out of `mapBlocksUnlinked`. -/
def release (s : IndexState) (p : Nat) : IndexState :=
  { s with mapBlocksUnlinked := s.mapBlocksUnlinked.filter (fun e => decide (e.1 ≠ some p)) }

def waiting (s : IndexState) (p : Nat) : List Nat :=
  (s.mapBlocksUnlinked.filter (fun e => decide (e.1 = some p))).map Prod.snd

/-- Every turn takes an entry off the queue and out of `mapBlocksUnlinked`. -/
def linkLoop : Nat -> List Nat -> IndexState -> IndexState
  | 0, _, s => s
  | _ + 1, [], s => s
  | fuel + 1, p :: queue, s =>
      linkLoop fuel (queue ++ s.waiting p) ((s.link p).release p)

/-- The block data is there. -/
def store (s : IndexState) (nTx p : Nat) : IndexState :=
  s.updateStatus p (fun st =>
    ({ st with nTx := nTx, nChainTx := 0, fHaveData := true } : IndexStatus).raiseValidity
      Validity.transactions)

def receivedBlockTransactions (s : IndexState) (nTx p : Nat) : IndexState :=
  let stored := s.store nTx p
  let linkAll := linkLoop (stored.mapBlocksUnlinked.length + 1) [p] stored
  match (s.header p).pprev with
  | none => linkAll
  | some q =>
      if (stored.status q).nChainTx ≠ 0 then linkAll
      else if (stored.status q).isValid Validity.tree then
        { stored with mapBlocksUnlinked := stored.mapBlocksUnlinked ++ [(some q, p)] }
      else stored

theorem store_status_of_ne {s : IndexState} {nTx p x : Nat} (h : x ≠ p) :
    (s.store nTx p).status x = s.status x :=
  Function.update_of_ne h _ _

/-!
# The queue
-/

section Queue

variable {s : IndexState} {p x t : Nat}

@[simp] theorem offer_tree : (s.offer p).tree = s.tree := by
  unfold offer
  split_ifs <;> rfl

@[simp] theorem offer_status : (s.offer p).status = s.status := by
  unfold offer
  split_ifs <;> rfl

@[simp] theorem offer_vChain : (s.offer p).vChain = s.vChain := by
  unfold offer
  split_ifs <;> rfl

@[simp] theorem offer_unlinked : (s.offer p).mapBlocksUnlinked = s.mapBlocksUnlinked := by
  unfold offer
  split_ifs <;> rfl

theorem mem_offer_candidates_iff :
    x ∈ (s.offer p).setBlockIndexCandidates <->
      x ∈ s.setBlockIndexCandidates ∨ (x = p ∧ s.worseThanTip p = false) := by
  unfold offer
  cases s.worseThanTip p with
  | true => simp
  | false => simp [insertCandidate, or_comm]

@[simp] theorem link_tree : (s.link p).tree = s.tree := offer_tree

@[simp] theorem link_vChain : (s.link p).vChain = s.vChain := offer_vChain

@[simp] theorem link_unlinked : (s.link p).mapBlocksUnlinked = s.mapBlocksUnlinked :=
  offer_unlinked

theorem link_status_self :
    (s.link p).status p =
      { s.status p with
        nChainTx := (s.nChainTxPrev p + (s.status p).nTx) % 2 ^ 32
        nSequenceId := s.nBlockSequenceId } := by
  rw [link, offer_status]
  exact Function.update_self _ _ _

theorem link_status_of_ne (h : x ≠ p) : (s.link p).status x = s.status x := by
  rw [link, offer_status]
  exact Function.update_of_ne h _ _

theorem mem_link_candidates_iff :
    x ∈ (s.link p).setBlockIndexCandidates <->
      x ∈ s.setBlockIndexCandidates ∨ (x = p ∧ (s.link p).worseThanTip p = false) := by
  have hworse : (s.link p).worseThanTip p = (s.number p).worseThanTip p := by
    unfold worseThanTip IndexState.tip
    rw [link, offer_vChain]
    cases BlockIndex.tip (s.number p).vChain with
    | none => rfl
    | some t => exact less_congr offer_tree (by rw [offer_status]) (by rw [offer_status])
  rw [hworse, link, mem_offer_candidates_iff]
  rfl

theorem link_less_of_ne {a b : Nat} (ha : a ≠ p) (hb : b ≠ p) :
    (s.link p).less a b = s.less a b :=
  less_congr link_tree (by rw [link_status_of_ne ha]) (by rw [link_status_of_ne hb])

end Queue

end IndexState

end BlockIndex
end Hbcur
