import Hbcur.BlockIndex.Step

/-!
# Invalidating and reconsidering blocks
-/

namespace Hbcur
namespace BlockIndex

open Foundation

namespace IndexState

variable {hashGenesis : Nat} {s s' : IndexState} {t p q m x : Nat}

theorem mem_foldl_insert {candidates ps : List Nat} {c : Nat} :
    c ∈ ps.foldl (fun candidates p => candidates.insert p) candidates <->
      c ∈ candidates ∨ c ∈ ps := by
  induction ps generalizing candidates with
  | nil => simp
  | cons p ps ih =>
      rw [List.foldl_cons, ih, List.mem_insert_iff, List.mem_cons]
      constructor
      · rintro ((h | h) | h)
        · exact Or.inr (Or.inl h)
        · exact Or.inl h
        · exact Or.inr (Or.inr h)
      · rintro (h | h | h)
        · exact Or.inl (Or.inr h)
        · exact Or.inl (Or.inl h)
        · exact Or.inr h

theorem mem_insertWhere_iff {test : Nat -> Bool} {c : Nat} :
    c ∈ (s.insertWhere test).setBlockIndexCandidates <->
      c ∈ s.setBlockIndexCandidates ∨ (c < s.tree.size ∧ test c = true) := by
  unfold insertWhere
  rw [mem_foldl_insert, List.mem_filter, List.mem_range]

theorem sameLinks_insertWhere (s : IndexState) (test : Nat -> Bool) :
    SameLinks s (s.insertWhere test) :=
  ⟨rfl, rfl, fun _ => rfl, fun _ => rfl, fun _ => rfl, fun _ => rfl, fun _ _ => Iff.rfl⟩

/-!
# Invalidating
-/

/-- The entries which `InvalidateBlock` marks: `p`, and the active chain above it. -/
def Invalidated (s : IndexState) (t p x : Nat) : Prop :=
  x = p ∨ (x ∈ s.tree.ancestors t ∧ p ∈ s.tree.ancestors x)

/-- The marking loop of `InvalidateBlock`, when all blocks can be disconnected. -/
structure LoopDone (s : IndexState) (t p : Nat) (result : Bool × IndexState) (q : Nat) :
    Prop where
  ok : result.1 = true
  tree : result.2.tree = s.tree
  unlinked : result.2.mapBlocksUnlinked = s.mapBlocksUnlinked
  onChain : result.2.OnChain q
  below : q ∈ s.tree.ancestors t
  off : forall x, x ∈ s.tree.ancestors q -> p ∉ s.tree.ancestors x
  marked : forall x, x ∈ s.tree.ancestors t -> p ∈ s.tree.ancestors x ->
    result.2.status x = { s.status x with fFailedChild := true }
  kept : forall x, ¬ (x ∈ s.tree.ancestors t ∧ p ∈ s.tree.ancestors x) ->
    result.2.status x = s.status x
  candidates : forall c, c ∈ result.2.setBlockIndexCandidates <->
    c ∈ s.setBlockIndexCandidates ∧ ¬ (c ∈ s.tree.ancestors t ∧ p ∈ s.tree.ancestors c)

theorem loopDone_of_off (ht : s.OnChain t) (hoff : p ∉ s.tree.ancestors t) :
    LoopDone s t p (true, s) t := by
  have hnone : forall x, x ∈ s.tree.ancestors t -> p ∉ s.tree.ancestors x :=
    fun x hx hpx => hoff (Forest.mem_ancestors_trans hpx hx)
  refine ⟨rfl, rfl, rfl, ht, Forest.mem_ancestors_self t, hnone, ?_, fun _ _ => rfl, ?_⟩
  · intro x hx hpx
    exact absurd hpx (hnone x hx)
  · intro c
    constructor
    · intro hc
      exact ⟨hc, fun hbad => hnone c hbad.1 hbad.2⟩
    · exact fun hc => hc.1

theorem exists_loopDone {disconnects : Nat -> Bool} (fuel : Nat) :
    forall (s : IndexState) (t : Nat), s.OnChain t -> (s.header p).pprev ≠ none ->
      (forall x, x ∈ s.tree.ancestors t -> disconnects x = true) ->
      (s.header t).nHeight < (s.header p).nHeight + fuel ->
      exists q, LoopDone s t p (invalidateLoop disconnects p fuel s) q := by
  induction fuel with
  | zero =>
      intro s t ht _ _ hfuel
      refine ⟨t, loopDone_of_off ht ?_⟩
      intro hp
      have hle := BlockTree.nHeight_le_of_mem_ancestors hp
      unfold IndexState.header at hfuel
      omega
  | succ fuel ih =>
      intro s t ht hroot hd hfuel
      unfold invalidateLoop
      by_cases hp : p ∈ s.tree.ancestors t
      · rw [if_pos (ht.contains_iff.mpr hp), ht.tip_eq]
        simp only [hd t (Forest.mem_ancestors_self t), if_true]
        have hprev : exists q, (s.header t).pprev = some q := by
          cases hprev : (s.header t).pprev with
          | some q => exact ⟨q, rfl⟩
          | none =>
              rw [BlockTree.ancestors, Forest.ancestors_of_root hprev,
                List.mem_singleton] at hp
              rw [hp] at hroot
              exact absurd hprev hroot
        rcases hprev with ⟨q, hprev⟩
        have hheight := s.tree.nHeight_child t q hprev
        -- the tip is marked and taken off the chain
        let s1 : IndexState := (s.updateStatus t
          (fun st => { st with fFailedChild := true })).eraseCandidates [t]
        have hstep : s1.updateTip (s.header t).pprev = s1.atTip q := by
          rw [hprev]
          exact updateTip_eq_atTip (s := s1) ht q
        have hself : s1.status t = { s.status t with fFailedChild := true } :=
          Function.update_self _ _ _
        have hne : forall x, x ≠ t -> s1.status x = s.status x :=
          fun x hx => Function.update_of_ne hx _ _
        have hcand : forall c, c ∈ s1.setBlockIndexCandidates <->
            c ∈ s.setBlockIndexCandidates ∧ c ≠ t := by
          intro c
          simp [s1, eraseCandidates, updateStatus]
        change exists q, LoopDone s t p (invalidateLoop disconnects p fuel
          (s1.updateTip (s.header t).pprev)) q
        rw [hstep]
        rcases ih (s1.atTip q) q (onChain_atTip s1 q) hroot
          (fun x hx => hd x (Forest.mem_ancestors_of_parent hprev hx))
          (by change (s.tree.header q).nHeight < (s.tree.header p).nHeight + fuel
              unfold IndexState.header at hfuel
              omega) with ⟨q', hdone⟩
        have htq : t ∉ s.tree.ancestors q := Forest.not_mem_ancestors_parent hprev
        have hsplit : forall x, x ∈ s.tree.ancestors t <-> x = t ∨ x ∈ s.tree.ancestors q := by
          intro x
          constructor
          · intro hx
            by_cases hxt : x = t
            · exact Or.inl hxt
            · exact Or.inr (Forest.mem_ancestors_parent hprev hx hxt)
          · rintro (rfl | hx)
            · exact Forest.mem_ancestors_self x
            · exact Forest.mem_ancestors_of_parent hprev hx
        refine ⟨q', hdone.ok, hdone.tree, hdone.unlinked, hdone.onChain,
          Forest.mem_ancestors_of_parent hprev hdone.below, hdone.off, ?_, ?_, ?_⟩
        · intro x hx hpx
          rcases (hsplit x).mp hx with rfl | hxq
          · rw [hdone.kept x (fun hbad => htq hbad.1)]
            exact hself
          · rw [hdone.marked x hxq hpx]
            have hxt : x ≠ t := fun hxt => htq (hxt ▸ hxq)
            change { s1.status x with fFailedChild := true } = _
            rw [hne x hxt]
        · intro x hx
          have hxt : x ≠ t := by
            intro hxt
            exact hx ⟨(hsplit x).mpr (Or.inl hxt), by rw [hxt]; exact hp⟩
          rw [hdone.kept x (fun hbad => hx ⟨(hsplit x).mpr (Or.inr hbad.1), hbad.2⟩)]
          exact hne x hxt
        · intro c
          rw [hdone.candidates c]
          change (c ∈ s1.setBlockIndexCandidates ∧
            ¬ (c ∈ s.tree.ancestors q ∧ p ∈ s.tree.ancestors c)) <-> _
          rw [hcand]
          constructor
          · rintro ⟨⟨hc, hct⟩, hnot⟩
            refine ⟨hc, ?_⟩
            rintro ⟨hct', hpc⟩
            rcases (hsplit c).mp hct' with h | h
            · exact hct h
            · exact hnot ⟨h, hpc⟩
          · rintro ⟨hc, hnot⟩
            refine ⟨⟨hc, ?_⟩, ?_⟩
            · intro hct
              exact hnot ⟨(hsplit c).mpr (Or.inl hct), by rw [hct]; exact hp⟩
            · rintro ⟨hcq, hpc⟩
              exact hnot ⟨(hsplit c).mpr (Or.inr hcq), hpc⟩
      · have hcontains : s.contains p = false := by
          rw [← Bool.not_eq_true, ht.contains_iff]
          exact hp
        rw [hcontains, if_neg Bool.false_ne_true]
        exact ⟨t, loopDone_of_off ht hp⟩

theorem invalidateBlock_of_loop {disconnects : Nat -> Bool} {s1 : IndexState}
    (h : invalidateLoop disconnects p s.vChain.length (s.invalidBlockFound p) = (true, s1)) :
    s.invalidateBlock disconnects p = (true, s1.insertWhere (fun x =>
      (s1.status x).isValid Validity.transactions &&
        decide ((s1.status x).nChainTx ≠ 0) && !s1.worseThanTip x)) := by
  unfold invalidBlockFound at h
  unfold invalidateBlock
  simp only [h]

/-- Invalidating a block, up to the candidates which are added again. -/
theorem exists_flagged_invalidate {disconnects : Nat -> Bool}
    (hs : IndexInv hashGenesis s [] t)
    (hd : forall x, x < s.tree.size -> disconnects x = true)
    (hp : (s.header p).pprev ≠ none) :
    exists s1 q, Flagged s s1 (s.Invalidated t p) ∧ s1.OnChain q ∧
      q ∈ s.tree.ancestors t ∧ (forall x, x ∈ s.tree.ancestors q -> ¬ s.Invalidated t p x) ∧
      s.invalidateBlock disconnects p = (true, s1.insertWhere (fun x =>
        (s1.status x).isValid Validity.transactions &&
          decide ((s1.status x).nChainTx ≠ 0) && !s1.worseThanTip x)) := by
  let s0 : IndexState := s.invalidBlockFound p
  have hself : s0.status p = { s.status p with fFailedValid := true } :=
    Function.update_self _ _ _
  have hne : forall x, x ≠ p -> s0.status x = s.status x :=
    fun x hx => Function.update_of_ne hx _ _
  have hcand : forall c, c ∈ s0.setBlockIndexCandidates <->
      c ∈ s.setBlockIndexCandidates ∧ c ≠ p := by
    intro c
    simp [s0, invalidBlockFound, eraseCandidates, updateStatus]
  have hheight : (s0.header t).nHeight < (s0.header p).nHeight + s.vChain.length := by
    rw [hs.chain.onChain, length_chainOf]
    change (s.tree.header t).nHeight < _
    omega
  rcases exists_loopDone s.vChain.length s0 t hs.chain.onChain hp
    (fun x hx => hd x (BlockTree.lt_size_of_mem_ancestors hx hs.chain.lt_size)) hheight with
    ⟨q, hdone⟩
  generalize hresult : invalidateLoop disconnects p s.vChain.length s0 = result at hdone
  refine ⟨result.2, q, ⟨hdone.tree, hdone.unlinked, ?_, ?_, ?_, ?_, ?_⟩, hdone.onChain,
    hdone.below, ?_, ?_⟩
  · intro x hx
    unfold Invalidated at hx
    rw [not_or] at hx
    rw [hdone.kept x hx.2]
    exact hne x hx.1
  · intro x hx
    by_cases hchain : x ∈ s.tree.ancestors t ∧ p ∈ s.tree.ancestors x
    · rw [hdone.marked x hchain.1 hchain.2]
      by_cases hxp : x = p
      · exact ⟨true, true, by rw [hxp, hself]⟩
      · exact ⟨(s.status x).fFailedValid, true, by rw [hne x hxp]⟩
    · rw [hdone.kept x hchain]
      rcases hx with rfl | hx
      · exact ⟨true, (s.status x).fFailedChild, hself⟩
      · exact absurd hx hchain
  · intro x hx
    have hx0 : (s0.status x).fFailedValid = true := by
      by_cases hxp : x = p
      · rw [hxp, hself]
      · rw [hne x hxp]
        exact hx
    by_cases hchain : x ∈ s.tree.ancestors t ∧ p ∈ s.tree.ancestors x
    · rw [hdone.marked x hchain.1 hchain.2]
      exact hx0
    · rw [hdone.kept x hchain]
      exact hx0
  · intro x hx
    have hpx : p ∈ s.tree.ancestors x := by
      rcases hx with rfl | hx
      · exact Forest.mem_ancestors_self x
      · exact hx.2
    refine ⟨p, hpx, ?_⟩
    by_cases hchain : p ∈ s.tree.ancestors t ∧ p ∈ s.tree.ancestors p
    · rw [hdone.marked p hchain.1 hchain.2, hself]
    · rw [hdone.kept p hchain, hself]
  · intro c
    rw [hdone.candidates c, hcand]
    unfold Invalidated
    change ((c ∈ s.setBlockIndexCandidates ∧ c ≠ p) ∧
      ¬ (c ∈ s.tree.ancestors t ∧ p ∈ s.tree.ancestors c)) <-> _
    rw [not_or, and_assoc]
  · intro x hx hbad
    have hoff := hdone.off x hx
    rcases hbad with rfl | hbad
    · exact hoff (Forest.mem_ancestors_self x)
    · exact hoff hbad.2
  · rcases result with ⟨ok, s1⟩
    have hok : ok = true := hdone.ok
    subst hok
    exact invalidateBlock_of_loop hresult

/-- The candidates are complete from the new tip on. -/
theorem indexInv_invalidateBlock {disconnects : Nat -> Bool}
    (hs : IndexInv hashGenesis s [] t)
    (hd : forall x, x < s.tree.size -> disconnects x = true)
    (hp : (s.header p).pprev ≠ none) :
    exists s2 q, s.invalidateBlock disconnects p = (true, s2) ∧
      IndexInv hashGenesis s2 [] q ∧ s2.Mark q := by
  rcases exists_flagged_invalidate hs hd hp with ⟨s1, q, hflag, hchain, hq, hgood, hrun⟩
  have hsame := hflag.sameLinks
  have hchain' := hflag.chainInv hs.chain hq hchain hgood
  have hcand : s1.CandInv q := by
    intro c hc
    rcases hflag.candInv hs.candidates c hc with ⟨hlt, hlinked, hless⟩
    refine ⟨hlt, hlinked, ?_⟩
    rw [hsame.less] at hless ⊢
    exact not_less_trans (hs.tree.not_less_ancestor hq) hless
  generalize htest : (fun x => (s1.status x).isValid Validity.transactions &&
    decide ((s1.status x).nChainTx ≠ 0) && !s1.worseThanTip x) = test at hrun
  have hmem : forall c, test c = true <-> ((s1.status c).isValid Validity.transactions = true ∧
      (s1.status c).nChainTx ≠ 0) ∧ s1.less c q = false := by
    intro c
    rw [← htest, Bool.and_eq_true, Bool.and_eq_true, decide_eq_true_eq, Bool.not_eq_true',
      worseThanTip_eq hchain.tip_eq]
  have hlinks := hsame.linkInv hs.links
  have hflags := hflag.flagInv hs.flags
  have hless : forall a b, (s1.insertWhere test).less a b = s1.less a b :=
    fun a b => less_congr rfl rfl rfl
  have hcomplete : forall x, x < s1.tree.size -> (s1.status x).nChainTx ≠ 0 ->
      (s1.status x).failed = false -> s1.less x q = false ->
      x ∈ (s1.insertWhere test).setBlockIndexCandidates := by
    intro x hx hlinked hvalid hxq
    rw [mem_insertWhere_iff, hmem]
    have hdata := (hlinks.data x hx).mp (hlinks.linked x hx hlinked).1
    have hlevel := (hlinks.level x hx).mpr hdata
    refine Or.inr ⟨hx, ⟨?_, hlinked⟩, hxq⟩
    rw [IndexStatus.isValid, hvalid, Bool.not_false, Bool.true_and, decide_eq_true_eq]
    exact hlevel
  refine ⟨s1.insertWhere test, q, hrun, ⟨?_, ?_, ⟨hflags.cause, hflags.level_tree,
    hflags.level_scripts⟩, ⟨hchain'.lt_size, hchain'.onChain, hchain'.good, hchain'.scripts⟩,
    ?_⟩, ?_, ?_, ?_⟩
  · change TreeInv hashGenesis s1.tree
    rw [hflag.tree]
    exact hs.tree
  · exact (sameLinks_insertWhere s1 test).linkInv hlinks
  · intro c hc
    rw [hless]
    rcases mem_insertWhere_iff.mp hc with hc | ⟨hlt, htrue⟩
    · exact hcand c hc
    · rw [hmem] at htrue
      exact ⟨hlt, htrue.1.2, htrue.2⟩
  · have hqgood := hchain'.good q (Forest.mem_ancestors_self q)
    exact hcomplete q hchain'.lt_size hqgood.2 hqgood.1 (less_irrefl q)
  · intro x hx
    have hx' : x ∈ s1.branch q := hx
    rw [hchain'.onChain.mem_branch_iff] at hx'
    exact absurd hx'.1 hx'.2
  · intro x hx hlinked hvalid hxq
    rw [hless] at hxq
    exact hcomplete x hx hlinked hvalid hxq

/-!
# Reconsidering
-/

/--
When `ReconsiderBlock` leaves the flags and the candidates consistent: a flag which it
leaves has another cause, and the ancestors whose flags it clears need not be candidates
or are.
-/
structure ReconsiderOk (s : IndexState) (p : Nat) : Prop where
  lt_size : p < s.tree.size
  cause : forall x, x < s.tree.size -> (s.status x).failed = true ->
    p ∉ s.tree.ancestors x -> x ∉ s.tree.ancestors p ->
    exists a, a ∈ s.tree.ancestors x ∧ a ∉ s.tree.ancestors p ∧
      (s.status a).fFailedValid = true
  candidates : forall x, x ∈ s.tree.ancestors p -> x ≠ p -> (s.status x).failed = true ->
    x ∈ s.setBlockIndexCandidates ∨ (s.status x).nChainTx = 0 ∨ s.worseThanTip x = true

instance (s : IndexState) (p : Nat) : Decidable (s.ReconsiderOk p) :=
  decidable_of_iff (p < s.tree.size ∧
    (forall x, x < s.tree.size -> ((s.status x).failed = true ∧
      p ∉ s.tree.ancestors x ∧ x ∉ s.tree.ancestors p) ->
      exists a, a ∈ s.tree.ancestors x ∧ a ∉ s.tree.ancestors p ∧
        (s.status a).fFailedValid = true) ∧
    forall x, x ∈ s.tree.ancestors p -> (x ≠ p ∧ (s.status x).failed = true) ->
      x ∈ s.setBlockIndexCandidates ∨ (s.status x).nChainTx = 0 ∨ s.worseThanTip x = true)
    ⟨fun h => ⟨h.1, fun x hx hf hpx hxp => h.2.1 x hx ⟨hf, hpx, hxp⟩,
        fun x hx hne hf => h.2.2 x hx ⟨hne, hf⟩⟩,
      fun h => ⟨h.lt_size, fun x hx hc => h.cause x hx hc.1 hc.2.1 hc.2.2,
        fun x hx hc => h.candidates x hx hc.1 hc.2⟩⟩

theorem reconsidered_iff : s.reconsidered p x = true <->
    (s.status x).isValid Validity.transactions = false ∧ p ∈ s.tree.ancestors x := by
  unfold reconsidered
  rw [Bool.and_eq_true, Bool.not_eq_true', decide_eq_true_eq]
  exact and_congr_right (fun _ => BlockTree.getAncestor_nHeight_eq_iff)

theorem reconsidered_of_failed (hfailed : (s.status x).failed = true)
    (hpx : p ∈ s.tree.ancestors x) : s.reconsidered p x = true := by
  rw [reconsidered_iff]
  refine ⟨?_, hpx⟩
  rw [IndexStatus.isValid, hfailed]
  rfl

theorem clearFailed_failed (st : IndexStatus) : (clearFailed st).failed = false := rfl

theorem clearDescendants_status_eq_or :
    (s.clearDescendants p).status x = s.status x ∨
      (s.clearDescendants p).status x = clearFailed (s.status x) := by
  unfold clearDescendants
  simp only
  split_ifs
  · exact Or.inr rfl
  · exact Or.inl rfl

/-- The status of an entry after `ReconsiderBlock`. -/
theorem reconsiderBlock_status :
    (s.reconsiderBlock p).status x =
      if (x < s.tree.size ∧ s.reconsidered p x = true) ∨ x ∈ s.tree.ancestors p
        then clearFailed (s.status x) else s.status x := by
  change (if x ∈ s.tree.ancestors p then clearFailed ((s.clearDescendants p).status x)
    else (s.clearDescendants p).status x) = _
  by_cases hanc : x ∈ s.tree.ancestors p
  · rw [if_pos hanc, if_pos (Or.inr hanc)]
    rcases s.clearDescendants_status_eq_or (p := p) (x := x) with h | h <;> rw [h]
    rfl
  · rw [if_neg hanc]
    unfold clearDescendants
    simp only [hanc, or_false]

/-- `ReconsiderBlock` only touches the failure flags of an entry. -/
theorem reconsiderBlock_status_eq_or :
    (s.reconsiderBlock p).status x = s.status x ∨
      (s.reconsiderBlock p).status x = clearFailed (s.status x) := by
  rw [reconsiderBlock_status]
  split_ifs
  · exact Or.inr rfl
  · exact Or.inl rfl

theorem reconsiderBlock_fields (x : Nat) :
    ((s.reconsiderBlock p).status x).nTx = (s.status x).nTx ∧
      ((s.reconsiderBlock p).status x).nChainTx = (s.status x).nChainTx ∧
      ((s.reconsiderBlock p).status x).nSequenceId = (s.status x).nSequenceId ∧
      ((s.reconsiderBlock p).status x).fHaveData = (s.status x).fHaveData ∧
      ((s.reconsiderBlock p).status x).validity = (s.status x).validity := by
  rcases s.reconsiderBlock_status_eq_or (p := p) (x := x) with h | h
  · rw [h]
    exact ⟨rfl, rfl, rfl, rfl, rfl⟩
  · rw [h]
    exact ⟨rfl, rfl, rfl, rfl, rfl⟩

theorem sameLinks_reconsiderBlock (s : IndexState) (p : Nat) :
    SameLinks s (s.reconsiderBlock p) :=
  ⟨rfl, rfl, fun x => (reconsiderBlock_fields x).1, fun x => (reconsiderBlock_fields x).2.1,
    fun x => (reconsiderBlock_fields x).2.2.1, fun x => (reconsiderBlock_fields x).2.2.2.1,
    fun x _ => by rw [(reconsiderBlock_fields x).2.2.2.2]⟩

theorem reconsiderBlock_failed_of_good (hx : (s.status x).failed = false) :
    ((s.reconsiderBlock p).status x).failed = false := by
  rcases s.reconsiderBlock_status_eq_or (p := p) (x := x) with h | h
  · rw [h]
    exact hx
  · rw [h]
    exact clearFailed_failed _

/-- An entry whose flag is left is neither below nor above the reconsidered block. -/
theorem reconsiderBlock_failed_iff (hx : x < s.tree.size) :
    ((s.reconsiderBlock p).status x).failed = true <->
      (s.status x).failed = true ∧ p ∉ s.tree.ancestors x ∧ x ∉ s.tree.ancestors p := by
  rw [reconsiderBlock_status]
  constructor
  · intro hfailed
    split_ifs at hfailed with hcleared
    · rw [clearFailed_failed] at hfailed
      cases hfailed
    · rw [not_or, not_and] at hcleared
      exact ⟨hfailed, fun hpx => hcleared.1 hx (reconsidered_of_failed hfailed hpx),
        hcleared.2⟩
  · rintro ⟨hfailed, hpx, hxp⟩
    rw [if_neg]
    · exact hfailed
    · rintro (⟨_, hrec⟩ | hanc)
      · exact hpx (reconsidered_iff.mp hrec).2
      · exact hxp hanc

theorem readmits_iff (ht : s.tip = some t) (hx : x < s.tree.size) :
    s.readmits p x = true <-> s.reconsidered p x = true ∧
      Validity.transactions.level ≤ (s.status x).validity.level ∧
      (s.status x).nChainTx ≠ 0 ∧ s.less t x = true := by
  have htip : (s.clearDescendants p).tip = some t := ht
  have hsequence : forall y,
      ((s.clearDescendants p).status y).nSequenceId = (s.status y).nSequenceId := by
    intro y
    rcases s.clearDescendants_status_eq_or (p := p) (x := y) with h | h
    · rw [h]
    · rw [h]
      rfl
  have htree : (s.clearDescendants p).tree = s.tree := rfl
  have hless : (s.clearDescendants p).less t x = s.less t x :=
    less_congr htree (hsequence t) (hsequence x)
  unfold readmits
  simp only [htip, hless, Bool.and_eq_true, decide_eq_true_eq]
  constructor
  · rintro ⟨⟨⟨hrec, hvalid⟩, hlinked⟩, hl⟩
    have hcleared : (s.clearDescendants p).status x = clearFailed (s.status x) := by
      unfold clearDescendants
      simp only
      rw [if_pos ⟨hx, hrec⟩]
    rw [hcleared] at hvalid hlinked
    rw [IndexStatus.isValid, Bool.and_eq_true, decide_eq_true_eq] at hvalid
    exact ⟨hrec, hvalid.2, hlinked, hl⟩
  · rintro ⟨hrec, hlevel, hlinked, hl⟩
    have hcleared : (s.clearDescendants p).status x = clearFailed (s.status x) := by
      unfold clearDescendants
      simp only
      rw [if_pos ⟨hx, hrec⟩]
    rw [hcleared]
    refine ⟨⟨⟨hrec, ?_⟩, hlinked⟩, hl⟩
    rw [IndexStatus.isValid, clearFailed_failed, Bool.not_false, Bool.true_and,
      decide_eq_true_eq]
    exact hlevel

theorem flagInv_reconsiderBlock (hs : s.FlagInv) (hok : s.ReconsiderOk p) :
    (s.reconsiderBlock p).FlagInv where
  cause x hx hfailed := by
    have hx' : x < s.tree.size := hx
    rcases (reconsiderBlock_failed_iff hx').mp hfailed with ⟨hold, hpx, hxp⟩
    rcases hok.cause x hx' hold hpx hxp with ⟨a, ha, hap, hvalid⟩
    refine ⟨a, ha, ?_⟩
    rw [reconsiderBlock_status, if_neg]
    · exact hvalid
    · rintro (⟨_, hrec⟩ | hanc)
      · exact hpx (Forest.mem_ancestors_trans (reconsidered_iff.mp hrec).2 ha)
      · exact hap hanc
  level_tree x r hr := by
    rw [(reconsiderBlock_fields x).2.2.2.2]
    exact hs.level_tree x r hr
  level_scripts x r hr := by
    rw [(reconsiderBlock_fields x).2.2.2.2, (reconsiderBlock_fields r).2.2.2.2]
    exact hs.level_scripts x r hr

theorem indexInv_reconsiderBlock (hs : IndexInv hashGenesis s [] t) (hok : s.ReconsiderOk p) :
    IndexInv hashGenesis (s.reconsiderBlock p) [] t := by
  have hsame := sameLinks_reconsiderBlock s p
  refine ⟨hs.tree, hsame.linkInv hs.links, flagInv_reconsiderBlock hs.flags hok,
    ⟨hs.chain.lt_size, hs.chain.onChain, ?_, ?_⟩, ?_⟩
  · intro x hx
    rw [hsame.nChainTx]
    exact ⟨reconsiderBlock_failed_of_good (hs.chain.good x hx).1, (hs.chain.good x hx).2⟩
  · intro x r hx hr
    rw [(reconsiderBlock_fields x).2.2.2.2]
    exact hs.chain.scripts x r hx hr
  · intro c hc
    rw [hsame.nChainTx, hsame.less]
    rcases mem_insertWhere_iff.mp hc with hc | ⟨hlt, hadm⟩
    · exact hs.candidates c hc
    · rcases (readmits_iff hs.chain.onChain.tip_eq hlt).mp hadm with ⟨_, _, hlinked, hless⟩
      exact ⟨hlt, hlinked, less_asymm hless⟩

theorem mark_reconsiderBlock (hs : IndexInv hashGenesis s [] t) (hok : s.ReconsiderOk p)
    (hm : s.Mark m) : (s.reconsiderBlock p).Mark m := by
  have hsame := sameLinks_reconsiderBlock s p
  refine ⟨mem_insertWhere_iff.mpr (Or.inl hm.candidate), ?_, ?_⟩
  · intro x hx
    have hx' : x ∈ s.branch m := hx
    rw [(reconsiderBlock_fields x).2.2.2.2]
    exact ⟨reconsiderBlock_failed_of_good (hm.good x hx').1, (hm.good x hx').2⟩
  · intro x hx hlinked hvalid hxm
    have hx' : x < s.tree.size := hx
    rw [hsame.nChainTx] at hlinked
    rw [hsame.less] at hxm
    have hxt : s.less x t = false :=
      not_less_trans (hs.candidates m hm.candidate).2.2 hxm
    cases hold : (s.status x).failed with
    | false => exact mem_insertWhere_iff.mpr (Or.inl (hm.complete x hx' hlinked hold hxm))
    | true =>
        by_cases hpx : p ∈ s.tree.ancestors x
        · -- a descendant whose flag was cleared is offered again
          refine mem_insertWhere_iff.mpr (Or.inr ⟨hx', ?_⟩)
          rw [readmits_iff hs.chain.onChain.tip_eq hx']
          have hdata := (hs.links.data x hx').mp (hs.links.linked x hx' hlinked).1
          refine ⟨reconsidered_of_failed hold hpx, (hs.links.level x hx').mpr hdata,
            hlinked, ?_⟩
          have hne : t ≠ x := by
            intro htx
            rw [← htx, (hs.chain.good t (Forest.mem_ancestors_self t)).1] at hold
            cases hold
          rcases less_total (s := s) hne with hless | hless
          · exact hless
          · rw [hxt] at hless
            cases hless
        · by_cases hxp : x ∈ s.tree.ancestors p
          · have hne : x ≠ p := fun h => hpx (h ▸ Forest.mem_ancestors_self x)
            rcases hok.candidates x hxp hne hold with h | h | h
            · exact mem_insertWhere_iff.mpr (Or.inl h)
            · exact absurd h hlinked
            · rw [worseThanTip_eq hs.chain.onChain.tip_eq, hxt] at h
              cases h
          · rw [(reconsiderBlock_failed_iff hx').mpr ⟨hold, hpx, hxp⟩] at hvalid
            cases hvalid

/-!
# Reprocessing rejected blocks

The loop of `ReprocessBlocks` over `mapRejectedBlocks`, which holds hashes and the times at
which their blocks were rejected.
-/

def reprocessEntry (s : IndexState) (nNow nBlocks : Int) (entry : Nat × Int) : IndexState :=
  if entry.2 > nNow - nBlocks * 60 * 5 then
    match s.tree.mapBlockIndex entry.1 with
    | none => s
    | some pindex => s.reconsiderBlock pindex
  else s

def reprocessLoop (s : IndexState) (nNow nBlocks : Int) (rejected : List (Nat × Int)) :
    IndexState :=
  rejected.foldl (fun s entry => s.reprocessEntry nNow nBlocks entry) s

theorem reprocessEntry_tree (s : IndexState) (nNow nBlocks : Int) (entry : Nat × Int) :
    (s.reprocessEntry nNow nBlocks entry).tree = s.tree := by
  unfold reprocessEntry
  split_ifs
  · cases s.tree.mapBlockIndex entry.1 <;> rfl
  · rfl

/-- The recorded block is below the entry or above it, or is the entry itself. -/
def Revisits (s : IndexState) (nNow nBlocks : Int) (x : Nat) (entry : Nat × Int) : Prop :=
  entry.2 > nNow - nBlocks * 60 * 5 ∧ exists p, s.tree.mapBlockIndex entry.1 = some p ∧
    (p ∈ s.tree.ancestors x ∨ x ∈ s.tree.ancestors p)

theorem reprocessEntry_failed_iff {nNow nBlocks : Int} {entry : Nat × Int}
    (hx : x < s.tree.size) :
    ((s.reprocessEntry nNow nBlocks entry).status x).failed = true <->
      (s.status x).failed = true ∧ ¬ s.Revisits nNow nBlocks x entry := by
  unfold reprocessEntry Revisits
  split_ifs with htime
  · cases s.tree.mapBlockIndex entry.1 with
    | none => simp
    | some p =>
        simp only
        rw [reconsiderBlock_failed_iff hx]
        simp [htime]
  · simp [htime]

/-- Whatever the order, the flags which are left are those of blocks apart from all the recorded. -/
theorem reprocessLoop_failed_iff {nNow nBlocks : Int} (rejected : List (Nat × Int)) :
    forall {s : IndexState}, x < s.tree.size ->
      (((s.reprocessLoop nNow nBlocks rejected).status x).failed = true <->
        (s.status x).failed = true ∧
          forall entry, entry ∈ rejected -> ¬ s.Revisits nNow nBlocks x entry) := by
  induction rejected with
  | nil =>
      intro s _
      simp [reprocessLoop]
  | cons entry rejected ih =>
      intro s hx
      have htree := s.reprocessEntry_tree nNow nBlocks entry
      have hrest := @ih (s.reprocessEntry nNow nBlocks entry) (by rw [htree]; exact hx)
      rw [reprocessEntry_failed_iff hx, and_assoc] at hrest
      unfold Revisits at hrest ⊢
      rw [htree] at hrest
      rw [List.forall_mem_cons]
      exact hrest

end IndexState

end BlockIndex
end Hbcur
