import Hbcur.BlockIndex.Invariant

/-!
# Moving the active chain keeps the invariant
-/

namespace Hbcur
namespace BlockIndex

open Foundation

namespace IndexState

variable {hashGenesis : Nat} {s s' : IndexState} {t p q m : Nat}

/-!
# The search
-/

theorem sameLinks_of_searched (hs : IndexInv hashGenesis s [] t) (h : Searched s s') :
    SameLinks s s' where
  tree := h.tree
  unlinked := by
    apply h.unlinked_eq
    intro c hc x hx
    exact (hs.data_of_candidate hc (hs.chain.onChain.mem_branch_iff.mp hx).1).2.2
  nTx x := by
    rcases h.status x with hx | ⟨hx, _⟩ <;> rw [hx]
  nChainTx := h.nChainTx
  nSequenceId := h.nSequenceId
  fHaveData := h.fHaveData
  level x _ := by
    rcases h.status x with hx | ⟨hx, _⟩ <;> rw [hx]

theorem Searched.validity (h : Searched s s') (x : Nat) :
    (s'.status x).validity = (s.status x).validity := by
  rcases h.status x with hx | ⟨hx, _⟩ <;> rw [hx]

theorem Searched.fFailedValid (h : Searched s s') (x : Nat) :
    (s'.status x).fFailedValid = (s.status x).fFailedValid := by
  rcases h.status x with hx | ⟨hx, _⟩ <;> rw [hx]

/-- A branch without failed entries is not marked. -/
theorem Searched.failed_eq_false (h : Searched s s') {x : Nat}
    (hx : (s.status x).failed = false)
    (hbranch : forall a, a ∈ s.branch x -> (s.status a).failed = false) :
    (s'.status x).failed = false := by
  rcases h.status x with heq | ⟨_, a, ha, hfailed⟩
  · rw [heq]
    exact hx
  · rw [hbranch a ha] at hfailed
    cases hfailed

theorem indexInv_of_searched (hs : IndexInv hashGenesis s [] t) (h : Searched s s') :
    IndexInv hashGenesis s' [] t := by
  have hsame := sameLinks_of_searched hs h
  refine ⟨?_, hsame.linkInv hs.links, ⟨?_, ?_, ?_⟩, ⟨?_, ?_, ?_, ?_⟩, ?_⟩
  · rw [h.tree]
    exact hs.tree
  · intro x hx hfailed
    rw [h.tree] at hx
    have hcause : exists a, a ∈ s.tree.ancestors x ∧ (s.status a).failed = true := by
      rcases h.status x with heq | ⟨_, a, ha, hfa⟩
      · rw [heq] at hfailed
        exact ⟨x, Forest.mem_ancestors_self x, hfailed⟩
      · exact ⟨a, (hs.chain.onChain.mem_branch_iff.mp ha).1, hfa⟩
    rcases hcause with ⟨a, ha, hfa⟩
    rcases hs.flags.cause a (BlockTree.lt_size_of_mem_ancestors ha hx) hfa with ⟨b, hb, hvalid⟩
    refine ⟨b, ?_, ?_⟩
    · rw [h.tree]
      exact Forest.mem_ancestors_trans hb ha
    · rw [h.fFailedValid]
      exact hvalid
  · intro x r hr
    rw [hsame.header] at hr
    rw [h.validity]
    exact hs.flags.level_tree x r hr
  · intro x r hr
    rw [hsame.header] at hr
    rw [h.validity, h.validity, hsame.header]
    exact hs.flags.level_scripts x r hr
  · rw [h.tree]
    exact hs.chain.lt_size
  · exact h.onChain hs.chain.onChain
  · intro x hx
    rw [h.tree] at hx
    rw [h.nChainTx]
    refine ⟨h.failed_eq_false (hs.chain.good x hx).1 ?_,
      (hs.chain.good x hx).2⟩
    intro a ha
    rcases hs.chain.onChain.mem_branch_iff.mp ha with ⟨hax, hoff⟩
    exact absurd (Forest.mem_ancestors_trans hax hx) hoff
  · intro x r hx hr
    rw [h.tree] at hx
    rw [hsame.header] at hr
    rw [h.validity]
    exact hs.chain.scripts x r hx hr
  · intro c hc
    rw [h.tree, h.nChainTx, h.less_eq]
    exact hs.candidates c (h.candidates c hc)

/-- The search does not touch the mark. -/
theorem mark_of_searched (hs : IndexInv hashGenesis s [] t) (h : Searched s s')
    (hm : s.Mark m) : s'.Mark m := by
  have hqualified : s.Qualified m := by
    intro x hx
    have hdata := (hs.data_of_candidate hm.candidate
      (hs.chain.onChain.mem_branch_iff.mp hx).1).2.2
    rw [unusable, (hm.good x hx).1, hdata]
    rfl
  refine ⟨?_, ?_, ?_⟩
  · by_contra hnot
    exact (h.dropped m hm.candidate hnot).not_qualified hqualified
  · intro x hx
    rw [h.branch_eq] at hx
    rw [h.validity]
    refine ⟨h.failed_eq_false (hm.good x hx).1 ?_, (hm.good x hx).2⟩
    intro a ha
    exact (hm.good a (hs.chain.onChain.branch_trans ha
      (hs.chain.onChain.mem_branch_iff.mp hx).1)).1
  · intro x hx hlinked hfailed hless
    rw [h.tree] at hx
    rw [h.nChainTx] at hlinked
    rw [h.less_eq] at hless
    have hfailed' : (s.status x).failed = false := by
      by_contra hbad
      rw [Bool.not_eq_false] at hbad
      rw [h.failed_of_failed hbad] at hfailed
      cases hfailed
    have hc := hm.complete x hx hlinked hfailed' hless
    by_contra hnot
    cases h.dropped x hc hnot with
    | failed a _ _ hmarked =>
        rw [hmarked] at hfailed
        cases hfailed
    | missing a ha hdata _ =>
        have hdata' := (hs.data_of_candidate hc
          (hs.chain.onChain.mem_branch_iff.mp ha).1).2.2
        rw [hdata] at hdata'
        cases hdata'

/-!
# Going back
-/

/-- The same index with its chain moved to `q`. -/
def atTip (s : IndexState) (q : Nat) : IndexState :=
  { s with vChain := chainOf s.tree q }

theorem onChain_atTip (s : IndexState) (q : Nat) : (s.atTip q).OnChain q := rfl

theorem updateTip_eq_atTip (h : s.OnChain t) (q : Nat) :
    s.updateTip (some q) = s.atTip q := by
  unfold updateTip atTip
  rw [h, setTip_chainOf]

theorem sameLinks_atTip (s : IndexState) (q : Nat) : SameLinks s (s.atTip q) :=
  ⟨rfl, rfl, fun _ => rfl, fun _ => rfl, fun _ => rfl, fun _ => rfl, fun _ _ => Iff.rfl⟩

theorem less_atTip (a b : Nat) : (s.atTip q).less a b = s.less a b :=
  (sameLinks_atTip s q).less a b

theorem indexInv_atTip (h : IndexInv hashGenesis s [] t) (hq : q ∈ s.tree.ancestors t) :
    IndexInv hashGenesis (s.atTip q) [] q := by
  have hsub : forall x, x ∈ s.tree.ancestors q -> x ∈ s.tree.ancestors t :=
    fun x hx => Forest.mem_ancestors_trans hx hq
  refine ⟨h.tree, (sameLinks_atTip s q).linkInv h.links,
    ⟨h.flags.cause, h.flags.level_tree, h.flags.level_scripts⟩,
    ⟨BlockTree.lt_size_of_mem_ancestors hq h.chain.lt_size, onChain_atTip s q, ?_, ?_⟩, ?_⟩
  · intro x hx
    exact h.chain.good x (hsub x hx)
  · intro x r hx hr
    exact h.chain.scripts x r (hsub x hx) hr
  · intro c hc
    rcases h.candidates c hc with ⟨hlt, hlinked, hless⟩
    refine ⟨hlt, hlinked, ?_⟩
    rw [less_atTip]
    exact not_less_trans (h.tree.not_less_ancestor hq) hless

theorem mark_atTip (h : IndexInv hashGenesis s [] t) (hq : q ∈ s.tree.ancestors t)
    (hm : s.Mark m) : (s.atTip q).Mark m := by
  refine ⟨hm.candidate, ?_, ?_⟩
  · intro x hx
    rcases (onChain_atTip s q).mem_branch_iff.mp hx with ⟨hxm, hoff⟩
    by_cases hxt : x ∈ s.tree.ancestors t
    · cases hprev : (s.header x).pprev with
      | none =>
          have hqlt := BlockTree.lt_size_of_mem_ancestors hq h.chain.lt_size
          have hxlt := BlockTree.lt_size_of_mem_ancestors hxt h.chain.lt_size
          rw [h.tree.root x hxlt hprev] at hoff
          exact absurd (h.tree.zero_mem_ancestors hqlt) hoff
      | some r => exact ⟨(h.chain.good x hxt).1, h.chain.scripts x r hxt hprev⟩
    · exact hm.good x (h.chain.onChain.mem_branch_iff.mpr ⟨hxm, hxt⟩)
  · intro x hx hlinked hfailed hless
    rw [less_atTip] at hless
    exact hm.complete x hx hlinked hfailed hless

/-- How far the disconnecting loop comes. -/
structure WentBack (s : IndexState) (t f : Nat) (moved : Moved) (q : Nat) : Prop where
  index : moved.index = s.atTip q
  above : f ∈ s.tree.ancestors q
  below : q ∈ s.tree.ancestors t
  ok : moved.ok = true -> q = f
  disconnected : forall x, x ∈ moved.disconnected <->
    x ∈ s.tree.ancestors t ∧ x ∉ s.tree.ancestors q

theorem exists_wentBack (disconnects : Nat -> Bool) {f : Nat} (fuel : Nat) :
    forall (s : IndexState) (t : Nat), s.OnChain t -> f ∈ s.tree.ancestors t ->
      (s.header t).nHeight ≤ (s.header f).nHeight + fuel ->
      exists q, WentBack s t f (disconnectTo disconnects (some f) fuel s) q := by
  have hstay : forall (s : IndexState) (t : Nat) (ok : Bool), s.OnChain t ->
      f ∈ s.tree.ancestors t -> (ok = true -> t = f) ->
      WentBack s t f { ok := ok, index := s } t := by
    intro s t ok ht hf hok
    refine ⟨?_, hf, Forest.mem_ancestors_self t, hok, ?_⟩
    · unfold atTip
      rw [← ht]
    · intro x
      constructor
      · intro hx
        cases hx
      · rintro ⟨hx, hnot⟩
        exact absurd hx hnot
  induction fuel with
  | zero =>
      intro s t ht hf hfuel
      have hdepth : s.tree.forest.depth f = s.tree.forest.depth t := by
        have hle := Forest.depth_le_of_mem_ancestors hf
        rw [BlockTree.depth_eq_nHeight, BlockTree.depth_eq_nHeight] at hle ⊢
        unfold IndexState.header at hfuel
        omega
      have heq := Forest.eq_of_depth_eq hf (Forest.mem_ancestors_self t) hdepth
      exact ⟨t, hstay s t true ht hf (fun _ => heq.symm)⟩
  | succ fuel ih =>
      intro s t ht hf hfuel
      unfold disconnectTo
      rw [ht.tip_eq]
      simp only
      by_cases hft : f = t
      · rw [if_pos (by rw [hft])]
        exact ⟨t, hstay s t true ht hf (fun _ => hft.symm)⟩
      rw [if_neg (by simpa using hft)]
      by_cases hd : disconnects t = true
      · rw [if_pos hd]
        cases hprev : (s.header t).pprev with
        | none =>
            rw [BlockTree.ancestors, Forest.ancestors_of_root hprev, List.mem_singleton] at hf
            exact absurd hf hft
        | some q =>
            have hfq := Forest.mem_ancestors_parent hprev hf hft
            have hheight := s.tree.nHeight_child t q hprev
            rw [updateTip_eq_atTip ht]
            rcases ih (s.atTip q) q (onChain_atTip s q) hfq
              (by change (s.tree.header q).nHeight ≤ (s.tree.header f).nHeight + fuel
                  unfold IndexState.header at hfuel
                  omega) with ⟨q', hq'⟩
            refine ⟨q', hq'.index, hq'.above, Forest.mem_ancestors_of_parent hprev hq'.below,
              hq'.ok, ?_⟩
            intro x
            simp only [List.mem_cons]
            rw [hq'.disconnected x]
            have htq : t ∉ s.tree.ancestors q' := by
              intro htq
              exact Forest.not_mem_ancestors_parent hprev
                (Forest.mem_ancestors_trans htq hq'.below)
            change x = t ∨ (x ∈ s.tree.ancestors q ∧ x ∉ s.tree.ancestors q') <-> _
            constructor
            · rintro (rfl | ⟨hx, hnot⟩)
              · exact ⟨Forest.mem_ancestors_self x, htq⟩
              · exact ⟨Forest.mem_ancestors_of_parent hprev hx, hnot⟩
            · rintro ⟨hx, hnot⟩
              by_cases hxt : x = t
              · exact Or.inl hxt
              · exact Or.inr ⟨Forest.mem_ancestors_parent hprev hx hxt, hnot⟩
      · rw [if_neg hd]
        exact ⟨t, hstay s t false ht hf (fun h => absurd h Bool.false_ne_true)⟩

/-!
# Going forward
-/

theorem validity_eq_scripts_of_le {v : Validity} (h : Validity.scripts.level ≤ v.level) :
    v = Validity.scripts := by
  cases v with
  | scripts => rfl
  | _ => exact absurd h (by decide)

/-- An entry which can be connected to the tip `t`. -/
structure Connectable (s : IndexState) (t p : Nat) : Prop where
  prev : (s.header p).pprev = some t
  valid : (s.status p).failed = false
  linked : (s.status p).nChainTx ≠ 0

theorem Connectable.lt_size (h : Connectable s t p) : p < s.tree.size :=
  s.tree.pprev_indexed p t h.prev

theorem Connectable.off_chain (h : Connectable s t p) : p ∉ s.tree.ancestors t :=
  Forest.not_mem_ancestors_parent h.prev

theorem raiseScripts_status_self (hc : Connectable s t p) :
    (s.raiseScripts p).status p = { s.status p with validity := Validity.scripts } := by
  have hself : (s.raiseScripts p).status p =
      (s.status p).raiseValidity Validity.scripts := by
    unfold raiseScripts
    rw [hc.prev]
    exact Function.update_self _ _ _
  rw [hself]
  by_cases hlt : (s.status p).validity.level < Validity.scripts.level
  · exact IndexStatus.raiseValidity_of_lt hc.valid hlt
  · rw [IndexStatus.raiseValidity_of_le (Nat.not_lt.mp hlt)]
    rw [← validity_eq_scripts_of_le (Nat.not_lt.mp hlt)]

theorem raiseScripts_status_of_ne {x : Nat} (h : x ≠ p) :
    (s.raiseScripts p).status x = s.status x := by
  unfold raiseScripts
  cases (s.header p).pprev with
  | none => rfl
  | some q => exact Function.update_of_ne h _ _

theorem raiseScripts_fields (s : IndexState) (p : Nat) :
    (s.raiseScripts p).tree = s.tree ∧ (s.raiseScripts p).vChain = s.vChain ∧
      (s.raiseScripts p).mapBlocksUnlinked = s.mapBlocksUnlinked ∧
      (s.raiseScripts p).setBlockIndexCandidates = s.setBlockIndexCandidates := by
  unfold raiseScripts
  cases (s.header p).pprev <;> exact ⟨rfl, rfl, rfl, rfl⟩

/-- Only the level of `p` has changed. -/
structure Raised (s s' : IndexState) (p : Nat) : Prop where
  tree : s'.tree = s.tree
  vChain : s'.vChain = s.vChain
  unlinked : s'.mapBlocksUnlinked = s.mapBlocksUnlinked
  candidates : s'.setBlockIndexCandidates = s.setBlockIndexCandidates
  status_self : s'.status p = { s.status p with validity := Validity.scripts }
  status_of_ne : forall x, x ≠ p -> s'.status x = s.status x

theorem raised_raiseScripts (hc : Connectable s t p) : Raised s (s.raiseScripts p) p :=
  ⟨(raiseScripts_fields s p).1, (raiseScripts_fields s p).2.1, (raiseScripts_fields s p).2.2.1,
    (raiseScripts_fields s p).2.2.2, raiseScripts_status_self hc,
    fun _ hx => raiseScripts_status_of_ne hx⟩

namespace Raised

theorem flags (h : Raised s s' p) (x : Nat) :
    (s'.status x).failed = (s.status x).failed ∧
      (s'.status x).fFailedValid = (s.status x).fFailedValid ∧
      ((s'.status x).validity = (s.status x).validity ∨
        (s'.status x).validity = Validity.scripts) := by
  by_cases hx : x = p
  · rw [hx, h.status_self]
    exact ⟨rfl, rfl, Or.inr rfl⟩
  · rw [h.status_of_ne x hx]
    exact ⟨rfl, rfl, Or.inl rfl⟩

theorem sameLinks (h : Raised s s' p) (hs : s.LinkInv []) (hp : p < s.tree.size)
    (hlinked : (s.status p).nChainTx ≠ 0) : SameLinks s s' := by
  have hfields : forall x, (s'.status x).nTx = (s.status x).nTx ∧
      (s'.status x).nChainTx = (s.status x).nChainTx ∧
      (s'.status x).nSequenceId = (s.status x).nSequenceId ∧
      (s'.status x).fHaveData = (s.status x).fHaveData := by
    intro x
    by_cases hx : x = p
    · rw [hx, h.status_self]
      exact ⟨rfl, rfl, rfl, rfl⟩
    · rw [h.status_of_ne x hx]
      exact ⟨rfl, rfl, rfl, rfl⟩
  refine ⟨h.tree, h.unlinked, fun x => (hfields x).1, fun x => (hfields x).2.1,
    fun x => (hfields x).2.2.1, fun x => (hfields x).2.2.2, ?_⟩
  intro x hx
  by_cases hxp : x = p
  · subst hxp
    rw [h.status_self]
    have hdata := (hs.data x hp).mp (hs.linked x hp hlinked).1
    exact iff_of_true (by change 3 ≤ 5; decide) ((hs.level x hp).mpr hdata)
  · rw [h.status_of_ne x hxp]

theorem flagInv (h : Raised s s' p) (hs : IndexInv hashGenesis s [] t)
    (hprev : (s.header p).pprev = some t) : s'.FlagInv where
  cause x hx hfailed := by
    rw [h.tree] at hx
    rw [(h.flags x).1] at hfailed
    rcases hs.flags.cause x hx hfailed with ⟨a, ha, hvalid⟩
    refine ⟨a, ?_, ?_⟩
    · rw [h.tree]
      exact ha
    · rw [(h.flags a).2.1]
      exact hvalid
  level_tree x r hr := by
    unfold IndexState.header at hr
    rw [h.tree] at hr
    rcases (h.flags x).2.2 with heq | heq
    · rw [heq]
      exact hs.flags.level_tree x r hr
    · rw [heq]
      decide
  level_scripts x r hr hlevel := by
    unfold IndexState.header at hr ⊢
    rw [h.tree] at hr ⊢
    by_cases hxp : x = p
    · subst hxp
      rw [h.status_self]
      refine ⟨rfl, ?_⟩
      intro k hk
      have hrt : r = t := by
        have hprev' : (s.tree.header x).pprev = some t := hprev
        rw [hprev'] at hr
        cases hr
        rfl
      subst hrt
      rcases (h.flags r).2.2 with heq | heq
      · rw [heq]
        exact hs.chain.scripts r k (Forest.mem_ancestors_self r) hk
      · exact heq
    · rw [h.status_of_ne x hxp] at hlevel ⊢
      rcases hs.flags.level_scripts x r hr hlevel with ⟨hscripts, hparent⟩
      refine ⟨hscripts, ?_⟩
      intro k hk
      rcases (h.flags r).2.2 with heq | heq
      · rw [heq]
        exact hparent k hk
      · exact heq

theorem indexInv (h : Raised s s' p) (hs : IndexInv hashGenesis s [] t)
    (hc : Connectable s t p) : IndexInv hashGenesis s' [] t := by
  have hsame := h.sameLinks hs.links hc.lt_size hc.linked
  have hne : forall x, x ∈ s.tree.ancestors t -> x ≠ p :=
    fun x hx hxp => hc.off_chain (hxp ▸ hx)
  refine ⟨?_, hsame.linkInv hs.links, h.flagInv hs hc.prev, ⟨?_, ?_, ?_, ?_⟩, ?_⟩
  · rw [h.tree]
    exact hs.tree
  · rw [h.tree]
    exact hs.chain.lt_size
  · unfold OnChain
    rw [h.tree, h.vChain]
    exact hs.chain.onChain
  · intro x hx
    rw [h.tree] at hx
    rw [h.status_of_ne x (hne x hx)]
    exact hs.chain.good x hx
  · intro x r hx hr
    rw [h.tree] at hx
    rw [hsame.header] at hr
    rw [h.status_of_ne x (hne x hx)]
    exact hs.chain.scripts x r hx hr
  · intro c hc'
    rw [h.candidates] at hc'
    rw [h.tree, hsame.nChainTx, hsame.less]
    exact hs.candidates c hc'

theorem mark (h : Raised s s' p) (hs : IndexInv hashGenesis s [] t)
    (hc : Connectable s t p) (hm : s.Mark m) : s'.Mark m := by
  have hsame := h.sameLinks hs.links hc.lt_size hc.linked
  refine ⟨?_, ?_, ?_⟩
  · rw [h.candidates]
    exact hm.candidate
  · intro x hx
    have hbranch : s'.branch m = s.branch m := by
      unfold branch IndexState.contains
      rw [h.tree, h.vChain]
    rw [hbranch] at hx
    rw [(h.flags x).1]
    refine ⟨(hm.good x hx).1, ?_⟩
    rcases (h.flags x).2.2 with heq | heq
    · rw [heq]
      exact (hm.good x hx).2
    · exact heq
  · intro x hx hlinked hfailed hless
    rw [h.tree] at hx
    rw [hsame.nChainTx] at hlinked
    rw [(h.flags x).1] at hfailed
    rw [hsame.less] at hless
    rw [h.candidates]
    exact hm.complete x hx hlinked hfailed hless

end Raised

/-- The index after a block was connected and the worse candidates pruned. -/
def connected (s : IndexState) (p : Nat) : IndexState :=
  { (s.raiseScripts p).atTip p with
    setBlockIndexCandidates :=
      s.setBlockIndexCandidates.filter (fun c => !(s.raiseScripts p).less c p) }

theorem connectTip_prune (ht : s.OnChain t) (hc : Connectable s t p) {r : Nat}
    (hr : r ∈ s.setBlockIndexCandidates) (hless : (s.raiseScripts p).less r p = false) :
    exists s1, s.connectTip ConnectOutcome.connected p = some s1 ∧
      s1.pruneBlockIndexCandidates = some (s.connected p) := by
  have hraised := raised_raiseScripts hc
  have ht' : (s.raiseScripts p).OnChain t := by
    unfold OnChain
    rw [hraised.tree, hraised.vChain]
    exact ht
  refine ⟨(s.raiseScripts p).atTip p, ?_, ?_⟩
  · unfold connectTip
    rw [if_pos (by rw [hc.prev, ht.tip_eq])]
    simp only
    rw [updateTip_eq_atTip ht']
  · have hworse : forall c, ((s.raiseScripts p).atTip p).worseThanTip c =
        (s.raiseScripts p).less c p := by
      intro c
      rw [worseThanTip_eq (onChain_atTip _ p).tip_eq, less_atTip]
    have hkept : ((s.raiseScripts p).atTip p).setBlockIndexCandidates.filter
        (fun c => !((s.raiseScripts p).atTip p).worseThanTip c) =
        s.setBlockIndexCandidates.filter (fun c => !(s.raiseScripts p).less c p) := by
      simp only [hworse]
      rw [show ((s.raiseScripts p).atTip p).setBlockIndexCandidates =
        s.setBlockIndexCandidates from hraised.candidates]
    unfold pruneBlockIndexCandidates
    simp only [hkept]
    rw [if_neg]
    · rfl
    · intro hnil
      have hmem : r ∈ s.setBlockIndexCandidates.filter
          (fun c => !(s.raiseScripts p).less c p) :=
        List.mem_filter.mpr ⟨hr, by rw [hless]; rfl⟩
      rw [hnil] at hmem
      cases hmem

theorem mem_connected_iff (hs : IndexInv hashGenesis s [] t) (hc : Connectable s t p)
    {c : Nat} :
    c ∈ (s.connected p).setBlockIndexCandidates <->
      c ∈ s.setBlockIndexCandidates ∧ s.less c p = false := by
  have hsame := (raised_raiseScripts hc).sameLinks hs.links hc.lt_size hc.linked
  change c ∈ s.setBlockIndexCandidates.filter _ <-> _
  rw [List.mem_filter, Bool.not_eq_true', hsame.less]

theorem sameLinks_connected (hs : IndexInv hashGenesis s [] t) (hc : Connectable s t p) :
    SameLinks s (s.connected p) := by
  have hsame := (raised_raiseScripts hc).sameLinks hs.links hc.lt_size hc.linked
  exact ⟨hsame.tree, hsame.unlinked, hsame.nTx, hsame.nChainTx, hsame.nSequenceId,
    hsame.fHaveData, hsame.level⟩

theorem onChain_connected (s : IndexState) (p : Nat) : (s.connected p).OnChain p := rfl

theorem indexInv_connected (hs : IndexInv hashGenesis s [] t) (hc : Connectable s t p) :
    IndexInv hashGenesis (s.connected p) [] p := by
  have hraised := raised_raiseScripts hc
  have hsame := sameLinks_connected hs hc
  have hflags := hraised.flagInv hs hc.prev
  have htree : (s.connected p).tree = s.tree := hsame.tree
  refine ⟨?_, hsame.linkInv hs.links, ⟨hflags.cause, hflags.level_tree, hflags.level_scripts⟩,
    ⟨?_, onChain_connected s p, ?_, ?_⟩, ?_⟩
  · rw [htree]
    exact hs.tree
  · rw [htree]
    exact hc.lt_size
  · intro x hx
    rw [htree] at hx
    rw [hsame.nChainTx]
    have hfailed : ((s.connected p).status x).failed = (s.status x).failed := (hraised.flags x).1
    rw [hfailed]
    by_cases hxp : x = p
    · rw [hxp]
      exact ⟨hc.valid, hc.linked⟩
    · exact hs.chain.good x (Forest.mem_ancestors_parent hc.prev hx hxp)
  · intro x r hx hr
    rw [htree] at hx
    rw [hsame.header] at hr
    rcases (hraised.flags x).2.2 with heq | heq
    · by_cases hxp : x = p
      · have hself : ((s.connected p).status p).validity = Validity.scripts := by
          change ((s.raiseScripts p).status p).validity = _
          rw [hraised.status_self]
        rw [hxp]
        exact hself
      · have hx' := Forest.mem_ancestors_parent hc.prev hx hxp
        exact heq.trans (hs.chain.scripts x r hx' hr)
    · exact heq
  · intro c hc'
    rw [mem_connected_iff hs hc] at hc'
    rw [htree, hsame.nChainTx, hsame.less]
    exact ⟨(hs.candidates c hc'.1).1, (hs.candidates c hc'.1).2.1, hc'.2⟩

/-- Connecting a block keeps the mark, or moves it to the block. -/
theorem mark_connected (hs : IndexInv hashGenesis s [] t) (hc : Connectable s t p)
    (hm : s.Mark m) : exists m', (s.connected p).Mark m' := by
  have hraised := raised_raiseScripts hc
  have hsame := sameLinks_connected hs hc
  have htree : (s.connected p).tree = s.tree := hsame.tree
  have hinv := indexInv_connected hs hc
  have hfailed : forall x, ((s.connected p).status x).failed = (s.status x).failed :=
    fun x => (hraised.flags x).1
  cases hless : s.less m p with
  | false =>
      refine ⟨m, (mem_connected_iff hs hc).mpr ⟨hm.candidate, hless⟩, ?_, ?_⟩
      · intro x hx
        rw [hinv.chain.onChain.mem_branch_iff, htree] at hx
        have hxt : x ∈ s.branch m := hs.chain.onChain.mem_branch_iff.mpr
          ⟨hx.1, fun hxt => hx.2 (Forest.mem_ancestors_of_parent hc.prev hxt)⟩
        rw [hfailed]
        refine ⟨(hm.good x hxt).1, ?_⟩
        rcases (hraised.flags x).2.2 with heq | heq
        · exact heq.trans (hm.good x hxt).2
        · exact heq
      · intro x hx hlinked hvalid hxm
        rw [htree] at hx
        rw [hsame.nChainTx] at hlinked
        rw [hfailed] at hvalid
        rw [hsame.less] at hxm
        exact (mem_connected_iff hs hc).mpr
          ⟨hm.complete x hx hlinked hvalid hxm, not_less_trans hless hxm⟩
  | true =>
      have hpm : s.less p m = false := less_asymm hless
      refine ⟨p, (mem_connected_iff hs hc).mpr
        ⟨hm.complete p hc.lt_size hc.linked hc.valid hpm, less_irrefl p⟩, ?_, ?_⟩
      · intro x hx
        rw [hinv.chain.onChain.mem_branch_iff] at hx
        exact absurd hx.1 hx.2
      · intro x hx hlinked hvalid hxp
        rw [htree] at hx
        rw [hsame.nChainTx] at hlinked
        rw [hfailed] at hvalid
        rw [hsame.less] at hxp
        exact (mem_connected_iff hs hc).mpr
          ⟨hm.complete x hx hlinked hvalid (not_less_trans hpm hxp), hxp⟩

end IndexState

end BlockIndex
end Hbcur
