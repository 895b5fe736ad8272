import Hbcur.BlockIndex.Activation

/-!
# Steps of the activation

`ActivateBestChainStep` and the turns of `ActivateBestChain`, whatever the blocks turn
out to be.
-/

namespace Hbcur
namespace BlockIndex

open Foundation

namespace IndexState

variable {hashGenesis : Nat} {s s' : IndexState} {t p q m r : Nat}

/-!
# Failing blocks
-/

/-- Some entries were marked as failed, and are no candidates any more. -/
structure Flagged (s s' : IndexState) (bad : Nat -> Prop) : Prop where
  tree : s'.tree = s.tree
  unlinked : s'.mapBlocksUnlinked = s.mapBlocksUnlinked
  status_of_good : forall x, ¬ bad x -> s'.status x = s.status x
  status_of_bad : forall x, bad x -> exists fValid fChild, s'.status x =
    { s.status x with fFailedValid := fValid, fFailedChild := fChild }
  failedValid : forall x, (s.status x).fFailedValid = true ->
    (s'.status x).fFailedValid = true
  cause : forall x, bad x -> exists a, a ∈ s.tree.ancestors x ∧
    (s'.status a).fFailedValid = true
  candidates : forall c, c ∈ s'.setBlockIndexCandidates <->
    c ∈ s.setBlockIndexCandidates ∧ ¬ bad c

namespace Flagged

variable {bad : Nat -> Prop}

theorem sameLinks (h : Flagged s s' bad) : SameLinks s s' := by
  have hfields : forall x, (s'.status x).nTx = (s.status x).nTx ∧
      (s'.status x).nChainTx = (s.status x).nChainTx ∧
      (s'.status x).nSequenceId = (s.status x).nSequenceId ∧
      (s'.status x).fHaveData = (s.status x).fHaveData ∧
      (s'.status x).validity = (s.status x).validity := by
    intro x
    by_cases hx : bad x
    · rcases h.status_of_bad x hx with ⟨fValid, fChild, heq⟩
      rw [heq]
      exact ⟨rfl, rfl, rfl, rfl, rfl⟩
    · rw [h.status_of_good x hx]
      exact ⟨rfl, rfl, rfl, rfl, rfl⟩
  exact ⟨h.tree, h.unlinked, fun x => (hfields x).1, fun x => (hfields x).2.1,
    fun x => (hfields x).2.2.1, fun x => (hfields x).2.2.2.1,
    fun x _ => by rw [(hfields x).2.2.2.2]⟩

theorem validity (h : Flagged s s' bad) (x : Nat) :
    (s'.status x).validity = (s.status x).validity := by
  by_cases hx : bad x
  · rcases h.status_of_bad x hx with ⟨fValid, fChild, heq⟩
    rw [heq]
  · rw [h.status_of_good x hx]

theorem flagInv (h : Flagged s s' bad) (hs : s.FlagInv) : s'.FlagInv where
  cause x hx hfailed := by
    rw [h.tree] at hx ⊢
    by_cases hbad : bad x
    · exact h.cause x hbad
    · rw [h.status_of_good x hbad] at hfailed
      rcases hs.cause x hx hfailed with ⟨a, ha, hvalid⟩
      exact ⟨a, ha, h.failedValid a hvalid⟩
  level_tree x k hk := by
    rw [h.sameLinks.header] at hk
    rw [h.validity]
    exact hs.level_tree x k hk
  level_scripts x k hk := by
    rw [h.sameLinks.header] at hk
    rw [h.validity, h.validity, h.sameLinks.header]
    exact hs.level_scripts x k hk

/-- A chain without marked entries is as good as before. -/
theorem chainInv (h : Flagged s s' bad) (hs : s.ChainInv t) (hq : q ∈ s.tree.ancestors t)
    (hchain : s'.OnChain q) (hgood : forall x, x ∈ s.tree.ancestors q -> ¬ bad x) :
    s'.ChainInv q := by
  have hsub : forall x, x ∈ s.tree.ancestors q -> x ∈ s.tree.ancestors t :=
    fun x hx => Forest.mem_ancestors_trans hx hq
  refine ⟨?_, hchain, ?_, ?_⟩
  · rw [h.tree]
    exact BlockTree.lt_size_of_mem_ancestors hq hs.lt_size
  · intro x hx
    rw [h.tree] at hx
    rw [h.status_of_good x (hgood x hx)]
    exact hs.good x (hsub x hx)
  · intro x k hx hk
    rw [h.tree] at hx
    rw [h.sameLinks.header] at hk
    rw [h.validity]
    exact hs.scripts x k (hsub x hx) hk

theorem candInv (h : Flagged s s' bad) (hs : s.CandInv t) : s'.CandInv t := by
  intro c hc
  rw [h.tree, h.sameLinks.nChainTx, h.sameLinks.less]
  exact hs c ((h.candidates c).mp hc).1

end Flagged

theorem flagged_invalidBlockFound (s : IndexState) (p : Nat) :
    Flagged s (s.invalidBlockFound p) (fun x => x = p) := by
  have hself : (s.invalidBlockFound p).status p = { s.status p with fFailedValid := true } :=
    Function.update_self _ _ _
  have hne : forall x, x ≠ p -> (s.invalidBlockFound p).status x = s.status x :=
    fun x hx => Function.update_of_ne hx _ _
  refine ⟨rfl, rfl, hne, ?_, ?_, ?_, ?_⟩
  · rintro x rfl
    exact ⟨true, (s.status x).fFailedChild, hself⟩
  · intro x hx
    by_cases hxp : x = p
    · rw [hxp, hself]
    · rw [hne x hxp]
      exact hx
  · rintro x rfl
    refine ⟨x, Forest.mem_ancestors_self x, ?_⟩
    rw [hself]
  · intro c
    simp [invalidBlockFound, eraseCandidates, updateStatus]

theorem indexInv_invalidBlockFound (hs : IndexInv hashGenesis s [] t)
    (hc : Connectable s t p) : IndexInv hashGenesis (s.invalidBlockFound p) [] t := by
  have h := flagged_invalidBlockFound s p
  refine ⟨hs.tree, h.sameLinks.linkInv hs.links, h.flagInv hs.flags,
    h.chainInv hs.chain (Forest.mem_ancestors_self t) hs.chain.onChain ?_,
    h.candInv hs.candidates⟩
  intro x hx hxp
  exact hc.off_chain (hxp ▸ hx)

/-- A block which was not connected before is not on the way to the mark. -/
theorem mark_invalidBlockFound (hs : IndexInv hashGenesis s [] t) (hc : Connectable s t p)
    (hlevel : (s.status p).validity ≠ Validity.scripts) (hm : s.Mark m) :
    (s.invalidBlockFound p).Mark m := by
  have h := flagged_invalidBlockFound s p
  have hbranch : forall x, x ∈ s.branch m -> x ≠ p := by
    intro x hx hxp
    apply hlevel
    rw [← hxp]
    exact (hm.good x hx).2
  have hmp : m ≠ p := by
    intro hmp
    refine hbranch m (hs.chain.onChain.mem_branch_iff.mpr
      ⟨Forest.mem_ancestors_self m, ?_⟩) hmp
    rw [hmp]
    exact hc.off_chain
  refine ⟨(h.candidates m).mpr ⟨hm.candidate, hmp⟩, ?_, ?_⟩
  · intro x hx
    have hx' : x ∈ s.branch m := hx
    rw [h.status_of_good x (hbranch x hx')]
    exact hm.good x hx'
  · intro x hx hlinked hfailed hless
    rw [h.sameLinks.nChainTx] at hlinked
    rw [h.sameLinks.less] at hless
    have hxp : x ≠ p := by
      intro hxp
      have hself : (s.invalidBlockFound p).status p =
          { s.status p with fFailedValid := true } :=
        Function.update_self _ _ _
      rw [hxp, hself] at hfailed
      simp [IndexStatus.failed] at hfailed
    rw [h.status_of_good x hxp] at hfailed
    exact (h.candidates x).mpr ⟨hm.complete x hx hlinked hfailed hless, hxp⟩

/-!
# Connecting a path
-/

/-- A way up from `t`, one child after the other. -/
def IsPath (tree : BlockTree) : Nat -> List Nat -> Prop
  | _, [] => True
  | t, p :: ps => (tree.header p).pprev = some t ∧ IsPath tree p ps

theorem IsPath.lt {tree : BlockTree} {ps : List Nat} (h : IsPath tree t ps) :
    forall x, x ∈ ps -> t < x := by
  induction ps generalizing t with
  | nil => intro x hx; cases hx
  | cons p ps ih =>
      intro x hx
      have hlt := tree.pprev_lt p t h.1
      rcases List.mem_cons.mp hx with rfl | hx
      · exact hlt
      · exact hlt.trans (ih h.2 x hx)

/-- What connecting the blocks of a path does, wherever it stops. -/
structure Advanced (hashGenesis : Nat) (s : IndexState) (t : Nat) (ps : List Nat)
    (connects : Nat -> ConnectOutcome) (s' : IndexState) (t' : Nat) : Prop where
  inv : IndexInv hashGenesis s' [] t'
  tree : s'.tree = s.tree
  nSequenceId : forall x, (s'.status x).nSequenceId = (s.status x).nSequenceId
  reached : t' = t ∨ t' ∈ ps
  candidates : forall c, c ∈ s'.setBlockIndexCandidates -> c ∈ s.setBlockIndexCandidates
  mark : (forall x, x ∈ ps -> connects x = ConnectOutcome.invalid ->
    (s.status x).validity ≠ Validity.scripts) ->
    forall m, s.Mark m -> exists m', s'.Mark m'

theorem exists_advanced (connects : Nat -> ConnectOutcome) (pindexOldTip : Option Nat)
    (r : Nat) (ps : List Nat) :
    forall (s : IndexState) (t : Nat), IndexInv hashGenesis s [] t -> IsPath s.tree t ps ->
      (forall x, x ∈ ps -> (s.status x).failed = false ∧ (s.status x).nChainTx ≠ 0) ->
      r ∈ s.setBlockIndexCandidates -> (forall x, x ∈ ps -> x ∈ s.tree.ancestors r) ->
      exists result s' t', connectAll connects pindexOldTip ps s = some (result, s') ∧
        Advanced hashGenesis s t ps connects s' t' := by
  induction ps with
  | nil =>
      intro s t hs _ _ _ _
      refine ⟨ConnectEnd.finished, s, t, rfl, hs, rfl, fun _ => rfl, Or.inl rfl,
        fun _ hc => hc, ?_⟩
      intro _ m hm
      exact ⟨m, hm⟩
  | cons p ps ih =>
      intro s t hs hpath hgood hr hanc
      have hc : Connectable s t p :=
        ⟨hpath.1, (hgood p List.mem_cons_self).1, (hgood p List.mem_cons_self).2⟩
      have htip : (s.header p).pprev = s.tip := by
        rw [hc.prev, hs.chain.onChain.tip_eq]
      unfold connectAll
      cases hout : connects p with
      | connected =>
          have hsame := sameLinks_connected hs hc
          have hraised := raised_raiseScripts hc
          have hless : s.less r p = false :=
            hs.tree.not_less_ancestor (hanc p List.mem_cons_self)
          have hlessRaised : (s.raiseScripts p).less r p = false := by
            rw [(hraised.sameLinks hs.links hc.lt_size hc.linked).less]
            exact hless
          rcases connectTip_prune hs.chain.onChain hc hr hlessRaised with ⟨s1, hs1, hprune⟩
          have hinv := indexInv_connected hs hc
          have hrc : r ∈ (s.connected p).setBlockIndexCandidates :=
            (mem_connected_iff hs hc).mpr ⟨hr, hless⟩
          have hsub : forall c, c ∈ (s.connected p).setBlockIndexCandidates ->
              c ∈ s.setBlockIndexCandidates :=
            fun c hcc => ((mem_connected_iff hs hc).mp hcc).1
          rw [hs1]
          simp only [hprune]
          by_cases hmore : (s.connected p).hasMoreWork pindexOldTip = true
          · rw [if_pos hmore]
            refine ⟨ConnectEnd.better, s.connected p, p, rfl, hinv, hsame.tree,
              hsame.nSequenceId, Or.inr List.mem_cons_self, hsub, ?_⟩
            intro _ m hm
            exact mark_connected hs hc hm
          · rw [if_neg hmore]
            have hgood' : forall x, x ∈ ps ->
                ((s.connected p).status x).failed = false ∧
                  ((s.connected p).status x).nChainTx ≠ 0 := by
              intro x hx
              rw [hsame.nChainTx, show ((s.connected p).status x).failed =
                (s.status x).failed from (hraised.flags x).1]
              exact hgood x (List.mem_cons_of_mem p hx)
            have hpath' : IsPath (s.connected p).tree p ps := by
              rw [hsame.tree]
              exact hpath.2
            rcases ih (s.connected p) p hinv hpath' hgood' hrc (by
              intro x hx
              rw [hsame.tree]
              exact hanc x (List.mem_cons_of_mem p hx)) with
              ⟨result, s', t', hrun, hadv⟩
            refine ⟨result, s', t', hrun, hadv.inv, hadv.tree.trans hsame.tree,
              fun x => (hadv.nSequenceId x).trans (hsame.nSequenceId x), ?_,
              fun c hcc => hsub c (hadv.candidates c hcc), ?_⟩
            · rcases hadv.reached with h | h
              · exact Or.inr (h ▸ List.mem_cons_self)
              · exact Or.inr (List.mem_cons_of_mem p h)
            · intro hlevel m hm
              rcases mark_connected hs hc hm with ⟨m', hm'⟩
              apply hadv.mark _ m' hm'
              intro x hx hinvalid
              have hxp : x ≠ p := Nat.ne_of_gt (hpath.2.lt x hx)
              rw [show (s.connected p).status x = s.status x from hraised.status_of_ne x hxp]
              exact hlevel x (List.mem_cons_of_mem p hx) hinvalid
      | invalid =>
          have hflag := flagged_invalidBlockFound s p
          unfold connectTip
          rw [if_pos htip]
          refine ⟨ConnectEnd.invalidFound, s.invalidBlockFound p, t, rfl,
            indexInv_invalidBlockFound hs hc, rfl, hflag.sameLinks.nSequenceId, Or.inl rfl,
            fun c hcc => ((hflag.candidates c).mp hcc).1, ?_⟩
          intro hlevel m hm
          exact ⟨m, mark_invalidBlockFound hs hc (hlevel p List.mem_cons_self hout) hm⟩
      | corrupt =>
          unfold connectTip
          rw [if_pos htip]
          refine ⟨ConnectEnd.invalidFound, s, t, rfl, hs, rfl, fun _ => rfl, Or.inl rfl,
            fun _ hcc => hcc, ?_⟩
          intro _ m hm
          exact ⟨m, hm⟩
      | error fRaised =>
          unfold connectTip
          rw [if_pos htip]
          cases fRaised with
          | false =>
              refine ⟨ConnectEnd.failed, s, t, rfl, hs, rfl, fun _ => rfl, Or.inl rfl,
                fun _ hcc => hcc, ?_⟩
              intro _ m hm
              exact ⟨m, hm⟩
          | true =>
              have hraised := raised_raiseScripts hc
              refine ⟨ConnectEnd.failed, s.raiseScripts p, t, rfl, hraised.indexInv hs hc,
                hraised.tree,
                (hraised.sameLinks hs.links hc.lt_size hc.linked).nSequenceId, Or.inl rfl,
                fun c hcc => hraised.candidates ▸ hcc, ?_⟩
              intro _ m hm
              exact ⟨m, hraised.mark hs hc hm⟩

/-!
# Batches

The batches of 32 blocks add up to the whole way from the fork to the new tip.
-/

theorem tree_of_connectTip {outcome : ConnectOutcome}
    (h : s.connectTip outcome p = some s') : s'.tree = s.tree := by
  unfold connectTip at h
  split_ifs at h
  cases outcome with
  | connected =>
      cases h
      exact (raiseScripts_fields s p).1
  | invalid =>
      cases h
      rfl
  | corrupt =>
      cases h
      rfl
  | error fRaised =>
      cases h
      cases fRaised with
      | false => rfl
      | true => exact (raiseScripts_fields s p).1

theorem tree_of_prune (h : s.pruneBlockIndexCandidates = some s') : s'.tree = s.tree := by
  unfold pruneBlockIndexCandidates at h
  simp only at h
  split_ifs at h
  cases h
  rfl

theorem tree_of_connectAll {connects : Nat -> ConnectOutcome} {pindexOldTip : Option Nat}
    {result : ConnectEnd} (ps : List Nat) :
    forall s : IndexState, connectAll connects pindexOldTip ps s = some (result, s') ->
      s'.tree = s.tree := by
  induction ps with
  | nil =>
      intro s h
      cases h
      rfl
  | cons p ps ih =>
      intro s h
      unfold connectAll at h
      cases hconnect : s.connectTip (connects p) p with
      | none =>
          rw [hconnect] at h
          cases h
      | some s1 =>
          rw [hconnect] at h
          have htree := tree_of_connectTip hconnect
          cases hout : connects p with
          | connected =>
              simp only [hout] at h
              cases hprune : s1.pruneBlockIndexCandidates with
              | none =>
                  rw [hprune] at h
                  cases h
              | some s2 =>
                  rw [hprune] at h
                  have htree' := (tree_of_prune hprune).trans htree
                  simp only at h
                  split_ifs at h
                  · cases h
                    exact htree'
                  · exact (ih s2 h).trans htree'
          | invalid =>
              simp only [hout] at h
              cases h
              exact htree
          | corrupt =>
              simp only [hout] at h
              cases h
              exact htree
          | error fRaised =>
              simp only [hout] at h
              cases h
              exact htree

/-- Connect the rest after a first part which was connected to its end. -/
def andThen (result : Option (ConnectEnd × IndexState))
    (next : IndexState -> Option (ConnectEnd × IndexState)) :
    Option (ConnectEnd × IndexState) :=
  match result with
  | some (ConnectEnd.finished, s) => next s
  | other => other

theorem connectAll_append {connects : Nat -> ConnectOutcome} {pindexOldTip : Option Nat}
    (ps qs : List Nat) :
    forall s : IndexState, connectAll connects pindexOldTip (ps ++ qs) s =
      andThen (connectAll connects pindexOldTip ps s)
        (connectAll connects pindexOldTip qs) := by
  induction ps with
  | nil => exact fun _ => rfl
  | cons p ps ih =>
      intro s
      rw [List.cons_append]
      unfold connectAll
      cases s.connectTip (connects p) p with
      | none => rfl
      | some s1 =>
          simp only
          cases connects p with
          | connected =>
              simp only
              cases s1.pruneBlockIndexCandidates with
              | none => rfl
              | some s2 =>
                  simp only
                  split_ifs
                  · rfl
                  · exact ih s2
          | invalid => rfl
          | corrupt => rfl
          | error fRaised => rfl

theorem reverse_takeWhile_ancestors {tree : BlockTree} {next : Nat}
    (h : next ≤ (tree.header p).nHeight + 1) :
    ((tree.ancestors p).takeWhile
      (fun x => decide ((tree.header x).nHeight + 1 ≠ next))).reverse =
        (tree.ancestors p).reverse.drop next := by
  induction p using tree.forest.node_induction with
  | root p hroot =>
      have hzero := tree.nHeight_root p hroot
      rw [BlockTree.ancestors, Forest.ancestors_of_root hroot]
      cases next with
      | zero => simp
      | succ n =>
          have hn : n = 0 := by omega
          simp [hn, hzero]
  | child p q hprev ih =>
      have hheight := tree.nHeight_child p q hprev
      have hlen : (tree.ancestors q).reverse.length = (tree.header q).nHeight + 1 := by
        rw [List.length_reverse, BlockTree.length_ancestors]
      have hcons : tree.ancestors p = p :: tree.ancestors q := Forest.ancestors_of_parent hprev
      rw [hcons, List.reverse_cons, List.takeWhile_cons]
      by_cases hstop : (tree.header p).nHeight + 1 = next
      · rw [if_neg (by simpa using hstop), List.drop_eq_nil_of_le]
        · rfl
        · rw [List.length_append, List.length_singleton, hlen]
          omega
      · rw [if_pos (by simpa using hstop), List.reverse_cons, ih (by omega),
          List.drop_append_of_le_length (by omega)]

theorem reverse_ancestors_take {tree : BlockTree} {a : Nat} (h : a ∈ tree.ancestors p) :
    (tree.ancestors a).reverse =
      (tree.ancestors p).reverse.take ((tree.header a).nHeight + 1) := by
  rcases Forest.ancestors_suffix h with ⟨above, heq, _⟩
  have heq' : tree.ancestors p = above ++ tree.ancestors a := heq
  have hlen : (tree.ancestors a).reverse.length = (tree.header a).nHeight + 1 := by
    rw [List.length_reverse, BlockTree.length_ancestors]
  rw [heq', List.reverse_append, List.take_append_of_le_length (by omega),
    List.take_of_length_le (by omega)]

theorem toConnect_eq {next nTargetHeight : Nat} (hnext : next ≤ nTargetHeight + 1)
    (htarget : nTargetHeight ≤ (s.header r).nHeight) :
    s.toConnect r next nTargetHeight =
      ((s.tree.ancestors r).reverse.take (nTargetHeight + 1)).drop next := by
  have hdepth : nTargetHeight ≤ s.tree.forest.depth r := by
    rw [BlockTree.depth_eq_nHeight]
    exact htarget
  rcases Forest.exists_ancestor_of_depth hdepth with ⟨a, ha, hheight⟩
  rw [BlockTree.depth_eq_nHeight] at hheight
  unfold toConnect
  rw [BlockTree.getAncestor_eq_some_iff.mpr ⟨ha, hheight⟩]
  simp only
  unfold IndexState.header
  rw [reverse_takeWhile_ancestors (by omega), reverse_ancestors_take ha, hheight]

theorem connectBatches_eq {connects : Nat -> ConnectOutcome} {pindexOldTip : Option Nat}
    (fuel : Nat) :
    forall (next : Nat) (s : IndexState), next ≤ (s.header r).nHeight + 1 ->
      (s.header r).nHeight + 2 ≤ next + fuel ->
      connectBatches connects pindexOldTip r fuel next s =
        connectAll connects pindexOldTip ((s.tree.ancestors r).reverse.drop next) s := by
  induction fuel with
  | zero =>
      intro next s hnext hfuel
      omega
  | succ fuel ih =>
      intro next s hnext hfuel
      have hlen : (s.tree.ancestors r).reverse.length = (s.header r).nHeight + 1 := by
        rw [List.length_reverse, BlockTree.length_ancestors]
        rfl
      unfold connectBatches
      by_cases hdone : next = (s.header r).nHeight + 1
      · rw [if_pos hdone, List.drop_eq_nil_of_le (by omega)]
        rfl
      · rw [if_neg hdone]
        have hle : next ≤ min (next + 31) (s.header r).nHeight := by omega
        generalize htarget : min (next + 31) (s.header r).nHeight = nTargetHeight at hle ⊢
        have htop : nTargetHeight ≤ (s.header r).nHeight := by omega
        have hsplit : (s.tree.ancestors r).reverse.drop next =
            s.toConnect r next nTargetHeight ++
              (s.tree.ancestors r).reverse.drop (nTargetHeight + 1) := by
          rw [toConnect_eq (by omega) htop]
          conv_lhs => rw [← List.take_append_drop (nTargetHeight + 1)
            (s.tree.ancestors r).reverse]
          rw [List.drop_append_of_le_length]
          rw [List.length_take]
          omega
        rw [hsplit, connectAll_append]
        simp only
        cases hrun : connectAll connects pindexOldTip (s.toConnect r next nTargetHeight) s with
        | none => rfl
        | some result =>
            rcases result with ⟨stop, s1⟩
            cases stop with
            | finished =>
                have htree := tree_of_connectAll _ s hrun
                have hheader : s1.header r = s.header r := by
                  unfold IndexState.header
                  rw [htree]
                have hnext' := ih (nTargetHeight + 1) s1 (by rw [hheader]; omega)
                  (by rw [hheader]; omega)
                rw [htree] at hnext'
                exact hnext'
            | better => rfl
            | invalidFound => rfl
            | failed => rfl

theorem IsPath.concat {tree : BlockTree} {ps : List Nat} (h : IsPath tree t ps)
    (hp : (tree.header p).pprev = some (ps.getLastD t)) : IsPath tree t (ps ++ [p]) := by
  induction ps generalizing t with
  | nil => exact ⟨hp, trivial⟩
  | cons x ps ih =>
      refine ⟨h.1, ih h.2 ?_⟩
      cases ps with
      | nil => exact hp
      | cons y ys => exact hp

/-- The way from an ancestor up to an entry. -/
theorem isPath_drop_ancestors {tree : BlockTree} {f : Nat} (h : f ∈ tree.ancestors p) :
    IsPath tree f ((tree.ancestors p).reverse.drop ((tree.header f).nHeight + 1)) ∧
      ((tree.ancestors p).reverse.drop ((tree.header f).nHeight + 1)).getLastD f = p ∧
      forall x, x ∈ (tree.ancestors p).reverse.drop ((tree.header f).nHeight + 1) <->
        x ∈ tree.ancestors p ∧ x ∉ tree.ancestors f := by
  have hlen : forall q, (tree.ancestors q).reverse.length = (tree.header q).nHeight + 1 := by
    intro q
    rw [List.length_reverse, BlockTree.length_ancestors]
  induction p using tree.forest.node_induction with
  | root p hroot =>
      rw [BlockTree.ancestors, Forest.ancestors_of_root hroot, List.mem_singleton] at h
      subst h
      rw [List.drop_eq_nil_of_le (hlen f).le]
      exact ⟨trivial, rfl, fun x => by simp⟩
  | child p q hprev ih =>
      by_cases hfp : f = p
      · subst hfp
        rw [List.drop_eq_nil_of_le (hlen f).le]
        exact ⟨trivial, rfl, fun x => by simp⟩
      have hcons : tree.ancestors p = p :: tree.ancestors q := Forest.ancestors_of_parent hprev
      have hfq : f ∈ tree.ancestors q := Forest.mem_ancestors_parent hprev h hfp
      have hpf : p ∉ tree.ancestors f := fun hpf =>
        Forest.not_mem_ancestors_parent hprev (Forest.mem_ancestors_trans hpf hfq)
      rcases ih hfq with ⟨hpath, hlast, hmem⟩
      have hle := BlockTree.nHeight_le_of_mem_ancestors hfq
      rw [hcons, List.reverse_cons, List.drop_append_of_le_length (by rw [hlen]; omega)]
      refine ⟨hpath.concat (by rw [hlast]; exact hprev), by simp, ?_⟩
      intro x
      rw [List.mem_append, hmem, List.mem_singleton, List.mem_cons]
      constructor
      · rintro (⟨hx, hnot⟩ | rfl)
        · exact ⟨Or.inr hx, hnot⟩
        · exact ⟨Or.inl rfl, hpf⟩
      · rintro ⟨rfl | hx, hnot⟩
        · exact Or.inr rfl
        · exact Or.inl ⟨hx, hnot⟩

/-!
# Steps
-/

/-- What a step towards `r` does to an index whose tip is `t`. -/
structure Stepped (hashGenesis : Nat) (s : IndexState) (t r : Nat) (outcomes : Outcomes)
    (moved : Moved) (t' : Nat) : Prop where
  inv : IndexInv hashGenesis moved.index [] t'
  tree : moved.index.tree = s.tree
  nSequenceId : forall x, (moved.index.status x).nSequenceId = (s.status x).nSequenceId
  candidates : forall c, c ∈ moved.index.setBlockIndexCandidates ->
    c ∈ s.setBlockIndexCandidates
  /-- The new tip is on the way between the old one, the fork and `r`. -/
  reached : forall a, a ∈ s.tree.ancestors t -> a ∈ s.tree.ancestors r ->
    a ∈ s.tree.ancestors t'
  disconnected : forall x, x ∈ moved.disconnected -> x ∈ s.tree.ancestors t ∧
    x ∉ s.tree.ancestors r
  mark : (forall x, x < s.tree.size -> outcomes.connects x = ConnectOutcome.invalid ->
    (s.status x).validity ≠ Validity.scripts) ->
    forall m, s.Mark m -> exists m', moved.index.Mark m'

theorem exists_stepped (outcomes : Outcomes) (hs : IndexInv hashGenesis s [] t)
    (hr : r ∈ s.setBlockIndexCandidates) (hq : s.Qualified r) :
    exists moved t', s.activateBestChainStep outcomes r = some moved ∧
      Stepped hashGenesis s t r outcomes moved t' := by
  have hrlt := (hs.candidates r hr).1
  rcases exists_findFork (hs.tree.zero_mem_ancestors hs.chain.lt_size)
    (hs.tree.zero_mem_ancestors hrlt) with ⟨f, hf⟩
  have hfork := isFork_of_findFork hf
  have hfork' : findFork s.tree s.vChain r = some f := by
    rw [hs.chain.onChain]
    exact hf
  have hheight : (s.header t).nHeight ≤ (s.header f).nHeight + s.vChain.length := by
    rw [hs.chain.onChain, length_chainOf]
    unfold IndexState.header
    omega
  rcases exists_wentBack outcomes.disconnects s.vChain.length s t
    hs.chain.onChain hfork.left hheight with ⟨q, hback⟩
  have hqinv : IndexInv hashGenesis (s.atTip q) [] q := indexInv_atTip hs hback.below
  -- only blocks which are not on the new branch are disconnected
  have hdis : forall x, x ∈ (disconnectTo outcomes.disconnects (some f) s.vChain.length
      s).disconnected -> x ∈ s.tree.ancestors t ∧ x ∉ s.tree.ancestors r := by
    intro x hx
    rcases (hback.disconnected x).mp hx with ⟨hxt, hxq⟩
    refine ⟨hxt, fun hxr => hxq ?_⟩
    exact Forest.mem_ancestors_trans (hfork.last x hxt hxr) hback.above
  have hreach : forall a, a ∈ s.tree.ancestors t -> a ∈ s.tree.ancestors r ->
      a ∈ s.tree.ancestors q :=
    fun a hat har => Forest.mem_ancestors_trans (hfork.last a hat har) hback.above
  unfold activateBestChainStep
  simp only [hfork']
  generalize hmoved : disconnectTo outcomes.disconnects (some f) s.vChain.length s = back
    at hback hdis ⊢
  cases hok : back.ok with
  | false =>
      rw [if_neg Bool.false_ne_true]
      refine ⟨back, q, rfl, ?_⟩
      refine ⟨?_, ?_, ?_, ?_, hreach, hdis, ?_⟩ <;> rw [hback.index]
      · exact hqinv
      · rfl
      · exact fun _ => rfl
      · exact fun _ hc => hc
      · intro _ m hm
        exact ⟨m, mark_atTip hs hback.below hm⟩
  | true =>
      have hqf := hback.ok hok
      subst hqf
      rw [if_pos rfl]
      rcases isPath_drop_ancestors hfork.right with ⟨hpath, _, hmem⟩
      have hbatches : connectBatches outcomes.connects s.tip r ((s.header r).nHeight + 2)
          ((s.header q).nHeight + 1) back.index =
          connectAll outcomes.connects s.tip
            ((s.tree.ancestors r).reverse.drop ((s.tree.header q).nHeight + 1))
            (s.atTip q) := by
        have hle := BlockTree.nHeight_le_of_mem_ancestors hfork.right
        rw [hback.index, connectBatches_eq]
        · rfl
        · change (s.tree.header q).nHeight + 1 ≤ (s.tree.header r).nHeight + 1
          omega
        · change (s.tree.header r).nHeight + 2 ≤ _ + ((s.tree.header r).nHeight + 2)
          omega
      rcases exists_advanced outcomes.connects s.tip r
        ((s.tree.ancestors r).reverse.drop ((s.tree.header q).nHeight + 1)) (s.atTip q) q
        hqinv hpath
        (by
          intro x hx
          rcases (hmem x).mp hx with ⟨hxr, hxq⟩
          have hbranch : x ∈ s.branch r := hs.chain.onChain.mem_branch_iff.mpr
            ⟨hxr, fun hxt => hxq (hfork.last x hxt hxr)⟩
          have husable := hq x hbranch
          rw [unusable, Bool.or_eq_false_iff] at husable
          exact ⟨husable.1, (hs.data_of_candidate hr hxr).2.1⟩)
        hr (fun x hx => ((hmem x).mp hx).1) with ⟨result, s', t', hrun, hadv⟩
      refine ⟨{ back with ok := decide (result ≠ ConnectEnd.failed), index := s' }, t', ?_,
        hadv.inv, hadv.tree, hadv.nSequenceId, hadv.candidates, ?_, hdis, ?_⟩
      · rw [hbatches, hrun]
      · intro a hat har
        rcases hadv.reached with h | h
        · rw [h]
          exact hreach a hat har
        · rcases (hmem t').mp h with ⟨htr, htq⟩
          have hqt : q ∈ s.tree.ancestors t' :=
            (Forest.mem_ancestors_total hfork.right htr).resolve_right htq
          exact Forest.mem_ancestors_trans (hreach a hat har) hqt
      · intro hlevel m hm
        refine hadv.mark ?_ m (mark_atTip hs hback.below hm)
        intro x hx
        exact hlevel x (BlockTree.lt_size_of_mem_ancestors ((hmem x).mp hx).1 hrlt)

/-!
# Turns
-/

/-- What a turn does, and that it ends with the best candidate when it is the last one. -/
structure Turned (hashGenesis : Nat) (s : IndexState) (t : Nat) (outcomes : Outcomes)
    (turn : Turn) (t' : Nat) : Prop where
  inv : IndexInv hashGenesis turn.index [] t'
  tree : turn.index.tree = s.tree
  candidates : forall c, c ∈ turn.index.setBlockIndexCandidates ->
    c ∈ s.setBlockIndexCandidates
  reached : forall a, a ∈ s.tree.ancestors t ->
    (forall c, c ∈ s.setBlockIndexCandidates -> a ∈ s.tree.ancestors c) ->
    a ∈ s.tree.ancestors t'
  disconnected : forall x, x ∈ turn.disconnected -> exists c,
    c ∈ s.setBlockIndexCandidates ∧ x ∉ s.tree.ancestors c
  settled : turn.ok = true -> turn.last = true ->
    forall c, c ∈ turn.index.setBlockIndexCandidates -> c = t'
  mark : (forall x, x < s.tree.size -> outcomes.connects x = ConnectOutcome.invalid ->
    (s.status x).validity ≠ Validity.scripts) ->
    forall m, s.Mark m -> exists m', turn.index.Mark m'

theorem exists_turned (outcomes : Outcomes) (hs : IndexInv hashGenesis s [] t) :
    exists turn t', s.activateTurn outcomes = some turn ∧
      Turned hashGenesis s t outcomes turn t' := by
  rcases findMostWorkChain_spec hs.chain.onChain hs.searchable.candidates with
    ⟨r, s1, hrun, hsearch, hfound⟩
  have hinv := indexInv_of_searched hs hsearch
  have htree := hsearch.tree
  unfold activateTurn
  rw [hrun]
  cases hfound with
  | nothing hnil =>
      refine ⟨_, t, rfl, hinv, htree, hsearch.candidates, fun a hat _ => hat, ?_, ?_, ?_⟩
      · intro x hx
        cases hx
      · intro _ _ c hc
        rw [show ({ ok := true, index := s1, last := true } : Turn).index = s1 from rfl,
          hnil] at hc
        cases hc
      · intro _ m hm
        exact ⟨m, mark_of_searched hs hsearch hm⟩
  | best r hr hq hmax =>
      simp only
      by_cases htip : s1.tip = some r
      · rw [if_pos htip]
        have hrt : r = t := by
          rw [hinv.chain.onChain.tip_eq] at htip
          cases htip
          rfl
        refine ⟨_, t, rfl, hinv, htree, hsearch.candidates, fun a hat _ => hat, ?_, ?_, ?_⟩
        · intro x hx
          cases hx
        · intro _ _ c hc
          have hle := hmax c hc
          rw [hrt] at hle
          exact eq_of_not_less (hinv.candidates c hc).2.2 hle
        · intro _ m hm
          exact ⟨m, mark_of_searched hs hsearch hm⟩
      · rw [if_neg htip]
        rcases exists_stepped outcomes hinv hr hq with ⟨moved, t', hmoved, hstep⟩
        rw [hmoved]
        refine ⟨_, t', rfl, hstep.inv, hstep.tree.trans htree,
          fun c hc => hsearch.candidates c (hstep.candidates c hc), ?_, ?_, ?_, ?_⟩
        · intro a hat hall
          have hreach := hstep.reached a
          rw [htree] at hreach
          exact hreach hat (hall r (hsearch.candidates r hr))
        · intro x hx
          refine ⟨r, hsearch.candidates r hr, ?_⟩
          rw [← htree]
          exact (hstep.disconnected x hx).2
        · intro hok hlast c hc
          simp only at hok hlast
          rw [hok, Bool.not_true, Bool.false_or, decide_eq_true_eq,
            hstep.inv.chain.onChain.tip_eq] at hlast
          cases hlast
          have hless : forall a b, moved.index.less a b = s1.less a b := fun a b =>
            less_congr hstep.tree (hstep.nSequenceId a) (hstep.nSequenceId b)
          have hle := hmax c (hstep.candidates c hc)
          rw [← hless] at hle
          exact eq_of_not_less (hstep.inv.candidates c hc).2.2 hle
        · intro hlevel m hm
          apply hstep.mark _ m (mark_of_searched hs hsearch hm)
          intro x hx
          rw [htree] at hx
          rw [hsearch.validity]
          exact hlevel x hx

/-!
# Overtaking branches

A call in which every block can be connected.
-/

section Overtaking

variable {outcomes : Outcomes} {s : IndexState} {t f r p q : Nat}

end Overtaking

end IndexState

end BlockIndex
end Hbcur
