import Hbcur.BlockIndex.Invariant

/-!
# New blocks keep the invariant

`ReceivedBlockTransactions` links the block and everything that waited for it.
-/

namespace Hbcur
namespace BlockIndex

open Foundation

namespace IndexState

/-!
# Storing a block
-/

/-- What `AcceptBlock` has checked, and that no total of transactions overflows. -/
structure BlockOk (s : IndexState) (nTx p : Nat) : Prop where
  lt_size : p < s.tree.size
  absent : (s.status p).fHaveData = false
  valid : (s.status p).failed = false
  prev_valid : forall q, (s.header p).pprev = some q -> (s.status q).failed = false
  nTx_pos : 0 < nTx
  bound : forall x, x < s.tree.size -> (s.store nTx p).chainTxTotal x < 2 ^ 32

instance (s : IndexState) (nTx p : Nat) : Decidable (s.BlockOk nTx p) :=
  decidable_of_iff (p < s.tree.size ∧ (s.status p).fHaveData = false ∧
    (s.status p).failed = false ∧
    (forall q, q ∈ (s.header p).pprev -> (s.status q).failed = false) ∧ 0 < nTx ∧
    forall x, x < s.tree.size -> (s.store nTx p).chainTxTotal x < 2 ^ 32)
    ⟨fun h => ⟨h.1, h.2.1, h.2.2.1, h.2.2.2.1, h.2.2.2.2.1, h.2.2.2.2.2⟩,
      fun h => ⟨h.lt_size, h.absent, h.valid, h.prev_valid, h.nTx_pos, h.bound⟩⟩

/-- What storing a block rests on, whatever the totals are. -/
structure Storable (s : IndexState) (nTx p : Nat) : Prop where
  lt_size : p < s.tree.size
  absent : (s.status p).fHaveData = false
  valid : (s.status p).failed = false
  prev_valid : forall q, (s.header p).pprev = some q -> (s.status q).failed = false
  nTx_pos : 0 < nTx

theorem BlockOk.storable {s : IndexState} {nTx p : Nat} (h : s.BlockOk nTx p) :
    s.Storable nTx p :=
  ⟨h.lt_size, h.absent, h.valid, h.prev_valid, h.nTx_pos⟩

section Store

variable {hashGenesis : Nat} {s : IndexState} {nTx p q t x : Nat}

theorem nChainTx_of_absent {queue : List Nat} (h : s.LinkInv queue) (hp : p < s.tree.size)
    (habsent : (s.status p).fHaveData = false) : (s.status p).nChainTx = 0 := by
  by_contra hlinked
  rw [(h.linked p hp hlinked).1] at habsent
  cases habsent

theorem store_status_self {queue : List Nat} (h : s.LinkInv queue) (hok : s.Storable nTx p) :
    (s.store nTx p).status p =
      { s.status p with
        nTx := nTx, nChainTx := 0, fHaveData := true, validity := Validity.transactions } := by
  have hself : (s.store nTx p).status p =
      ({ s.status p with nTx := nTx, nChainTx := 0, fHaveData := true } :
        IndexStatus).raiseValidity Validity.transactions :=
    Function.update_self _ _ _
  have hlow : (s.status p).validity.level < 3 := by
    have hlevel := h.level p hok.lt_size
    have hdata := h.data p hok.lt_size
    rw [hok.absent] at hdata
    by_contra hge
    have hpos := hlevel.mp (Nat.not_lt.mp hge)
    exact Bool.false_ne_true (hdata.mpr hpos)
  rw [hself]
  exact IndexStatus.raiseValidity_of_lt hok.valid hlow

theorem store_nChainTx (h : s.LinkInv []) (hok : s.Storable nTx p) (x : Nat) :
    ((s.store nTx p).status x).nChainTx = (s.status x).nChainTx := by
  by_cases hx : x = p
  · subst hx
    rw [store_status_self h hok, nChainTx_of_absent h hok.lt_size hok.absent]
  · rw [store_status_of_ne hx]

theorem store_nSequenceId (h : s.LinkInv []) (hok : s.Storable nTx p) (x : Nat) :
    ((s.store nTx p).status x).nSequenceId = (s.status x).nSequenceId := by
  by_cases hx : x = p
  · subst hx
    rw [store_status_self h hok]
  · rw [store_status_of_ne hx]

theorem store_failed (h : s.LinkInv []) (hok : s.Storable nTx p) (x : Nat) :
    ((s.store nTx p).status x).fFailedValid = (s.status x).fFailedValid ∧
      ((s.store nTx p).status x).failed = (s.status x).failed := by
  by_cases hx : x = p
  · subst hx
    rw [store_status_self h hok]
    exact ⟨rfl, rfl⟩
  · rw [store_status_of_ne hx]
    exact ⟨rfl, rfl⟩

theorem store_less (h : s.LinkInv []) (hok : s.Storable nTx p) (a b : Nat) :
    (s.store nTx p).less a b = s.less a b :=
  less_congr rfl (store_nSequenceId h hok a) (store_nSequenceId h hok b)

theorem store_prevLinked_iff (h : s.LinkInv []) (hok : s.Storable nTx p) (x : Nat) :
    (s.store nTx p).PrevLinked x <-> s.PrevLinked x := by
  unfold PrevLinked
  simp only [store_nChainTx h hok]
  rfl

/-- A linked entry does not come after a block whose data is missing. -/
theorem store_chainTxTotal (h : s.LinkInv []) (hok : s.Storable nTx p) (hx : x < s.tree.size)
    (hlinked : (s.status x).nChainTx ≠ 0) :
    (s.store nTx p).chainTxTotal x = s.chainTxTotal x := by
  unfold chainTxTotal
  congr 1
  apply List.map_congr_left
  intro a ha
  have hne : a ≠ p := by
    intro hap
    apply h.linked_ancestor hx hlinked ha
    rw [hap]
    exact nChainTx_of_absent h hok.lt_size hok.absent
  rw [store_status_of_ne hne]

theorem store_data (h : s.LinkInv []) (hok : s.Storable nTx p) (hx : x < s.tree.size) :
    ((s.store nTx p).status x).fHaveData = true <->
      0 < ((s.store nTx p).status x).nTx := by
  by_cases hxp : x = p
  · subst hxp
    rw [store_status_self h hok]
    exact iff_of_true rfl hok.nTx_pos
  · rw [store_status_of_ne hxp]
    exact h.data x hx

theorem store_level (h : s.LinkInv []) (hok : s.Storable nTx p) (hx : x < s.tree.size) :
    3 ≤ ((s.store nTx p).status x).validity.level <->
      0 < ((s.store nTx p).status x).nTx := by
  by_cases hxp : x = p
  · subst hxp
    rw [store_status_self h hok]
    exact iff_of_true (le_refl 3) hok.nTx_pos
  · rw [store_status_of_ne hxp]
    exact h.level x hx

theorem store_linked (h : s.LinkInv []) (hok : s.Storable nTx p) (hx : x < s.tree.size)
    (hlinked : ((s.store nTx p).status x).nChainTx ≠ 0) :
    ((s.store nTx p).status x).fHaveData = true ∧ (s.store nTx p).PrevLinked x ∧
      ((s.store nTx p).status x).nChainTx = (s.store nTx p).chainTxTotal x := by
  rw [store_nChainTx h hok] at hlinked ⊢
  have hxp : x ≠ p := by
    intro hxp
    rw [hxp, nChainTx_of_absent h hok.lt_size hok.absent] at hlinked
    exact hlinked rfl
  rw [store_status_of_ne hxp, store_prevLinked_iff h hok, store_chainTxTotal h hok hx hlinked]
  exact h.linked x hx hlinked

/-- With its parent linked, the block is due. -/
theorem linkInv_store (h : s.LinkInv []) (hok : s.Storable nTx p) (hprev : s.PrevLinked p) :
    (s.store nTx p).LinkInv [p] where
  data x hx := store_data h hok hx
  level x hx := store_level h hok hx
  sequence x hx := by
    rw [store_nChainTx h hok, store_nSequenceId h hok]
    exact h.sequence x hx
  linked x hx := store_linked h hok hx
  queued x hx := by
    rw [List.mem_singleton.mp hx, store_prevLinked_iff h hok, store_status_self h hok]
    exact ⟨hok.lt_size, rfl, rfl, hprev⟩
  queue_nodup := List.nodup_singleton p
  due x hx hdata hlinked hzero := by
    by_cases hxp : x = p
    · exact List.mem_singleton.mpr hxp
    · rw [store_status_of_ne hxp] at hdata hzero
      rw [store_prevLinked_iff h hok] at hlinked
      cases h.due x hx hdata hlinked hzero
  waiting e he := by
    rcases h.waiting e he with ⟨hlt, hkey, hdata, hzero, _⟩
    have hne : e.2 ≠ p := by
      intro hep
      rw [hep, hok.absent] at hdata
      cases hdata
    rw [store_status_of_ne hne]
    exact ⟨hlt, hkey, hdata, hzero, fun hmem => hne (List.mem_singleton.mp hmem)⟩
  unlinked_nodup := h.unlinked_nodup
  registered x hx hdata hzero := by
    by_cases hxp : x = p
    · exact Or.inl (List.mem_singleton.mpr hxp)
    · rw [store_status_of_ne hxp] at hdata hzero
      rcases h.registered x hx hdata hzero with hmem | hmem
      · cases hmem
      · exact Or.inr hmem

/-- Without it, the block has to wait. -/
theorem linkInv_store_waiting (h : s.LinkInv []) (hok : s.Storable nTx p)
    (hprev : (s.header p).pprev = some q) (hq : (s.status q).nChainTx = 0) :
    ({ s.store nTx p with
        mapBlocksUnlinked := (s.store nTx p).mapBlocksUnlinked ++ [(some q, p)] } :
      IndexState).LinkInv [] where
  data x hx := store_data h hok hx
  level x hx := store_level h hok hx
  sequence x hx := by
    change ((s.store nTx p).status x).nChainTx = 0 ->
      ((s.store nTx p).status x).nSequenceId = 0
    rw [store_nChainTx h hok, store_nSequenceId h hok]
    exact h.sequence x hx
  linked x hx := store_linked h hok hx
  queued x hx := by cases hx
  queue_nodup := List.nodup_nil
  due x hx hdata hlinked hzero := by
    have hlinked' := (store_prevLinked_iff h hok x).mp hlinked
    by_cases hxp : x = p
    · subst hxp
      exact absurd hq (hlinked' q hprev)
    · change ((s.store nTx p).status x).fHaveData = true at hdata
      change ((s.store nTx p).status x).nChainTx = 0 at hzero
      rw [store_status_of_ne hxp] at hdata hzero
      exact h.due x hx hdata hlinked' hzero
  waiting e he := by
    rcases List.mem_append.mp he with he | he
    · rcases h.waiting e he with ⟨hlt, hkey, hdata, hzero, hnot⟩
      have hne : e.2 ≠ p := by
        intro hep
        rw [hep, hok.absent] at hdata
        cases hdata
      change _ ∧ _ ∧ ((s.store nTx p).status e.2).fHaveData = true ∧
        ((s.store nTx p).status e.2).nChainTx = 0 ∧ _
      rw [store_status_of_ne hne]
      exact ⟨hlt, hkey, hdata, hzero, hnot⟩
    · rw [List.mem_singleton.mp he]
      change _ ∧ _ ∧ ((s.store nTx p).status p).fHaveData = true ∧
        ((s.store nTx p).status p).nChainTx = 0 ∧ _
      rw [store_status_self h hok]
      exact ⟨hok.lt_size, ⟨q, rfl, hprev⟩, rfl, rfl, List.not_mem_nil⟩
  unlinked_nodup := by
    change (s.mapBlocksUnlinked ++ [(some q, p)]).Nodup
    rw [List.nodup_append]
    refine ⟨h.unlinked_nodup, List.nodup_singleton _, ?_⟩
    intro e he e' he' heq
    rw [heq, List.mem_singleton.mp he'] at he
    have hdata := (h.waiting _ he).2.2.1
    rw [hok.absent] at hdata
    cases hdata
  registered x hx hdata hzero := by
    right
    by_cases hxp : x = p
    · subst hxp
      apply List.mem_append_right
      rw [List.mem_singleton]
      exact congrArg (fun k => (k, x)) hprev
    · change ((s.store nTx p).status x).fHaveData = true at hdata
      change ((s.store nTx p).status x).nChainTx = 0 at hzero
      rw [store_status_of_ne hxp] at hdata hzero
      rcases h.registered x hx hdata hzero with hmem | hmem
      · cases hmem
      · exact List.mem_append_left _ hmem

theorem flagInv_store (h : s.LinkInv []) (hok : s.Storable nTx p) (hs : s.FlagInv) :
    (s.store nTx p).FlagInv where
  cause x hx hfailed := by
    rw [(store_failed h hok x).2] at hfailed
    rcases hs.cause x hx hfailed with ⟨a, ha, hvalid⟩
    refine ⟨a, ha, ?_⟩
    rw [(store_failed h hok a).1]
    exact hvalid
  level_tree x r hr := by
    by_cases hxp : x = p
    · subst hxp
      rw [store_status_self h hok]
      exact Nat.le_succ 2
    · rw [store_status_of_ne hxp]
      exact hs.level_tree x r hr
  level_scripts x r hr hlevel := by
    by_cases hxp : x = p
    · subst hxp
      rw [store_status_self h hok] at hlevel
      exact absurd hlevel (Nat.not_succ_le_self 3)
    · rw [store_status_of_ne hxp] at hlevel ⊢
      rcases hs.level_scripts x r hr hlevel with ⟨hscripts, hparent⟩
      refine ⟨hscripts, ?_⟩
      intro k hk
      by_cases hrp : r = p
      · subst hrp
        have hlevel' := h.level r hok.lt_size
        have hdata := h.data r hok.lt_size
        rw [hparent k hk, hok.absent] at *
        exact absurd (hdata.mpr (hlevel'.mp (by decide))) Bool.false_ne_true
      · rw [store_status_of_ne hrp]
        exact hparent k hk

theorem chainInv_store (h : s.LinkInv []) (hok : s.Storable nTx p) (hs : s.ChainInv t) :
    (s.store nTx p).ChainInv t := by
  have hne : forall x, x ∈ s.tree.ancestors t -> x ≠ p := by
    intro x hx hxp
    apply (hs.good x hx).2
    rw [hxp]
    exact nChainTx_of_absent h hok.lt_size hok.absent
  refine ⟨hs.lt_size, hs.onChain, ?_, ?_⟩
  · intro x hx
    rw [store_status_of_ne (hne x hx)]
    exact hs.good x hx
  · intro x r hx hr
    rw [store_status_of_ne (hne x hx)]
    exact hs.scripts x r hx hr

theorem candInv_store (h : s.LinkInv []) (hok : s.Storable nTx p) (hs : s.CandInv t) :
    (s.store nTx p).CandInv t := by
  intro c hc
  rw [store_nChainTx h hok, store_less h hok]
  exact hs c hc

theorem mark_store (h : IndexInv hashGenesis s [] t) (hok : s.Storable nTx p) {m : Nat}
    (hm : s.Mark m) : (s.store nTx p).Mark m := by
  refine ⟨hm.candidate, ?_, ?_⟩
  · intro x hx
    have hanc := (h.chain.onChain.mem_branch_iff.mp hx).1
    have hne : x ≠ p := by
      intro hxp
      apply (h.data_of_candidate hm.candidate hanc).2.1
      rw [hxp]
      exact nChainTx_of_absent h.links hok.lt_size hok.absent
    rw [store_status_of_ne hne]
    exact hm.good x hx
  · intro x hx hlinked hfailed hless
    rw [store_nChainTx h.links hok] at hlinked
    rw [(store_failed h.links hok x).2] at hfailed
    rw [store_less h.links hok] at hless
    exact hm.complete x hx hlinked hfailed hless

end Store

/-!
# One turn of the queue
-/

section Turn

variable {hashGenesis : Nat} {s : IndexState} {p q t x : Nat} {queue : List Nat}

theorem turn_status_of_ne (h : x ≠ p) :
    ((s.link p).release p).status x = s.status x :=
  link_status_of_ne h

theorem turn_nTx (x : Nat) : (((s.link p).release p).status x).nTx = (s.status x).nTx := by
  by_cases hx : x = p
  · subst hx
    change ((s.link x).status x).nTx = _
    rw [link_status_self]
  · rw [turn_status_of_ne hx]

theorem turn_flags (x : Nat) :
    (((s.link p).release p).status x).fHaveData = (s.status x).fHaveData ∧
      (((s.link p).release p).status x).validity = (s.status x).validity ∧
      (((s.link p).release p).status x).fFailedValid = (s.status x).fFailedValid ∧
      (((s.link p).release p).status x).failed = (s.status x).failed := by
  by_cases hx : x = p
  · subst hx
    change ((s.link x).status x).fHaveData = _ ∧ ((s.link x).status x).validity = _ ∧
      ((s.link x).status x).fFailedValid = _ ∧ ((s.link x).status x).failed = _
    rw [link_status_self]
    exact ⟨rfl, rfl, rfl, rfl⟩
  · rw [turn_status_of_ne hx]
    exact ⟨rfl, rfl, rfl, rfl⟩

theorem turn_tree : ((s.link p).release p).tree = s.tree := link_tree

theorem turn_header (x : Nat) : ((s.link p).release p).header x = s.header x := by
  unfold IndexState.header
  rw [turn_tree]

theorem turn_chainTxTotal (x : Nat) :
    ((s.link p).release p).chainTxTotal x = s.chainTxTotal x := by
  unfold chainTxTotal
  rw [turn_tree]
  congr 1
  exact List.map_congr_left (fun a _ => turn_nTx a)

/-- The entry at the head of the queue gets the total of its chain. -/
theorem turn_nChainTx_self (h : s.LinkInv (p :: queue)) (hbound : s.chainTxTotal p < 2 ^ 32) :
    (((s.link p).release p).status p).nChainTx = s.chainTxTotal p ∧ s.chainTxTotal p ≠ 0 := by
  rcases h.queued p List.mem_cons_self with ⟨hlt, hdata, _, hprev⟩
  have hpos := (h.data p hlt).mp hdata
  have htotal : s.nChainTxPrev p + (s.status p).nTx = s.chainTxTotal p := by
    unfold nChainTxPrev
    cases hpprev : (s.header p).pprev with
    | none =>
        rw [chainTxTotal_root hpprev]
        exact Nat.zero_add _
    | some q =>
        have hq := (h.linked q (s.tree.size_pos_of_pprev hpprev) (hprev q hpprev)).2.2
        simp only
        rw [hq, chainTxTotal_child hpprev]
  change ((s.link p).status p).nChainTx = _ ∧ _
  rw [link_status_self]
  simp only
  rw [htotal, Nat.mod_eq_of_lt hbound]
  exact ⟨rfl, by omega⟩

theorem turn_prevLinked_of_prevLinked (h : s.LinkInv (p :: queue))
    (hbound : s.chainTxTotal p < 2 ^ 32) (hx : s.PrevLinked x) :
    ((s.link p).release p).PrevLinked x := by
  intro q hq
  rw [turn_header] at hq
  by_cases hqp : q = p
  · subst hqp
    rw [(turn_nChainTx_self h hbound).1]
    exact (turn_nChainTx_self h hbound).2
  · rw [turn_status_of_ne hqp]
    exact hx q hq

theorem linkInv_turn (h : s.LinkInv (p :: queue)) (hbound : s.chainTxTotal p < 2 ^ 32) :
    ((s.link p).release p).LinkInv (queue ++ s.waiting p) := by
  rcases turn_nChainTx_self h hbound with ⟨hself, htotal⟩
  rcases h.queued p List.mem_cons_self with ⟨hplt, hpdata, hpzero, hpprev⟩
  have hnodup := List.nodup_cons.mp h.queue_nodup
  have hmono := fun x => turn_prevLinked_of_prevLinked (x := x) h hbound
  have hne : forall x, (((s.link p).release p).status x).nChainTx = 0 -> x ≠ p := by
    intro x hx hxp
    rw [hxp, hself] at hx
    exact htotal hx
  have hwait : forall x, x ∈ s.waiting p -> (some p, x) ∈ s.mapBlocksUnlinked ∧ x ≠ p := by
    intro x hx
    have hmem := mem_waiting_iff.mp hx
    refine ⟨hmem, ?_⟩
    intro hxp
    apply (h.waiting _ hmem).2.2.2.2
    rw [hxp]
    exact List.mem_cons_self
  refine
    { data := ?_, level := ?_, sequence := ?_, linked := ?_, queued := ?_, queue_nodup := ?_,
      due := ?_, waiting := ?_, unlinked_nodup := ?_, registered := ?_ }
  · intro x hx
    rw [turn_tree] at hx
    rw [(turn_flags x).1, turn_nTx]
    exact h.data x hx
  · intro x hx
    rw [turn_tree] at hx
    rw [(turn_flags x).2.1, turn_nTx]
    exact h.level x hx
  · intro x hx hzero
    have hxp := hne x hzero
    rw [turn_tree] at hx
    rw [turn_status_of_ne hxp] at hzero ⊢
    exact h.sequence x hx hzero
  · intro x hx hlinked
    rw [turn_tree] at hx
    rw [(turn_flags x).1, turn_chainTxTotal]
    by_cases hxp : x = p
    · subst hxp
      exact ⟨hpdata, hmono x hpprev, hself⟩
    · rw [turn_status_of_ne hxp] at hlinked ⊢
      rcases h.linked x hx hlinked with ⟨hdata, hprev, hsum⟩
      exact ⟨hdata, hmono x hprev, hsum⟩
  · intro x hx
    rw [turn_tree, (turn_flags x).1]
    rcases List.mem_append.mp hx with hx | hx
    · have hxp : x ≠ p := fun hxp => hnodup.1 (hxp ▸ hx)
      rcases h.queued x (List.mem_cons_of_mem p hx) with ⟨hlt, hdata, hzero, hprev⟩
      rw [turn_status_of_ne hxp]
      exact ⟨hlt, hdata, hzero, hmono x hprev⟩
    · rcases hwait x hx with ⟨hmem, hxp⟩
      rcases h.waiting _ hmem with ⟨hlt, ⟨q, hkey, hprev⟩, hdata, hzero, _⟩
      cases hkey
      rw [turn_status_of_ne hxp]
      refine ⟨hlt, hdata, hzero, ?_⟩
      intro r hr
      rw [turn_header] at hr
      have hprev' : (s.header x).pprev = some p := hprev
      rw [hprev'] at hr
      cases hr
      rw [hself]
      exact htotal
  · rw [List.nodup_append]
    refine ⟨hnodup.2, ?_, ?_⟩
    · unfold waiting
      refine List.Nodup.map_on ?_ (h.unlinked_nodup.filter _)
      rintro ⟨k, x⟩ hkx ⟨k', x'⟩ hkx' heq
      have hk := (List.mem_filter.mp hkx).2
      have hk' := (List.mem_filter.mp hkx').2
      rw [decide_eq_true_eq] at hk hk'
      cases hk
      cases hk'
      cases heq
      rfl
    · intro x hx y hy hxy
      apply (h.waiting _ (hwait y hy).1).2.2.2.2
      rw [← hxy]
      exact List.mem_cons_of_mem p hx
  · intro x hx hdata hprev hzero
    rw [turn_tree] at hx
    have hxp := hne x hzero
    rw [turn_status_of_ne hxp] at hdata hzero
    by_cases hchild : (s.header x).pprev = some p
    · rcases h.registered x hx hdata hzero with hmem | hmem
      · exact List.mem_append_left _ ((List.mem_cons.mp hmem).resolve_left hxp)
      · rw [hchild] at hmem
        exact List.mem_append_right _ (mem_waiting_iff.mpr hmem)
    · have hprev' : s.PrevLinked x := by
        intro q hq
        have hqp : q ≠ p := fun hqp => hchild (hqp ▸ hq)
        have hlinked := hprev q (by rw [turn_header]; exact hq)
        rw [turn_status_of_ne hqp] at hlinked
        exact hlinked
      have hmem := h.due x hx hdata hprev' hzero
      exact List.mem_append_left _ ((List.mem_cons.mp hmem).resolve_left hxp)
  · intro e he
    rw [mem_release_iff, link_unlinked] at he
    rcases h.waiting e he.1 with ⟨hlt, ⟨q, hkey, hprev⟩, hdata, hzero, hnot⟩
    have hep : e.2 ≠ p := fun hep => hnot (hep ▸ List.mem_cons_self)
    rw [turn_tree, turn_header, turn_status_of_ne hep]
    refine ⟨hlt, ⟨q, hkey, hprev⟩, hdata, hzero, ?_⟩
    intro hmem
    rcases List.mem_append.mp hmem with hmem | hmem
    · exact hnot (List.mem_cons_of_mem p hmem)
    · rcases (h.waiting _ (hwait _ hmem).1).2.1 with ⟨r, hr, hprev'⟩
      cases hr
      rw [hprev] at hprev'
      cases hprev'
      exact he.2 hkey
  · unfold release
    rw [link_unlinked]
    exact h.unlinked_nodup.filter _
  · intro x hx hdata hzero
    rw [turn_tree] at hx
    have hxp := hne x hzero
    rw [turn_status_of_ne hxp] at hdata hzero
    rw [turn_header, mem_release_iff, link_unlinked]
    rcases h.registered x hx hdata hzero with hmem | hmem
    · exact Or.inl (List.mem_append_left _ ((List.mem_cons.mp hmem).resolve_left hxp))
    · by_cases hchild : (s.header x).pprev = some p
      · rw [hchild] at hmem
        exact Or.inl (List.mem_append_right _ (mem_waiting_iff.mpr hmem))
      · exact Or.inr ⟨hmem, hchild⟩

theorem flagInv_turn (hs : s.FlagInv) : ((s.link p).release p).FlagInv where
  cause x hx hfailed := by
    rw [turn_tree] at hx
    rw [(turn_flags x).2.2.2] at hfailed
    rcases hs.cause x hx hfailed with ⟨a, ha, hvalid⟩
    refine ⟨a, ?_, ?_⟩
    · rw [turn_tree]
      exact ha
    · rw [(turn_flags a).2.2.1]
      exact hvalid
  level_tree x r hr := by
    rw [turn_header] at hr
    rw [(turn_flags x).2.1]
    exact hs.level_tree x r hr
  level_scripts x r hr := by
    rw [turn_header] at hr
    rw [(turn_flags x).2.1, (turn_flags r).2.1, turn_header]
    exact hs.level_scripts x r hr

theorem chainInv_turn (h : s.LinkInv (p :: queue)) (hs : s.ChainInv t) :
    ((s.link p).release p).ChainInv t := by
  have hne : forall x, x ∈ s.tree.ancestors t -> x ≠ p := by
    intro x hx hxp
    apply (hs.good x hx).2
    rw [hxp]
    exact (h.queued p List.mem_cons_self).2.2.1
  refine ⟨?_, ?_, ?_, ?_⟩
  · rw [turn_tree]
    exact hs.lt_size
  · unfold OnChain
    rw [turn_tree]
    exact link_vChain.trans hs.onChain
  · intro x hx
    rw [turn_tree] at hx
    rw [turn_status_of_ne (hne x hx)]
    exact hs.good x hx
  · intro x r hx hr
    rw [turn_tree] at hx
    rw [turn_header] at hr
    rw [turn_status_of_ne (hne x hx)]
    exact hs.scripts x r hx hr

theorem turn_less_of_ne {a b : Nat} (ha : a ≠ p) (hb : b ≠ p) :
    ((s.link p).release p).less a b = s.less a b :=
  link_less_of_ne ha hb

theorem mem_turn_candidates_iff (ht : s.tip = some t) :
    x ∈ ((s.link p).release p).setBlockIndexCandidates <->
      x ∈ s.setBlockIndexCandidates ∨
        (x = p ∧ ((s.link p).release p).less p t = false) := by
  have ht' : (s.link p).tip = some t := by
    unfold IndexState.tip
    rw [link_vChain]
    exact ht
  change x ∈ (s.link p).setBlockIndexCandidates <-> _ ∨ (_ ∧ (s.link p).less p t = false)
  rw [mem_link_candidates_iff, worseThanTip_eq ht']

theorem indexInv_turn (h : IndexInv hashGenesis s (p :: queue) t)
    (hbound : s.chainTxTotal p < 2 ^ 32) :
    IndexInv hashGenesis ((s.link p).release p) (queue ++ s.waiting p) t := by
  have hpzero := (h.links.queued p List.mem_cons_self).2.2.1
  have hplt := (h.links.queued p List.mem_cons_self).1
  have hlinked : forall x, (s.status x).nChainTx ≠ 0 -> x ≠ p := by
    intro x hx hxp
    exact hx (hxp ▸ hpzero)
  have htp := hlinked t (h.chain.good t (Forest.mem_ancestors_self t)).2
  refine ⟨?_, linkInv_turn h.links hbound, flagInv_turn h.flags, chainInv_turn h.links h.chain, ?_⟩
  · rw [turn_tree]
    exact h.tree
  · intro c hc
    rw [mem_turn_candidates_iff h.chain.onChain.tip_eq] at hc
    rw [turn_tree]
    by_cases hcp : c = p
    · subst hcp
      rcases hc with hc | ⟨_, hless⟩
      · exact absurd rfl (hlinked c (h.candidates c hc).2.1)
      · rw [(turn_nChainTx_self h.links hbound).1]
        exact ⟨hplt, (turn_nChainTx_self h.links hbound).2, hless⟩
    · rw [turn_status_of_ne hcp, turn_less_of_ne hcp htp]
      exact h.candidates c (hc.resolve_right (fun hc => hcp hc.1))

theorem mark_turn (h : IndexInv hashGenesis s (p :: queue) t)
    (hbound : s.chainTxTotal p < 2 ^ 32) {m : Nat} (hm : s.Mark m) :
    ((s.link p).release p).Mark m := by
  have h' := indexInv_turn h hbound
  have hpzero := (h.links.queued p List.mem_cons_self).2.2.1
  have hlinked : forall x, (s.status x).nChainTx ≠ 0 -> x ≠ p := by
    intro x hx hxp
    exact hx (hxp ▸ hpzero)
  have hmp := hlinked m (h.candidates m hm.candidate).2.1
  have hcand : m ∈ ((s.link p).release p).setBlockIndexCandidates :=
    (mem_turn_candidates_iff h.chain.onChain.tip_eq).mpr (Or.inl hm.candidate)
  refine ⟨hcand, ?_, ?_⟩
  · intro x hx
    rw [h'.chain.onChain.mem_branch_iff, turn_tree, ← h.chain.onChain.mem_branch_iff] at hx
    rw [(turn_flags x).2.1, (turn_flags x).2.2.2]
    exact hm.good x hx
  · intro x hx hxlinked hfailed hless
    rw [turn_tree] at hx
    rw [(turn_flags x).2.2.2] at hfailed
    rw [mem_turn_candidates_iff h.chain.onChain.tip_eq]
    by_cases hxp : x = p
    · subst hxp
      right
      refine ⟨rfl, ?_⟩
      exact not_less_trans (h'.candidates m hcand).2.2 hless
    · left
      rw [turn_status_of_ne hxp] at hxlinked
      rw [turn_less_of_ne hxp hmp] at hless
      exact hm.complete x hx hxlinked hfailed hless

end Turn

/-!
# The whole queue
-/

section Received

variable {hashGenesis : Nat} {t : Nat}

/-- What a run of the queue keeps; new candidates come after entries of the queue. -/
structure QueueRun (hashGenesis t : Nat) (queue : List Nat) (s s' : IndexState) : Prop where
  inv : IndexInv hashGenesis s' [] t
  mark : forall m, s.Mark m -> s'.Mark m
  tree : s'.tree = s.tree
  candidates : forall c, c ∈ s'.setBlockIndexCandidates -> c ∈ s.setBlockIndexCandidates ∨
    exists y, y ∈ queue ∧ y ∈ s.tree.ancestors c

theorem queueRun_linkLoop (fuel : Nat) :
    forall (queue : List Nat) (s : IndexState), IndexInv hashGenesis s queue t ->
      (forall x, x < s.tree.size -> s.chainTxTotal x < 2 ^ 32) ->
      queue.length + s.mapBlocksUnlinked.length ≤ fuel ->
      QueueRun hashGenesis t queue s (linkLoop fuel queue s) := by
  intro queue s h hbound
  apply linkLoop_rule
    (fun queue s => IndexInv hashGenesis s queue t ∧
      forall x, x < s.tree.size -> s.chainTxTotal x < 2 ^ 32)
    (QueueRun hashGenesis t)
  · exact fun s h => ⟨h.1, fun _ hm => hm, rfl, fun _ hc => Or.inl hc⟩
  · intro p queue s hinv
    rcases hinv with ⟨h, hbound⟩
    have hplt := (h.links.queued p List.mem_cons_self).1
    constructor
    · constructor
      · exact indexInv_turn h (hbound p hplt)
      · intro x hx
        rw [turn_tree] at hx
        rw [turn_chainTxTotal]
        exact hbound x hx
    · intro s' hrun
      constructor
      · exact hrun.inv
      · exact fun m hm => hrun.mark m (mark_turn h (hbound p hplt) hm)
      · exact hrun.tree.trans turn_tree
      · intro c hc
        rcases hrun.candidates c hc with hc | ⟨y, hy, hyc⟩
        · rcases (mem_turn_candidates_iff h.chain.onChain.tip_eq).mp hc with hc | ⟨hcp, _⟩
          · exact Or.inl hc
          · rw [hcp]
            exact Or.inr ⟨p, List.mem_cons_self, Forest.mem_ancestors_self p⟩
        · rw [turn_tree] at hyc
          rcases List.mem_append.mp hy with hy | hy
          · exact Or.inr ⟨y, List.mem_cons_of_mem p hy, hyc⟩
          · rcases (h.links.waiting _ (mem_waiting_iff.mp hy)).2.1 with ⟨q, hq, hprev⟩
            cases hq
            exact Or.inr ⟨p, List.mem_cons_self,
              Forest.mem_ancestors_trans (Forest.parent_mem_ancestors hprev) hyc⟩
  · exact ⟨h, hbound⟩

theorem queueRun_receivedBlockTransactions {s : IndexState} {nTx p : Nat}
    (h : IndexInv hashGenesis s [] t) (hok : s.BlockOk nTx p) :
    QueueRun hashGenesis t [p] s (s.receivedBlockTransactions nTx p) := by
  have hpzero := nChainTx_of_absent h.links hok.lt_size hok.absent
  have hstorable := hok.storable
  unfold receivedBlockTransactions
  cases hprev : (s.header p).pprev with
  | none =>
      -- the root has its data already
      exact absurd hpzero (h.root_linked hok.lt_size hprev)
  | some q =>
      have hqlt := s.tree.size_pos_of_pprev hprev
      simp only
      rw [store_nChainTx h.links hstorable]
      by_cases hq : (s.status q).nChainTx = 0
      · rw [if_neg (not_not.mpr hq)]
        have hqvalid : ((s.store nTx p).status q).isValid Validity.tree = true := by
          have hqp : q ≠ p := Nat.ne_of_lt (s.tree.pprev_lt p q hprev)
          have hlevel : 2 ≤ (s.status q).validity.level := by
            cases hqprev : (s.header q).pprev with
            | none => exact absurd hq (h.root_linked hqlt hqprev)
            | some r => exact h.flags.level_tree q r hqprev
          rw [store_status_of_ne hqp]
          simp only [IndexStatus.isValid, hok.prev_valid q hprev, Bool.not_false, Bool.true_and,
            decide_eq_true_eq]
          exact hlevel
        rw [if_pos hqvalid]
        have hstored := linkInv_store_waiting h.links hstorable hprev hq
        have hmark := fun m hm => mark_store (m := m) h hstorable hm
        refine ⟨⟨h.tree, hstored, ?_, ?_, ?_⟩, ?_, rfl, fun c hc => Or.inl hc⟩
        · exact ⟨(flagInv_store h.links hstorable h.flags).cause,
            (flagInv_store h.links hstorable h.flags).level_tree,
            (flagInv_store h.links hstorable h.flags).level_scripts⟩
        · exact ⟨h.chain.lt_size, h.chain.onChain, (chainInv_store h.links hstorable h.chain).good,
            (chainInv_store h.links hstorable h.chain).scripts⟩
        · exact candInv_store h.links hstorable h.candidates
        · intro m hm
          exact ⟨hm.candidate, (hmark m hm).good, (hmark m hm).complete⟩
      · rw [if_pos hq]
        have hlinked : s.PrevLinked p := by
          intro r hr
          rw [hprev] at hr
          cases hr
          exact hq
        have hstored : IndexInv hashGenesis (s.store nTx p) [p] t :=
          ⟨h.tree, linkInv_store h.links hstorable hlinked, flagInv_store h.links hstorable h.flags,
            chainInv_store h.links hstorable h.chain, candInv_store h.links hstorable h.candidates⟩
        have hrun := queueRun_linkLoop ((s.store nTx p).mapBlocksUnlinked.length + 1) [p]
          (s.store nTx p) hstored hok.bound
          (by rw [List.length_singleton]; exact (Nat.add_comm _ _).le)
        exact ⟨hrun.inv, fun m hm => hrun.mark m (mark_store h hstorable hm), hrun.tree,
          hrun.candidates⟩

end Received

end IndexState

end BlockIndex
end Hbcur
