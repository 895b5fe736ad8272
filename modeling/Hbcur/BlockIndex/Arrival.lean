import Hbcur.BlockIndex.Growing
import Hbcur.BlockIndex.Linking
import Hbcur.BlockIndex.SkipList

/-!
# The order in which block data arrives

`ReceivedBlockTransactions` over a tree of headers, in any order.  The state depends on the set of
blocks which have arrived only, as long as no total of a chain wraps.
-/

namespace Hbcur
namespace BlockIndex

open Foundation

namespace IndexState

/-!
# Running the queue
-/

/-- What a run of the queue does to the links. -/
structure LinkRun (s s' : IndexState) : Prop where
  links : s'.LinkInv []
  tree : s'.tree = s.tree
  nTx : forall x, (s'.status x).nTx = (s.status x).nTx
  flags : forall x, (s'.status x).fHaveData = (s.status x).fHaveData ∧
    (s'.status x).validity = (s.status x).validity ∧
    (s'.status x).failed = (s.status x).failed

/-- Data from an entry back to the root. -/
def DataComplete (s : IndexState) (p : Nat) : Prop :=
  forall a, a ∈ s.tree.ancestors p -> (s.status a).fHaveData = true

/-- Where the data is complete, the total fits `nChainTx`. -/
def TotalsFit (s : IndexState) : Prop :=
  forall p, p < s.tree.size -> s.DataComplete p -> s.chainTxTotal p < 2 ^ 32

theorem dataComplete_of_queued {s : IndexState} {queue : List Nat} (h : s.LinkInv queue)
    {p : Nat} (hp : p ∈ queue) : s.DataComplete p := by
  rcases h.queued p hp with ⟨_, hdata, _, hprev⟩
  intro a ha
  by_cases hap : a = p
  · rw [hap]
    exact hdata
  · cases hpprev : (s.header p).pprev with
    | none =>
        rw [BlockTree.ancestors, Forest.ancestors_of_root hpprev, List.mem_singleton] at ha
        exact absurd ha hap
    | some q =>
        have hq := s.tree.size_pos_of_pprev hpprev
        have haq := Forest.mem_ancestors_parent hpprev ha hap
        exact (h.linked a (BlockTree.lt_size_of_mem_ancestors haq hq)
          (h.linked_ancestor hq (hprev q hpprev) haq)).1

theorem totalsFit_turn {s : IndexState} (h : s.TotalsFit) (p : Nat) :
    ((s.link p).release p).TotalsFit := by
  intro x hx hdata
  rw [turn_tree] at hx
  rw [turn_chainTxTotal]
  apply h x hx
  intro a ha
  have hturned := hdata a (by rw [turn_tree]; exact ha)
  rw [(turn_flags a).1] at hturned
  exact hturned

theorem linkRun_linkLoop (fuel : Nat) :
    forall (queue : List Nat) (s : IndexState), s.LinkInv queue -> s.TotalsFit ->
      queue.length + s.mapBlocksUnlinked.length ≤ fuel -> LinkRun s (linkLoop fuel queue s) := by
  intro queue s h hfit
  apply linkLoop_rule (fun queue s => s.LinkInv queue ∧ s.TotalsFit) (fun _ s s' => LinkRun s s')
  · exact fun s h => ⟨h.1, rfl, fun _ => rfl, fun _ => ⟨rfl, rfl, rfl⟩⟩
  · intro p queue s hinv
    rcases hinv with ⟨h, hfit⟩
    have hp : p ∈ p :: queue := List.mem_cons_self
    have hbound := hfit p (h.queued p hp).1 (dataComplete_of_queued h hp)
    constructor
    · exact ⟨linkInv_turn h hbound, totalsFit_turn hfit p⟩
    · intro s' hrun
      constructor
      · exact hrun.links
      · exact hrun.tree.trans turn_tree
      · intro x
        exact (hrun.nTx x).trans (turn_nTx x)
      · intro x
        rcases hrun.flags x with ⟨hdata, hvalidity, hfailed⟩
        rcases @turn_flags s p x with ⟨hdata', hvalidity', _, hfailed'⟩
        exact ⟨hdata.trans hdata', hvalidity.trans hvalidity', hfailed.trans hfailed'⟩
  · exact ⟨h, hfit⟩

/-!
# Blocks which have arrived
-/

/-- The data of the blocks of `done` is there, and of no others. -/
structure Arrived (tree : BlockTree) (nTx : Nat -> Nat) (done : List Nat) (s : IndexState) :
    Prop where
  tree_eq : s.tree = tree
  links : s.LinkInv []
  nTx : forall x, x < tree.size -> (s.status x).nTx = if x ∈ done then nTx x else 0
  valid : forall x, x < tree.size -> (s.status x).failed = false ∧ 2 ≤ (s.status x).validity.level

/-- The transactions of the blocks from the root to an entry. -/
def pathTotal (tree : BlockTree) (nTx : Nat -> Nat) (p : Nat) : Nat :=
  ((tree.ancestors p).map nTx).sum

/-- Every block from the root to an entry is among the blocks. -/
def PathIn (tree : BlockTree) (blocks : List Nat) (p : Nat) : Prop :=
  forall a, a ∈ tree.ancestors p -> a ∈ blocks

instance (tree : BlockTree) (blocks : List Nat) (p : Nat) : Decidable (PathIn tree blocks p) :=
  inferInstanceAs (Decidable (forall a, a ∈ tree.ancestors p -> a ∈ blocks))

section Arrival

variable {tree : BlockTree} {nTx : Nat -> Nat} {done : List Nat} {s : IndexState}

theorem Arrived.data_iff (h : Arrived tree nTx done s) (hpos : forall p, p ∈ done -> 0 < nTx p)
    {x : Nat} (hx : x < tree.size) : (s.status x).fHaveData = true <-> x ∈ done := by
  have hdata := h.links.data x (by rw [h.tree_eq]; exact hx)
  rw [hdata, h.nTx x hx]
  constructor
  · intro hlt
    by_contra hout
    rw [if_neg hout] at hlt
    cases hlt
  · intro hmem
    rw [if_pos hmem]
    exact hpos x hmem

theorem Arrived.dataComplete_iff (h : Arrived tree nTx done s)
    (hpos : forall p, p ∈ done -> 0 < nTx p) {x : Nat} (hx : x < tree.size) :
    s.DataComplete x <-> PathIn tree done x := by
  unfold DataComplete PathIn
  rw [h.tree_eq]
  constructor
  · intro hdata a ha
    exact (h.data_iff hpos (BlockTree.lt_size_of_mem_ancestors ha hx)).mp (hdata a ha)
  · intro hin a ha
    exact (h.data_iff hpos (BlockTree.lt_size_of_mem_ancestors ha hx)).mpr (hin a ha)

theorem chainTxTotal_eq_pathTotal {x : Nat} (htree : s.tree = tree)
    (h : forall a, a ∈ tree.ancestors x -> (s.status a).nTx = nTx a) :
    s.chainTxTotal x = pathTotal tree nTx x := by
  unfold chainTxTotal pathTotal
  rw [htree]
  congr 1
  exact List.map_congr_left h

/-- Totals after the arrivals. -/
theorem Arrived.nChainTx_eq (h : Arrived tree nTx done s)
    (hpos : forall p, p ∈ done -> 0 < nTx p) {x : Nat} (hx : x < tree.size) :
    (s.status x).nChainTx = if PathIn tree done x then pathTotal tree nTx x else 0 := by
  have hsize : x < s.tree.size := by
    rw [h.tree_eq]
    exact hx
  have hiff : (s.status x).nChainTx ≠ 0 <-> PathIn tree done x :=
    (h.links.linked_iff hsize).trans (h.dataComplete_iff hpos hx)
  by_cases hin : PathIn tree done x
  · rw [if_pos hin, (h.links.linked x hsize (hiff.mpr hin)).2.2]
    apply chainTxTotal_eq_pathTotal h.tree_eq
    intro a ha
    rw [h.nTx a (BlockTree.lt_size_of_mem_ancestors ha hx), if_pos (hin a ha)]
  · rw [if_neg hin]
    by_contra hne
    exact hin (hiff.mp hne)

/-- Parked are the blocks which came before one of their ancestors. -/
theorem Arrived.mem_unlinked_iff (h : Arrived tree nTx done s)
    (hpos : forall p, p ∈ done -> 0 < nTx p) (hlt : forall p, p ∈ done -> p < tree.size)
    (e : Option Nat × Nat) :
    e ∈ s.mapBlocksUnlinked <->
      e.2 ∈ done ∧ e.1 = (tree.header e.2).pprev ∧ ¬ PathIn tree done e.2 := by
  have hheader : forall x, s.header x = tree.header x := by
    intro x
    unfold IndexState.header
    rw [h.tree_eq]
  have hzero : forall x, x < tree.size ->
      ((s.status x).nChainTx = 0 <-> ¬ PathIn tree done x) := by
    intro x hx
    have hsize : x < s.tree.size := by
      rw [h.tree_eq]
      exact hx
    rw [← h.dataComplete_iff hpos hx]
    exact not_iff_not.mp (by rw [not_not]; exact h.links.linked_iff hsize)
  constructor
  · intro he
    rcases h.links.waiting e he with ⟨hsize, ⟨q, hkey, hprev⟩, hdata, hunlinked, _⟩
    rw [h.tree_eq] at hsize
    rw [hheader] at hprev
    exact ⟨(h.data_iff hpos hsize).mp hdata, hkey.trans hprev.symm,
      (hzero e.2 hsize).mp hunlinked⟩
  · intro he
    rcases he with ⟨hmem, hkey, hpath⟩
    have hx := hlt e.2 hmem
    have hsize : e.2 < s.tree.size := by
      rw [h.tree_eq]
      exact hx
    rcases h.links.registered e.2 hsize ((h.data_iff hpos hx).mpr hmem)
      ((hzero e.2 hx).mpr hpath) with hqueue | hregistered
    · cases hqueue
    · rw [hheader, ← hkey] at hregistered
      exact hregistered

/-!
# One more block
-/

theorem Arrived.storable (h : Arrived tree nTx done s) (hpos : forall p, p ∈ done -> 0 < nTx p)
    {p : Nat} (hp : p < tree.size) (hnew : p ∉ done) (hpTx : 0 < nTx p) :
    s.Storable (nTx p) p := by
  constructor
  · rw [h.tree_eq]
    exact hp
  · rw [Bool.eq_false_iff, ne_eq, h.data_iff hpos hp]
    exact hnew
  · exact (h.valid p hp).1
  · intro q hq
    have hlt := s.tree.size_pos_of_pprev hq
    rw [h.tree_eq] at hlt
    exact (h.valid q hlt).1
  · exact hpTx

theorem store_nTx {p : Nat} (n x : Nat) :
    ((s.store n p).status x).nTx = if x = p then n else (s.status x).nTx := by
  by_cases hx : x = p
  · subst hx
    have hself : (s.store n x).status x =
        ({ s.status x with nTx := n, nChainTx := 0, fHaveData := true } :
          IndexStatus).raiseValidity Validity.transactions := Function.update_self _ _ _
    rw [if_pos rfl, hself]
    unfold IndexStatus.raiseValidity
    split
    · rfl
    · split <;> rfl
  · rw [if_neg hx, store_status_of_ne hx]

theorem Arrived.store_nTx (h : Arrived tree nTx done s) (p : Nat) {x : Nat} (hx : x < tree.size) :
    ((s.store (nTx p) p).status x).nTx = if x ∈ p :: done then nTx x else 0 := by
  rw [IndexState.store_nTx]
  by_cases hxp : x = p
  · rw [if_pos hxp, if_pos (by rw [hxp]; exact List.mem_cons_self), hxp]
  · rw [if_neg hxp, h.nTx x hx]
    by_cases hmem : x ∈ done
    · rw [if_pos hmem, if_pos (List.mem_cons_of_mem p hmem)]
    · rw [if_neg hmem, if_neg]
      intro hcons
      rcases List.mem_cons.mp hcons with heq | htail
      · exact hxp heq
      · exact hmem htail

theorem Arrived.store_valid (h : Arrived tree nTx done s) {p : Nat} (hok : s.Storable (nTx p) p)
    {x : Nat} (hx : x < tree.size) :
    ((s.store (nTx p) p).status x).failed = false ∧
      2 ≤ ((s.store (nTx p) p).status x).validity.level := by
  constructor
  · rw [(store_failed h.links hok x).2]
    exact (h.valid x hx).1
  · by_cases hxp : x = p
    · subst hxp
      rw [store_status_self h.links hok]
      exact Nat.le_succ 2
    · rw [store_status_of_ne hxp]
      exact (h.valid x hx).2

/-- Where all the data is there after storing, the blocks of the path have arrived. -/
theorem Arrived.store_totalsFit (h : Arrived tree nTx done s)
    (hpos : forall p, p ∈ done -> 0 < nTx p) {p : Nat}
    (hfit : forall x, x < tree.size -> PathIn tree (p :: done) x ->
      pathTotal tree nTx x < 2 ^ 32) :
    (s.store (nTx p) p).TotalsFit := by
  intro x hx hdata
  have htree : (s.store (nTx p) p).tree = tree := h.tree_eq
  rw [htree] at hx
  have hin : PathIn tree (p :: done) x := by
    intro a ha
    have halt := BlockTree.lt_size_of_mem_ancestors ha hx
    by_cases hap : a = p
    · rw [hap]
      exact List.mem_cons_self
    · have hstored := hdata a (by rw [htree]; exact ha)
      rw [store_status_of_ne hap] at hstored
      exact List.mem_cons_of_mem p ((h.data_iff hpos halt).mp hstored)
  have htotal : (s.store (nTx p) p).chainTxTotal x = pathTotal tree nTx x := by
    apply chainTxTotal_eq_pathTotal htree
    intro a ha
    rw [h.store_nTx p (BlockTree.lt_size_of_mem_ancestors ha hx), if_pos (hin a ha)]
  rw [htotal]
  exact hfit x hx hin

theorem arrived_of_linkRun {s' : IndexState} {p : Nat} (h : Arrived tree nTx done s)
    (hok : s.Storable (nTx p) p) (hrun : LinkRun (s.store (nTx p) p) s') :
    Arrived tree nTx (p :: done) s' := by
  constructor
  · exact hrun.tree.trans h.tree_eq
  · exact hrun.links
  · intro x hx
    rw [hrun.nTx x]
    exact h.store_nTx p hx
  · intro x hx
    rw [(hrun.flags x).2.2, (hrun.flags x).2.1]
    exact h.store_valid hok hx

theorem arrived_receive (h : Arrived tree nTx done s) (hpos : forall p, p ∈ done -> 0 < nTx p)
    {p : Nat} (hp : p < tree.size) (hnew : p ∉ done) (hpTx : 0 < nTx p)
    (hfit : forall x, x < tree.size -> PathIn tree (p :: done) x ->
      pathTotal tree nTx x < 2 ^ 32) :
    Arrived tree nTx (p :: done) (s.receivedBlockTransactions (nTx p) p) := by
  have hok := h.storable hpos hp hnew hpTx
  -- the block is due: it and what waits for it are linked
  have hlink : s.PrevLinked p ->
      Arrived tree nTx (p :: done)
        (linkLoop ((s.store (nTx p) p).mapBlocksUnlinked.length + 1) [p] (s.store (nTx p) p)) := by
    intro hprev
    apply arrived_of_linkRun h hok
    apply linkRun_linkLoop
    · exact linkInv_store h.links hok hprev
    · exact h.store_totalsFit hpos hfit
    · rw [List.length_singleton, Nat.add_comm]
  unfold receivedBlockTransactions
  cases hprev : (s.header p).pprev with
  | none =>
      apply hlink
      intro q hq
      rw [hprev] at hq
      cases hq
  | some q =>
      simp only
      rw [store_nChainTx h.links hok]
      by_cases hq : (s.status q).nChainTx = 0
      · have hqlt : q < tree.size := by
          rw [← h.tree_eq]
          exact s.tree.size_pos_of_pprev hprev
        have hqvalid : ((s.store (nTx p) p).status q).isValid Validity.tree = true := by
          rcases h.store_valid hok hqlt with ⟨hfailed, hlevel⟩
          rw [IndexStatus.isValid, hfailed]
          exact decide_eq_true hlevel
        rw [if_neg (not_not.mpr hq), if_pos hqvalid]
        constructor
        · exact h.tree_eq
        · exact linkInv_store_waiting h.links hok hprev hq
        · intro x hx
          exact h.store_nTx p hx
        · intro x hx
          exact h.store_valid hok hx
      · rw [if_pos hq]
        apply hlink
        intro r hr
        rw [hprev] at hr
        cases hr
        exact hq

/-!
# Any order
-/

/-- `ReceivedBlockTransactions` of the blocks in turn. -/
def receiveAll (nTx : Nat -> Nat) (s : IndexState) (order : List Nat) : IndexState :=
  order.foldl (fun s p => s.receivedBlockTransactions (nTx p) p) s

theorem arrived_receiveAll :
    forall (order done : List Nat) (s : IndexState), Arrived tree nTx done s ->
      (forall p, p ∈ order.reverse ++ done -> p < tree.size ∧ 0 < nTx p) ->
      (order.reverse ++ done).Nodup ->
      (forall x, x < tree.size -> PathIn tree (order.reverse ++ done) x ->
        pathTotal tree nTx x < 2 ^ 32) ->
      Arrived tree nTx (order.reverse ++ done) (receiveAll nTx s order) := by
  intro order
  induction order with
  | nil =>
      intro done s h _ _ _
      exact h
  | cons p order ih =>
      intro done s h hblocks hnodup hfit
      have hsplit : (p :: order).reverse ++ done = order.reverse ++ (p :: done) := by
        rw [List.reverse_cons, List.append_assoc]
        rfl
      rw [hsplit] at hblocks hnodup hfit ⊢
      have hlater : forall x, x ∈ p :: done -> x ∈ order.reverse ++ (p :: done) :=
        fun x hx => List.mem_append_right _ hx
      have hhead := hblocks p (hlater p List.mem_cons_self)
      have hnew := (List.nodup_cons.mp (List.nodup_append.mp hnodup).2.1).1
      have hstep : Arrived tree nTx (p :: done) (s.receivedBlockTransactions (nTx p) p) := by
        apply arrived_receive h
        · intro x hx
          exact (hblocks x (hlater x (List.mem_cons_of_mem p hx))).2
        · exact hhead.1
        · exact hnew
        · exact hhead.2
        · intro x hx hin
          apply hfit x hx
          intro a ha
          exact hlater a (hin a ha)
      exact ih (p :: done) _ hstep hblocks hnodup hfit

end Arrival

/-!
# From headers alone
-/

section Built

variable {address : Nat -> Nat} {haddress : Function.Injective address} {headers : List NewHeader}

/-- Only headers have been added. -/
structure HeadersOnly (s : IndexState) : Prop where
  status : forall x, x < s.tree.size -> s.status x = { validity := Validity.tree }
  unlinked : s.mapBlocksUnlinked = []

theorem headersOnly_addToBlockIndex {s : IndexState} (h : s.HeadersOnly) (block : NewHeader) :
    (s.addToBlockIndex block).2.HeadersOnly := by
  cases hmap : s.tree.mapBlockIndex block.hash with
  | some p =>
      rw [addToBlockIndex_of_known hmap]
      exact h
  | none =>
      rw [addToBlockIndex_of_new hmap]
      constructor
      · intro x hx
        by_cases hxs : x = s.tree.size
        · subst hxs
          exact Function.update_self _ _ _
        · have hlt : x < s.tree.size := Nat.lt_of_le_of_ne (Nat.le_of_lt_succ hx) hxs
          exact (Function.update_of_ne hxs _ _).trans (h.status x hlt)
      · exact h.unlinked

theorem headersOnly_builtIndex :
    (BlockTree.builtIndex address haddress headers).HeadersOnly := by
  unfold BlockTree.builtIndex
  apply List.foldlRecOn
  · constructor
    · intro x hx
      cases hx
    · rfl
  · intro s hs block _
    exact headersOnly_addToBlockIndex hs block

theorem linkInv_of_headersOnly {s : IndexState} (h : s.HeadersOnly) : s.LinkInv [] where
  data x hx := by
    rw [h.status x hx]
    exact iff_of_false Bool.false_ne_true (Nat.lt_irrefl 0)
  level x hx := by
    rw [h.status x hx]
    exact iff_of_false (by decide) (Nat.lt_irrefl 0)
  sequence x hx _ := by
    rw [h.status x hx]
  linked x hx hlinked := by
    rw [h.status x hx] at hlinked
    exact absurd rfl hlinked
  queued x hx := by cases hx
  queue_nodup := List.nodup_nil
  due x hx hdata := by
    rw [h.status x hx] at hdata
    cases hdata
  waiting e he := by
    rw [h.unlinked] at he
    cases he
  unlinked_nodup := by
    rw [h.unlinked]
    exact List.nodup_nil
  registered x hx hdata := by
    rw [h.status x hx] at hdata
    cases hdata

theorem arrived_of_headersOnly {s : IndexState} (h : s.HeadersOnly) (nTx : Nat -> Nat) :
    Arrived s.tree nTx [] s := by
  constructor
  · rfl
  · exact linkInv_of_headersOnly h
  · intro x hx
    rw [h.status x hx, if_neg List.not_mem_nil]
  · intro x hx
    rw [h.status x hx]
    exact ⟨rfl, Nat.le_refl 2⟩

/-- The state after all arrivals, by the set of the blocks. -/
theorem arrived_builtIndex {nTx : Nat -> Nat} {order blocks : List Nat}
    (hperm : order.Perm blocks) (hnodup : blocks.Nodup)
    (hblocks : forall p, p ∈ blocks ->
      p < (BlockTree.builtTree address haddress headers).size ∧ 0 < nTx p)
    (hfit : forall x, x < (BlockTree.builtTree address haddress headers).size ->
      PathIn (BlockTree.builtTree address haddress headers) blocks x ->
      pathTotal (BlockTree.builtTree address haddress headers) nTx x < 2 ^ 32) :
    Arrived (BlockTree.builtTree address haddress headers) nTx order.reverse
      (receiveAll nTx (BlockTree.builtIndex address haddress headers) order) := by
  have hmem : forall p, p ∈ order.reverse ++ [] -> p ∈ blocks := by
    intro p hp
    rw [List.append_nil, List.mem_reverse] at hp
    exact hperm.mem_iff.mp hp
  have hrun := arrived_receiveAll order [] (BlockTree.builtIndex address haddress headers)
    (arrived_of_headersOnly headersOnly_builtIndex nTx)
    (fun p hp => hblocks p (hmem p hp))
    (by
      rw [List.append_nil, List.nodup_reverse]
      exact hperm.nodup_iff.mpr hnodup)
    (by
      intro x hx hin
      exact hfit x hx (fun a ha => hmem a (hin a ha)))
  rw [List.append_nil] at hrun
  exact hrun

theorem pathIn_congr {tree : BlockTree} {blocks blocks' : List Nat}
    (h : forall p, p ∈ blocks <-> p ∈ blocks') (p : Nat) :
    PathIn tree blocks p <-> PathIn tree blocks' p := by
  unfold PathIn
  simp only [h]

/-- Two orders of the same blocks end in the same totals and the same parked blocks. -/
theorem receiveAll_order (address : Nat -> Nat) (haddress : Function.Injective address)
    (headers : List NewHeader) (nTx : Nat -> Nat) {order order' : List Nat}
    (hperm : order.Perm order') (hnodup : order.Nodup)
    (hblocks : forall p, p ∈ order ->
      p < (BlockTree.builtTree address haddress headers).size ∧ 0 < nTx p)
    (hfit : forall x, x < (BlockTree.builtTree address haddress headers).size ->
      PathIn (BlockTree.builtTree address haddress headers) order x ->
      pathTotal (BlockTree.builtTree address haddress headers) nTx x < 2 ^ 32) :
    (forall x, x < (BlockTree.builtTree address haddress headers).size ->
      ((receiveAll nTx (BlockTree.builtIndex address haddress headers) order).status x).nChainTx =
        (if PathIn (BlockTree.builtTree address haddress headers) order x then
          pathTotal (BlockTree.builtTree address haddress headers) nTx x else 0) ∧
      ((receiveAll nTx (BlockTree.builtIndex address haddress headers) order').status x).nChainTx =
        ((receiveAll nTx (BlockTree.builtIndex address haddress headers) order).status
          x).nChainTx) ∧
    forall e,
      e ∈ (receiveAll nTx (BlockTree.builtIndex address haddress headers)
        order').mapBlocksUnlinked <->
      e ∈ (receiveAll nTx (BlockTree.builtIndex address haddress headers)
        order).mapBlocksUnlinked := by
  have hone := arrived_builtIndex (List.Perm.refl order) hnodup hblocks hfit
  have htwo := arrived_builtIndex hperm.symm hnodup hblocks hfit
  have hmem : forall p, p ∈ order.reverse <-> p ∈ order := fun p => List.mem_reverse
  have hmem' : forall p, p ∈ order'.reverse <-> p ∈ order := by
    intro p
    rw [List.mem_reverse]
    exact hperm.symm.mem_iff
  have hpos : forall p, p ∈ order.reverse -> 0 < nTx p :=
    fun p hp => (hblocks p ((hmem p).mp hp)).2
  have hpos' : forall p, p ∈ order'.reverse -> 0 < nTx p :=
    fun p hp => (hblocks p ((hmem' p).mp hp)).2
  constructor
  · intro x hx
    have htotal := hone.nChainTx_eq hpos hx
    have htotal' := htwo.nChainTx_eq hpos' hx
    simp only [pathIn_congr hmem] at htotal
    simp only [pathIn_congr hmem'] at htotal'
    exact ⟨htotal, htotal'.trans htotal.symm⟩
  · intro e
    rw [hone.mem_unlinked_iff hpos (fun p hp => (hblocks p ((hmem p).mp hp)).1),
      htwo.mem_unlinked_iff hpos' (fun p hp => (hblocks p ((hmem' p).mp hp)).1),
      hmem, hmem', pathIn_congr hmem, pathIn_congr hmem']

end Built

/-!
# Examples
-/

namespace ArrivalExample

def headers : List NewHeader :=
  [⟨10, 0, 0x207fffff⟩, ⟨11, 10, 0x207fffff⟩, ⟨12, 11, 0x207fffff⟩]

def index : IndexState := BlockTree.builtIndex id Function.injective_id headers

theorem receiveAll_order_short :
    ((receiveAll (fun _ => 1) index [2, 0, 1]).status 2).nChainTx =
      ((receiveAll (fun _ => 1) index [0, 1, 2]).status 2).nChainTx := by
  apply ((receiveAll_order id Function.injective_id headers (fun _ => 1)
    (show [0, 1, 2].Perm [2, 0, 1] by decide) (by decide) ?_ ?_).1 2 (by decide)).2
  · decide
  · decide

/-- Two blocks of 2^31 transactions in a row, and one of a single transaction. -/
def largeBlocks (p : Nat) : Nat := if p = 2 then 1 else 2147483648

theorem order_matters_after_wrap :
    ([0, 1, 2] : List Nat).Perm [0, 2, 1] ∧
      (forall p, p ∈ [0, 1, 2] -> p < index.tree.size ∧ 0 < largeBlocks p) ∧
      ((receiveAll largeBlocks index [0, 1, 2]).status 2).nChainTx ≠
        ((receiveAll largeBlocks index [0, 2, 1]).status 2).nChainTx := by
  decide

end ArrivalExample

end IndexState

end BlockIndex
end Hbcur
