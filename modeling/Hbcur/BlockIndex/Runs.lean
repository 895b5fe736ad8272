import Hbcur.BlockIndex.CheckIndex
import Hbcur.Foundation.Run

/-!
# Runs of the block index

Any sequence of operations on the index, with the turns of `ActivateBestChain` as steps
of their own, so that other operations may come between them.
-/

namespace Hbcur
namespace BlockIndex

open Foundation IndexState

/-!
# Operations
-/

/-- The index, and whether a call of `ActivateBestChain` has not reached its end yet. -/
structure Node where
  index : IndexState
  fActivating : Bool

inductive Op where
  | addToBlockIndex (block : NewHeader)
  | receivedBlockTransactions (nTx p : Nat)
  | activateTurn (outcomes : Outcomes)
  | invalidateBlock (disconnects : Nat -> Bool) (p : Nat)
  | reconsiderBlock (p : Nat)

namespace Node

def step (n : Node) : Op -> Option Node
  | Op.addToBlockIndex block => some { n with index := (n.index.addToBlockIndex block).2 }
  | Op.receivedBlockTransactions nTx p =>
      some { n with index := n.index.receivedBlockTransactions nTx p }
  | Op.activateTurn outcomes =>
      match n.index.activateTurn outcomes with
      | none => none
      | some turn => some { index := turn.index, fActivating := !(turn.ok && turn.last) }
  | Op.invalidateBlock disconnects p =>
      some { n with index := (n.index.invalidateBlock disconnects p).2 }
  | Op.reconsiderBlock p => some { n with index := n.index.reconsiderBlock p }

def next (n : Node) (op : Op) (n' : Node) : Prop := n.step op = some n'

/-!
# The condition
-/

/--
What makes a step keep the index consistent.  Headers and blocks come as their callers
have checked them, a block which was connected before is not found invalid afterwards,
blocks can be disconnected when one is invalidated, and `ReconsiderBlock` is called with
a block for which it clears all flags without a cause of their own.
-/
def Admitted (n : Node) : Op -> Prop
  | Op.addToBlockIndex block => n.index.tree.mapBlockIndex block.hash = none ->
      exists q, n.index.HeaderOk block q
  | Op.receivedBlockTransactions nTx p => n.index.BlockOk nTx p
  | Op.activateTurn outcomes => forall x, x < n.index.tree.size ->
      outcomes.connects x = ConnectOutcome.invalid ->
      (n.index.status x).validity ≠ Validity.scripts
  | Op.invalidateBlock disconnects p =>
      (forall x, x < n.index.tree.size -> disconnects x = true) ∧
      (n.index.header p).pprev ≠ none
  | Op.reconsiderBlock p => n.index.ReconsiderOk p

instance (n : Node) : DecidablePred n.Admitted
  | Op.addToBlockIndex block => inferInstanceAs (Decidable (_ -> exists q, n.index.HeaderOk block q))
  | Op.receivedBlockTransactions nTx p => inferInstanceAs (Decidable (n.index.BlockOk nTx p))
  | Op.activateTurn _ => inferInstanceAs (Decidable (forall _, _ -> _))
  | Op.invalidateBlock _ _ => inferInstanceAs (Decidable (_ ∧ _))
  | Op.reconsiderBlock p => inferInstanceAs (Decidable (n.index.ReconsiderOk p))

/-- A run which stops at an operation that is not admitted. -/
def guarded : List Op -> Node -> Option Node
  | [], n => some n
  | op :: ops, n =>
      if n.Admitted op then
        match n.step op with
        | none => none
        | some n' => guarded ops n'
      else none

theorem reachable_of_guarded {init : Node} (ops : List Op) :
    forall {n n' : Node}, Reachable next Admitted init n -> guarded ops n = some n' ->
      Reachable next Admitted init n' := by
  induction ops with
  | nil =>
      intro n n' hreach h
      cases h
      exact hreach
  | cons op ops ih =>
      intro n n' hreach h
      unfold guarded at h
      split_ifs at h with hadm
      cases hstep : n.step op with
      | none =>
          rw [hstep] at h
          cases h
      | some n1 =>
          rw [hstep] at h
          exact ih (Reachable.step hreach hadm hstep) h

/-- The invariant holds, with the candidates complete from the tip on between the calls. -/
def Consistent (hashGenesis : Nat) (n : Node) : Prop :=
  exists t m, IndexInv hashGenesis n.index [] t ∧ n.index.Mark m ∧
    (n.fActivating = false -> m = t)

theorem consistent_step {hashGenesis : Nat} {n n' : Node} {op : Op}
    (h : n.Consistent hashGenesis) (hadm : n.Admitted op) (hnext : n.next op n') :
    n'.Consistent hashGenesis := by
  rcases h with ⟨t, m, hinv, hm, hset⟩
  unfold next step at hnext
  cases op with
  | addToBlockIndex block =>
      cases hnext
      cases hmap : n.index.tree.mapBlockIndex block.hash with
      | some p =>
          rw [addToBlockIndex_of_known hmap]
          exact ⟨t, m, hinv, hm, hset⟩
      | none =>
          rcases hadm hmap with ⟨q, hok⟩
          have hgrown := grown_addToBlockIndex hok hmap
          exact ⟨t, m, hgrown.indexInv hinv, hgrown.mark hinv hm, hset⟩
  | receivedBlockTransactions nTx p =>
      cases hnext
      have hrun := queueRun_receivedBlockTransactions hinv hadm
      exact ⟨t, m, hrun.inv, hrun.mark m hm, hset⟩
  | activateTurn outcomes =>
      rcases exists_turned outcomes hinv with ⟨turn, t', hturn, hturned⟩
      simp only [hturn] at hnext
      cases hnext
      rcases hturned.mark hadm m hm with ⟨m', hm'⟩
      refine ⟨t', m', hturned.inv, hm', ?_⟩
      intro hlast
      simp only [Bool.not_eq_false', Bool.and_eq_true] at hlast
      exact hturned.settled hlast.1 hlast.2 m' hm'.candidate
  | invalidateBlock disconnects p =>
      cases hnext
      rcases indexInv_invalidateBlock hinv hadm.1 hadm.2 with ⟨s2, q, hrun, hinv', hm'⟩
      rw [hrun]
      exact ⟨q, q, hinv', hm', fun _ => rfl⟩
  | reconsiderBlock p =>
      cases hnext
      exact ⟨t, m, indexInv_reconsiderBlock hinv hadm, mark_reconsiderBlock hinv hadm hm, hset⟩

end Node

/-!
# The genesis index
-/

section Genesis

variable {hashGenesis nBits : Nat} {address : Nat -> Nat} {haddress : Function.Injective address}

theorem onChain_genesisIndex : (genesisIndex hashGenesis nBits address haddress).OnChain 0 := by
  unfold OnChain
  rw [chainOf_root rfl]
  rfl

theorem indexInv_genesisIndex :
    IndexInv hashGenesis (genesisIndex hashGenesis nBits address haddress) [] 0 := by
  have hanc : forall p, (genesisIndex hashGenesis nBits address haddress).tree.ancestors p =
      [p] := fun p => Forest.ancestors_of_root rfl
  have hlt : forall p, p < (genesisIndex hashGenesis nBits address haddress).tree.size ->
      p = 0 := fun p hp => Nat.lt_one_iff.mp hp
  refine ⟨⟨Nat.one_pos, rfl, fun p hp _ => hlt p hp, ?_⟩, ?_, ⟨?_, ?_, ?_⟩,
    ⟨Nat.one_pos, onChain_genesisIndex, ?_, ?_⟩, ?_⟩
  · intro p q h
    cases h
  · refine
      { data := ?_, level := ?_, sequence := ?_, linked := ?_, queued := ?_,
        queue_nodup := List.nodup_nil, due := ?_, waiting := ?_,
        unlinked_nodup := List.nodup_nil, registered := ?_ }
    · intro p hp
      rw [hlt p hp]
      exact iff_of_true rfl Nat.one_pos
    · intro p hp
      rw [hlt p hp]
      exact iff_of_true (le_refl 3) Nat.one_pos
    · intro p hp hzero
      rw [hlt p hp] at hzero
      cases hzero
    · intro p hp _
      rw [hlt p hp]
      refine ⟨rfl, ?_, ?_⟩
      · intro q hq
        cases hq
      · rw [chainTxTotal_root rfl]
        rfl
    · intro p hp
      cases hp
    · intro p hp _ _ hzero
      rw [hlt p hp] at hzero
      cases hzero
    · intro e he
      cases he
    · intro p hp _ hzero
      rw [hlt p hp] at hzero
      cases hzero
  · intro p hp hfailed
    rw [hlt p hp] at hfailed
    cases hfailed
  · intro p q h
    cases h
  · intro p q h
    cases h
  · intro x hx
    rw [hanc, List.mem_singleton] at hx
    rw [hx]
    exact ⟨rfl, Nat.one_ne_zero⟩
  · intro x q _ h
    cases h
  · intro c hc
    rw [List.mem_singleton.mp hc]
    exact ⟨Nat.one_pos, Nat.one_ne_zero, less_irrefl 0⟩

theorem mark_genesisIndex : (genesisIndex hashGenesis nBits address haddress).Mark 0 := by
  refine ⟨List.mem_singleton_self 0, ?_, ?_⟩
  · intro x hx
    rw [onChain_genesisIndex.mem_branch_iff] at hx
    exact absurd hx.1 hx.2
  · intro p hp _ _ _
    rw [Nat.lt_one_iff.mp hp]
    exact List.mem_singleton_self 0

end Genesis

/-- The node after start-up. -/
def genesisNode (hashGenesis nBits : Nat) (address : Nat -> Nat)
    (haddress : Function.Injective address) : Node :=
  { index := genesisIndex hashGenesis nBits address haddress, fActivating := false }

/-!
# Consistency in every run
-/

theorem Node.consistent_of_reachable {hashGenesis nBits : Nat} {address : Nat -> Nat}
    {haddress : Function.Injective address} {n : Node}
    (hreach : Reachable Node.next Node.Admitted
      (genesisNode hashGenesis nBits address haddress) n) : n.Consistent hashGenesis := by
  have hinit : (genesisNode hashGenesis nBits address haddress).Consistent hashGenesis :=
    ⟨0, 0, indexInv_genesisIndex, mark_genesisIndex, fun _ => rfl⟩
  exact invariant_of_reachable hinit
    (fun _ _ _ hn hadm hnext => Node.consistent_step hn hadm hnext) hreach

/--
In every run whose steps are admitted, failure flags have a cause and entries are linked
exactly when their data is complete; between the calls of `ActivateBestChain` every
assertion of `CheckBlockIndex` holds, and the candidates are complete.
-/
theorem checkBlockIndex_of_reachable {hashGenesis nBits : Nat} {address : Nat -> Nat}
    {haddress : Function.Injective address} {n : Node}
    (hreach : Reachable Node.next Node.Admitted
      (genesisNode hashGenesis nBits address haddress) n) :
    (forall p, p < n.index.tree.size -> (n.index.status p).failed = true ->
      exists a, a ∈ n.index.tree.ancestors p ∧ (n.index.status a).fFailedValid = true) ∧
    (forall p, p < n.index.tree.size -> ((n.index.status p).nChainTx ≠ 0 <->
      forall a, a ∈ n.index.tree.ancestors p -> (n.index.status a).fHaveData = true)) ∧
    (n.fActivating = false ->
      n.index.checkBlockIndex hashGenesis = true ∧
      forall p, p < n.index.tree.size -> (n.index.status p).failed = false ->
        (forall a, a ∈ n.index.tree.ancestors p -> (n.index.status a).fHaveData = true) ->
        n.index.worseThanTip p = false -> p ∈ n.index.setBlockIndexCandidates) := by
  rcases Node.consistent_of_reachable hreach with ⟨t, m, hinv, hm, hset⟩
  refine ⟨hinv.flags.cause, fun p hp => hinv.links.linked_iff hp, ?_⟩
  intro hdone
  have hmt := hset hdone
  subst hmt
  refine ⟨checkBlockIndex_of_indexInv hinv hm, ?_⟩
  intro p hp hvalid hdata hworse
  rw [worseThanTip_eq hinv.chain.onChain.tip_eq] at hworse
  exact hm.complete p hp ((hinv.links.linked_iff hp).mpr hdata) hvalid hworse

/-!
# A flag without a cause

`ReconsiderBlock` clears the flags of the ancestors of a block, but not those of the
other descendants of these ancestors.
-/

namespace RunsExample

def genesis : Node := genesisNode 0 0x207fffff id Function.injective_id

def connectsAll : Outcomes :=
  { disconnects := fun _ => true, connects := fun _ => ConnectOutcome.connected }

def deliver (hash hashPrevBlock p : Nat) : List Op :=
  [Op.addToBlockIndex { hash := hash, hashPrevBlock := hashPrevBlock, nBits := 0x207fffff },
    Op.receivedBlockTransactions 1 p]

def delivered : List Op := deliver 1 0 1 ++ deliver 2 1 2 ++ deliver 3 1 3

/-- Two blocks on top of an invalidated one. -/
def siblings : List Op :=
  delivered ++
    [Op.activateTurn connectsAll, Op.activateTurn connectsAll,
      Op.invalidateBlock (fun _ => true) 1, Op.activateTurn connectsAll]

/-- The same, and the invalidated block is reconsidered. -/
def reconsidered : List Op := siblings ++ [Op.reconsiderBlock 1]

end RunsExample

open RunsExample in
theorem checkBlockIndex_reconsidered :
    exists n, Node.guarded reconsidered genesis = some n ∧ n.fActivating = false ∧
      n.index.tree.size = 4 ∧ n.index.checkBlockIndex 0 = true := by
  have hrun : (Node.guarded reconsidered genesis).any (fun n =>
      decide (n.fActivating = false ∧ n.index.tree.size = 4)) = true := by
    decide +kernel
  rcases (Option.any_eq_true _ _).mp hrun with ⟨n, hn, hprop⟩
  rcases of_decide_eq_true hprop with ⟨hdone, hsize⟩
  have hreach := Node.reachable_of_guarded reconsidered Reachable.start hn
  exact ⟨n, hn, hdone, hsize, ((checkBlockIndex_of_reachable hreach).2.2 hdone).1⟩

open RunsExample in
/-- Of two blocks with the same work the one received first is selected. -/
theorem findMostWorkChain_selects_first :
    exists n s', Node.guarded delivered genesis = some n ∧
      n.index.findMostWorkChain = some (some 2, s') ∧ n.index.Selects (some 2) := by
  have hrun : (Node.guarded delivered genesis).any (fun n =>
      decide (n.index.findMostWorkChain.map Prod.fst = some (some 2))) = true := by
    decide +kernel
  rcases (Option.any_eq_true _ _).mp hrun with ⟨n, hn, hprop⟩
  have hfirst := of_decide_eq_true hprop
  rcases Node.consistent_of_reachable (Node.reachable_of_guarded delivered Reachable.start hn)
    with ⟨t, m, hinv, _, _⟩
  rcases findMostWorkChain_selects hinv.searchable with ⟨r, s', hr, _, hsel, _⟩
  rw [hr, Option.map_some] at hfirst
  cases hfirst
  exact ⟨n, s', hn, hr, hsel⟩

open RunsExample in
/-- Block 3 is left with a flag which none of its ancestors accounts for. -/
theorem reconsiderBlock_leaves_flag_without_cause :
    exists n n', Reachable Node.next Node.Admitted genesis n ∧
      n.next (Op.reconsiderBlock 2) n' ∧ n'.fActivating = false ∧
      n'.index.checkBlockIndex 0 = false ∧ (n'.index.status 3).failed = true ∧
      (forall a, a ∈ n'.index.tree.ancestors 3 -> (n'.index.status a).fFailedValid = false) ∧
      (forall a, a ∈ n'.index.tree.ancestors 3 -> (n'.index.status a).fHaveData = true) := by
  have hrun : (Node.guarded siblings genesis).any (fun n =>
      decide (n.fActivating = false ∧ (n.index.reconsiderBlock 2).checkBlockIndex 0 = false ∧
        ((n.index.reconsiderBlock 2).status 3).failed = true ∧
        (forall a, a ∈ (n.index.reconsiderBlock 2).tree.ancestors 3 ->
          ((n.index.reconsiderBlock 2).status a).fFailedValid = false) ∧
        (forall a, a ∈ (n.index.reconsiderBlock 2).tree.ancestors 3 ->
          ((n.index.reconsiderBlock 2).status a).fHaveData = true))) = true := by
    decide +kernel
  rcases (Option.any_eq_true _ _).mp hrun with ⟨n, hn, hprop⟩
  rcases of_decide_eq_true hprop with ⟨hdone, hcheck, hfailed, hcause, hdata⟩
  have hreach := Node.reachable_of_guarded siblings Reachable.start hn
  exact ⟨n, _, hreach, rfl, hdone, hcheck, hfailed, hcause, hdata⟩

open RunsExample IndexState in
/-- The flag of block 3 stays, which is apart from block 2. -/
theorem reprocessLoop_leaves_sibling : exists n, Node.guarded siblings genesis = some n ∧
    ((n.index.reprocessLoop 0 1 [(2, 0)]).status 3).failed = true := by
  have hrun : (Node.guarded siblings genesis).any (fun n => decide (3 < n.index.tree.size ∧
      (n.index.status 3).failed = true ∧ n.index.tree.mapBlockIndex 2 = some 2 ∧
      ¬ (2 ∈ n.index.tree.ancestors 3 ∨ 3 ∈ n.index.tree.ancestors 2))) = true := by
    decide +kernel
  rcases (Option.any_eq_true _ _).mp hrun with ⟨n, hn, hprop⟩
  rcases of_decide_eq_true hprop with ⟨hsize, hfailed, hindex, hapart⟩
  refine ⟨n, hn, (reprocessLoop_failed_iff _ hsize).mpr ⟨hfailed, ?_⟩⟩
  rintro entry hmem ⟨_, p, hp, h⟩
  rw [List.mem_singleton.mp hmem, hindex] at hp
  cases hp
  exact hapart h

end BlockIndex
end Hbcur
