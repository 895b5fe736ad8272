import Hbcur.BlockIndex.Activation
import Hbcur.BlockIndex.SkipList

/-!
# Replaying blocks

`DisconnectTip` and `DisconnectBlocksAndReprocess` of `main.cpp`.  Besides the chain, the state
has the best block of `pcoinsTip` and says which entries have undo data; whether a block and its
undo data can be read and the state be written is an input of each attempt.
-/

namespace Hbcur
namespace BlockIndex

open Foundation

structure DisconnectOutcome where
  /-- `ReadBlockFromDisk` -/
  fRead : Bool
  /-- The undo data are read, consistent with the block and undone cleanly. -/
  fClean : Bool
  /-- `FlushStateToDisk` -/
  fFlushed : Bool

/-- How an attempt ends; the last three are failed assertions and a null pointer. -/
inductive Attempt where
  | disconnected
  | failed
  | noTip
  | otherBestBlock
  | noPrev
  deriving DecidableEq

def Attempt.aborts : Attempt -> Bool
  | Attempt.disconnected => false
  | Attempt.failed => false
  | _ => true

structure ReplayState where
  index : IndexState
  bestBlock : Option Nat
  haveUndo : Nat -> Bool

namespace ReplayState

def disconnectTip (s : ReplayState) (outcome : DisconnectOutcome) : Attempt × ReplayState :=
  match s.index.tip with
  | none => (Attempt.noTip, s)
  | some pindexDelete =>
      if !outcome.fRead then (Attempt.failed, s)
      -- the first statements of `DisconnectBlock`
      else if s.bestBlock ≠ some pindexDelete then (Attempt.otherBestBlock, s)
      else if !s.haveUndo pindexDelete then (Attempt.failed, s)
      else
        match (s.index.header pindexDelete).pprev with
        | none => (Attempt.noPrev, s)
        | some pprev =>
            if !outcome.fClean then (Attempt.failed, s)
            else
              -- the view is flushed to `pcoinsTip` before the state is written
              let s' := { s with bestBlock := some pprev }
              if !outcome.fFlushed then (Attempt.failed, s')
              else (Attempt.disconnected, { s' with index := s.index.updateTip (some pprev) })

/-- The attempts from number `i` on, which go on until the process aborts. -/
def disconnectLoop (outcomes : Nat -> DisconnectOutcome) :
    Nat -> Nat -> ReplayState -> List Attempt × ReplayState
  | 0, _, s => ([], s)
  | left + 1, i, s =>
      let attempt := s.disconnectTip (outcomes i)
      if attempt.1.aborts then ([attempt.1], attempt.2)
      else
        let rest := disconnectLoop outcomes left (i + 1) attempt.2
        (attempt.1 :: rest.1, rest.2)

/-- The loop has an inclusive bound. -/
def disconnectBlocksAndReprocess (s : ReplayState) (outcomes : Nat -> DisconnectOutcome)
    (blocks : Nat) : List Attempt × ReplayState :=
  disconnectLoop outcomes (blocks + 1) 0 s

/-!
# One attempt
-/

/-- An active chain which ends in `t`; the genesis block was connected without undo data. -/
structure Active (s : ReplayState) (t : Nat) : Prop where
  chain : s.index.OnChain t
  best : s.bestBlock = some t
  genesis : forall p, (s.index.header p).pprev = none -> s.haveUndo p = false

/-- The attempt to disconnect a block comes through. -/
def Succeeds (s : ReplayState) (outcome : DisconnectOutcome) (p : Nat) : Prop :=
  outcome.fRead = true ∧ s.haveUndo p = true ∧ outcome.fClean = true ∧ outcome.fFlushed = true

instance (s : ReplayState) (outcome : DisconnectOutcome) (p : Nat) :
    Decidable (s.Succeeds outcome p) :=
  inferInstanceAs (Decidable (_ ∧ _ ∧ _ ∧ _))

variable {s : ReplayState} {t : Nat} {outcome : DisconnectOutcome}

theorem tip_of_onChain (h : s.index.OnChain t) : s.index.tip = some t := by
  unfold IndexState.tip
  rw [h, tip_chainOf]

theorem disconnectTip_of_succeeds (h : s.Active t) (hok : s.Succeeds outcome t) :
    exists q, (s.index.header t).pprev = some q ∧
      s.disconnectTip outcome =
        (Attempt.disconnected, { s with bestBlock := some q, index := s.index.atTip q }) := by
  rcases hok with ⟨hread, hundo, hclean, hflushed⟩
  cases hprev : (s.index.header t).pprev with
  | none =>
      rw [h.genesis t hprev] at hundo
      cases hundo
  | some q =>
      refine ⟨q, rfl, ?_⟩
      unfold disconnectTip
      rw [tip_of_onChain h.chain]
      simp only [hread, hundo, hclean, hflushed, h.best, hprev, Bool.not_true,
        Bool.false_eq_true, if_false, ne_eq, not_true_eq_false,
        IndexState.updateTip_eq_atTip h.chain]

theorem active_atTip (h : s.Active t) (q : Nat) :
    Active { s with bestBlock := some q, index := s.index.atTip q } q where
  chain := IndexState.onChain_atTip s.index q
  best := rfl
  genesis := h.genesis

/-- An attempt which does not come through fails, and aborts nothing. -/
theorem disconnectTip_of_not_succeeds (h : s.Active t) (hbad : ¬ s.Succeeds outcome t) :
    (s.disconnectTip outcome).1 = Attempt.failed := by
  have hbest : ¬ (s.bestBlock ≠ some t) := fun hne => hne h.best
  unfold disconnectTip
  simp only [tip_of_onChain h.chain, if_neg hbest]
  cases hread : outcome.fRead with
  | false => rfl
  | true =>
      cases hundo : s.haveUndo t with
      | false => rfl
      | true =>
          cases hprev : (s.index.header t).pprev with
          | none =>
              rw [h.genesis t hprev] at hundo
              cases hundo
          | some q =>
              cases hclean : outcome.fClean with
              | false => rfl
              | true =>
                  cases hflushed : outcome.fFlushed with
                  | false => rfl
                  | true => exact absurd ⟨hread, hundo, hclean, hflushed⟩ hbad

/-- While there is a chain, the assertion on the tip holds, and there is a chain afterwards. -/
theorem disconnectTip_onChain (h : s.index.OnChain t) :
    (s.disconnectTip outcome).1 ≠ Attempt.noTip ∧
      exists t', (s.disconnectTip outcome).2.index.OnChain t' := by
  unfold disconnectTip
  simp only [tip_of_onChain h]
  cases (s.index.header t).pprev with
  | none => split_ifs <;> exact ⟨Attempt.noConfusion, t, h⟩
  | some q =>
      dsimp only
      split_ifs
      · exact ⟨Attempt.noConfusion, t, h⟩
      · exact ⟨Attempt.noConfusion, t, h⟩
      · exact ⟨Attempt.noConfusion, t, h⟩
      · exact ⟨Attempt.noConfusion, t, h⟩
      · exact ⟨Attempt.noConfusion, t, h⟩
      · refine ⟨Attempt.noConfusion, q, ?_⟩
        rw [IndexState.updateTip_eq_atTip h]
        exact IndexState.onChain_atTip s.index q

/-!
# All attempts
-/

theorem disconnectLoop_of_not_aborts {outcomes : Nat -> DisconnectOutcome} (left i : Nat)
    (h : (s.disconnectTip (outcomes i)).1.aborts = false) :
    (disconnectLoop outcomes (left + 1) i s).1 =
      (s.disconnectTip (outcomes i)).1 ::
        (disconnectLoop outcomes left (i + 1) (s.disconnectTip (outcomes i)).2).1 := by
  rw [disconnectLoop]
  simp only [h, Bool.false_eq_true, if_false]

/-- As long as there is something to do, something is attempted. -/
theorem disconnectLoop_eq_nil_iff {outcomes : Nat -> DisconnectOutcome} {left i : Nat} :
    (disconnectLoop outcomes left i s).1 = [] <-> left = 0 := by
  cases left with
  | zero => exact iff_of_true rfl rfl
  | succ left =>
      rw [disconnectLoop]
      dsimp only
      split <;> exact iff_of_false (List.cons_ne_nil _ _) (Nat.succ_ne_zero left)

theorem noTip_notMem_disconnectLoop (outcomes : Nat -> DisconnectOutcome) (left : Nat) :
    forall {i t : Nat} {s : ReplayState}, s.index.OnChain t ->
      Attempt.noTip ∉ (disconnectLoop outcomes left i s).1 := by
  induction left with
  | zero =>
      intro i t s _
      exact List.not_mem_nil
  | succ left ih =>
      intro i t s h
      rcases @disconnectTip_onChain s t (outcomes i) h with ⟨hne, t', h'⟩
      unfold disconnectLoop
      dsimp only
      split_ifs
      · rw [List.mem_singleton]
        exact hne.symm
      · rw [List.mem_cons, not_or]
        exact ⟨hne.symm, ih h'⟩

/-- The block `i` places below the tip. -/
def below (s : ReplayState) (t i : Nat) : Option Nat := (s.index.tree.ancestors t)[i]?

theorem below_zero (t : Nat) : s.below t 0 = some t := by
  unfold below BlockTree.ancestors
  cases hprev : (s.index.header t).pprev with
  | none => rw [Forest.ancestors_of_root hprev, List.getElem?_cons_zero]
  | some q => rw [Forest.ancestors_of_parent hprev, List.getElem?_cons_zero]

/-- Attempt `i`, which is on block `j` below the tip, comes through. -/
def SucceedsBelow (s : ReplayState) (outcomes : Nat -> DisconnectOutcome) (t i j : Nat) : Prop :=
  exists p, s.below t j = some p ∧ s.Succeeds (outcomes i) p

/-- Attempt `i`, which is on block `j` below the tip, does not. -/
def FailsBelow (s : ReplayState) (outcomes : Nat -> DisconnectOutcome) (t i j : Nat) : Prop :=
  exists p, s.below t j = some p ∧ ¬ s.Succeeds (outcomes i) p

theorem not_failsBelow {outcomes : Nat -> DisconnectOutcome} {i j : Nat}
    (h : s.SucceedsBelow outcomes t i j) : ¬ s.FailsBelow outcomes t i j := by
  rcases h with ⟨p, hp, hok⟩
  rintro ⟨p', hp', hbad⟩
  rw [hp] at hp'
  cases hp'
  exact hbad hok

/-- The attempts up to the first one which fails, and more after it if there are any left. -/
inductive Goes (s : ReplayState) (outcomes : Nat -> DisconnectOutcome) (t i left : Nat)
    (attempts : List Attempt) : Prop where
  | through (hok : forall j, j < left -> s.SucceedsBelow outcomes t (i + j) j)
      (hall : attempts = List.replicate left Attempt.disconnected)
  | fails (m : Nat) (rest : List Attempt) (hm : m < left)
      (hok : forall j, j < m -> s.SucceedsBelow outcomes t (i + j) j)
      (hbad : s.FailsBelow outcomes t (i + m) m)
      (hall : attempts = List.replicate m Attempt.disconnected ++ Attempt.failed :: rest)
      (hrest : rest = [] <-> m + 1 = left)

theorem goes_disconnectLoop (outcomes : Nat -> DisconnectOutcome) (left : Nat) :
    forall {i t : Nat} {s : ReplayState}, s.Active t ->
      s.Goes outcomes t i left (disconnectLoop outcomes left i s).1 := by
  induction left with
  | zero => exact fun _ => Goes.through (fun j hj => absurd hj (Nat.not_lt_zero j)) rfl
  | succ left ih =>
      intro i t s h
      by_cases hok : s.Succeeds (outcomes i) t
      · rcases disconnectTip_of_succeeds h hok with ⟨q, hprev, hstep⟩
        have hgo := disconnectLoop_of_not_aborts left i
          (congrArg (fun r => r.1.aborts) hstep)
        have hnext := ih (i := i + 1) (active_atTip h q)
        rw [hstep] at hgo
        rw [hgo]
        have hbelow : forall j, s.below t (j + 1) =
            below { s with bestBlock := some q, index := s.index.atTip q } q j := by
          intro j
          unfold below BlockTree.ancestors
          rw [Forest.ancestors_of_parent hprev, List.getElem?_cons_succ]
          rfl
        cases hnext with
        | through hrest hall =>
            refine Goes.through (fun j hj => ?_) (congrArg (List.cons Attempt.disconnected) hall)
            cases j with
            | zero => exact ⟨t, below_zero t, hok⟩
            | succ j =>
                rcases hrest j (Nat.lt_of_succ_lt_succ hj) with ⟨p, hp, hsucceeds⟩
                rw [Nat.add_assoc, Nat.add_comm 1 j] at hsucceeds
                exact ⟨p, (hbelow j).trans hp, hsucceeds⟩
        | fails m rest hm hrest hbad hall hend =>
            refine Goes.fails (m + 1) rest (Nat.succ_lt_succ hm) (fun j hj => ?_) ?_
              (congrArg (List.cons Attempt.disconnected) hall)
              (hend.trans Nat.succ_inj.symm)
            · cases j with
              | zero => exact ⟨t, below_zero t, hok⟩
              | succ j =>
                  rcases hrest j (Nat.lt_of_succ_lt_succ hj) with ⟨p, hp, hsucceeds⟩
                  rw [Nat.add_assoc, Nat.add_comm 1 j] at hsucceeds
                  exact ⟨p, (hbelow j).trans hp, hsucceeds⟩
            · rcases hbad with ⟨p, hp, hnot⟩
              rw [Nat.add_assoc, Nat.add_comm 1 m] at hnot
              exact ⟨p, (hbelow m).trans hp, hnot⟩
      · have hstep := disconnectTip_of_not_succeeds h hok
        have hgo := disconnectLoop_of_not_aborts left i (congrArg Attempt.aborts hstep)
        rw [hstep] at hgo
        rw [hgo]
        refine Goes.fails 0 _ (Nat.succ_pos left) (fun j hj => absurd hj (Nat.not_lt_zero j))
          ⟨t, below_zero t, hok⟩ rfl ?_
        rw [disconnectLoop_eq_nil_iff]
        omega

theorem nHeight_below {i p : Nat} (h : s.below t i = some p) :
    (s.index.header p).nHeight + i = (s.index.header t).nHeight := by
  unfold below BlockTree.ancestors at h
  induction i generalizing t with
  | zero =>
      have hself := below_zero (s := s) t
      unfold below BlockTree.ancestors at hself
      rw [hself] at h
      cases h
      rfl
  | succ i ih =>
      cases hprev : (s.index.header t).pprev with
      | none =>
          rw [Forest.ancestors_of_root hprev] at h
          cases h
      | some q =>
          rw [Forest.ancestors_of_parent hprev, List.getElem?_cons_succ] at h
          have hheight : (s.index.header t).nHeight = (s.index.header q).nHeight + 1 :=
            s.index.tree.nHeight_child t q hprev
          rw [hheight, ← ih h, Nat.add_assoc]

/-!
# The property and the condition
-/

/--
As many blocks are disconnected as were asked for or as there are above the genesis block, if
each attempt on such a block comes through; a failure ends the attempts; and there is always a
tip.
-/
structure Bounded (s : ReplayState) (outcomes : Nat -> DisconnectOutcome) (t blocks : Nat) :
    Prop where
  exact : (forall i p, i ≤ blocks -> s.below t i = some p ->
      (s.index.header p).pprev ≠ none -> s.Succeeds (outcomes i) p) ->
    (s.disconnectBlocksAndReprocess outcomes blocks).1.count Attempt.disconnected =
      min blocks (s.index.header t).nHeight
  stops : forall a, a ∈ (s.disconnectBlocksAndReprocess outcomes blocks).1.dropLast ->
    a = Attempt.disconnected
  safe : Attempt.noTip ∉ (s.disconnectBlocksAndReprocess outcomes blocks).1

/-- One attempt more than asked for is made, and it is this one which fails. -/
def LastAttemptFails (s : ReplayState) (outcomes : Nat -> DisconnectOutcome) (t blocks : Nat) :
    Prop :=
  (forall i, i < blocks -> s.SucceedsBelow outcomes t i i) ∧ s.FailsBelow outcomes t blocks blocks

theorem bounded_of_lastAttemptFails {outcomes : Nat -> DisconnectOutcome} {blocks : Nat}
    (h : s.Active t) (hlast : s.LastAttemptFails outcomes t blocks)
    (hall : (s.disconnectBlocksAndReprocess outcomes blocks).1 =
      List.replicate blocks Attempt.disconnected ++ [Attempt.failed]) :
    s.Bounded outcomes t blocks where
  exact := by
    intro hsucceed
    rcases hlast.2 with ⟨p, hp, hbad⟩
    have hroot : (s.index.header p).pprev = none := by
      by_contra hprev
      exact hbad (hsucceed blocks p le_rfl hp hprev)
    have hheight := nHeight_below hp
    have hzero : (s.index.header p).nHeight = 0 := BlockTree.nHeight_eq_zero_iff.mpr hroot
    rw [hall, List.count_append, List.count_replicate_self,
      List.count_cons_of_ne (by decide), List.count_nil]
    omega
  stops := by
    intro a ha
    rw [hall, List.dropLast_concat] at ha
    exact List.eq_of_mem_replicate ha
  safe := noTip_notMem_disconnectLoop outcomes (blocks + 1) h.chain

/-- The blocks asked for have to be followed by one which cannot be disconnected. -/
theorem bounded_iff_lastAttemptFails (s : ReplayState) (outcomes : Nat -> DisconnectOutcome)
    (t blocks : Nat) (h : s.Active t) :
    s.Bounded outcomes t blocks <-> s.LastAttemptFails outcomes t blocks := by
  have hgoes := goes_disconnectLoop outcomes (blocks + 1) (i := 0) h
  cases hgoes with
  | through hok hall =>
      have hlt : blocks < blocks + 1 := Nat.lt_succ_self blocks
      refine iff_of_false (fun hbounded => ?_) fun hlast => ?_
      · have hcount := hbounded.exact fun i p hi hp _ => by
          rcases hok i (Nat.lt_succ_of_le hi) with ⟨p', hp', hsucceeds⟩
          rw [hp] at hp'
          cases hp'
          rw [Nat.zero_add] at hsucceeds
          exact hsucceeds
        unfold disconnectBlocksAndReprocess at hcount
        rw [hall, List.count_replicate_self] at hcount
        omega
      · have hthrough := hok blocks hlt
        rw [Nat.zero_add] at hthrough
        exact not_failsBelow hthrough hlast.2
  | fails m rest hm hok hbad hall hrest =>
      simp only [Nat.zero_add] at hok hbad
      rcases Nat.eq_or_lt_of_le (Nat.le_of_lt_succ hm) with heq | hlt
      · rw [hrest.mpr (congrArg Nat.succ heq), heq] at hall
        rw [heq] at hok hbad
        exact iff_of_true (bounded_of_lastAttemptFails h ⟨hok, hbad⟩ hall) ⟨hok, hbad⟩
      · refine iff_of_false (fun hbounded => ?_) fun hlast => ?_
        · have hne : rest ≠ [] := fun hnil => by
            have hend := hrest.mp hnil
            omega
          have hmem : Attempt.failed ∈
              (s.disconnectBlocksAndReprocess outcomes blocks).1.dropLast := by
            unfold disconnectBlocksAndReprocess
            rw [hall, List.dropLast_append_cons, List.dropLast_cons_of_ne_nil hne]
            exact List.mem_append_right _ List.mem_cons_self
          exact absurd (hbounded.stops _ hmem) (by decide)
        · exact not_failsBelow (hlast.1 m hlt) hbad

end ReplayState

/-!
# Example

A chain of height two, of which the last block is to be reprocessed.
-/

namespace ReplayExample

def chain : ReplayState where
  index := { BlockTree.builtIndex id Function.injective_id
      [⟨10, 0, 0x207fffff⟩, ⟨11, 10, 0x207fffff⟩, ⟨12, 11, 0x207fffff⟩] with
    vChain := [some 0, some 1, some 2] }
  bestBlock := some 2
  haveUndo := fun p => decide (p = 1) || decide (p = 2)

def allWell : Nat -> DisconnectOutcome := fun _ => ⟨true, true, true⟩

theorem active_chain : chain.Active 2 where
  chain := by
    unfold IndexState.OnChain
    decide
  best := rfl
  genesis := by
    intro p hprev
    match p with
    | 0 => rfl
    | 1 => exact absurd hprev (by decide)
    | 2 => exact absurd hprev (by decide)
    | p + 3 => rfl

theorem both_blocks_disconnected :
    chain.Active 2 ∧
      (chain.disconnectBlocksAndReprocess allWell 1).1 =
        [Attempt.disconnected, Attempt.disconnected] ∧
      ¬ chain.Bounded allWell 2 1 := by
  have hall : (chain.disconnectBlocksAndReprocess allWell 1).1 =
      [Attempt.disconnected, Attempt.disconnected] := by decide
  refine ⟨active_chain, hall, fun hbounded => ?_⟩
  have hcount := hbounded.exact fun i p hi hp _ => by
    match i with
    | 0 =>
        cases hp
        exact ⟨rfl, rfl, rfl, rfl⟩
    | 1 =>
        cases hp
        exact ⟨rfl, rfl, rfl, rfl⟩
    | i + 2 => exact absurd hi (by omega)
  rw [hall] at hcount
  exact absurd hcount (by decide)

theorem bounded_two_iff : chain.Bounded allWell 2 2 <-> chain.LastAttemptFails allWell 2 2 :=
  ReplayState.bounded_iff_lastAttemptFails chain allWell 2 2 active_chain

end ReplayExample

end BlockIndex
end Hbcur
