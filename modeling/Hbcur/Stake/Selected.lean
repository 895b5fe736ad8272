import Hbcur.Stake.Determinism

/-!
# The blocks which are selected

The rounds of `ComputeNextStakeModifier` never run out of candidates: each of them finds one
which no round before it has selected.
-/

namespace Hbcur
namespace Stake

section Rounds

variable (env : StakeEnv) (find : UInt256 -> Option StakeIndex)

/-- The blocks which the rounds select, in order. -/
def selectedBlocks (sorted : List (Int × UInt256)) (nStakeModifierPrev : BitVec 64) :
    Nat -> Nat -> Int -> List UInt256 -> Option (List StakeIndex)
  | 0, _, _, _ => some []
  | rounds + 1, nRound, nSelectionIntervalStop, selected =>
      let stop := nSelectionIntervalStop + selectionIntervalSection nRound
      match selectBlockFromCandidates env find sorted selected stop nStakeModifierPrev with
      | none => none
      | some p =>
          (selectedBlocks sorted nStakeModifierPrev rounds (nRound + 1) stop
            (p.hash :: selected)).map (p :: ·)

/-- The entropy bits of blocks, from a position on. -/
def entropyBits : Nat -> BitVec 64 -> List StakeIndex -> BitVec 64
  | _, bits, [] => bits
  | nRound, bits, p :: rest =>
      entropyBits (nRound + 1)
        (bits ||| (BitVec.ofBool p.getStakeEntropyBit).setWidth 64 <<< nRound) rest

/-- The modifier is made of the bits of the selected blocks. -/
theorem selectionRounds_eq (sorted : List (Int × UInt256)) (prev : BitVec 64) (rounds : Nat) :
    forall nRound stop selected bits,
      selectionRounds env find sorted prev rounds nRound stop selected bits =
        (selectedBlocks env find sorted prev rounds nRound stop selected).map
          (entropyBits nRound bits) := by
  induction rounds with
  | zero => exact fun _ _ _ _ => rfl
  | succ rounds ih =>
      intro nRound stop selected bits
      unfold selectionRounds selectedBlocks
      simp only
      cases selectBlockFromCandidates env find sorted selected
          (stop + selectionIntervalSection nRound) prev with
      | none => rfl
      | some p =>
          simp only [ih, Option.map_map]
          rfl

end Rounds

/-!
# One round
-/

/-- Every candidate is indexed under its hash. -/
def Indexed (find : UInt256 -> Option StakeIndex) (items : List (Int × UInt256)) : Prop :=
  forall item, item ∈ items -> exists p, find item.2 = some p ∧ p.hash = item.2

/-- A candidate which has not been selected. -/
def Eligible (items : List (Int × UInt256)) (selected : List UInt256) (p : StakeIndex) : Prop :=
  p.hash ∈ items.map Prod.snd ∧ p.hash ∉ selected

section Select

variable {env : StakeEnv} {find : UInt256 -> Option StakeIndex} {fModifierV2 : Bool}
  {selected : List UInt256} {nSelectionIntervalStop : Int} {prev : BitVec 64}

theorem Indexed.tail {item : Int × UInt256} {items : List (Int × UInt256)}
    (h : Indexed find (item :: items)) : Indexed find items :=
  fun i hi => h i (List.mem_cons_of_mem item hi)

/-- The loop ends early only when it has found a block, and passes over selected ones only. -/
theorem exists_of_selectLoop {all : List (Int × UInt256)} :
    forall (items : List (Int × UInt256)) (best : Option (UInt256 × StakeIndex)),
      Indexed find items -> items ⊆ all ->
      (forall found, found ∈ best -> Eligible all selected found.2) ->
      (best = none -> exists item, item ∈ items ∧ item.2 ∉ selected) ->
      exists found, selectLoop env find fModifierV2 selected nSelectionIntervalStop prev best
          items = some (some found) ∧ Eligible all selected found.2 := by
  intro items
  induction items with
  | nil =>
      intro best _ _ hbest hsome
      cases best with
      | none =>
          rcases hsome rfl with ⟨_, hitem, _⟩
          cases hitem
      | some found => exact ⟨found, rfl, hbest found rfl⟩
  | cons item items ih =>
      intro best hindexed hsub hbest hsome
      rcases hindexed item List.mem_cons_self with ⟨p, hp, hhash⟩
      have hrest : items ⊆ all := fun i hi => hsub (List.mem_cons_of_mem item hi)
      unfold selectLoop
      rw [hp]
      simp only
      split_ifs with hstop hselected hbetter
      · -- The section ends, and there is a block from it.
        cases best with
        | none => simp at hstop
        | some found => exact ⟨found, rfl, hbest found rfl⟩
      · apply ih best hindexed.tail hrest hbest
        intro hnone
        rcases hsome hnone with ⟨other, hother, hnot⟩
        rcases List.mem_cons.mp hother with rfl | hother
        · rw [hhash] at hselected
          exact absurd hselected hnot
        · exact ⟨other, hother, hnot⟩
      · have helig : Eligible all selected p := by
          constructor
          · rw [hhash]
            exact List.mem_map_of_mem (hsub List.mem_cons_self)
          · exact hselected
        apply ih _ hindexed.tail hrest
        · intro found hfound
          cases hfound
          exact helig
        · intro hnone
          cases hnone
      · apply ih best hindexed.tail hrest hbest
        intro hnone
        rw [hnone] at hbetter
        exact absurd rfl hbetter

variable (env) in
theorem exists_of_selectBlockFromCandidates {sorted : List (Int × UInt256)}
    (hindexed : Indexed find sorted) (hleft : exists item, item ∈ sorted ∧ item.2 ∉ selected) :
    exists p, selectBlockFromCandidates env find sorted selected nSelectionIntervalStop prev =
      some p ∧ Eligible sorted selected p := by
  rcases exists_of_selectLoop sorted none hindexed (fun _ h => h) nofun (fun _ => hleft) with
    ⟨found, hfound, helig⟩
  refine ⟨found.2, ?_, helig⟩
  unfold selectBlockFromCandidates
  rw [hfound]

/-- Fewer selected blocks than candidates leave a candidate over. -/
theorem exists_unselected {sorted : List (Int × UInt256)}
    (hnodup : (sorted.map Prod.snd).Nodup) (hlt : selected.length < sorted.length) :
    exists item, item ∈ sorted ∧ item.2 ∉ selected := by
  by_contra hnone
  have hsub : sorted.map Prod.snd ⊆ selected := by
    intro hash hmem
    rcases List.mem_map.mp hmem with ⟨item, hitem, rfl⟩
    by_contra hnot
    exact hnone ⟨item, hitem, hnot⟩
  have hle := (List.subperm_of_subset hnodup hsub).length_le
  rw [List.length_map] at hle
  exact Nat.not_lt.mpr hle hlt

/-!
# All rounds
-/

variable (env prev) in
/-- As many distinct blocks as there are rounds, if there are enough candidates. -/
theorem exists_of_selectedBlocks {sorted : List (Int × UInt256)}
    (hindexed : Indexed find sorted) (hnodup : (sorted.map Prod.snd).Nodup) (rounds : Nat) :
    forall nRound stop selected, rounds + selected.length ≤ sorted.length ->
      exists picked, selectedBlocks env find sorted prev rounds nRound stop selected =
          some picked ∧ picked.length = rounds ∧
        (picked.map fun p => p.hash).Nodup ∧
        forall p, p ∈ picked -> Eligible sorted selected p := by
  induction rounds with
  | zero => exact fun _ _ _ _ => ⟨[], rfl, rfl, List.nodup_nil, nofun⟩
  | succ rounds ih =>
      intro nRound stop selected hle
      have hlt : selected.length < sorted.length := by omega
      rcases exists_of_selectBlockFromCandidates env hindexed
        (exists_unselected hnodup hlt) with ⟨p, hp, helig⟩
      rcases ih (nRound + 1) (stop + selectionIntervalSection nRound) (p.hash :: selected)
          (by rw [List.length_cons]; omega) with ⟨picked, hpicked, hlength, hdistinct, hall⟩
      refine ⟨p :: picked, ?_, ?_, ?_, ?_⟩
      · unfold selectedBlocks
        simp only
        rw [hp]
        simp only [hpicked, Option.map_some]
      · rw [List.length_cons, hlength]
      · rw [List.map_cons, List.nodup_cons]
        refine ⟨?_, hdistinct⟩
        intro hmem
        rcases List.mem_map.mp hmem with ⟨q, hq, hqhash⟩
        apply (hall q hq).2
        rw [hqhash]
        exact List.mem_cons_self
      · intro q hq
        rcases List.mem_cons.mp hq with rfl | hq
        · exact helig
        · exact ⟨(hall q hq).1, fun hmem => (hall q hq).2 (List.mem_cons_of_mem _ hmem)⟩

end Select

/-!
# In every execution
-/

section Execution

variable {env : StakeEnv} {literal : BitVec 64} {genesis : StakeBlock} {map : StakeMap}

/-- Entries of a chain have different hashes, since an entry is indexed with its ancestors. -/
theorem nodup_of_closed {chain : List StakeIndex}
    (h : forall p rest, (p :: rest) <:+ chain -> map p.hash = some (p :: rest)) :
    (chain.map fun p => p.hash).Nodup := by
  induction chain with
  | nil => exact List.nodup_nil
  | cons p rest ih =>
      rw [List.map_cons, List.nodup_cons]
      constructor
      · intro hmem
        rcases List.mem_map.mp hmem with ⟨q, hq, hqhash⟩
        rcases List.append_of_mem hq with ⟨before, after, hsplit⟩
        have hlower : map q.hash = some (q :: after) := by
          apply h q after
          rw [hsplit, ← List.cons_append]
          exact List.suffix_append _ _
        have hself := h p rest (List.suffix_refl _)
        rw [← hqhash, hlower] at hself
        have hlength := congrArg List.length (Option.some.inj hself)
        rw [hsplit, List.length_cons, List.length_cons, List.length_append,
          List.length_cons] at hlength
        omega
      · exact ih fun q after hsuffix => h q after (hsuffix.trans (List.suffix_cons p rest))

theorem find_of_closed {chain : List StakeIndex}
    (h : forall p rest, (p :: rest) <:+ chain -> map p.hash = some (p :: rest))
    {q : StakeIndex} (hq : q ∈ chain) : map.find q.hash = some q := by
  rcases List.append_of_mem hq with ⟨before, after, hsplit⟩
  unfold StakeMap.find
  rw [h q after ⟨before, hsplit.symm⟩]
  rfl

theorem perm_sortedCandidates (p : StakeIndex) (chain : List StakeIndex) :
    (sortedCandidates p chain).Perm
      ((chain.takeWhile fun q => decide (selectionIntervalStart p ≤ q.getBlockTime)).map
        fun q => (q.getBlockTime, q.hash)) :=
  (List.perm_insertionSort _ _).trans (List.reverse_perm _)

theorem nodup_sortedCandidates {chain : List StakeIndex} (p : StakeIndex)
    (h : (chain.map fun q => q.hash).Nodup) :
    ((sortedCandidates p chain).map Prod.snd).Nodup := by
  rw [((perm_sortedCandidates p chain).map Prod.snd).nodup_iff, List.map_map]
  exact h.sublist ((List.takeWhile_sublist _).map _)

/--
The rounds after a chain select as many different candidates as there are rounds, and the
modifier is made of their bits.
-/
def SelectsAll (env : StakeEnv) (find : UInt256 -> Option StakeIndex) (p : StakeIndex)
    (chain : List StakeIndex) (nStakeModifier : BitVec 64) : Prop :=
  let sorted := sortedCandidates p chain
  let rounds := min 64 sorted.length
  exists picked,
    selectedBlocks env find sorted nStakeModifier rounds 0 (selectionIntervalStart p) [] =
      some picked ∧
    picked.length = rounds ∧ (picked.map fun q => q.hash).Nodup ∧
    (forall q, q ∈ picked -> q.hash ∈ sorted.map Prod.snd) ∧
    selectionRounds env find sorted nStakeModifier rounds 0 (selectionIntervalStart p) [] 0 =
      some (entropyBits 0 0 picked)

theorem selection_never_fails (arrived : List StakeBlock) {hash : UInt256} {p : StakeIndex}
    {rest : List StakeIndex}
    (hchain : execute env literal genesis arrived hash = some (p :: rest))
    (nStakeModifier : BitVec 64) :
    SelectsAll env (execute env literal genesis arrived).find p (p :: rest) nStakeModifier := by
  rcases (recordsAll_execute arrived).2 hash (p :: rest) hchain with ⟨blocks, hrec⟩
  have hindexed : Indexed (execute env literal genesis arrived).find
      (sortedCandidates p (p :: rest)) := by
    intro item hitem
    rcases mem_of_mem_sortedCandidates hitem with ⟨q, hq, hqhash⟩
    refine ⟨q, ?_, hqhash⟩
    rw [← hqhash]
    exact find_of_closed hrec.closed hq
  have hnodup := nodup_sortedCandidates p (nodup_of_closed hrec.closed)
  rcases exists_of_selectedBlocks env nStakeModifier hindexed hnodup
      (min 64 (sortedCandidates p (p :: rest)).length) 0 (selectionIntervalStart p) []
      (Nat.min_le_right _ _) with ⟨picked, hpicked, hlength, hdistinct, hall⟩
  refine ⟨picked, hpicked, hlength, hdistinct, fun q hq => (hall q hq).1, ?_⟩
  rw [selectionRounds_eq, hpicked, Option.map_some]

end Execution

/-- After the block of the example there are two candidates. -/
theorem selection_never_fails_layout :
    exists p rest,
      execute layoutEnv 0x55d0c0de1000 layoutGenesis [layoutBlock] layoutBlock.hash =
        some (p :: rest) ∧ (sortedCandidates p (p :: rest)).length = 2 ∧
      SelectsAll layoutEnv (execute layoutEnv 0x55d0c0de1000 layoutGenesis [layoutBlock]).find p
        (p :: rest) 0x55d0c0de1000 := by
  have hchain : execute layoutEnv 0x55d0c0de1000 layoutGenesis [layoutBlock] layoutBlock.hash =
      some (recordChain layoutEnv 0x55d0c0de1000 [layoutBlock, layoutGenesis]) := rfl
  exact ⟨_, _, hchain, by decide +kernel,
    selection_never_fails [layoutBlock] hchain 0x55d0c0de1000⟩

end Stake
end Hbcur
