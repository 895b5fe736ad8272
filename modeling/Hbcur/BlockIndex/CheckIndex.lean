import Hbcur.BlockIndex.Growing
import Hbcur.BlockIndex.Linking
import Hbcur.BlockIndex.Manual

/-!
# The consistency checks

The assertions of `CheckBlockIndex`, and that the invariant of the index implies them.
-/

namespace Hbcur
namespace BlockIndex

open Foundation

namespace IndexState

/-!
# Assertions
-/

/-- The oldest ancestor with a property, as the search through the tree remembers it. -/
def oldest (s : IndexState) (test : Nat -> Bool) (p : Nat) : Option Nat :=
  (s.tree.ancestors p).reverse.find? test

/-- Below a level, where the genesis block counts for any. -/
def below (s : IndexState) (level : Validity) (p : Nat) : Bool :=
  (s.header p).pprev.isSome && decide ((s.status p).validity.level < level.level)

/-- The assertions about the entry `p` while the tip is `t`. -/
def assertions (s : IndexState) (hashGenesis t p : Nat) : List Bool :=
  let st := s.status p
  let pprev := (s.header p).pprev
  let nHeight := (s.tree.ancestors p).length - 1
  let firstInvalid := s.oldest (fun x => (s.status x).fFailedValid) p
  let firstMissing := s.oldest (fun x => !(s.status x).fHaveData) p
  let firstNotTreeValid := s.oldest (s.below Validity.tree) p
  let firstNotChainValid := s.oldest (s.below Validity.chain) p
  let firstNotScriptsValid := s.oldest (s.below Validity.scripts) p
  let foundInUnlinked := decide ((pprev, p) ∈ s.mapBlocksUnlinked)
  let count := decide (p ∈ s.setBlockIndexCandidates)
  [ pprev.isSome || decide ((s.header p).hashBlock = hashGenesis),
    pprev.isSome || decide (s.vChain.head? = some (some p)),
    !st.fHaveData == decide (st.nTx = 0),
    decide (3 ≤ st.validity.level) == decide (0 < st.nTx),
    decide (st.nChainTx ≠ 0) || decide (st.nSequenceId = 0),
    firstMissing.isSome == decide (st.nChainTx = 0),
    decide ((s.header p).nHeight = nHeight),
    match pprev with
      | none => true
      | some q => decide ((s.header q).nChainWork ≤ (s.header p).nChainWork),
    decide (nHeight < 2) ||
      match (s.header p).pskip with
      | none => false
      | some k => decide ((s.header k).nHeight < nHeight),
    firstNotTreeValid.isNone,
    decide (st.validity.level < Validity.tree.level) || firstNotTreeValid.isNone,
    decide (st.validity.level < Validity.chain.level) || firstNotChainValid.isNone,
    decide (st.validity.level < Validity.scripts.level) || firstNotScriptsValid.isNone,
    firstInvalid.isSome || !st.failed,
    if !s.less p t && firstMissing.isNone then firstInvalid.isSome || count else !count,
    if pprev.isSome && st.fHaveData && firstMissing.isSome then
      firstInvalid.isSome || foundInUnlinked
    else !foundInUnlinked ]

/-- The entries without a parent. -/
def roots (s : IndexState) : List Nat :=
  (List.range s.tree.size).filter (fun p => (s.header p).pprev.isNone)

/-- The entries which a search from the genesis block meets. -/
def traversed (s : IndexState) (genesis : Nat) : List Nat :=
  (List.range s.tree.size).filter (fun p => decide (genesis ∈ s.tree.ancestors p))

def checkBlockIndex (s : IndexState) (hashGenesis : Nat) : Bool :=
  match s.tip with
  | none => decide (s.tree.size ≤ 1)
  | some t =>
      match s.roots with
      | [genesis] =>
          (s.traversed genesis).all (fun p => (s.assertions hashGenesis t p).all id) &&
            decide ((s.traversed genesis).length = s.tree.size)
      | _ => false

/-!
# Reading the assertions
-/

section Reading

variable {hashGenesis : Nat} {s : IndexState} {t p : Nat}

theorem oldest_isSome_iff {test : Nat -> Bool} :
    (s.oldest test p).isSome = true <-> exists a, a ∈ s.tree.ancestors p ∧ test a = true := by
  unfold oldest
  rw [List.find?_isSome]
  simp only [List.mem_reverse]

theorem oldest_isNone_iff {test : Nat -> Bool} :
    (s.oldest test p).isNone = true <->
      forall a, a ∈ s.tree.ancestors p -> test a = false := by
  rw [← Option.not_isSome, Bool.not_eq_true', ← Bool.not_eq_true, oldest_isSome_iff]
  constructor
  · intro h a ha
    by_contra hbad
    rw [Bool.not_eq_false] at hbad
    exact h ⟨a, ha, hbad⟩
  · rintro h ⟨a, ha, htrue⟩
    rw [h a ha] at htrue
    cases htrue

theorem firstMissing_isSome_iff (h : s.LinkInv []) (hp : p < s.tree.size) :
    (s.oldest (fun x => !(s.status x).fHaveData) p).isSome = true <->
      (s.status p).nChainTx = 0 := by
  rw [oldest_isSome_iff]
  constructor
  · rintro ⟨a, ha, hdata⟩
    by_contra hlinked
    rw [(h.linked_iff hp).mp hlinked a ha] at hdata
    cases hdata
  · intro hzero
    by_contra hnone
    apply (h.linked_iff hp).mpr _ hzero
    intro a ha
    by_contra hdata
    rw [Bool.not_eq_true] at hdata
    exact hnone ⟨a, ha, by rw [hdata]; rfl⟩

/-- A level from `chain` on is the highest one, and the parents have it too. -/
theorem scripts_of_level (h : s.FlagInv) (hlevel : 4 ≤ (s.status p).validity.level) {a : Nat}
    (ha : a ∈ s.tree.ancestors p) (hprev : (s.header a).pprev ≠ none) :
    (s.status a).validity = Validity.scripts := by
  induction p using s.tree.forest.node_induction with
  | root p hroot =>
      rw [BlockTree.ancestors, Forest.ancestors_of_root hroot, List.mem_singleton] at ha
      rw [ha] at hprev
      exact absurd hroot hprev
  | child p q hpq ih =>
      rcases h.level_scripts p q hpq hlevel with ⟨hscripts, hparent⟩
      by_cases hap : a = p
      · rw [hap]
        exact hscripts
      · have haq := Forest.mem_ancestors_parent hpq ha hap
        cases hq : (s.header q).pprev with
        | none =>
            rw [Forest.ancestors_of_root hq, List.mem_singleton] at haq
            rw [haq] at hprev
            exact absurd hq hprev
        | some r =>
            apply ih _ haq
            rw [hparent r hq]
            decide

theorem not_below_of_level (h : s.FlagInv) (hlevel : 4 ≤ (s.status p).validity.level)
    (level : Validity) :
    forall a, a ∈ s.tree.ancestors p -> s.below level a = false := by
  intro a ha
  unfold below
  cases hprev : (s.header a).pprev with
  | none => rfl
  | some q =>
      rw [scripts_of_level h hlevel ha (by rw [hprev]; exact Option.some_ne_none q)]
      cases level <;> rfl

theorem not_below_tree (h : s.FlagInv) :
    forall a, a ∈ s.tree.ancestors p -> s.below Validity.tree a = false := by
  intro a _
  unfold below
  cases hprev : (s.header a).pprev with
  | none => rfl
  | some q =>
      have hlevel := h.level_tree a q hprev
      simp only [Option.isSome_some, Bool.true_and, decide_eq_false_iff_not, Nat.not_lt]
      exact hlevel

/-- With the candidates complete from the tip on, every assertion about an entry holds. -/
theorem assertions_of_indexInv (h : IndexInv hashGenesis s [] t) (hm : s.Mark t)
    (hp : p < s.tree.size) : (s.assertions hashGenesis t p).all id = true := by
  have hdepth : (s.tree.ancestors p).length - 1 = (s.header p).nHeight :=
    BlockTree.depth_eq_nHeight p
  have hmissing := firstMissing_isSome_iff h.links hp
  have hpresent : (s.oldest (fun x => !(s.status x).fHaveData) p).isNone = true <->
      (s.status p).nChainTx ≠ 0 := by
    rw [← Option.not_isSome, Bool.not_eq_true', ← Bool.not_eq_true, hmissing]
  have hroot : (s.header p).pprev = none -> p = 0 := h.tree.root p hp
  have htreeValid : (s.oldest (s.below Validity.tree) p).isNone = true :=
    oldest_isNone_iff.mpr (not_below_tree h.flags)
  have hvalid : (s.oldest (fun x => (s.status x).fFailedValid) p).isSome = true ∨
      (s.status p).failed = false := by
    cases hfailed : (s.status p).failed with
    | false => exact Or.inr rfl
    | true =>
        rcases h.flags.cause p hp hfailed with ⟨a, ha, hfa⟩
        exact Or.inl (oldest_isSome_iff.mpr ⟨a, ha, hfa⟩)
  simp only [assertions, List.all_cons, List.all_nil, Bool.and_true, Bool.and_eq_true, id,
    hdepth]
  refine ⟨?_, ?_, ?_, ?_, ?_, ?_, ?_, ?_, ?_, htreeValid, ?_, ?_, ?_, ?_, ?_, ?_⟩
  · cases hprev : (s.header p).pprev with
    | some q => rfl
    | none =>
        rw [hroot hprev]
        exact decide_eq_true h.tree.genesis
  · cases hprev : (s.header p).pprev with
    | some q => rfl
    | none =>
        have hhead : s.vChain.head? = some (some 0) := by
          rw [List.head?_eq_getElem?, h.chain.onChain, getElem?_chainOf]
          refine ⟨h.tree.zero_mem_ancestors h.chain.lt_size, ?_⟩
          rw [hroot hprev] at hprev
          exact s.tree.nHeight_root 0 hprev
        rw [hroot hprev, hhead]
        rfl
  · have hdata := h.links.data p hp
    cases hhave : (s.status p).fHaveData with
    | true =>
        have hne := Nat.pos_iff_ne_zero.mp (hdata.mp hhave)
        simp [hne]
    | false =>
        have hzero : (s.status p).nTx = 0 := by
          by_contra hne
          rw [hdata.mpr (Nat.pos_iff_ne_zero.mpr hne)] at hhave
          cases hhave
        simp [hzero]
  · rw [beq_iff_eq, decide_eq_decide]
    exact h.links.level p hp
  · rw [Bool.or_eq_true, decide_eq_true_eq, decide_eq_true_eq]
    by_cases hzero : (s.status p).nChainTx = 0
    · exact Or.inr (h.links.sequence p hp hzero)
    · exact Or.inl hzero
  · rw [beq_iff_eq, Bool.eq_iff_iff, hmissing, decide_eq_true_eq]
  · exact decide_eq_true trivial
  · cases hprev : (s.header p).pprev with
    | none => rfl
    | some q => exact decide_eq_true (Nat.le_of_lt (h.tree.work p q hprev))
  · rw [Bool.or_eq_true, decide_eq_true_eq]
    by_cases hlow : (s.header p).nHeight < 2
    · exact Or.inl hlow
    · right
      cases hprev : (s.header p).pprev with
      | none =>
          have hzero := s.tree.nHeight_root p hprev
          unfold IndexState.header at hlow
          omega
      | some q =>
          rcases s.tree.pskip_ancestor p q hprev with ⟨k, hskip, hheight, _⟩
          have hlt : getSkipHeight (s.tree.header p).nHeight < (s.tree.header p).nHeight :=
            getSkipHeight_lt (by unfold IndexState.header at hlow; omega)
          have hskip' : (s.header p).pskip = some k := hskip
          rw [hskip']
          apply decide_eq_true
          unfold IndexState.header
          omega
  · rw [htreeValid]
    exact Bool.or_true _
  · rw [Bool.or_eq_true, decide_eq_true_eq]
    by_cases hlow : (s.status p).validity.level < Validity.chain.level
    · exact Or.inl hlow
    · exact Or.inr (oldest_isNone_iff.mpr
        (not_below_of_level h.flags (Nat.not_lt.mp hlow) Validity.chain))
  · rw [Bool.or_eq_true, decide_eq_true_eq]
    by_cases hlow : (s.status p).validity.level < Validity.scripts.level
    · exact Or.inl hlow
    · have hle : 4 ≤ (s.status p).validity.level := (Nat.le_succ 4).trans (Nat.not_lt.mp hlow)
      exact Or.inr (oldest_isNone_iff.mpr (not_below_of_level h.flags hle Validity.scripts))
  · rw [Bool.or_eq_true, Bool.not_eq_true']
    exact hvalid
  · -- membership in the candidates
    split_ifs with hcond
    · rw [Bool.not_eq_true', hpresent] at hcond
      rw [Bool.or_eq_true, decide_eq_true_eq]
      rcases hvalid with hinvalid | hvalid
      · exact Or.inl hinvalid
      · exact Or.inr (hm.complete p hp hcond.2 hvalid hcond.1)
    · rw [Bool.not_eq_true', decide_eq_false_iff_not]
      intro hc
      rcases h.candidates p hc with ⟨_, hlinked, hless⟩
      apply hcond
      rw [Bool.not_eq_true', hpresent]
      exact ⟨hless, hlinked⟩
  · -- membership in the unlinked blocks
    split_ifs with hcond
    · rw [hmissing] at hcond
      rw [Bool.or_eq_true, decide_eq_true_eq]
      rcases h.links.registered p hp hcond.1.2 hcond.2 with hmem | hmem
      · cases hmem
      · exact Or.inr hmem
    · rw [Bool.not_eq_true', decide_eq_false_iff_not]
      intro hmem
      rcases h.links.waiting _ hmem with ⟨_, ⟨q, hkey, _⟩, hdata, hzero, _⟩
      have hkey' : (s.header p).pprev = some q := hkey
      apply hcond
      rw [hmissing, hkey']
      exact ⟨⟨rfl, hdata⟩, hzero⟩

theorem roots_eq (h : TreeInv hashGenesis s.tree) : s.roots = [0] := by
  rcases Nat.exists_eq_succ_of_ne_zero (Nat.pos_iff_ne_zero.mp h.size_pos) with ⟨n, hn⟩
  have hzero : (s.header 0).pprev.isNone = true := by
    cases hprev : (s.header 0).pprev with
    | none => rfl
    | some q => exact absurd (s.tree.pprev_lt 0 q hprev) (Nat.not_lt_zero q)
  unfold roots
  rw [hn, List.range_succ_eq_map, List.filter_cons, if_pos hzero, List.filter_eq_nil_iff.mpr]
  intro p hp hnone
  rcases List.mem_map.mp hp with ⟨k, hk, rfl⟩
  rw [Option.isNone_iff_eq_none] at hnone
  have hlt : k + 1 < s.tree.size := by
    have := List.mem_range.mp hk
    omega
  have hroot := h.root (k + 1) hlt hnone
  omega

theorem traversed_eq (h : TreeInv hashGenesis s.tree) :
    s.traversed 0 = List.range s.tree.size := by
  unfold traversed
  rw [List.filter_eq_self]
  intro p hp
  exact decide_eq_true (h.zero_mem_ancestors (List.mem_range.mp hp))

theorem checkBlockIndex_of_indexInv (h : IndexInv hashGenesis s [] t) (hm : s.Mark t) :
    s.checkBlockIndex hashGenesis = true := by
  unfold checkBlockIndex
  rw [h.chain.onChain.tip_eq, roots_eq h.tree]
  simp only
  rw [traversed_eq h.tree, List.length_range, decide_eq_true rfl, Bool.and_true, List.all_eq_true]
  intro p hp
  exact assertions_of_indexInv h hm (List.mem_range.mp hp)

end Reading

end IndexState

end BlockIndex
end Hbcur
