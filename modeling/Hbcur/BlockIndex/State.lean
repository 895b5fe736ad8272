import Hbcur.BlockIndex.Chain

/-!
# The state of the block index

The fields of `CBlockIndex` which change after an entry is made, and the globals of
`main.cpp` which `FindMostWorkChain` and its companions keep.
-/

namespace Hbcur
namespace BlockIndex

open Foundation

/-!
# Status of an entry
-/

/-- The levels under `BLOCK_VALID_MASK`. -/
inductive Validity where
  | unknown
  | header
  | tree
  | transactions
  | chain
  | scripts
deriving DecidableEq

def Validity.level : Validity -> Nat
  | unknown => 0
  | header => 1
  | tree => 2
  | transactions => 3
  | chain => 4
  | scripts => 5

/-- `nTx`, `nChainTx`, `nSequenceId` and the bits of `nStatus`. -/
structure IndexStatus where
  nTx : Nat := 0
  nChainTx : Nat := 0
  nSequenceId : Nat := 0
  validity : Validity := Validity.unknown
  fHaveData : Bool := false
  fFailedValid : Bool := false
  fFailedChild : Bool := false
deriving DecidableEq

namespace IndexStatus

/-- `nStatus & BLOCK_FAILED_MASK` -/
def failed (st : IndexStatus) : Bool := st.fFailedValid || st.fFailedChild

def isValid (st : IndexStatus) (nUpTo : Validity) : Bool :=
  !st.failed && decide (nUpTo.level ≤ st.validity.level)

def raiseValidity (st : IndexStatus) (nUpTo : Validity) : IndexStatus :=
  if st.failed then st
  else if st.validity.level < nUpTo.level then { st with validity := nUpTo }
  else st

theorem raiseValidity_of_lt {st : IndexStatus} {nUpTo : Validity} (hvalid : st.failed = false)
    (hlt : st.validity.level < nUpTo.level) :
    st.raiseValidity nUpTo = { st with validity := nUpTo } := by
  rw [raiseValidity, if_neg (by rw [hvalid]; exact Bool.false_ne_true), if_pos hlt]

theorem raiseValidity_of_le {st : IndexStatus} {nUpTo : Validity}
    (hle : nUpTo.level ≤ st.validity.level) : st.raiseValidity nUpTo = st := by
  rw [raiseValidity, if_neg (Nat.not_lt.mpr hle), ite_self]

end IndexStatus

structure IndexState where
  tree : BlockTree
  status : Nat -> IndexStatus
  setBlockIndexCandidates : List Nat
  mapBlocksUnlinked : List (Option Nat × Nat)
  vChain : List (Option Nat)
  nBlockSequenceId : Nat

namespace IndexState

def header (s : IndexState) (p : Nat) : IndexHeader := s.tree.header p

def updateStatus (s : IndexState) (p : Nat) (f : IndexStatus -> IndexStatus) : IndexState :=
  { s with status := Function.update s.status p (f (s.status p)) }

/-- `chainActive.Tip()` -/
def tip (s : IndexState) : Option Nat := BlockIndex.tip s.vChain

/-- `chainActive.Contains` -/
def contains (s : IndexState) (p : Nat) : Bool := BlockIndex.contains s.tree s.vChain p

def insertCandidate (s : IndexState) (p : Nat) : IndexState :=
  { s with setBlockIndexCandidates := s.setBlockIndexCandidates.insert p }

def eraseCandidates (s : IndexState) (ps : List Nat) : IndexState :=
  { s with setBlockIndexCandidates := s.setBlockIndexCandidates.filter (· ∉ ps) }

/-!
# The order of the candidates
-/

/-- `CBlockIndexWorkComparator` -/
def less (s : IndexState) (pa pb : Nat) : Bool :=
  if (s.header pb).nChainWork < (s.header pa).nChainWork then false
  else if (s.header pa).nChainWork < (s.header pb).nChainWork then true
  else if (s.status pa).nSequenceId < (s.status pb).nSequenceId then false
  else if (s.status pb).nSequenceId < (s.status pa).nSequenceId then true
  else if s.tree.address pa < s.tree.address pb then false
  else if s.tree.address pb < s.tree.address pa then true
  else false

section Order

variable {s : IndexState} {a b c : Nat}

theorem less_iff :
    s.less a b = true <-> (s.header a).nChainWork < (s.header b).nChainWork ∨
      ((s.header a).nChainWork = (s.header b).nChainWork ∧
        ((s.status b).nSequenceId < (s.status a).nSequenceId ∨
          ((s.status b).nSequenceId = (s.status a).nSequenceId ∧
            s.tree.address b < s.tree.address a))) := by
  unfold less
  split_ifs <;> simp <;> omega

theorem less_irrefl (a : Nat) : s.less a a = false := by
  rw [← Bool.not_eq_true, less_iff]
  omega

theorem less_asymm (hab : s.less a b = true) : s.less b a = false := by
  rw [← Bool.not_eq_true, less_iff]
  rw [less_iff] at hab
  omega

/-- Two entries have two addresses, so one of them is worse. -/
theorem less_total (hne : a ≠ b) : s.less a b = true ∨ s.less b a = true := by
  have haddr : s.tree.address a ≠ s.tree.address b :=
    fun h => hne (s.tree.address_injective h)
  rw [less_iff, less_iff]
  omega

theorem not_less_trans (hba : s.less b a = false) (hcb : s.less c b = false) :
    s.less c a = false := by
  rw [← Bool.not_eq_true, less_iff] at hba hcb ⊢
  omega

theorem eq_of_not_less (hab : s.less a b = false) (hba : s.less b a = false) : a = b := by
  by_contra hne
  rcases less_total (s := s) hne with h | h
  · rw [hab] at h
    cases h
  · rw [hba] at h
    cases h

theorem less_of_nChainWork_lt (h : (s.header a).nChainWork < (s.header b).nChainWork) :
    s.less a b = true :=
  less_iff.mpr (Or.inl h)

/-- The order only reads the work and the sequence ids. -/
theorem less_congr {s' : IndexState} (htree : s'.tree = s.tree)
    (ha : (s'.status a).nSequenceId = (s.status a).nSequenceId)
    (hb : (s'.status b).nSequenceId = (s.status b).nSequenceId) :
    s'.less a b = s.less a b := by
  unfold less header
  rw [htree, ha, hb]

end Order

/-- Worse than `chainActive.Tip()`, if there is one. -/
def worseThanTip (s : IndexState) (p : Nat) : Bool :=
  match s.tip with
  | none => false
  | some t => s.less p t

theorem worseThanTip_eq {s : IndexState} {t : Nat} (h : s.tip = some t) (p : Nat) :
    s.worseThanTip p = s.less p t := by
  unfold worseThanTip
  rw [h]

/-- The last element of `setBlockIndexCandidates`. -/
def bestCandidate (s : IndexState) : List Nat -> Option Nat
  | [] => none
  | c :: cs =>
      match bestCandidate s cs with
      | none => some c
      | some b => if s.less c b then some b else some c

theorem bestCandidate_eq_none_iff {s : IndexState} {l : List Nat} :
    s.bestCandidate l = none <-> l = [] := by
  cases l with
  | nil => simp [bestCandidate]
  | cons c cs =>
      unfold bestCandidate
      cases s.bestCandidate cs with
      | none => simp
      | some b =>
          simp only
          split_ifs <;> simp

theorem bestCandidate_spec {s : IndexState} {l : List Nat} {r : Nat}
    (h : s.bestCandidate l = some r) :
    r ∈ l ∧ forall c, c ∈ l -> s.less r c = false := by
  induction l generalizing r with
  | nil => cases h
  | cons c cs ih =>
      unfold bestCandidate at h
      cases hb : s.bestCandidate cs with
      | none =>
          rw [hb] at h
          cases h
          rw [bestCandidate_eq_none_iff] at hb
          subst hb
          refine ⟨List.mem_cons_self, ?_⟩
          intro c hc
          rw [List.mem_singleton.mp hc]
          exact less_irrefl _
      | some b =>
          rw [hb] at h
          rcases ih hb with ⟨hmem, hbest⟩
          simp only at h
          split_ifs at h with hless
          · cases h
            refine ⟨List.mem_cons_of_mem c hmem, ?_⟩
            intro x hx
            rcases List.mem_cons.mp hx with rfl | hx
            · exact less_asymm hless
            · exact hbest x hx
          · cases h
            refine ⟨List.mem_cons_self, ?_⟩
            rw [Bool.not_eq_true] at hless
            intro x hx
            rcases List.mem_cons.mp hx with rfl | hx
            · exact less_irrefl _
            · exact not_less_trans (hbest x hx) hless

end IndexState

end BlockIndex
end Hbcur
