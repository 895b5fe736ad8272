import Hbcur.BlockIndex.Received

/-!
# The skip list

Trees which `AddToBlockIndex` builds from nothing, the walk of `GetAncestor` as its loop takes it,
and the walk along `pprev`.
-/

namespace Hbcur
namespace BlockIndex

open Foundation

namespace BlockTree

/-!
# Trees built entry by entry
-/

def emptyTree (address : Nat -> Nat) (haddress : Function.Injective address) : BlockTree where
  size := 0
  header _ := { hashBlock := 0, pprev := none, pskip := none, nHeight := 0, nChainWork := 0 }
  mapBlockIndex _ := none
  address := address
  pprev_lt := by
    intro p q h
    cases h
  pprev_indexed := by
    intro p q h
    cases h
  nHeight_root := by
    intro p _
    rfl
  nHeight_child := by
    intro p q h
    cases h
  pskip_ancestor := by
    intro p q h
    cases h
  mapBlockIndex_iff := by
    intro hash p
    constructor
    · intro h
      cases h
    · intro h
      cases h.1
  address_injective := haddress

/-- The index after `AddToBlockIndex` of the headers in turn, from nothing. -/
def builtIndex (address : Nat -> Nat) (haddress : Function.Injective address)
    (blocks : List NewHeader) : IndexState :=
  blocks.foldl (fun s block => (s.addToBlockIndex block).2)
    { tree := emptyTree address haddress
      status := fun _ => {}
      setBlockIndexCandidates := []
      mapBlocksUnlinked := []
      vChain := []
      nBlockSequenceId := 1 }

def builtTree (address : Nat -> Nat) (haddress : Function.Injective address)
    (blocks : List NewHeader) : BlockTree :=
  (builtIndex address haddress blocks).tree

/-!
# The walk of the loop
-/

/-- The loop of `GetAncestor` leaves at an entry after finitely many turns. -/
inductive WalksTo (tree : BlockTree) (height : Nat) : Nat -> Nat -> Nat -> Prop where
  | stop {pindexWalk heightWalk : Nat} (hle : heightWalk ≤ height) :
      WalksTo tree height pindexWalk heightWalk pindexWalk
  | skip {pindexWalk heightWalk k a : Nat} (hlt : height < heightWalk)
      (hfollow : followsSkip height heightWalk = true)
      (hskip : (tree.header pindexWalk).pskip = some k)
      (hrest : WalksTo tree height k (getSkipHeight heightWalk) a) :
      WalksTo tree height pindexWalk heightWalk a
  | prev {pindexWalk heightWalk q a : Nat} (hlt : height < heightWalk)
      (hfollow : followsSkip height heightWalk = false)
      (hprev : (tree.header pindexWalk).pprev = some q)
      (hrest : WalksTo tree height q (heightWalk - 1) a) :
      WalksTo tree height pindexWalk heightWalk a

variable {tree : BlockTree}

/-- Each turn lowers the height, so as many turns as the height are enough. -/
theorem walksTo_of_walkBack {height : Nat} (fuel : Nat) :
    forall pindexWalk heightWalk a, heightWalk ≤ fuel ->
      tree.walkBack height fuel pindexWalk heightWalk = some a ->
      WalksTo tree height pindexWalk heightWalk a := by
  induction fuel with
  | zero =>
      intro pindexWalk heightWalk a hfuel hwalk
      cases hwalk
      exact WalksTo.stop (by omega)
  | succ fuel ih =>
      intro pindexWalk heightWalk a hfuel hwalk
      unfold walkBack at hwalk
      by_cases hle : heightWalk ≤ height
      · rw [if_pos hle] at hwalk
        cases hwalk
        exact WalksTo.stop hle
      · rw [if_neg hle] at hwalk
        have hlt : height < heightWalk := Nat.lt_of_not_le hle
        cases hfollow : followsSkip height heightWalk with
        | true =>
            rw [if_pos hfollow] at hwalk
            have hlower : getSkipHeight heightWalk < heightWalk := getSkipHeight_lt (by omega)
            cases hskip : (tree.header pindexWalk).pskip with
            | none =>
                rw [hskip] at hwalk
                cases hwalk
            | some k =>
                rw [hskip] at hwalk
                exact WalksTo.skip hlt hfollow hskip (ih k _ a (by omega) hwalk)
        | false =>
            rw [if_neg (by rw [hfollow]; exact Bool.false_ne_true)] at hwalk
            cases hprev : (tree.header pindexWalk).pprev with
            | none =>
                rw [hprev] at hwalk
                cases hwalk
            | some q =>
                rw [hprev] at hwalk
                exact WalksTo.prev hlt hfollow hprev (ih q _ a (by omega) hwalk)

/-- The loop takes one way. -/
theorem WalksTo.unique {height pindexWalk heightWalk a b : Nat}
    (ha : WalksTo tree height pindexWalk heightWalk a)
    (hb : WalksTo tree height pindexWalk heightWalk b) : a = b := by
  induction ha with
  | stop hle =>
      cases hb with
      | stop _ => rfl
      | skip hlt _ _ _ => exact absurd hle (Nat.not_le.mpr hlt)
      | prev hlt _ _ _ => exact absurd hle (Nat.not_le.mpr hlt)
  | skip hlt hfollow hskip _ ih =>
      cases hb with
      | stop hle => exact absurd hle (Nat.not_le.mpr hlt)
      | skip _ _ hskip' hrest' =>
          rw [hskip] at hskip'
          cases hskip'
          exact ih hrest'
      | prev _ hfollow' _ _ =>
          rw [hfollow] at hfollow'
          cases hfollow'
  | prev hlt hfollow hprev _ ih =>
      cases hb with
      | stop hle => exact absurd hle (Nat.not_le.mpr hlt)
      | skip _ hfollow' _ _ =>
          rw [hfollow] at hfollow'
          cases hfollow'
      | prev _ _ hprev' hrest' =>
          rw [hprev] at hprev'
          cases hprev'
          exact ih hrest'

/-!
# The walk along the parents
-/

def followPprev (tree : BlockTree) : Nat -> Nat -> Option Nat
  | 0, p => some p
  | n + 1, p =>
      match (tree.header p).pprev with
      | none => none
      | some q => followPprev tree n q

theorem followPprev_spec (n : Nat) :
    forall p, n ≤ (tree.header p).nHeight ->
      exists a, tree.followPprev n p = some a ∧ a ∈ tree.ancestors p ∧
        (tree.header a).nHeight = (tree.header p).nHeight - n := by
  induction n with
  | zero =>
      intro p _
      exact ⟨p, rfl, Forest.mem_ancestors_self p, rfl⟩
  | succ n ih =>
      intro p hn
      cases hprev : (tree.header p).pprev with
      | none =>
          have hroot := tree.nHeight_root p hprev
          omega
      | some q =>
          have hchild := tree.nHeight_child p q hprev
          rcases ih q (by omega) with ⟨a, ha, hmem, hheight⟩
          exists a
          constructor
          · rw [followPprev, hprev]
            exact ha
          · exact ⟨Forest.mem_ancestors_of_parent hprev hmem, by omega⟩

theorem getAncestor_eq_followPprev {p height : Nat} (h : height ≤ (tree.header p).nHeight) :
    exists a, tree.getAncestor p height = some a ∧
      WalksTo tree height p (tree.header p).nHeight a ∧
      tree.followPprev ((tree.header p).nHeight - height) p = some a := by
  rcases tree.followPprev_spec ((tree.header p).nHeight - height) p (Nat.sub_le _ _) with
    ⟨a, hfollow, hmem, hheight⟩
  have hancestor : tree.getAncestor p height = some a :=
    getAncestor_eq_some_iff.mpr ⟨hmem, by omega⟩
  exists a
  constructor
  · exact hancestor
  · constructor
    · unfold getAncestor at hancestor
      rw [if_neg (Nat.not_lt.mpr h)] at hancestor
      exact walksTo_of_walkBack _ p _ a (Nat.le_refl _) hancestor
    · exact hfollow

/-- In a tree which `AddToBlockIndex` has built, the loop ends at the entry which lies as many
parents back as the heights differ, and nowhere else. -/
theorem getAncestor_builtTree (address : Nat -> Nat) (haddress : Function.Injective address)
    (blocks : List NewHeader) {p height : Nat}
    (h : height ≤ ((builtTree address haddress blocks).header p).nHeight) :
    exists a, (builtTree address haddress blocks).getAncestor p height = some a ∧
      (forall b, WalksTo (builtTree address haddress blocks) height p
        ((builtTree address haddress blocks).header p).nHeight b <-> b = a) ∧
      (builtTree address haddress blocks).followPprev
        (((builtTree address haddress blocks).header p).nHeight - height) p = some a := by
  rcases getAncestor_eq_followPprev h with ⟨a, hancestor, hwalk, hfollow⟩
  exists a
  constructor
  · exact hancestor
  · constructor
    · intro b
      constructor
      · intro hother
        exact hother.unique hwalk
      · intro heq
        rw [heq]
        exact hwalk
    · exact hfollow

/-- A chain of four headers, the third of which comes twice. -/
def exampleHeaders : List NewHeader :=
  [⟨10, 0, 0x207fffff⟩, ⟨11, 10, 0x207fffff⟩, ⟨12, 11, 0x207fffff⟩, ⟨12, 11, 0x207fffff⟩,
    ⟨13, 12, 0x207fffff⟩]

theorem getAncestor_builtTree_example :
    exists a, (builtTree id Function.injective_id exampleHeaders).getAncestor 3 1 = some a ∧
      (forall b, WalksTo (builtTree id Function.injective_id exampleHeaders) 1 3
        ((builtTree id Function.injective_id exampleHeaders).header 3).nHeight b <-> b = a) ∧
      (builtTree id Function.injective_id exampleHeaders).followPprev
        (((builtTree id Function.injective_id exampleHeaders).header 3).nHeight - 1) 3 = some a :=
  getAncestor_builtTree id Function.injective_id exampleHeaders (by decide)

end BlockTree

end BlockIndex
end Hbcur
