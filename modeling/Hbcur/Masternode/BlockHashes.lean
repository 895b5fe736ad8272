import Hbcur.BlockIndex.Locator
import Hbcur.Foundation.Tables

/-!
# Block hashes by height

`GetBlockHash` of `masternode.cpp`, which keeps the hashes that it has found in a map by height.
-/

namespace Hbcur
namespace BlockHashes

open Foundation BlockIndex

/-!
# The lookup
-/

/-- What the lookup uses of a node: the active chain and the hashes found before. -/
structure HashState where
  vChain : List (Option Nat) := []
  mapCacheBlockHashes : StdMap Int Nat := ∅

/-- The height to look up: zero stands for that of the tip. -/
def heightAsked (tree : BlockTree) (t : Nat) (nBlockHeight : Int) : Int :=
  if nBlockHeight = 0 then (tree.header t).nHeight else nBlockHeight

/-- The loop over `BlockReading`, which does not read the genesis block. -/
def readBack (tree : BlockTree) (nBlocksAgo : Int) : Int -> List Nat -> Option Nat
  | _, [] => none
  | n, p :: ps =>
      if (tree.header p).nHeight = 0 then none
      else if n ≥ nBlocksAgo then some (tree.header p).hashBlock
      else readBack tree nBlocksAgo (n + 1) ps

def getBlockHash (tree : BlockTree) (s : HashState) (nBlockHeight : Int) :
    Option Nat × HashState :=
  match tip s.vChain with
  | none => (none, s)
  | some t =>
      let nHeight := heightAsked tree t nBlockHeight
      match s.mapCacheBlockHashes.lookup nHeight with
      | some hash => (some hash, s)
      | none =>
          if (tree.header t).nHeight = 0 ∨ ((tree.header t).nHeight : Int) + 1 < nHeight then
            (none, s)
          else
            let nBlocksAgo := if nHeight > 0 then (tree.header t).nHeight + 1 - nHeight else 0
            match readBack tree nBlocksAgo 0 (tree.ancestors t) with
            | none => (none, s)
            | some hash =>
                (some hash, { s with
                  mapCacheBlockHashes := s.mapCacheBlockHashes.insert nHeight hash })

/-!
# The block which a height names
-/

/-- The hash of the block below a height, or of the tip for a height below zero.  The genesis
block has no place here. -/
def hashBelow (tree : BlockTree) (vChain : List (Option Nat)) (nHeight : Int) : Option Nat :=
  match chainAt vChain (if 0 < nHeight then (nHeight - 1).toNat else vChain.length - 1) with
  | none => none
  | some p => if (tree.header p).nHeight = 0 then none else some (tree.header p).hashBlock

variable {tree : BlockTree}

theorem readBack_ancestors {nBlocksAgo : Int} {a : Nat} (k : Nat) :
    forall (p : Nat) (n : Int), nBlocksAgo = n + k -> a ∈ tree.ancestors p ->
      (tree.header p).nHeight = (tree.header a).nHeight + k ->
      readBack tree nBlocksAgo n (tree.ancestors p) =
        if (tree.header a).nHeight = 0 then none else some (tree.header a).hashBlock := by
  induction k with
  | zero =>
      intro p n hago ha hheight
      have heq : a = p := by
        apply Forest.eq_of_depth_eq ha (Forest.mem_ancestors_self p)
        rw [BlockTree.depth_eq_nHeight, BlockTree.depth_eq_nHeight, hheight, Nat.add_zero]
      rw [heq, BlockTree.ancestors, Forest.ancestors_eq_cons, readBack]
      by_cases hzero : (tree.header p).nHeight = 0
      · rw [if_pos hzero, if_pos hzero]
      · rw [if_neg hzero, if_neg hzero, if_pos (by omega)]
  | succ k ih =>
      intro p n hago ha hheight
      cases hprev : (tree.header p).pprev with
      | none =>
          have hroot := tree.nHeight_root p hprev
          omega
      | some q =>
          have hchild := tree.nHeight_child p q hprev
          have hne : a ≠ p := by
            intro heq
            rw [heq] at hheight
            omega
          have hread := ih q (n + 1) (by omega) (Forest.mem_ancestors_parent hprev ha hne)
            (by omega)
          rw [BlockTree.ancestors, Forest.ancestors_of_parent hprev, readBack,
            if_neg (by omega), if_neg (by omega)]
          exact hread

theorem hashBelow_of_ancestor {t a : Nat} {nHeight : Int} (ha : a ∈ tree.ancestors t)
    (hheight : (tree.header a).nHeight =
      if 0 < nHeight then (nHeight - 1).toNat else (tree.header t).nHeight) :
    hashBelow tree (chainOf tree t) nHeight =
      if (tree.header a).nHeight = 0 then none else some (tree.header a).hashBlock := by
  unfold hashBelow
  rw [length_chainOf, Nat.add_sub_cancel, ← hheight, chainAt_chainOf.mpr ⟨ha, rfl⟩]

/-- Above the chain there is no block. -/
theorem hashBelow_above {t : Nat} {nHeight : Int}
    (h : ((tree.header t).nHeight : Int) + 1 < nHeight) :
    hashBelow tree (chainOf tree t) nHeight = none := by
  have hnone : chainAt (chainOf tree t) (nHeight - 1).toNat = none := by
    unfold chainAt
    rw [List.getElem?_eq_none]
    · rfl
    · rw [length_chainOf]
      omega
  unfold hashBelow
  rw [if_pos (by omega), hnone]

/-- Where the walk sets out, it comes to the block which the height names. -/
theorem readBack_eq_hashBelow {t : Nat} {nHeight : Int}
    (h : nHeight ≤ (tree.header t).nHeight + 1) :
    readBack tree (if nHeight > 0 then (tree.header t).nHeight + 1 - nHeight else 0) 0
        (tree.ancestors t) = hashBelow tree (chainOf tree t) nHeight := by
  have hle : (if 0 < nHeight then (nHeight - 1).toNat else (tree.header t).nHeight) ≤
      tree.forest.depth t := by
    rw [BlockTree.depth_eq_nHeight]
    split <;> omega
  rcases Forest.exists_ancestor_of_depth hle with ⟨a, ha, hdepth⟩
  rw [BlockTree.depth_eq_nHeight] at hdepth
  rw [hashBelow_of_ancestor ha hdepth]
  apply readBack_ancestors ((tree.header t).nHeight - (tree.header a).nHeight) t 0 _ ha
  · split at hdepth <;> omega
  · split at hdepth
    · rw [if_pos (by omega)]
      omega
    · rw [if_neg (by omega)]
      omega

theorem hashBelow_of_height_zero {t : Nat} {nHeight : Int} (hzero : (tree.header t).nHeight = 0)
    (h : nHeight ≤ (tree.header t).nHeight + 1) :
    hashBelow tree (chainOf tree t) nHeight = none := by
  have hroot := BlockTree.nHeight_eq_zero_iff.mp hzero
  have hself : t ∈ tree.ancestors t := Forest.mem_ancestors_self t
  rw [hashBelow_of_ancestor hself, if_pos hzero]
  split <;> omega

/-- The lookup is a table of earlier answers in front of the block which the height names. -/
theorem getBlockHash_eq_memoCall (t : Nat) (table : StdMap Int Nat) (nBlockHeight : Int) :
    getBlockHash tree ⟨chainOf tree t, table⟩ nBlockHeight =
      ((memoCall (hashBelow tree) table (chainOf tree t, heightAsked tree t nBlockHeight)).1,
        ⟨chainOf tree t,
          memoNext (hashBelow tree) table (chainOf tree t, heightAsked tree t nBlockHeight)⟩) := by
  unfold getBlockHash memoNext memoCall
  simp only [tip_chainOf]
  cases hlookup : table.lookup (heightAsked tree t nBlockHeight) with
  | some hash => rfl
  | none =>
      simp only
      by_cases hstop : (tree.header t).nHeight = 0 ∨
          ((tree.header t).nHeight : Int) + 1 < heightAsked tree t nBlockHeight
      · have hnone : hashBelow tree (chainOf tree t) (heightAsked tree t nBlockHeight) = none := by
          by_cases habove :
              ((tree.header t).nHeight : Int) + 1 < heightAsked tree t nBlockHeight
          · exact hashBelow_above habove
          · rcases hstop with hzero | hlt
            · exact hashBelow_of_height_zero hzero (Int.not_lt.mp habove)
            · exact absurd hlt habove
        rw [if_pos hstop, hnone]
      · rw [if_neg hstop, readBack_eq_hashBelow (by omega)]
        cases hashBelow tree (chainOf tree t) (heightAsked tree t nBlockHeight) <;> rfl

/-!
# Reorganisations and calls
-/

inductive ChainCall (tree : BlockTree) where
  | setTip (pindex : Option (Fin tree.size))
  | getBlockHash (nBlockHeight : Int)

/-- A node just started with an active chain. -/
def freshNode (vChain : List (Option Nat)) : HashState where
  vChain := vChain

def nodeStep (tree : BlockTree) (s : HashState) : ChainCall tree -> HashState
  | .setTip pindex => { s with vChain := BlockIndex.setTip tree s.vChain (pindex.map Fin.val) }
  | .getBlockHash nBlockHeight => (getBlockHash tree s nBlockHeight).2

/-- A call is answered as a fresh node with the same chain would answer it. -/
def AnswersAsFresh (tree : BlockTree) (s : HashState) : ChainCall tree -> Prop
  | .setTip _ => True
  | .getBlockHash nBlockHeight =>
      (getBlockHash tree s nBlockHeight).1 =
        (getBlockHash tree (freshNode s.vChain) nBlockHeight).1

/-- The heights which a run looks up, each with the chain active then.  Without a tip there is
no lookup. -/
def lookups (tree : BlockTree) :
    List (Option Nat) -> List (ChainCall tree) -> List (List (Option Nat) × Int)
  | _, [] => []
  | vChain, .setTip pindex :: calls =>
      lookups tree (BlockIndex.setTip tree vChain (pindex.map Fin.val)) calls
  | vChain, .getBlockHash nBlockHeight :: calls =>
      match tip vChain with
      | none => lookups tree vChain calls
      | some t => (vChain, heightAsked tree t nBlockHeight) :: lookups tree vChain calls

/-- If a chain has a block for a height, then a chain active later has the same for it. -/
def SameBlock (tree : BlockTree) (earlier later : List (Option Nat) × Int) : Prop :=
  Agree (hashBelow tree) earlier later

theorem activeChain_setTip_entry {vChain : List (Option Nat)} (pindex : Option (Fin tree.size))
    (h : ActiveChain tree vChain) :
    ActiveChain tree (BlockIndex.setTip tree vChain (pindex.map Fin.val)) := by
  apply activeChain_setTip h
  intro p hp
  rcases Option.map_eq_some_iff.mp hp with ⟨i, _, hi⟩
  rw [← hi]
  exact i.isLt

theorem answersAsFresh_getBlockHash_iff (t : Nat) (table : StdMap Int Nat) (nBlockHeight : Int) :
    AnswersAsFresh tree ⟨chainOf tree t, table⟩ (.getBlockHash nBlockHeight) <->
      AnswersAfresh (hashBelow tree) table
        (chainOf tree t, heightAsked tree t nBlockHeight) := by
  change (getBlockHash tree ⟨chainOf tree t, table⟩ nBlockHeight).1 =
      (getBlockHash tree ⟨chainOf tree t, ∅⟩ nBlockHeight).1 <-> _
  rw [getBlockHash_eq_memoCall, getBlockHash_eq_memoCall]
  have hfresh : AnswersAfresh (hashBelow tree) (∅ : StdMap Int Nat)
      (chainOf tree t, heightAsked tree t nBlockHeight) := by
    apply answersAfresh_iff.mpr
    intro v hv
    rw [AList.lookup_empty] at hv
    cases hv
  unfold AnswersAfresh at hfresh ⊢
  rw [hfresh]

theorem stepsSatisfy_lookups (calls : List (ChainCall tree)) :
    forall s : HashState, ActiveChain tree s.vChain ->
      (StepsSatisfy (nodeStep tree) (AnswersAsFresh tree) s calls <->
        StepsSatisfy (memoNext (hashBelow tree)) (AnswersAfresh (hashBelow tree))
          s.mapCacheBlockHashes (lookups tree s.vChain calls)) := by
  induction calls with
  | nil =>
      intro s _
      exact Iff.rfl
  | cons call calls ih =>
      intro s hactive
      rcases s with ⟨vChain, table⟩
      rw [StepsSatisfy]
      cases call with
      | setTip pindex =>
          rw [ih _ (activeChain_setTip_entry pindex hactive)]
          exact and_iff_right trivial
      | getBlockHash nBlockHeight =>
          rcases hactive with hnil | ⟨t, ht, hchain⟩
          · -- no tip, and so neither an answer nor a change
            cases hnil
            have hstate : nodeStep tree ⟨[], table⟩ (.getBlockHash nBlockHeight) = ⟨[], table⟩ :=
              rfl
            rw [hstate, ih _ (Or.inl rfl)]
            exact and_iff_right rfl
          · change vChain = chainOf tree t at hchain
            subst hchain
            have hstate : nodeStep tree ⟨chainOf tree t, table⟩ (.getBlockHash nBlockHeight) =
                ⟨chainOf tree t, memoNext (hashBelow tree) table
                  (chainOf tree t, heightAsked tree t nBlockHeight)⟩ :=
              congrArg Prod.snd (getBlockHash_eq_memoCall t table nBlockHeight)
            have hlookups : lookups tree (chainOf tree t) (.getBlockHash nBlockHeight :: calls) =
                (chainOf tree t, heightAsked tree t nBlockHeight) ::
                  lookups tree (chainOf tree t) calls := by
              rw [lookups, tip_chainOf]
            change _ <-> StepsSatisfy _ _ table (lookups tree (chainOf tree t) _)
            rw [hstate, ih _ (Or.inr ⟨t, ht, rfl⟩), hlookups, StepsSatisfy,
              answersAsFresh_getBlockHash_iff]

/-- From the start of a node, all calls are answered as by a fresh node exactly when no block
that has been found for a height has been replaced by the time of a later call for it. -/
theorem answersAsFresh_iff_sameBlocks (calls : List (ChainCall tree)) :
    StepsSatisfy (nodeStep tree) (AnswersAsFresh tree) (freshNode []) calls <->
      (lookups tree [] calls).Pairwise (SameBlock tree) := by
  rw [stepsSatisfy_lookups calls _ (Or.inl rfl)]
  exact stepsSatisfy_answersAfresh_empty _

/-!
# A block replaced by a reorganisation
-/

namespace ReorgExample

/-- Two blocks of height two on the same parent, the second of which gets a child. -/
def forkTree : BlockTree :=
  BlockTree.builtTree id Function.injective_id
    [⟨10, 0, 0x207fffff⟩, ⟨11, 10, 0x207fffff⟩, ⟨12, 11, 0x207fffff⟩, ⟨22, 11, 0x207fffff⟩,
      ⟨23, 22, 0x207fffff⟩]

/-- The second call comes after the reorganisation. -/
def calls : List (ChainCall forkTree) :=
  [.setTip (some ⟨2, by decide⟩), .getBlockHash 3, .setTip (some ⟨4, by decide⟩), .getBlockHash 3]

theorem stale_after_reorganisation :
    ¬ forall (tree : BlockTree) (calls : List (ChainCall tree)),
      StepsSatisfy (nodeStep tree) (AnswersAsFresh tree) (freshNode []) calls := by
  intro h
  have hlast : some 12 = some 22 := (h forkTree calls).2.2.2.1
  cases hlast

end ReorgExample

end BlockHashes
end Hbcur
