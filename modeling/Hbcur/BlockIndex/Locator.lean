import Hbcur.BlockIndex.Invariant
import Hbcur.BlockIndex.SkipList

/-!
# Locators

`CChain::GetLocator` of `chain.cpp` and `FindForkInGlobalIndex` of `main.cpp`.
-/

namespace Hbcur
namespace BlockIndex

open Foundation

/-!
# Active chains
-/

/-- What `SetTip` leaves: nothing, or the branch of an entry. -/
def ActiveChain (tree : BlockTree) (vChain : List (Option Nat)) : Prop :=
  vChain = [] ∨ exists t, t < tree.size ∧ vChain = chainOf tree t

/-- `chainActive[nHeight]` -/
def chainAt (vChain : List (Option Nat)) (nHeight : Nat) : Option Nat :=
  vChain[nHeight]?.join

variable {tree : BlockTree} {vChain : List (Option Nat)}

theorem chainAt_chainOf {t x n : Nat} :
    chainAt (chainOf tree t) n = some x <->
      x ∈ tree.ancestors t ∧ (tree.header x).nHeight = n := by
  rw [chainAt, Option.join_eq_some_iff, getElem?_chainOf]

theorem setTip_nil (p : Nat) : setTip tree [] (some p) = chainOf tree p := by
  have hempty : resize [] ((tree.header p).nHeight + 1) =
      List.replicate ((tree.header p).nHeight + 1) none := rfl
  have hclosed : ClosedChain tree
      ((List.replicate ((tree.header p).nHeight + 1) none).take
        ((tree.header p).nHeight + 1)) := by
    intro n x hx
    rw [List.take_replicate, List.getElem?_replicate] at hx
    split at hx <;> cases hx
  change fill tree (resize [] ((tree.header p).nHeight + 1)) (tree.ancestors p) = chainOf tree p
  rw [hempty, fill_eq_chainOf _ (by rw [List.length_replicate]; omega) hclosed,
    List.drop_eq_nil_of_le (by rw [List.length_replicate]), List.append_nil]

theorem activeChain_setTip (h : ActiveChain tree vChain) {pindex : Option Nat}
    (hpindex : forall p, pindex = some p -> p < tree.size) :
    ActiveChain tree (setTip tree vChain pindex) := by
  cases pindex with
  | none => exact Or.inl rfl
  | some p =>
      right
      exists p
      constructor
      · exact hpindex p rfl
      · rcases h with hnil | ⟨t, _, hchain⟩
        · rw [hnil, setTip_nil]
        · rw [hchain, setTip_chainOf]

/-!
# Making a locator
-/

/-- The entry to go on with: from the vector for an entry of the chain, else by the skip list. -/
def stepBack (tree : BlockTree) (vChain : List (Option Nat)) (p nHeight : Nat) : Option Nat :=
  if contains tree vChain p then chainAt vChain nHeight else tree.getAncestor p nHeight

/-- The entries whose hashes are pushed, with the step and the size of `vHave` so far. -/
def locatorLoop (tree : BlockTree) (vChain : List (Option Nat)) :
    Nat -> Option Nat -> Nat -> Nat -> List Nat
  | 0, _, _, _ => []
  | _ + 1, none, _, _ => []
  | fuel + 1, some p, nStep, nHave =>
      p :: (if (tree.header p).nHeight = 0 then []
        else locatorLoop tree vChain fuel
          (stepBack tree vChain p ((tree.header p).nHeight - nStep))
          (if 10 < nHave + 1 then nStep * 2 else nStep) (nHave + 1))

/-- `GetLocator` of an entry, or of the tip. -/
def getLocator (tree : BlockTree) (vChain : List (Option Nat)) (pindex : Option Nat) : List Nat :=
  match pindex.or (tip vChain) with
  | none => []
  | some p =>
      (locatorLoop tree vChain ((tree.header p).nHeight + 1) (some p) 1 0).map fun x =>
        (tree.header x).hashBlock

/-- Entries from one down its branch to the root. -/
structure LocatorOf (tree : BlockTree) (p : Nat) (blocks : List Nat) : Prop where
  first : blocks.head? = some p
  falling : blocks.Pairwise fun a b => (tree.header b).nHeight < (tree.header a).nHeight
  branch : forall a, a ∈ blocks -> a ∈ tree.ancestors p
  last : exists root, blocks.getLast? = some root ∧ (tree.header root).nHeight = 0

theorem stepBack_spec (h : ActiveChain tree vChain) {p nHeight : Nat}
    (hheight : nHeight ≤ (tree.header p).nHeight) :
    exists a, stepBack tree vChain p nHeight = some a ∧ a ∈ tree.ancestors p ∧
      (tree.header a).nHeight = nHeight := by
  rw [← BlockTree.depth_eq_nHeight] at hheight
  rcases Forest.exists_ancestor_of_depth hheight with ⟨a, ha, hdepth⟩
  rw [BlockTree.depth_eq_nHeight] at hdepth
  exists a
  constructor
  · unfold stepBack
    cases hcontains : contains tree vChain p with
    | true =>
        rw [if_pos rfl]
        rcases h with hnil | ⟨t, _, hchain⟩
        · rw [hnil] at hcontains
          cases hcontains
        · rw [hchain] at hcontains ⊢
          rw [chainAt_chainOf]
          exact ⟨Forest.mem_ancestors_trans ha (contains_chainOf.mp hcontains), hdepth⟩
    | false =>
        rw [if_neg Bool.false_ne_true]
        exact BlockTree.getAncestor_eq_some_iff.mpr ⟨ha, hdepth⟩
  · exact ⟨ha, hdepth⟩

theorem locatorOf_root {p : Nat} (h : (tree.header p).nHeight = 0) : LocatorOf tree p [p] := by
  constructor
  · rfl
  · exact List.pairwise_singleton _ _
  · intro a ha
    rw [List.mem_singleton.mp ha]
    exact Forest.mem_ancestors_self p
  · exact ⟨p, rfl, h⟩

/-- An entry in front of the locator of one of its proper ancestors. -/
theorem locatorOf_cons {p a : Nat} {blocks : List Nat} (ha : a ∈ tree.ancestors p)
    (hlt : (tree.header a).nHeight < (tree.header p).nHeight) (h : LocatorOf tree a blocks) :
    LocatorOf tree p (p :: blocks) := by
  constructor
  · rfl
  · apply List.pairwise_cons.mpr
    constructor
    · intro b hb
      have hle := BlockTree.nHeight_le_of_mem_ancestors (h.branch b hb)
      exact Nat.lt_of_le_of_lt hle hlt
    · exact h.falling
  · intro b hb
    rcases List.mem_cons.mp hb with heq | htail
    · rw [heq]
      exact Forest.mem_ancestors_self p
    · exact Forest.mem_ancestors_trans (h.branch b htail) ha
  · rcases h.last with ⟨root, hroot, hzero⟩
    exists root
    rw [List.getLast?_cons, hroot]
    exact ⟨rfl, hzero⟩

theorem locatorOf_locatorLoop (h : ActiveChain tree vChain) :
    forall (fuel p nStep nHave : Nat), 0 < nStep -> (tree.header p).nHeight < fuel ->
      LocatorOf tree p (locatorLoop tree vChain fuel (some p) nStep nHave) := by
  intro fuel
  induction fuel with
  | zero =>
      intro p nStep nHave _ hfuel
      cases hfuel
  | succ fuel ih =>
      intro p nStep nHave hstep hfuel
      rw [locatorLoop]
      by_cases hzero : (tree.header p).nHeight = 0
      · rw [if_pos hzero]
        exact locatorOf_root hzero
      · rw [if_neg hzero]
        rcases stepBack_spec h (Nat.sub_le (tree.header p).nHeight nStep) with
          ⟨a, hback, ha, hheight⟩
        have hlt : (tree.header a).nHeight < (tree.header p).nHeight := by omega
        have hnext : 0 < (if 10 < nHave + 1 then nStep * 2 else nStep) := by
          split <;> omega
        rw [hback]
        exact locatorOf_cons ha hlt (ih a _ _ hnext (by omega))

theorem getLocator_spec (h : ActiveChain tree vChain) (p : Nat) :
    exists blocks, LocatorOf tree p blocks ∧
      getLocator tree vChain (some p) = blocks.map fun x => (tree.header x).hashBlock :=
  ⟨_, locatorOf_locatorLoop h _ p 1 0 Nat.one_pos (Nat.lt_succ_self _), rfl⟩

/-!
# Finding the fork
-/

def findForkInGlobalIndex (tree : BlockTree) (vChain : List (Option Nat)) :
    List Nat -> Option Nat
  | [] => chainAt vChain 0
  | hash :: vHave =>
      match tree.mapBlockIndex hash with
      | none => findForkInGlobalIndex tree vChain vHave
      | some p =>
          if contains tree vChain p then some p else findForkInGlobalIndex tree vChain vHave

/-- The block with a hash is known and on the chain. -/
def OnChainHash (tree : BlockTree) (vChain : List (Option Nat)) (hash : Nat) : Prop :=
  exists p, tree.mapBlockIndex hash = some p ∧ contains tree vChain p = true

theorem findForkInGlobalIndex_of_onChain {vHave : List Nat}
    (h : exists hash, hash ∈ vHave ∧ OnChainHash tree vChain hash) :
    exists f above below, findForkInGlobalIndex tree vChain vHave = some f ∧
      contains tree vChain f = true ∧ vHave = above ++ (tree.header f).hashBlock :: below ∧
      forall hash, hash ∈ above -> ¬ OnChainHash tree vChain hash := by
  induction vHave with
  | nil =>
      rcases h with ⟨hash, hmem, _⟩
      cases hmem
  | cons hash vHave ih =>
      -- a first hash which is not on the chain is passed over
      have hskip : ¬ OnChainHash tree vChain hash ->
          findForkInGlobalIndex tree vChain (hash :: vHave) =
            findForkInGlobalIndex tree vChain vHave ->
          exists f above below, findForkInGlobalIndex tree vChain (hash :: vHave) = some f ∧
            contains tree vChain f = true ∧
            hash :: vHave = above ++ (tree.header f).hashBlock :: below ∧
            forall hash', hash' ∈ above -> ¬ OnChainHash tree vChain hash' := by
        intro hoff heq
        have hrest : exists hash', hash' ∈ vHave ∧ OnChainHash tree vChain hash' := by
          rcases h with ⟨hash', hmem, hon⟩
          rcases List.mem_cons.mp hmem with hhead | htail
          · rw [hhead] at hon
            exact absurd hon hoff
          · exact ⟨hash', htail, hon⟩
        rcases ih hrest with ⟨f, above, below, hfind, hcontains, hsplit, habove⟩
        exists f, hash :: above, below
        constructor
        · rw [heq, hfind]
        · constructor
          · exact hcontains
          · constructor
            · rw [hsplit]
              rfl
            · intro hash' hmem
              rcases List.mem_cons.mp hmem with hhead | htail
              · rw [hhead]
                exact hoff
              · exact habove hash' htail
      cases hmap : tree.mapBlockIndex hash with
      | none =>
          apply hskip
          · intro hon
            rcases hon with ⟨p, hp, _⟩
            rw [hmap] at hp
            cases hp
          · rw [findForkInGlobalIndex, hmap]
      | some p =>
          cases hcontains : contains tree vChain p with
          | true =>
              exists p, [], vHave
              rw [findForkInGlobalIndex, hmap]
              constructor
              · exact if_pos hcontains
              · constructor
                · exact hcontains
                · constructor
                  · rw [((tree.mapBlockIndex_iff hash p).mp hmap).2]
                    rfl
                  · intro hash' hmem
                    cases hmem
          | false =>
              apply hskip
              · intro hon
                rcases hon with ⟨p', hp', hon⟩
                rw [hmap] at hp'
                cases hp'
                rw [hcontains] at hon
                cases hon
              · rw [findForkInGlobalIndex, hmap]
                exact if_neg (by rw [hcontains]; exact Bool.false_ne_true)

/-!
# Two nodes of one network
-/

/-- Every branch starts with the genesis block of the network. -/
def Rooted (hashGenesis : Nat) (tree : BlockTree) : Prop :=
  forall p, p < tree.size -> (tree.header p).pprev = none ->
    (tree.header p).hashBlock = hashGenesis

theorem Rooted.onChainHash {hashGenesis : Nat} (h : Rooted hashGenesis tree) {t : Nat}
    (ht : t < tree.size) : OnChainHash tree (chainOf tree t) hashGenesis := by
  rcases Forest.exists_ancestor_of_depth (Nat.zero_le (tree.forest.depth t)) with
    ⟨root, hroot, hdepth⟩
  rw [BlockTree.depth_eq_nHeight] at hdepth
  have hlt := BlockTree.lt_size_of_mem_ancestors hroot ht
  have hhash := h root hlt (BlockTree.nHeight_eq_zero_iff.mp hdepth)
  exists root
  constructor
  · exact (tree.mapBlockIndex_iff hashGenesis root).mpr ⟨hlt, hhash⟩
  · exact contains_chainOf.mpr hroot

theorem locator_finds_fork {hashGenesis : Nat} {peer tree : BlockTree}
    (hpeer : Rooted hashGenesis peer) (htree : Rooted hashGenesis tree)
    {peerChain : List (Option Nat)} (hactive : ActiveChain peer peerChain) {p t : Nat}
    (hp : p < peer.size) (ht : t < tree.size) :
    (exists blocks, LocatorOf peer p blocks ∧
      getLocator peer peerChain (some p) = blocks.map (fun x => (peer.header x).hashBlock) ∧
      (getLocator peer peerChain (some p)).getLast? = some hashGenesis) ∧
    exists f above below,
      findForkInGlobalIndex tree (chainOf tree t) (getLocator peer peerChain (some p)) = some f ∧
      f ∈ tree.ancestors t ∧
      (exists a, a ∈ peer.ancestors p ∧ (peer.header a).hashBlock = (tree.header f).hashBlock) ∧
      getLocator peer peerChain (some p) = above ++ (tree.header f).hashBlock :: below ∧
      forall hash, hash ∈ above -> ¬ OnChainHash tree (chainOf tree t) hash := by
  rcases getLocator_spec hactive p with ⟨blocks, hblocks, hlocator⟩
  rcases hblocks.last with ⟨root, hroot, hzero⟩
  have hmem := List.mem_of_getLast? hroot
  have hgenesis : (peer.header root).hashBlock = hashGenesis :=
    hpeer root (BlockTree.lt_size_of_mem_ancestors (hblocks.branch root hmem) hp)
      (BlockTree.nHeight_eq_zero_iff.mp hzero)
  constructor
  · exists blocks
    constructor
    · exact hblocks
    · constructor
      · exact hlocator
      · rw [hlocator, List.getLast?_map, hroot, Option.map_some, hgenesis]
  · have hsome : exists hash, hash ∈ getLocator peer peerChain (some p) ∧
        OnChainHash tree (chainOf tree t) hash := by
      exists hashGenesis
      constructor
      · rw [hlocator]
        exact List.mem_map.mpr ⟨root, hmem, hgenesis⟩
      · exact htree.onChainHash ht
    rcases findForkInGlobalIndex_of_onChain hsome with
      ⟨f, above, below, hfind, hcontains, hsplit, habove⟩
    have hinLocator : (tree.header f).hashBlock ∈ getLocator peer peerChain (some p) := by
      rw [hsplit]
      exact List.mem_append_right _ List.mem_cons_self
    rw [hlocator] at hinLocator
    rcases List.mem_map.mp hinLocator with ⟨a, ha, hhash⟩
    exists f, above, below
    exact ⟨hfind, contains_chainOf.mp hcontains, ⟨a, hblocks.branch a ha, hhash⟩, hsplit, habove⟩

/-!
# Example

A node whose second block is on the branch of its peer.
-/

namespace LocatorExample

def peerTree : BlockTree :=
  BlockTree.builtTree id Function.injective_id
    [⟨10, 0, 0x207fffff⟩, ⟨11, 10, 0x207fffff⟩, ⟨12, 11, 0x207fffff⟩]

def localTree : BlockTree :=
  BlockTree.builtTree id Function.injective_id
    [⟨10, 0, 0x207fffff⟩, ⟨11, 10, 0x207fffff⟩, ⟨22, 11, 0x207fffff⟩]

theorem locator_finds_fork_short :
    (exists blocks, LocatorOf peerTree 2 blocks ∧
      getLocator peerTree (chainOf peerTree 2) (some 2) =
        blocks.map (fun x => (peerTree.header x).hashBlock) ∧
      (getLocator peerTree (chainOf peerTree 2) (some 2)).getLast? = some 10) ∧
    exists f above below,
      findForkInGlobalIndex localTree (chainOf localTree 2)
        (getLocator peerTree (chainOf peerTree 2) (some 2)) = some f ∧
      f ∈ localTree.ancestors 2 ∧
      (exists a, a ∈ peerTree.ancestors 2 ∧
        (peerTree.header a).hashBlock = (localTree.header f).hashBlock) ∧
      getLocator peerTree (chainOf peerTree 2) (some 2) =
        above ++ (localTree.header f).hashBlock :: below ∧
      forall hash, hash ∈ above -> ¬ OnChainHash localTree (chainOf localTree 2) hash :=
  locator_finds_fork (by unfold Rooted; decide) (by unfold Rooted; decide)
    (Or.inr ⟨2, by decide, rfl⟩) (by decide) (by decide)

end LocatorExample

end BlockIndex
end Hbcur
