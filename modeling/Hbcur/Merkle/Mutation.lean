import Hbcur.Merkle.Soundness

/-!
# Mutated lists

Odd levels repeat their last node, so that different lists can have one root.  Where the pairs
hashed do not collide, one of two such lists is reported as mutated.
-/

namespace Hbcur
namespace Merkle

/-!
# The pairs of a level
-/

def levelPairs : List UInt256 -> List (UInt256 × UInt256)
  | [] => []
  | [a] => [(a, a)]
  | a :: b :: rest => (a, b) :: levelPairs rest

variable (hashPair : UInt256 -> UInt256 -> UInt256)

theorem merkleLevel_cons_cons (a b : UInt256) (rest : List UInt256) :
    (merkleLevel hashPair (a :: b :: rest)).2 =
      hashPair a b :: (merkleLevel hashPair rest).2 := by
  cases rest with
  | nil => rfl
  | cons c rest => rw [merkleLevel]; exact List.cons_ne_nil c rest

theorem merkleLevel_eq_pairs :
    forall level, (merkleLevel hashPair level).2 =
      (levelPairs level).map fun p => hashPair p.1 p.2
  | [] => rfl
  | [_] => rfl
  | a :: b :: rest => by
      rw [merkleLevel_cons_cons, merkleLevel_eq_pairs rest]
      rfl

theorem mem_of_levelPairs {p : UInt256 × UInt256} :
    forall level, p ∈ levelPairs level -> p.1 ∈ level
  | [], h => by cases h
  | [a], h => by
      rw [List.mem_singleton.mp h]
      exact List.mem_cons_self
  | a :: b :: rest, h => by
      rcases List.mem_cons.mp h with rfl | hrest
      · exact List.mem_cons_self
      · exact List.mem_cons_of_mem _ (List.mem_cons_of_mem _ (mem_of_levelPairs rest hrest))

theorem levelPairs_ne_nil (a : UInt256) (rest : List UInt256) : levelPairs (a :: rest) ≠ [] := by
  cases rest <;> exact List.cons_ne_nil _ _

theorem unmutated_tail {a b : UInt256} {rest : List UInt256}
    (h : (merkleLevel hashPair (a :: b :: rest)).1 = false) :
    (merkleLevel hashPair rest).1 = false := by
  cases rest with
  | nil => rfl
  | cons c rest =>
      rw [merkleLevel] at h
      · exact h
      · exact List.cons_ne_nil c rest

/-- A level is determined by its pairs unless its last pair is a repetition. -/
theorem eq_of_levelPairs :
    forall level level', levelPairs level = levelPairs level' ->
      (merkleLevel hashPair level).1 = false -> (merkleLevel hashPair level').1 = false ->
      level = level'
  | [], [], _, _, _ => rfl
  | [], a :: rest, h, _, _ => absurd h.symm (levelPairs_ne_nil a rest)
  | a :: rest, [], h, _, _ => absurd h (levelPairs_ne_nil a rest)
  | [a], [a'], h, _, _ => by
      cases h
      rfl
  | [a], [a', b'], h, _, hm' => by
      cases h
      simp [merkleLevel] at hm'
  | [a', b'], [a], h, hm, _ => by
      cases h
      simp [merkleLevel] at hm
  | [_], _ :: _ :: c :: rest, h, _, _ =>
      absurd (List.cons.inj h).2.symm (levelPairs_ne_nil c rest)
  | _ :: _ :: c :: rest, [_], h, _, _ =>
      absurd (List.cons.inj h).2 (levelPairs_ne_nil c rest)
  | a :: b :: rest, a' :: b' :: rest', h, hm, hm' => by
      rcases List.cons.inj h with ⟨hhead, htail⟩
      cases hhead
      rw [eq_of_levelPairs rest rest' htail (unmutated_tail hashPair hm)
        (unmutated_tail hashPair hm')]

/-!
# The way to the root
-/

/-- The pairs hashed from a level up to the root. -/
def treePairs : Nat -> List UInt256 -> List (UInt256 × UInt256)
  | 0, _ => []
  | rounds + 1, level =>
      if 1 < level.length then
        levelPairs level ++ treePairs rounds (merkleLevel hashPair level).2
      else []

/-- All pairs which `BuildMerkleTree` hashes. -/
def builtPairs (vtx : List UInt256) : List (UInt256 × UInt256) :=
  treePairs hashPair vtx.length vtx

/-- So many steps lead from a level to a root, with the mutations and the pairs on the way. -/
inductive Climbs : Nat -> List UInt256 -> UInt256 -> Bool -> List (UInt256 × UInt256) -> Prop where
  | root (r : UInt256) : Climbs 0 [r] r false []
  | above {n : Nat} {level : List UInt256} {r : UInt256} {mutated : Bool}
      {pairs : List (UInt256 × UInt256)} : 1 < level.length ->
      Climbs n (merkleLevel hashPair level).2 r mutated pairs ->
      Climbs (n + 1) level r ((merkleLevel hashPair level).1 || mutated)
        (levelPairs level ++ pairs)

theorem exists_climbs :
    forall (rounds : Nat) (level : List UInt256), level ≠ [] -> level.length ≤ rounds + 1 ->
      exists n, Climbs hashPair n level (merkleLevels hashPair rounds level).1
        (merkleLevels hashPair rounds level).2 (treePairs hashPair rounds level) := by
  intro rounds
  induction rounds with
  | zero =>
      intro level hne hlength
      rcases List.length_eq_one_iff.mp
        (Nat.le_antisymm hlength (List.length_pos_of_ne_nil hne)) with ⟨r, rfl⟩
      exact ⟨0, Climbs.root r⟩
  | succ rounds ih =>
      intro level hne hlength
      by_cases hlong : 1 < level.length
      · have hwidth := length_merkleLevel hashPair level
        rcases ih (merkleLevel hashPair level).2 (List.ne_nil_of_length_pos (by omega))
          (by omega) with ⟨n, hn⟩
        refine ⟨n + 1, ?_⟩
        rw [merkleLevels_of_long hashPair hlong, treePairs, if_pos hlong]
        exact Climbs.above hlong hn
      · rcases List.length_eq_one_iff.mp
          (Nat.le_antisymm (Nat.le_of_not_lt hlong) (List.length_pos_of_ne_nil hne)) with
          ⟨r, rfl⟩
        exact ⟨0, Climbs.root r⟩

variable {hashPair}

/-- A node which one of the pairs hashes to. -/
def IsNode (hashPair : UInt256 -> UInt256 -> UInt256) (pairs : List (UInt256 × UInt256))
    (hash : UInt256) : Prop :=
  exists p, p ∈ pairs ∧ hash = hashPair p.1 p.2

theorem IsNode.append_left {pairs : List (UInt256 × UInt256)} {hash : UInt256}
    (h : IsNode hashPair pairs hash) (more : List (UInt256 × UInt256)) :
    IsNode hashPair (pairs ++ more) hash := by
  rcases h with ⟨p, hp, hhash⟩
  exact ⟨p, List.mem_append_left _ hp, hhash⟩

theorem IsNode.append_right {pairs : List (UInt256 × UInt256)} {hash : UInt256}
    (h : IsNode hashPair pairs hash) (before : List (UInt256 × UInt256)) :
    IsNode hashPair (before ++ pairs) hash := by
  rcases h with ⟨p, hp, hhash⟩
  exact ⟨p, List.mem_append_right _ hp, hhash⟩

theorem isNode_of_mem_merkleLevel {level : List UInt256} {hash : UInt256}
    (h : hash ∈ (merkleLevel hashPair level).2) : IsNode hashPair (levelPairs level) hash := by
  rw [merkleLevel_eq_pairs] at h
  rcases List.mem_map.mp h with ⟨p, hp, rfl⟩
  exact ⟨p, hp, rfl⟩

section Climbing

variable {n n' : Nat} {level level' : List UInt256} {r : UInt256} {mutated mutated' : Bool}
  {pairs pairs' : List (UInt256 × UInt256)}

theorem Climbs.root_mem_or_isNode (h : Climbs hashPair n level r mutated pairs) :
    r ∈ level ∨ IsNode hashPair pairs r := by
  induction h with
  | root r => exact Or.inl List.mem_cons_self
  | above _ _ ih =>
      apply Or.inr
      rcases ih with hmem | hnode
      · exact (isNode_of_mem_merkleLevel hmem).append_left _
      · exact hnode.append_right _

/-- What is hashed above a level is in the level or is a node itself. -/
theorem Climbs.mem_or_isNode (h : Climbs hashPair n level r mutated pairs)
    {p : UInt256 × UInt256} (hp : p ∈ pairs) : p.1 ∈ level ∨ IsNode hashPair pairs p.1 := by
  induction h with
  | root r => cases hp
  | above _ _ ih =>
      rcases List.mem_append.mp hp with hlevel | habove
      · exact Or.inl (mem_of_levelPairs _ hlevel)
      · apply Or.inr
        rcases ih habove with hmem | hnode
        · exact (isNode_of_mem_merkleLevel hmem).append_left _
        · exact hnode.append_right _

theorem eq_of_map_eq {item : Type} {f : item -> UInt256} :
    forall {xs ys : List item}, xs.map f = ys.map f ->
      (forall x, x ∈ xs -> forall y, y ∈ ys -> f x = f y -> x = y) -> xs = ys
  | [], [], _, _ => rfl
  | [], _ :: _, h, _ => by cases h
  | _ :: _, [], h, _ => by cases h
  | x :: xs, y :: ys, h, hinj => by
      rcases List.cons.inj h with ⟨hhead, htail⟩
      rw [hinj x List.mem_cons_self y List.mem_cons_self hhead, eq_of_map_eq htail
        fun x' hx y' hy => hinj x' (List.mem_cons_of_mem _ hx) y' (List.mem_cons_of_mem _ hy)]

/-- What collides neither below nor above does not collide above. -/
theorem CollisionFree.above {below below' : List (UInt256 × UInt256)}
    (h : CollisionFree hashPair ((below ++ pairs) ++ (below' ++ pairs'))) :
    CollisionFree hashPair (pairs ++ pairs') := by
  apply h.mono
  intro p hp
  rcases List.mem_append.mp hp with hp | hp
  · exact List.mem_append_left _ (List.mem_append_right _ hp)
  · exact List.mem_append_right _ (List.mem_append_right _ hp)

/-- Levels which are equally far from a common root are equal. -/
theorem Climbs.level_eq (h : Climbs hashPair n level r mutated pairs)
    (h' : Climbs hashPair n level' r mutated' pairs')
    (hfree : CollisionFree hashPair (pairs ++ pairs')) (hmutated : mutated = false)
    (hmutated' : mutated' = false) : level = level' := by
  induction h generalizing level' mutated' pairs' with
  | root r =>
      cases h'
      rfl
  | @above n level r mutated pairs hlong hclimb ih =>
      cases h' with
      | @above _ _ _ mutated' pairs' hlong' hclimb' =>
          rw [Bool.or_eq_false_iff] at hmutated hmutated'
          have hnext := ih hclimb' hfree.above hmutated.2 hmutated'.2
          rw [merkleLevel_eq_pairs, merkleLevel_eq_pairs] at hnext
          apply eq_of_levelPairs hashPair level level' _ hmutated.1 hmutated'.1
          apply eq_of_map_eq hnext
          intro p hp q hq
          exact hfree p (List.mem_append_left _ (List.mem_append_left _ hp)) q
            (List.mem_append_right _ (List.mem_append_left _ hq))

/-- The level nearer to a common root contains a node of the other tree. -/
theorem Climbs.exists_isNode (h : Climbs hashPair n level r mutated pairs)
    (h' : Climbs hashPair n' level' r mutated' pairs') (hlt : n < n')
    (hfree : CollisionFree hashPair (pairs ++ pairs')) :
    exists hash, hash ∈ level ∧ IsNode hashPair pairs' hash := by
  induction h generalizing n' level' mutated' pairs' with
  | root r =>
      cases h' with
      | root => cases hlt
      | above hlong hclimb =>
          refine ⟨r, List.mem_cons_self, ?_⟩
          rcases hclimb.root_mem_or_isNode with hmem | hnode
          · exact (isNode_of_mem_merkleLevel hmem).append_left _
          · exact hnode.append_right _
  | @above n level r mutated pairs hlong hclimb ih =>
      cases h' with
      | root => cases hlt
      | @above n' _ _ mutated' pairs' hlong' hclimb' =>
          rcases ih hclimb' (Nat.lt_of_succ_lt_succ hlt) hfree.above with
            ⟨hash, hmem, p, hp, hhash⟩
          rcases isNode_of_mem_merkleLevel hmem with ⟨q, hq, hhash'⟩
          -- The node is hashed from one pair only, which is a pair of both trees.
          have hsame : q = p := hfree q (List.mem_append_left _ (List.mem_append_left _ hq)) p
            (List.mem_append_right _ (List.mem_append_right _ hp)) (hhash'.symm.trans hhash)
          refine ⟨q.1, mem_of_levelPairs level hq, ?_⟩
          rw [hsame]
          rcases hclimb'.mem_or_isNode hp with hlevel | hnode
          · exact (isNode_of_mem_merkleLevel hlevel).append_left _
          · exact hnode.append_right _

end Climbing

/-!
# Two lists
-/

/-- The leaves of two trees are no nodes of them, and their pairs do not collide. -/
structure Separate (hashPair : UInt256 -> UInt256 -> UInt256) (vtx vtx' : List UInt256) :
    Prop where
  collisionFree : CollisionFree hashPair (builtPairs hashPair vtx ++ builtPairs hashPair vtx')
  leaves : forall hash, hash ∈ vtx ++ vtx' -> forall p,
    p ∈ builtPairs hashPair vtx ++ builtPairs hashPair vtx' -> hash ≠ hashPair p.1 p.2

theorem Separate.symm {vtx vtx' : List UInt256} (h : Separate hashPair vtx vtx') :
    Separate hashPair vtx' vtx := by
  have hmem : forall {item : Type} {xs ys : List item} {x : item}, x ∈ ys ++ xs ->
      x ∈ xs ++ ys := by
    intro item xs ys x hx
    exact List.mem_append.mpr (List.mem_append.mp hx).symm
  constructor
  · exact h.collisionFree.mono fun p hp => hmem hp
  · exact fun hash hhash p hp => h.leaves hash (hmem hhash) p (hmem hp)

/-- Neither list reaches a common root sooner than the other. -/
theorem Separate.not_lt {vtx vtx' : List UInt256} {n n' : Nat} {r : UInt256}
    {mutated mutated' : Bool} (h : Separate hashPair vtx vtx')
    (hclimb : Climbs hashPair n vtx r mutated (builtPairs hashPair vtx))
    (hclimb' : Climbs hashPair n' vtx' r mutated' (builtPairs hashPair vtx')) : ¬ n < n' := by
  intro hlt
  rcases hclimb.exists_isNode hclimb' hlt h.collisionFree with ⟨hash, hmem, p, hp, hhash⟩
  exact h.leaves hash (List.mem_append_left _ hmem) p (List.mem_append_right _ hp) hhash

theorem mutated_of_equal_roots {vtx vtx' : List UInt256} (hne : vtx ≠ []) (hne' : vtx' ≠ [])
    (hdiff : vtx ≠ vtx') (h : Separate hashPair vtx vtx')
    (hroot : (buildMerkleTree hashPair vtx).1 = (buildMerkleTree hashPair vtx').1) :
    (buildMerkleTree hashPair vtx).2 = true ∨ (buildMerkleTree hashPair vtx').2 = true := by
  rw [buildMerkleTree_eq_merkleLevels, buildMerkleTree_eq_merkleLevels] at hroot ⊢
  rcases exists_climbs hashPair vtx.length vtx hne (Nat.le_succ _) with ⟨n, hclimb⟩
  rcases exists_climbs hashPair vtx'.length vtx' hne' (Nat.le_succ _) with ⟨n', hclimb'⟩
  rw [← hroot] at hclimb'
  have hsame : n = n' :=
    Nat.le_antisymm (Nat.le_of_not_lt (h.symm.not_lt hclimb' hclimb))
      (Nat.le_of_not_lt (h.not_lt hclimb hclimb'))
  subst hsame
  by_contra hnone
  rw [not_or, Bool.not_eq_true, Bool.not_eq_true] at hnone
  exact hdiff (hclimb.level_eq hclimb' h.collisionFree hnone.1 hnone.2)

variable (hashPair) in
/-- Branches lead to the root, and a root which two lists share is that of a mutated one. -/
theorem branches_and_mutations :
    (forall vtx nIndex, nIndex < vtx.length ->
      checkMerkleBranch hashPair (vtx.getD nIndex 0) (getMerkleBranch hashPair vtx nIndex)
        nIndex = (buildMerkleTree hashPair vtx).1) ∧
    forall vtx vtx', vtx ≠ [] -> vtx' ≠ [] -> vtx ≠ vtx' -> Separate hashPair vtx vtx' ->
      (buildMerkleTree hashPair vtx).1 = (buildMerkleTree hashPair vtx').1 ->
      (buildMerkleTree hashPair vtx).2 = true ∨ (buildMerkleTree hashPair vtx').2 = true := by
  constructor
  · intro vtx nIndex h
    exact checkMerkleBranch_getMerkleBranch hashPair h
  · intro vtx vtx' hne hne' hdiff h hroot
    exact mutated_of_equal_roots hne hne' hdiff h hroot

theorem builtPairs_three : builtPairs exampleHash [1, 2, 3] = [(1, 2), (3, 3), (1003, 3004)] := by
  decide +kernel

theorem builtPairs_repeated :
    builtPairs exampleHash [1, 2, 3, 3] = [(1, 2), (3, 3), (1003, 3004)] := by
  decide +kernel

theorem separate_repeated : Separate exampleHash [1, 2, 3] [1, 2, 3, 3] := by
  constructor
  · rw [builtPairs_three, builtPairs_repeated]
    decide +kernel
  · rw [builtPairs_three, builtPairs_repeated]
    have hapart : (([1, 2, 3, 1, 2, 3, 3] : List UInt256).all fun hash =>
        [(1, 2), (3, 3), (1003, 3004), (1, 2), (3, 3), (1003, 3004)].all fun p =>
          hash != exampleHash p.1 p.2) = true := by
      decide +kernel
    intro hash hhash p hp
    exact bne_iff_ne.mp (List.all_eq_true.mp (List.all_eq_true.mp hapart hash hhash) p hp)

/-- The repeated last transaction is found out. -/
theorem branches_and_mutations_repeated :
    checkMerkleBranch exampleHash 3 (getMerkleBranch exampleHash [1, 2, 3] 2) 2 =
        (buildMerkleTree exampleHash [1, 2, 3]).1 ∧
      ((buildMerkleTree exampleHash [1, 2, 3]).2 = true ∨
        (buildMerkleTree exampleHash [1, 2, 3, 3]).2 = true) :=
  ⟨(branches_and_mutations exampleHash).1 [1, 2, 3] 2 (by decide),
    (branches_and_mutations exampleHash).2 [1, 2, 3] [1, 2, 3, 3] (by decide) (by decide)
      (by decide) separate_repeated (by decide)⟩

end Merkle
end Hbcur
