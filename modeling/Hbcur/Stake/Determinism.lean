import Hbcur.Stake.Modifier

/-!
# Which data a stake modifier depends on

Two executions are compared on the blocks which both have recorded.
-/

namespace Hbcur
namespace Stake

/-!
# Lookups

The computation looks up entries of the chain only.
-/

section Lookups

variable {env : StakeEnv} {find find' : UInt256 -> Option StakeIndex}

theorem selectLoop_congr {fModifierV2 : Bool} {selected : List UInt256} {stop : Int}
    {prev : BitVec 64} (items : List (Int × UInt256)) :
    forall best, (forall item, item ∈ items -> find item.2 = find' item.2) ->
      selectLoop env find fModifierV2 selected stop prev best items =
        selectLoop env find' fModifierV2 selected stop prev best items := by
  induction items with
  | nil =>
      intro best _
      rfl
  | cons item items ih =>
      intro best h
      have htail : forall best', selectLoop env find fModifierV2 selected stop prev best' items =
          selectLoop env find' fModifierV2 selected stop prev best' items :=
        fun best' => ih best' (fun i hi => h i (List.mem_cons_of_mem item hi))
      rw [selectLoop, selectLoop, h item List.mem_cons_self]
      simp only [htail]

theorem selectBlockFromCandidates_congr {sorted : List (Int × UInt256)}
    (h : forall item, item ∈ sorted -> find item.2 = find' item.2) (selected : List UInt256)
    (stop : Int) (prev : BitVec 64) :
    selectBlockFromCandidates env find sorted selected stop prev =
      selectBlockFromCandidates env find' sorted selected stop prev := by
  have hv2 : modifierV2 env find sorted = modifierV2 env find' sorted := by
    cases sorted with
    | nil => rfl
    | cons item items =>
        unfold modifierV2
        simp only
        rw [h item List.mem_cons_self]
  unfold selectBlockFromCandidates
  rw [hv2, selectLoop_congr sorted none h]

theorem selectionRounds_congr {sorted : List (Int × UInt256)} {prev : BitVec 64}
    (h : forall item, item ∈ sorted -> find item.2 = find' item.2) (rounds : Nat) :
    forall nRound stop selected new,
      selectionRounds env find sorted prev rounds nRound stop selected new =
        selectionRounds env find' sorted prev rounds nRound stop selected new := by
  induction rounds with
  | zero =>
      intro nRound stop selected new
      rfl
  | succ rounds ih =>
      intro nRound stop selected new
      unfold selectionRounds
      simp only [selectBlockFromCandidates_congr h, ih]

/-- The candidates are entries of the chain. -/
theorem mem_of_mem_sortedCandidates {p : StakeIndex} {chain : List StakeIndex}
    {item : Int × UInt256} (h : item ∈ sortedCandidates p chain) :
    exists q, q ∈ chain ∧ q.hash = item.2 := by
  unfold sortedCandidates at h
  rw [List.mem_insertionSort, List.mem_reverse] at h
  rcases List.mem_map.mp h with ⟨q, hq, rfl⟩
  exact ⟨q, (List.takeWhile_sublist _).subset hq, rfl⟩

theorem computeNextStakeModifier_congr {literal : BitVec 64} {chain : List StakeIndex}
    (h : forall q, q ∈ chain -> find q.hash = find' q.hash) :
    computeNextStakeModifier env find literal chain =
      computeNextStakeModifier env find' literal chain := by
  cases chain with
  | nil => rfl
  | cons p rest =>
      have hitems : forall item, item ∈ sortedCandidates p (p :: rest) ->
          find item.2 = find' item.2 := by
        intro item hitem
        rcases mem_of_mem_sortedCandidates hitem with ⟨q, hq, heq⟩
        rw [← heq]
        exact h q hq
      unfold computeNextStakeModifier
      simp only [selectionRounds_congr hitems]

theorem newIndex_congr {literal : BitVec 64} {block : StakeBlock} {pprev : List StakeIndex}
    (h : forall q, q ∈ pprev -> find q.hash = find' q.hash) :
    newIndex env find literal block pprev = newIndex env find' literal block pprev := by
  cases pprev with
  | nil => rfl
  | cons p rest =>
      unfold newIndex
      simp only [computeNextStakeModifier_congr h]

end Lookups

/-!
# Modifiers of a chain of blocks
-/

/-- Look up an entry among its chain. -/
def ownFind (chain : List StakeIndex) (hash : UInt256) : Option StakeIndex :=
  chain.find? (fun q => decide (q.hash = hash))

/-- The entries of a chain of blocks, computed from these blocks alone. -/
def recordChain (env : StakeEnv) (literal : BitVec 64) : List StakeBlock -> List StakeIndex
  | [] => []
  | block :: blocks =>
      let pprev := recordChain env literal blocks
      newIndex env (ownFind pprev) literal block pprev :: pprev

/-- A chain which goes back to the genesis block. -/
def LinkedTo (genesis : StakeBlock) : List StakeBlock -> Prop
  | [] => False
  | [block] => block = genesis
  | block :: prev :: rest =>
      block.hash ≠ genesis.hash ∧ block.hashPrevBlock = prev.hash ∧
        LinkedTo genesis (prev :: rest)

/-- What an index records for a hash. -/
structure Recorded (env : StakeEnv) (literal : BitVec 64) (genesis : StakeBlock)
    (received : List StakeBlock) (map : StakeMap) (hash : UInt256) (chain : List StakeIndex)
    (blocks : List StakeBlock) : Prop where
  chain_eq : chain = recordChain env literal blocks
  linked : LinkedTo genesis blocks
  head : (blocks.head?.map StakeBlock.hash) = some hash
  known : forall b, b ∈ blocks -> b = genesis ∨ b ∈ received
  closed : forall p rest, (p :: rest) <:+ chain -> map p.hash = some (p :: rest)

/-- Every entry of the index is recorded from the blocks of its chain. -/
def RecordsAll (env : StakeEnv) (literal : BitVec 64) (genesis : StakeBlock)
    (received : List StakeBlock) (map : StakeMap) : Prop :=
  (exists chain, map genesis.hash = some chain) ∧
    forall hash chain, map hash = some chain ->
      exists blocks, Recorded env literal genesis received map hash chain blocks

section Records

variable {env : StakeEnv} {literal : BitVec 64} {genesis : StakeBlock}
  {received : List StakeBlock} {map : StakeMap} {hash : UInt256} {chain : List StakeIndex}
  {blocks : List StakeBlock}

theorem newIndex_toStakeBlock (find : UInt256 -> Option StakeIndex) (block : StakeBlock)
    (pprev : List StakeIndex) :
    (newIndex env find literal block pprev).toStakeBlock = block := by
  cases pprev <;> rfl

/-- The index and the chain itself give the same entry. -/
theorem Recorded.find_eq (h : Recorded env literal genesis received map hash chain blocks)
    {q : StakeIndex} (hq : q ∈ chain) : map.find q.hash = ownFind chain q.hash := by
  have hmap : forall p, p ∈ chain -> exists rest, map p.hash = some (p :: rest) := by
    intro p hp
    rcases List.append_of_mem hp with ⟨before, after, hsplit⟩
    exact ⟨after, h.closed p after ⟨before, hsplit.symm⟩⟩
  rcases hmap q hq with ⟨rest, hrest⟩
  have hfind : map.find q.hash = some q := by
    unfold StakeMap.find
    rw [hrest]
    rfl
  rw [hfind]
  unfold ownFind
  cases hown : chain.find? (fun p => decide (p.hash = q.hash)) with
  | none =>
      have hnone := List.find?_eq_none.mp hown q hq
      exact absurd (decide_eq_true rfl) hnone
  | some p =>
      have htest := List.find?_some hown
      have hhash : p.hash = q.hash := of_decide_eq_true htest
      rcases hmap p (List.mem_of_find?_eq_some hown) with ⟨rest', hrest'⟩
      rw [hhash, hrest] at hrest'
      cases hrest'
      rfl

theorem Recorded.hash_eq (h : Recorded env literal genesis received map hash chain blocks) :
    exists b rest, blocks = b :: rest ∧ b.hash = hash := by
  have hhead := h.head
  cases blocks with
  | nil => cases hhead
  | cons b rest => exact ⟨b, rest, rfl, Option.some.inj hhead⟩

/-- A record stays one while other hashes are added. -/
theorem Recorded.update (h : Recorded env literal genesis received map hash chain blocks)
    (entry : Option (List StakeIndex)) {new : UInt256} (hnew : map new = none) :
    Recorded env literal genesis received (Function.update map new entry) hash chain blocks := by
  refine ⟨h.chain_eq, h.linked, h.head, h.known, ?_⟩
  intro p rest hsuffix
  have hold := h.closed p rest hsuffix
  have hne : p.hash ≠ new := by
    intro heq
    rw [heq, hnew] at hold
    cases hold
  rw [Function.update_of_ne hne]
  exact hold

theorem Recorded.mono {more : List StakeBlock}
    (h : Recorded env literal genesis received map hash chain blocks)
    (hsub : forall b, b ∈ received -> b ∈ more) :
    Recorded env literal genesis more map hash chain blocks :=
  ⟨h.chain_eq, h.linked, h.head, fun b hb => (h.known b hb).imp id (hsub b), h.closed⟩

/-- The record of a new block after a recorded parent. -/
theorem recorded_new {block : StakeBlock} {pprev : List StakeIndex} {pblocks : List StakeBlock}
    (h : Recorded env literal genesis received map block.hashPrevBlock pprev pblocks)
    (hnew : map block.hash = none) (hgenesis : block.hash ≠ genesis.hash)
    (hblock : block ∈ received) :
    Recorded env literal genesis received
      (Function.update map block.hash
        (some (newIndex env map.find literal block pprev :: pprev)))
      block.hash (newIndex env map.find literal block pprev :: pprev) (block :: pblocks) := by
  have hold := h.update (some (newIndex env map.find literal block pprev :: pprev)) hnew
  refine ⟨?_, ?_, rfl, ?_, ?_⟩
  · rw [recordChain, ← h.chain_eq, newIndex_congr (fun q hq => h.find_eq hq)]
  · rcases h.hash_eq with ⟨prev, rest, rfl, hprev⟩
    exact ⟨hgenesis, hprev.symm, h.linked⟩
  · intro b hb
    rcases List.mem_cons.mp hb with rfl | hb
    · exact Or.inr hblock
    · exact h.known b hb
  · intro p rest hsuffix
    rcases List.suffix_cons_iff.mp hsuffix with heq | hsuffix
    · cases heq
      rw [newIndex_toStakeBlock, Function.update_self]
    · exact hold.closed p rest hsuffix

theorem recordsAll_receive {block : StakeBlock}
    (h : RecordsAll env literal genesis received map) :
    RecordsAll env literal genesis (block :: received) (receive env literal map block) := by
  have hmore : RecordsAll env literal genesis (block :: received) map := by
    refine ⟨h.1, ?_⟩
    intro hash chain hmap
    rcases h.2 hash chain hmap with ⟨blocks, hrec⟩
    exact ⟨blocks, hrec.mono (fun b hb => List.mem_cons_of_mem block hb)⟩
  unfold receive
  cases hprev : map block.hashPrevBlock with
  | none => exact hmore
  | some pprev =>
      simp only
      unfold addToBlockIndex
      cases hself : map block.hash with
      | some chain => exact hmore
      | none =>
          simp only [hprev, Option.getD_some]
          rcases hmore.1 with ⟨gchain, hgchain⟩
          have hgenesis : block.hash ≠ genesis.hash := by
            intro heq
            rw [heq, hgchain] at hself
            cases hself
          refine ⟨⟨gchain, ?_⟩, ?_⟩
          · rw [Function.update_of_ne (Ne.symm hgenesis)]
            exact hgchain
          · intro hash chain hmap
            by_cases heq : hash = block.hash
            · subst heq
              rw [Function.update_self] at hmap
              cases hmap
              rcases hmore.2 _ _ hprev with ⟨pblocks, hrec⟩
              exact ⟨block :: pblocks, recorded_new hrec hself hgenesis List.mem_cons_self⟩
            · rw [Function.update_of_ne heq] at hmap
              rcases hmore.2 hash chain hmap with ⟨blocks, hrec⟩
              exact ⟨blocks, hrec.update _ hself⟩

theorem recordsAll_genesis :
    RecordsAll env literal genesis []
      (addToBlockIndex env literal (fun _ => none) genesis) := by
  have hmap : addToBlockIndex env literal (fun _ => none) genesis =
      Function.update (fun _ => none) genesis.hash
        (some (recordChain env literal [genesis])) := rfl
  rw [hmap]
  refine ⟨⟨_, Function.update_self _ _ _⟩, ?_⟩
  intro hash chain h
  by_cases heq : hash = genesis.hash
  · subst heq
    rw [Function.update_self] at h
    cases h
    refine ⟨[genesis], rfl, rfl, rfl, ?_, ?_⟩
    · intro b hb
      exact Or.inl (List.mem_singleton.mp hb)
    · intro p rest hsuffix
      rcases List.suffix_cons_iff.mp hsuffix with hall | hnil
      · cases hall
        exact Function.update_self _ _ _
      · cases List.suffix_nil.mp hnil
  · rw [Function.update_of_ne heq] at h
    cases h

/-- The blocks of an execution, in any order, are recorded from their chains. -/
theorem recordsAll_execute (arrived : List StakeBlock) :
    RecordsAll env literal genesis arrived.reverse (execute env literal genesis arrived) := by
  have hrun : forall (arrived received : List StakeBlock) (map : StakeMap),
      RecordsAll env literal genesis received map ->
      RecordsAll env literal genesis (arrived.reverse ++ received)
        (arrived.foldl (receive env literal) map) := by
    intro arrived
    induction arrived with
    | nil =>
        intro received map h
        exact h
    | cons block arrived ih =>
        intro received map h
        rw [List.reverse_cons, List.append_assoc]
        exact ih (block :: received) _ (recordsAll_receive h)
  have hstart : RecordsAll env literal genesis []
      (addToBlockIndex env literal (fun _ => none) genesis) := recordsAll_genesis
  have h := hrun arrived [] _ hstart
  rw [List.append_nil] at h
  exact h

end Records

/-!
# Two executions
-/

section Executions

variable {env : StakeEnv} {literal literal' : BitVec 64} {genesis : StakeBlock}
  {arrived arrived' : List StakeBlock}

/-- Blocks with one hash are one block. -/
def HashesDiffer (blocks : List StakeBlock) : Prop :=
  forall b b', b ∈ blocks -> b' ∈ blocks -> b.hash = b'.hash -> b = b'

/-- The chain of blocks below a block is determined by its hash. -/
theorem linkedTo_unique {known : List StakeBlock} (hhash : HashesDiffer known)
    (blocks : List StakeBlock) :
    forall {blocks' : List StakeBlock}, LinkedTo genesis blocks -> LinkedTo genesis blocks' ->
      (forall b, b ∈ blocks -> b ∈ known) -> (forall b, b ∈ blocks' -> b ∈ known) ->
      blocks.head?.map StakeBlock.hash = blocks'.head?.map StakeBlock.hash ->
      blocks = blocks' := by
  induction blocks with
  | nil =>
      intro blocks' h _ _ _ _
      exact absurd h id
  | cons b rest ih =>
      intro blocks' h h' hknown hknown' hhead
      cases blocks' with
      | nil => exact absurd h' id
      | cons b' rest' =>
          have heq : b = b' := hhash b b' (hknown b List.mem_cons_self)
            (hknown' b' List.mem_cons_self) (Option.some.inj hhead)
          subst heq
          cases rest with
          | nil =>
              cases rest' with
              | nil => rfl
              | cons p' rest' => exact absurd (congrArg StakeBlock.hash h) h'.1
          | cons p rest =>
              cases rest' with
              | nil => exact absurd (congrArg StakeBlock.hash h') h.1
              | cons p' rest' =>
                  have hprev : (p :: rest).head?.map StakeBlock.hash =
                      (p' :: rest').head?.map StakeBlock.hash :=
                    congrArg some (h.2.1.symm.trans h'.2.1)
                  rw [ih h.2.2 h'.2.2 (fun x hx => hknown x (List.mem_cons_of_mem b hx))
                    (fun x hx => hknown' x (List.mem_cons_of_mem b hx)) hprev]

/-- Two executions record one hash from the same blocks. -/
theorem exists_common_blocks
    (hhash : HashesDiffer (genesis :: (arrived ++ arrived'))) {hash : UInt256}
    {chain chain' : List StakeIndex}
    (h : execute env literal genesis arrived hash = some chain)
    (h' : execute env literal' genesis arrived' hash = some chain') :
    exists blocks, chain = recordChain env literal blocks ∧
      chain' = recordChain env literal' blocks ∧ LinkedTo genesis blocks ∧
      blocks.head?.map StakeBlock.hash = some hash ∧
      forall b, b ∈ blocks -> b = genesis ∨ (b ∈ arrived ∧ b ∈ arrived') := by
  rcases (recordsAll_execute arrived).2 hash chain h with ⟨blocks, hrec⟩
  rcases (recordsAll_execute arrived').2 hash chain' h' with ⟨blocks', hrec'⟩
  have heq : blocks = blocks' := by
    refine linkedTo_unique hhash blocks hrec.linked hrec'.linked ?_ ?_
      (hrec.head.trans hrec'.head.symm)
    · intro b hb
      rcases hrec.known b hb with rfl | hmem
      · exact List.mem_cons_self
      · exact List.mem_cons_of_mem _ (List.mem_append_left _ (List.mem_reverse.mp hmem))
    · intro b hb
      rcases hrec'.known b hb with rfl | hmem
      · exact List.mem_cons_self
      · exact List.mem_cons_of_mem _ (List.mem_append_right _ (List.mem_reverse.mp hmem))
  subst heq
  refine ⟨blocks, hrec.chain_eq, hrec'.chain_eq, hrec.linked, hrec.head, ?_⟩
  intro b hb
  rcases hrec.known b hb with rfl | hmem
  · exact Or.inl rfl
  · rcases hrec'.known b hb with rfl | hmem'
    · exact Or.inl rfl
    · exact Or.inr ⟨List.mem_reverse.mp hmem, List.mem_reverse.mp hmem'⟩

theorem receive_of_some {map : StakeMap} {block : StakeBlock} {hash : UInt256}
    {chain : List StakeIndex} (h : map hash = some chain) :
    receive env literal map block hash = some chain := by
  unfold receive addToBlockIndex
  cases map block.hashPrevBlock with
  | none => exact h
  | some pprev =>
      cases hself : map block.hash with
      | some _ => exact h
      | none =>
          have hne : hash ≠ block.hash := by
            intro heq
            rw [heq, hself] at h
            cases h
          simp only
          rw [Function.update_of_ne hne]
          exact h

theorem foldl_receive_of_some (arrived : List StakeBlock) :
    forall {map : StakeMap} {hash : UInt256} {chain : List StakeIndex},
      map hash = some chain -> arrived.foldl (receive env literal) map hash = some chain := by
  induction arrived with
  | nil =>
      intro map hash chain h
      exact h
  | cons block arrived ih =>
      intro map hash chain h
      exact ih (receive_of_some h)

/-- A child of the genesis block is recorded whenever it arrives. -/
theorem exists_recorded_child {block : StakeBlock} (hmem : block ∈ arrived)
    (hprev : block.hashPrevBlock = genesis.hash) :
    exists chain, execute env literal genesis arrived block.hash = some chain := by
  have hrun : forall (arrived : List StakeBlock) (map : StakeMap), block ∈ arrived ->
      (exists chain, map genesis.hash = some chain) ->
      exists chain, arrived.foldl (receive env literal) map block.hash = some chain := by
    intro arrived
    induction arrived with
    | nil =>
        intro map hb _
        cases hb
    | cons first arrived ih =>
        rintro map hb ⟨gchain, hgenesis⟩
        rcases List.mem_cons.mp hb with rfl | hb
        · have hself : exists chain, receive env literal map block block.hash = some chain := by
            unfold receive addToBlockIndex
            rw [hprev, hgenesis]
            cases hself : map block.hash with
            | some chain => exact ⟨chain, hself⟩
            | none => exact ⟨_, Function.update_self _ _ _⟩
          rcases hself with ⟨chain, hself⟩
          exact ⟨chain, foldl_receive_of_some arrived hself⟩
        · exact ih _ hb ⟨gchain, receive_of_some hgenesis⟩
  have hstart : RecordsAll env literal genesis []
      (addToBlockIndex env literal (fun _ => none) genesis) := recordsAll_genesis
  exact hrun arrived _ hmem hstart.1

/-- The chain of a child of the genesis block. -/
theorem blocks_eq_of_child {known blocks : List StakeBlock} {block : StakeBlock}
    (hhash : HashesDiffer known) (hlinked : LinkedTo genesis blocks)
    (hhead : blocks.head?.map StakeBlock.hash = some block.hash)
    (hsub : forall b, b ∈ blocks -> b ∈ known) (hblock : block ∈ known)
    (hprev : block.hashPrevBlock = genesis.hash) (hne : block.hash ≠ genesis.hash) :
    blocks = [block, genesis] := by
  cases blocks with
  | nil => cases hhead
  | cons b rest =>
      have heq : b = block :=
        hhash b block (hsub b List.mem_cons_self) hblock (Option.some.inj hhead)
      subst heq
      cases rest with
      | nil => exact absurd (congrArg StakeBlock.hash hlinked) hne
      | cons p rest =>
          have hp : p.hash = genesis.hash := hlinked.2.1.symm.trans hprev
          cases rest with
          | nil =>
              have hgenesis : p = genesis := hlinked.2.2
              rw [hgenesis]
          | cons q rest => exact absurd hp hlinked.2.2.1

/-- The block below all others but the genesis block is a child of it. -/
theorem exists_child_of_linkedTo (blocks : List StakeBlock) :
    LinkedTo genesis blocks -> blocks ≠ [genesis] ->
      exists b, b ∈ blocks ∧ b.hash ≠ genesis.hash ∧ b.hashPrevBlock = genesis.hash := by
  induction blocks with
  | nil =>
      intro h _
      exact absurd h id
  | cons b rest ih =>
      intro h hne
      cases rest with
      | nil => exact absurd (congrArg (fun x => [x]) h) hne
      | cons p rest =>
          by_cases hrest : p :: rest = [genesis]
          · refine ⟨b, List.mem_cons_self, h.1, ?_⟩
            rw [h.2.1]
            exact congrArg StakeBlock.hash (List.cons.inj hrest).1
          · rcases ih h.2.2 hrest with ⟨c, hc, hcne, hcprev⟩
            exact ⟨c, List.mem_cons_of_mem b hc, hcne, hcprev⟩

/-- The modifier which is recorded for an entry. -/
def recordedModifier (chain : List StakeIndex) : Option (BitVec 64) :=
  chain.head?.map StakeIndex.nStakeModifier

/-- The first block after the genesis block gets the address of the literal. -/
theorem recordedModifier_child (block : StakeBlock) :
    recordedModifier (recordChain env literal [block, genesis]) = some literal := rfl

theorem recordedModifier_genesis :
    recordedModifier (recordChain env literal [genesis]) = some 0 := rfl

/--
Two executions record the same modifier for every block if and only if they have the
literal at the same address, or have no block after the genesis block in common.
-/
theorem modifiers_agree_iff (hhash : HashesDiffer (genesis :: (arrived ++ arrived'))) :
    (forall hash chain chain', execute env literal genesis arrived hash = some chain ->
      execute env literal' genesis arrived' hash = some chain' ->
      recordedModifier chain = recordedModifier chain') <->
    (literal = literal' ∨ forall b, b ∈ arrived -> b ∈ arrived' ->
      b.hashPrevBlock = genesis.hash -> b.hash = genesis.hash) := by
  constructor
  · intro hagree
    by_cases heq : literal = literal'
    · exact Or.inl heq
    · apply Or.inr
      intro b hb hb' hprev
      by_contra hne
      have hrecorded : exists chain, execute env literal genesis arrived b.hash = some chain :=
        exists_recorded_child hb hprev
      have hrecorded' : exists chain, execute env literal' genesis arrived' b.hash = some chain :=
        exists_recorded_child hb' hprev
      rcases hrecorded with ⟨chain, h⟩
      rcases hrecorded' with ⟨chain', h'⟩
      have hsame := hagree b.hash chain chain' h h'
      rcases exists_common_blocks hhash h h' with ⟨blocks, rfl, rfl, hlinked, hhead, hknown⟩
      have hsub : forall x, x ∈ blocks -> x ∈ genesis :: (arrived ++ arrived') := by
        intro x hx
        rcases hknown x hx with rfl | hmem
        · exact List.mem_cons_self
        · exact List.mem_cons_of_mem _ (List.mem_append_left _ hmem.1)
      have hblocks : blocks = [b, genesis] := blocks_eq_of_child hhash hlinked hhead hsub
        (List.mem_cons_of_mem _ (List.mem_append_left _ hb)) hprev hne
      rw [hblocks, recordedModifier_child, recordedModifier_child] at hsame
      exact heq (Option.some.inj hsame)
  · rintro (rfl | hnone) hash chain chain' h h'
    · rcases exists_common_blocks hhash h h' with ⟨blocks, rfl, rfl, _⟩
      rfl
    · rcases exists_common_blocks hhash h h' with ⟨blocks, rfl, rfl, hlinked, _, hknown⟩
      by_cases hblocks : blocks = [genesis]
      · rw [hblocks, recordedModifier_genesis, recordedModifier_genesis]
      · rcases exists_child_of_linkedTo blocks hlinked hblocks with ⟨b, hb, hne, hprev⟩
        rcases hknown b hb with rfl | hmem
        · exact absurd rfl hne
        · exact absurd (hnone b hmem.1 hmem.2 hprev) hne

end Executions

/-!
# Two layouts

A genesis block and one block after it, with the literal at two addresses.
-/

def layoutEnv : StakeEnv := { Hash := fun _ => 0, nModifierUpdateBlock := 0 }

def layoutGenesis : StakeBlock :=
  { hash := 0x000007e7caecfe89ceb3a614982155aca5018c2c4a1634083f5cdea8b7a85379
    hashPrevBlock := 0
    nTime := 1619651480
    fProofOfStake := false }

def layoutBlock : StakeBlock :=
  { hash := 0x0000052b1c8f3d7ae06f94be47c1a2d0935e6f8820b47dd1369ac5e0f17b284c
    hashPrevBlock := layoutGenesis.hash
    nTime := 1619651540
    fProofOfStake := false }

theorem hashesDiffer_layout :
    HashesDiffer (layoutGenesis :: ([layoutBlock] ++ [layoutBlock])) := by
  intro b b' hb hb' heq
  have hcases : forall x, x ∈ layoutGenesis :: ([layoutBlock] ++ [layoutBlock]) ->
      x = layoutGenesis ∨ x = layoutBlock := by
    intro x hx
    simpa using hx
  rcases hcases b hb with rfl | rfl
  · rcases hcases b' hb' with rfl | rfl
    · rfl
    · exact absurd heq (by decide)
  · rcases hcases b' hb' with rfl | rfl
    · exact absurd heq (by decide)
    · rfl

/-- With one address the block gets one modifier. -/
theorem modifiers_agree_layout :
    HashesDiffer (layoutGenesis :: ([layoutBlock] ++ [layoutBlock])) ∧
      forall hash chain chain',
        execute layoutEnv 0x55d0c0de1000 layoutGenesis [layoutBlock] hash = some chain ->
        execute layoutEnv 0x55d0c0de1000 layoutGenesis [layoutBlock] hash = some chain' ->
        recordedModifier chain = recordedModifier chain' :=
  ⟨hashesDiffer_layout, (modifiers_agree_iff hashesDiffer_layout).mpr (Or.inl rfl)⟩

/-- With two addresses the same block gets two modifiers. -/
theorem modifiers_differ_layout :
    exists chain chain',
      execute layoutEnv 0x55d0c0de1000 layoutGenesis [layoutBlock] layoutBlock.hash =
        some chain ∧
      execute layoutEnv 0x7f3aa4e52000 layoutGenesis [layoutBlock] layoutBlock.hash =
        some chain' ∧
      recordedModifier chain ≠ recordedModifier chain' :=
  ⟨_, _, rfl, rfl, by decide⟩

end Stake
end Hbcur
