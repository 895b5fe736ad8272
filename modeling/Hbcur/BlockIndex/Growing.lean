import Hbcur.BlockIndex.Invariant

/-!
# New headers keep the invariant
-/

namespace Hbcur
namespace BlockIndex

open Foundation

namespace IndexState

theorem addToBlockIndex_of_known {s : IndexState} {block : NewHeader} {p : Nat}
    (h : s.tree.mapBlockIndex block.hash = some p) : s.addToBlockIndex block = (p, s) := by
  unfold addToBlockIndex
  split
  · rename_i q hq
    rw [h] at hq
    cases hq
    rfl
  · rename_i hnone
    rw [h] at hnone
    cases hnone

theorem addToBlockIndex_of_new {s : IndexState} {block : NewHeader}
    (h : s.tree.mapBlockIndex block.hash = none) :
    s.addToBlockIndex block = (s.tree.size,
      { s with
        tree := s.tree.extend block h
        status := Function.update s.status s.tree.size
          { validity := Validity.tree } }) := by
  unfold addToBlockIndex
  split
  · rename_i q hq
    rw [h] at hq
    cases hq
  · rfl

/-- What the callers of `AddToBlockIndex` have checked of a new header. -/
structure HeaderOk (s : IndexState) (block : NewHeader) (q : Nat) : Prop where
  known : s.tree.mapBlockIndex block.hashPrevBlock = some q
  proof : 0 < getBlockProof block.nBits
  bound : (s.header q).nChainWork + getBlockProof block.nBits < 2 ^ 256

instance (s : IndexState) (block : NewHeader) : Decidable (exists q, s.HeaderOk block q) :=
  decidable_of_iff (exists q, q ∈ s.tree.mapBlockIndex block.hashPrevBlock ∧
    0 < getBlockProof block.nBits ∧
    (s.header q).nChainWork + getBlockProof block.nBits < 2 ^ 256)
    ⟨fun ⟨q, hq, hproof, hbound⟩ => ⟨q, hq, hproof, hbound⟩,
      fun ⟨q, h⟩ => ⟨q, h.known, h.proof, h.bound⟩⟩

/-- `s'` has one more header than `s`, with the parent `q`. -/
structure Grown (s s' : IndexState) (q : Nat) : Prop where
  size : s'.tree.size = s.tree.size + 1
  header : forall x, x ≠ s.tree.size -> s'.header x = s.header x
  address : s'.tree.address = s.tree.address
  prev_lt : q < s.tree.size
  prev : (s'.header s.tree.size).pprev = some q
  work : (s.header q).nChainWork < (s'.header s.tree.size).nChainWork
  status : forall x, x ≠ s.tree.size -> s'.status x = s.status x
  status_new : s'.status s.tree.size = { validity := Validity.tree }
  candidates : s'.setBlockIndexCandidates = s.setBlockIndexCandidates
  unlinked : s'.mapBlocksUnlinked = s.mapBlocksUnlinked
  vChain : s'.vChain = s.vChain

theorem grown_addToBlockIndex {s : IndexState} {block : NewHeader} {q : Nat}
    (hok : HeaderOk s block q) (hnew : s.tree.mapBlockIndex block.hash = none) :
    Grown s (s.addToBlockIndex block).2 q := by
  rw [addToBlockIndex_of_new hnew]
  have hentry : (s.tree.extend block hnew).header s.tree.size = s.tree.newEntry block :=
    Function.update_self _ _ _
  have hprev : (s.tree.newEntry block).pprev = some q := by
    rw [BlockTree.newEntry_pprev, hok.known]
  have hwork : (s.tree.newEntry block).nChainWork =
      ((s.header q).nChainWork + getBlockProof block.nBits) % 2 ^ 256 := by
    simp only [BlockTree.newEntry, hok.known]
    rfl
  refine
    { size := rfl, header := ?_, address := rfl, prev_lt := ?_, prev := ?_, work := ?_,
      status := ?_, status_new := ?_, candidates := rfl, unlinked := rfl, vChain := rfl }
  · intro x hx
    exact Function.update_of_ne hx _ _
  · exact BlockTree.lt_size_of_mapBlockIndex hok.known
  · change ((s.tree.extend block hnew).header s.tree.size).pprev = some q
    rw [hentry, hprev]
  · change _ < ((s.tree.extend block hnew).header s.tree.size).nChainWork
    have hproof := hok.proof
    rw [hentry, hwork, Nat.mod_eq_of_lt hok.bound]
    omega
  · intro x hx
    exact Function.update_of_ne hx _ _
  · exact Function.update_self _ _ _

namespace Grown

variable {hashGenesis : Nat} {s s' : IndexState} {q t p x : Nat}

theorem ancestors_eq (h : Grown s s' q) (hp : p < s.tree.size) :
    s'.tree.ancestors p = s.tree.ancestors p := by
  apply Forest.ancestors_congr
  intro x hx
  change (s'.header x).pprev = (s.header x).pprev
  rw [h.header x (by omega)]

theorem pprev_cases (h : Grown s s' q) {r : Nat} (hr : (s'.header p).pprev = some r) :
    (p < s.tree.size ∧ (s.header p).pprev = some r ∧ r < s.tree.size) ∨
      (p = s.tree.size ∧ r = q) := by
  by_cases hp : p = s.tree.size
  · rw [hp, h.prev] at hr
    cases hr
    exact Or.inr ⟨hp, rfl⟩
  · rw [h.header p hp] at hr
    exact Or.inl ⟨s.tree.pprev_indexed p r hr, hr, s.tree.size_pos_of_pprev hr⟩

theorem lt_size_cases (h : Grown s s' q) (hp : p < s'.tree.size) :
    p < s.tree.size ∨ p = s.tree.size := by
  rw [h.size] at hp
  omega

theorem treeInv (h : Grown s s' q) (hs : TreeInv hashGenesis s.tree) :
    TreeInv hashGenesis s'.tree where
  size_pos := by
    rw [h.size]
    exact Nat.succ_pos _
  genesis := by
    have hpos := hs.size_pos
    have heq := h.header 0 (by omega)
    unfold IndexState.header at heq
    rw [heq]
    exact hs.genesis
  root p hp hnone := by
    change (s'.header p).pprev = none at hnone
    rcases h.lt_size_cases hp with hlt | rfl
    · rw [h.header p (by omega)] at hnone
      exact hs.root p hlt hnone
    · rw [h.prev] at hnone
      cases hnone
  work p r hr := by
    change (s'.header r).nChainWork < (s'.header p).nChainWork
    rcases h.pprev_cases hr with ⟨hp, hr', hrlt⟩ | ⟨rfl, rfl⟩
    · rw [h.header p (by omega), h.header r (by omega)]
      exact hs.work p r hr'
    · rw [h.header r (by have := h.prev_lt; omega)]
      exact h.work

theorem less_eq (h : Grown s s' q) {a b : Nat} (ha : a < s.tree.size) (hb : b < s.tree.size) :
    s'.less a b = s.less a b := by
  unfold less
  rw [h.header a (by omega), h.header b (by omega), h.status a (by omega),
    h.status b (by omega), h.address]

theorem prevLinked_iff (h : Grown s s' q) (hp : p < s.tree.size) :
    s'.PrevLinked p <-> s.PrevLinked p := by
  unfold PrevLinked
  rw [h.header p (by omega)]
  constructor
  · intro hl r hr
    have hrlt := s.tree.size_pos_of_pprev hr
    have := hl r hr
    rw [h.status r (by omega)] at this
    exact this
  · intro hl r hr
    have hrlt := s.tree.size_pos_of_pprev hr
    rw [h.status r (by omega)]
    exact hl r hr

theorem chainTxTotal_eq (h : Grown s s' q) (hp : p < s.tree.size) :
    s'.chainTxTotal p = s.chainTxTotal p := by
  unfold chainTxTotal
  rw [h.ancestors_eq hp]
  congr 1
  apply List.map_congr_left
  intro x hx
  have hlt := BlockTree.lt_size_of_mem_ancestors hx hp
  rw [h.status x (by omega)]

theorem linkInv (h : Grown s s' q) (hs : s.LinkInv []) : s'.LinkInv [] where
  data p hp := by
    rcases h.lt_size_cases hp with hlt | rfl
    · rw [h.status p (by omega)]
      exact hs.data p hlt
    · rw [h.status_new]
      decide
  level p hp := by
    rcases h.lt_size_cases hp with hlt | rfl
    · rw [h.status p (by omega)]
      exact hs.level p hlt
    · rw [h.status_new]
      decide
  sequence p hp := by
    rcases h.lt_size_cases hp with hlt | rfl
    · rw [h.status p (by omega)]
      exact hs.sequence p hlt
    · rw [h.status_new]
      exact fun _ => rfl
  linked p hp hlinked := by
    rcases h.lt_size_cases hp with hlt | rfl
    · rw [h.status p (by omega)] at hlinked ⊢
      rw [h.prevLinked_iff hlt, h.chainTxTotal_eq hlt]
      exact hs.linked p hlt hlinked
    · rw [h.status_new] at hlinked
      exact absurd rfl hlinked
  queued p hp := by cases hp
  queue_nodup := List.nodup_nil
  due p hp hdata hprev hzero := by
    rcases h.lt_size_cases hp with hlt | rfl
    · rw [h.status p (by omega)] at hdata hzero
      exact hs.due p hlt hdata ((h.prevLinked_iff hlt).mp hprev) hzero
    · rw [h.status_new] at hdata
      cases hdata
  waiting e he := by
    rw [h.unlinked] at he
    have hw := hs.waiting e he
    rw [h.status e.2 (by omega), h.header e.2 (by omega), h.size]
    exact ⟨Nat.lt_succ_of_lt hw.1, hw.2⟩
  unlinked_nodup := by
    rw [h.unlinked]
    exact hs.unlinked_nodup
  registered p hp hdata hzero := by
    rcases h.lt_size_cases hp with hlt | rfl
    · rw [h.status p (by omega)] at hdata hzero
      rw [h.header p (by omega), h.unlinked]
      exact hs.registered p hlt hdata hzero
    · rw [h.status_new] at hdata
      cases hdata

theorem flagInv (h : Grown s s' q) (hs : s.FlagInv) : s'.FlagInv where
  cause p hp hfailed := by
    rcases h.lt_size_cases hp with hlt | rfl
    · rw [h.status p (by omega)] at hfailed
      rcases hs.cause p hlt hfailed with ⟨a, ha, hvalid⟩
      have halt := BlockTree.lt_size_of_mem_ancestors ha hlt
      refine ⟨a, ?_, ?_⟩
      · rw [h.ancestors_eq hlt]
        exact ha
      · rw [h.status a (by omega)]
        exact hvalid
    · rw [h.status_new] at hfailed
      cases hfailed
  level_tree p r hr := by
    rcases h.pprev_cases hr with ⟨hp, hr', _⟩ | ⟨rfl, rfl⟩
    · rw [h.status p (by omega)]
      exact hs.level_tree p r hr'
    · rw [h.status_new]
      decide
  level_scripts p r hr hlevel := by
    rcases h.pprev_cases hr with ⟨hp, hr', hrlt⟩ | ⟨rfl, rfl⟩
    · rw [h.status p (by omega)] at hlevel ⊢
      rw [h.status r (by omega), h.header r (by omega)]
      exact hs.level_scripts p r hr' hlevel
    · rw [h.status_new] at hlevel
      exact absurd hlevel (by decide)

theorem chainInv (h : Grown s s' q) (hs : s.ChainInv t) : s'.ChainInv t where
  lt_size := by
    have := hs.lt_size
    rw [h.size]
    omega
  onChain := by
    unfold OnChain chainOf
    rw [h.vChain, h.ancestors_eq hs.lt_size]
    exact hs.onChain
  good x hx := by
    rw [h.ancestors_eq hs.lt_size] at hx
    have hlt := BlockTree.lt_size_of_mem_ancestors hx hs.lt_size
    rw [h.status x (by omega)]
    exact hs.good x hx
  scripts x r hx hr := by
    rw [h.ancestors_eq hs.lt_size] at hx
    have hlt := BlockTree.lt_size_of_mem_ancestors hx hs.lt_size
    rw [h.header x (by omega)] at hr
    rw [h.status x (by omega)]
    exact hs.scripts x r hx hr

theorem candInv (h : Grown s s' q) (ht : t < s.tree.size) (hs : s.CandInv t) :
    s'.CandInv t := by
  intro c hc
  rw [h.candidates] at hc
  rcases hs c hc with ⟨hlt, hlinked, hless⟩
  rw [h.size, h.status c (by omega), h.less_eq hlt ht]
  exact ⟨by omega, hlinked, hless⟩

theorem indexInv (h : Grown s s' q) (hs : IndexInv hashGenesis s [] t) :
    IndexInv hashGenesis s' [] t where
  tree := h.treeInv hs.tree
  links := h.linkInv hs.links
  flags := h.flagInv hs.flags
  chain := h.chainInv hs.chain
  candidates := h.candInv hs.chain.lt_size hs.candidates

theorem mark (h : Grown s s' q) (hs : IndexInv hashGenesis s [] t) {m : Nat}
    (hm : s.Mark m) : s'.Mark m := by
  have hlt := (hs.candidates m hm.candidate).1
  refine ⟨?_, ?_, ?_⟩
  · rw [h.candidates]
    exact hm.candidate
  · intro x hx
    rw [(h.chainInv hs.chain).onChain.mem_branch_iff, h.ancestors_eq hlt,
      h.ancestors_eq hs.chain.lt_size, ← hs.chain.onChain.mem_branch_iff] at hx
    have hxlt := BlockTree.lt_size_of_mem_ancestors
      (hs.chain.onChain.mem_branch_iff.mp hx).1 hlt
    rw [h.status x (by omega)]
    exact hm.good x hx
  · intro p hp hlinked hfailed hless
    rcases h.lt_size_cases hp with hplt | rfl
    · rw [h.status p (by omega)] at hlinked hfailed
      rw [h.less_eq hplt hlt] at hless
      rw [h.candidates]
      exact hm.complete p hplt hlinked hfailed hless
    · rw [h.status_new] at hlinked
      exact absurd rfl hlinked

end Grown

end IndexState

end BlockIndex
end Hbcur
