import Hbcur.AddrMan.Rebuild
import Hbcur.AddrMan.Runs

/-!
# Restoring an address manager

What is written by one manager and read into another gives the entries of the first, provided that
everything in the second is overwritten: `Clear` leaves `mapInfo` as it is.
-/

namespace Hbcur
namespace AddrMan

open Foundation Serialize Net

namespace CAddrMan

variable {a b s s' : CAddrMan} {Hash : List UInt8 -> UInt256}

/-- The same entries in the same places, up to ids, the order of `vRandom` and `nLastTry`. -/
structure SameEntries (rename : Int -> Int) (a b : CAddrMan) : Prop where
  ids : (a.mapInfo.keys.map rename).Perm b.mapInfo.keys
  entry : forall nId info, a.mapInfo.lookup nId = some info -> exists info',
    b.mapInfo.lookup (rename nId) = some info' ∧
      { info' with nLastTry := info.nLastTry, nRandomPos := info.nRandomPos } = info
  triedSlot : forall slot, b.vvTried slot =
    if a.vvTried slot = -1 then -1 else rename (a.vvTried slot)
  newSlot : forall slot, b.vvNew slot =
    if a.vvNew slot = -1 then -1 else rename (a.vvNew slot)

/-- What `a` writes can be read into `b`, which passes the check then and holds the entries of `a`. -/
def Restores (Hash : List UInt8 -> UInt256) (nVersion : BitVec 32) (nKeyDrawn : UInt256)
    (a b : CAddrMan) : Prop :=
  exists bytes b', a.serialize nVersion = some bytes ∧
    b.unserialize Hash bytes nKeyDrawn = some b' ∧ b'.check Hash = 0 ∧
    exists rename, SameEntries rename a b'

/--
Each entry of `b` has an id under which a tried entry is read, or one under which a new entry is
read, and then it is neither tried nor referred to.
-/
def Overwritten (a b : CAddrMan) : Prop :=
  forall nId info, b.mapInfo.lookup nId = some info ->
    (a.nNew ≤ nId ∧ nId < a.nNew + a.nTried) ∨
      (0 ≤ nId ∧ nId < a.nNew ∧ info.fInTried = false ∧ info.nRefCount = 0)

/-!
# Pruning
-/

theorem swapRandom_counts {nRndPos1 nRndPos2 : Int} (h : s.swapRandom nRndPos1 nRndPos2 = some s') :
    s'.nNew = s.nNew ∧ s'.nTried = s.nTried := by
  unfold swapRandom at h
  split_ifs at h with hsame
  · cases h
    exact ⟨rfl, rfl⟩
  · simp only [Option.bind_eq_bind, Option.bind_eq_some_iff] at h
    rcases h with ⟨_, _, nId1, _, nId2, _, _, _, _, _, hs'⟩
    cases hs'
    exact ⟨rfl, rfl⟩

theorem delete_counts {nId : Int} (h : s.delete nId = some s') :
    s'.nNew = s.nNew - 1 ∧ s'.nTried = s.nTried := by
  unfold delete at h
  simp only [Option.bind_eq_bind, Option.bind_eq_some_iff] at h
  rcases h with ⟨info, _, _, _, _, _, s1, hswap, hs'⟩
  rcases swapRandom_counts hswap with ⟨hnew, htried⟩
  cases hs'
  exact ⟨congrArg (· - 1) hnew, htried⟩

theorem pruneEntry_cases {nId : Int} (h : s.pruneEntry nId = some s') :
    s' = s ∨ (s'.nNew = s.nNew - 1 ∧ s'.nTried = s.nTried) := by
  unfold pruneEntry at h
  cases hinfo : s.mapInfo.lookup nId with
  | none =>
      rw [hinfo] at h
      cases h
      exact Or.inl rfl
  | some info =>
      rw [hinfo] at h
      dsimp only at h
      split_ifs at h with hdead
      · exact Or.inr (delete_counts h)
      · cases h
        exact Or.inl rfl

/-- Pruning either changes nothing or leaves fewer new entries. -/
theorem prune_cases (h : s.prune = some s') :
    s' = s ∨ (s'.nNew < s.nNew ∧ s'.nTried = s.nTried) := by
  have hall : forall (ids : List Int) (s : CAddrMan), ids.foldlM pruneEntry s = some s' ->
      s' = s ∨ (s'.nNew < s.nNew ∧ s'.nTried = s.nTried) := by
    intro ids
    induction ids with
    | nil =>
        intro s hrun
        cases hrun
        exact Or.inl rfl
    | cons nId ids ih =>
        intro s hrun
        rw [List.foldlM_cons, Option.bind_eq_bind, Option.bind_eq_some_iff] at hrun
        rcases hrun with ⟨s1, hfirst, hrest⟩
        rcases ih s1 hrest with heq | hless
        · subst heq
          rcases pruneEntry_cases hfirst with heq | hone
          · exact Or.inl heq
          · exact Or.inr ⟨by omega, hone.2⟩
        · rcases pruneEntry_cases hfirst with heq | hone
          · rw [← heq]
            exact Or.inr hless
          · exact Or.inr ⟨by omega, hless.2.trans hone.2⟩
  exact hall _ s h

/-- Nothing is pruned from a manager which passes the check. -/
theorem Checked.prune (h : s.Checked Hash) : s.prune = some s := by
  have hone : forall nId, s.pruneEntry nId = some s := by
    intro nId
    unfold pruneEntry
    cases hinfo : s.mapInfo.lookup nId with
    | none => rfl
    | some info =>
        dsimp only
        rw [if_neg]
        intro hdead
        exact (h.refCount_ne_zero_iff hinfo).mpr hdead.1 hdead.2
  unfold CAddrMan.prune
  induction (StdMap.inOrder s.mapInfo).map Sigma.fst with
  | nil => rfl
  | cons nId ids ih =>
      rw [List.foldlM_cons, hone]
      exact ih

/-!
# What has to be overwritten
-/

theorem Checked.length_entries (h : s.Checked Hash) :
    (s.mapInfo.entries.length : Int) = s.nNew + s.nTried := by
  have hsplit : s.mapInfo.entries.length =
      StdMap.countValues s.mapInfo (fun info => info.fInTried) +
        StdMap.countValues s.mapInfo fun info => !info.fInTried := by
    unfold StdMap.countValues
    rw [List.length_eq_countP_add_countP fun e : Entry => e.2.fInTried]
    congr 1
    apply List.countP_congr
    intro e _
    rw [Bool.not_eq_true', decide_eq_true_iff, Bool.not_eq_true]
  have hnew := h.countNew
  have htried := h.countTried
  omega

theorem SameEntries.length_entries {rename : Int -> Int} (h : SameEntries rename a b) :
    b.mapInfo.entries.length = a.mapInfo.entries.length := by
  have hlen := h.ids.length_eq
  rw [List.length_map, StdMap.length_keys, StdMap.length_keys] at hlen
  exact hlen.symm

/-- An entry which is not read keeps its id, and there is one entry too many. -/
theorem Loaded.lookup_eq_none (ha : a.Checked Hash) (h : Loaded a b a.written.length s)
    (hlength : s.mapInfo.entries.length = a.mapInfo.entries.length) {nId : Int}
    (hout : nId < 0 ∨ a.nNew + a.nTried ≤ nId) : b.mapInfo.lookup nId = none := by
  have hlen := ha.length_written
  have hcount := ha.length_entries
  rw [← h.other nId (by omega)]
  apply Option.eq_none_iff_forall_ne_some.mpr
  intro info hinfo
  have hnodup : (nId :: (List.range a.written.length).map Nat.cast).Nodup := by
    rw [List.nodup_cons]
    constructor
    · intro hmem
      rcases List.mem_map.mp hmem with ⟨i, hi, rfl⟩
      have hlt := List.mem_range.mp hi
      omega
    · exact List.nodup_range.map Nat.cast_injective
  have hsubset : nId :: (List.range a.written.length).map Nat.cast ⊆ s.mapInfo.keys := by
    intro n hmem
    change n ∈ s.mapInfo
    rw [← AList.lookup_isSome]
    rcases List.mem_cons.mp hmem with rfl | hmem
    · rw [hinfo]
      rfl
    · rcases List.mem_map.mp hmem with ⟨i, hi, rfl⟩
      have hlt := List.mem_range.mp hi
      rw [h.entry i _ hlt (List.getElem?_eq_getElem hlt)]
      rfl
  have hle := (List.subperm_of_subset hnodup hsubset).length_le
  rw [List.length_cons, List.length_map, List.length_range, StdMap.length_keys] at hle
  omega

/-- What an entry was before shows in the check. -/
theorem Loaded.fresh_of_checked (ha : a.Checked Hash) (h : Loaded a b a.written.length s)
    (hs : s.Checked Hash) {nId : Int} (h0 : 0 ≤ nId) (hlt : nId < a.nNew) {info : CAddrInfo}
    (hinfo : b.mapInfo.lookup nId = some info) : info.fInTried = false ∧ info.nRefCount = 0 := by
  have hlen := ha.length_written
  have htried := ha.nTried_bounds
  have hi : nId.toNat < a.written.length := by omega
  have hcast : (nId.toNat : Int) = nId := Int.toNat_of_nonneg h0
  have hget := List.getElem?_eq_getElem hi
  have hentry := h.entry nId.toNat _ hi hget
  have hin := (ha.fInTried_of_getElem hget).mpr (by omega)
  rw [hcast] at hentry
  have hloaded : (b.loaded nId.toNat a.written[nId.toNat]).fInTried = info.fInTried ∧
      (b.loaded nId.toNat a.written[nId.toNat]).nRefCount = info.nRefCount := by
    unfold loaded
    rw [hin, hcast, info_of_lookup hinfo]
    exact ⟨rfl, rfl⟩
  have hnot : info.fInTried = false := by
    apply Bool.eq_false_iff.mpr
    intro hinTried
    rcases hs.tables.tried nId _ hentry (hloaded.1.trans hinTried) with ⟨hne, hslot⟩
    rw [h.triedSlot] at hslot
    split_ifs at hslot with hread
    · rcases ha.tables.triedSlot _ hread.1 with ⟨info', hinfo', hin', _⟩
      have hbounds := ha.newId_bounds hinfo'
      rw [hslot] at hbounds
      rw [hbounds.2.2.mpr hlt] at hin'
      cases hin'
    · exact hne hslot.symm
  refine ⟨hnot, ?_⟩
  have hrefs := (hs.tables.fresh nId _ hentry (hloaded.1.trans hnot)).2
  change _ = (b.loaded _ _).nRefCount + _ at hrefs
  rw [hloaded.2] at hrefs
  omega

/-!
# The loop over references, slot by slot
-/

/-- The index of one slot is read. -/
def loadSlot (a : CAddrMan) (Hash : List UInt8 -> UInt256) (s : CAddrMan) (slot : NewSlot) :
    CAddrMan :=
  if a.vvNew slot ≠ -1 then s.loadIndex Hash true slot.1 (a.numberOf (a.vvNew slot)) else s

theorem zipIdx_buckets (count : Nat) :
    (buckets count).zipIdx = (buckets count).map fun bucket => (bucket, bucket.val) := by
  unfold buckets
  apply List.ext_getElem
  · rw [List.length_zipIdx, List.length_map]
  · intro i hi hi'
    rw [List.getElem_zipIdx, List.getElem_map, List.getElem_finRange]
    simp

theorem foldl_loadBucket (a s : CAddrMan) (Hash : List UInt8 -> UInt256) :
    a.stored.bucketIndexes.zipIdx.foldl (fun s item => s.loadBucket Hash true item) s =
      (slots ADDRMAN_NEW_BUCKET_COUNT).foldl (loadSlot a Hash) s := by
  have hitems : a.stored.bucketIndexes.zipIdx = (buckets ADDRMAN_NEW_BUCKET_COUNT).map
      fun bucket => ((a.bucketIds bucket).map a.numberOf, bucket.val) := by
    change ((buckets ADDRMAN_NEW_BUCKET_COUNT).map
      fun bucket => (a.bucketIds bucket).map a.numberOf).zipIdx = _
    rw [List.zipIdx_map, zipIdx_buckets, List.map_map]
    rfl
  rw [hitems, List.foldl_map, slots, List.product, List.foldl_flatMap]
  congr 1
  funext s bucket
  unfold loadBucket bucketIds
  rw [List.foldl_map, List.foldl_filter, List.foldl_map, List.foldl_map]
  congr 1
  funext s i
  unfold loadSlot
  simp only [decide_eq_true_eq]

/-!
# When everything is overwritten
-/

/-- Nothing of the entry that was there before is left. -/
theorem Overwritten.loaded_eq (hover : Overwritten a b) (ha : a.Checked Hash) {i : Nat} {e : Entry}
    (hget : a.written[i]? = some e) :
    b.loaded i e = { e.2 with nLastTry := 0, nRandomPos := i, nRefCount := 0 } := by
  have hfresh := ha.fInTried_of_getElem hget
  unfold loaded
  cases hin : e.2.fInTried with
  | true =>
      dsimp only
      rw [hin]
      rfl
  | false =>
      have hclean : (b.info i).fInTried = false ∧ (b.info i).nRefCount = 0 := by
        cases hinfo : b.mapInfo.lookup (i : Int) with
        | none =>
            unfold CAddrMan.info
            rw [hinfo]
            exact ⟨rfl, rfl⟩
        | some info =>
            rw [info_of_lookup hinfo]
            rcases hover i info hinfo with htried | hnew
            · have hlt := hfresh.mp hin
              omega
            · exact hnew.2.2
      rw [if_neg Bool.false_ne_true]
      unfold CAddrInfo.load
      dsimp only
      rw [hclean.1, hclean.2, hin]
      rfl

/-- Some of the indexes have been read. -/
structure LoadingSlots (a b : CAddrMan) (done : List NewSlot) (s : CAddrMan) : Prop
    extends Loaded a b a.written.length s where
  filled : forall slot, s.vvNew slot =
    if slot ∈ done ∧ a.vvNew slot ≠ -1 then a.newId (a.vvNew slot) else -1

/-- A slot which is not read stays empty. -/
theorem LoadingSlots.skip {done : List NewSlot} (h : LoadingSlots a b done s) {slot : NewSlot}
    (hempty : a.vvNew slot = -1) : LoadingSlots a b (done ++ [slot]) s where
  toLoaded := h.toLoaded
  filled := by
    intro slot'
    rw [h.filled slot']
    apply if_congr _ rfl rfl
    rw [List.mem_append, List.mem_singleton]
    constructor
    · exact fun hand => ⟨Or.inl hand.1, hand.2⟩
    · intro hand
      rcases hand with ⟨hin | heq, hne⟩
      · exact ⟨hin, hne⟩
      · rw [heq] at hne
        exact absurd hempty hne

/-- No limit is in the way of a reference which is read, and it goes where it was. -/
theorem LoadingSlots.loadSlot (ha : a.Checked Hash) (hover : Overwritten a b)
    {done : List NewSlot} (h : LoadingSlots a b done s) {slot : NewSlot} (hnot : slot ∉ done) :
    LoadingSlots a b (done ++ [slot]) (loadSlot a Hash s slot) := by
  unfold CAddrMan.loadSlot
  by_cases hempty : a.vvNew slot = -1
  · rw [if_neg (not_not.mpr hempty)]
    exact h.skip hempty
  · rw [if_pos hempty]
    rcases ha.tables.newSlot slot hempty with ⟨info, hinfo, hfresh, hslot⟩
    have hmem := ha.mem_writtenIds hinfo
    have hnumber := newId_of_mem_freshIds (ha.mem_freshIds hempty)
    have hbounds := ha.newId_bounds hinfo
    have hlt := hbounds.2.2.mp hfresh
    have hget := ha.getElem_newId hinfo
    have hcast : ((a.newId (a.vvNew slot)).toNat : Int) = a.newId (a.vvNew slot) :=
      Int.toNat_of_nonneg hbounds.1
    have hentry := h.entry _ _ (List.getElem?_eq_some_iff.mp hget).1 hget
    rw [hover.loaded_eq ha hget, hcast] at hentry
    have hheld := info_of_lookup hentry
    have hplace : s.slotIn Hash (s.info (a.newId (a.vvNew slot))) slot.1 = slot := by
      rw [hheld, hslot]
      exact slotIn_congr rfl h.key slot.1
    have hfree : s.vvNew slot = -1 := by
      rw [h.filled, if_neg fun hand => hnot hand.1]
    -- the slots read so far and this one all refer to the entry in `a`
    have hcount : references s.vvNew (a.newId (a.vvNew slot)) < references a.vvNew (a.vvNew slot) := by
      apply references_lt (s := slot)
      · intro slot' heq
        rw [h.filled] at heq
        split_ifs at heq with hread
        · exact (newId_inj hmem).mp heq
        · omega
      · rw [hfree]
        omega
      · rfl
    have hrefs := (ha.tables.fresh _ info hinfo hfresh).2
    have hlimit := ((ha.entry _ info hinfo).fresh hfresh).2
    have hheldCount : (s.info (a.newId (a.vvNew slot))).nRefCount < ADDRMAN_NEW_BUCKETS_PER_ADDRESS := by
      rw [hheld]
      change 0 + (references s.vvNew (a.newId (a.vvNew slot)) : Int) < _
      omega
    have hload : s.loadIndex Hash true slot.1 (a.numberOf (a.vvNew slot)) =
        s.addReference (a.newId (a.vvNew slot)) slot := by
      rw [← hnumber]
      unfold CAddrMan.loadIndex
      rw [if_pos ⟨hbounds.1, by rw [h.nNew]; exact hlt⟩, dif_pos ⟨rfl, slot.1.isLt⟩]
      dsimp only
      rw [Fin.eta, hplace, if_pos ⟨hfree, hheldCount⟩]
    have hlen := ha.length_written
    have htried := ha.nTried_bounds
    rw [hload]
    constructor
    · exact h.toLoaded.addReference (by omega) hbounds.1 hlt hfree
    · intro slot'
      change Function.update s.vvNew slot (a.newId (a.vvNew slot)) slot' = _
      by_cases hsame : slot' = slot
      · have hin : slot ∈ done ++ [slot] := List.mem_append_right done List.mem_cons_self
        rw [hsame, Function.update_self, if_pos ⟨hin, hempty⟩]
      · rw [Function.update_of_ne hsame, h.filled slot']
        apply if_congr _ rfl rfl
        rw [List.mem_append, List.mem_singleton, or_iff_left hsame]

/-- Every reference is read into its slot. -/
theorem Overwritten.loadingSlots (hover : Overwritten a b) (ha : a.Checked Hash)
    (nKeyDrawn : UInt256) :
    LoadingSlots a b (slots ADDRMAN_NEW_BUCKET_COUNT) (b.rebuild Hash a.stored nKeyDrawn) := by
  rcases ha.loading_entered b nKeyDrawn with ⟨hloading, hrebuild⟩
  rw [hrebuild, foldl_loadBucket]
  have hinit : LoadingSlots a b [] (entered a b Hash nKeyDrawn) := by
    apply LoadingSlots.mk hloading.toLoaded
    intro slot
    rw [hloading.emptyNew, if_neg]
    exact fun hand => List.not_mem_nil hand.1
  apply foldl_invariant (LoadingSlots a b) (slots ADDRMAN_NEW_BUCKET_COUNT) hinit
  intro done slot rest s hsplit h
  have hnodup := nodup_slots ADDRMAN_NEW_BUCKET_COUNT
  rw [hsplit] at hnodup
  apply h.loadSlot ha hover
  exact fun hin => List.disjoint_of_nodup_append hnodup hin List.mem_cons_self

/-!
# The restored object
-/

/-- An entry as it is restored. -/
def restored (i : Nat) (info : CAddrInfo) : CAddrInfo :=
  { info with nLastTry := 0, nRandomPos := i }

/-- What is in the object, up to `mapAddr` for addresses that no entry has. -/
structure Restored (a s : CAddrMan) : Prop where
  key : s.nKey = a.nKey
  nNew : s.nNew = a.nNew
  nTried : s.nTried = a.nTried
  vRandom : s.vRandom = (List.range a.written.length).map Nat.cast
  entry : forall (i : Nat) (e : Entry), a.written[i]? = some e ->
    s.mapInfo.lookup (i : Int) = some (restored i e.2) ∧
      s.mapAddr.lookup e.2.toCNetAddr = some (i : Int)
  other : forall nId, nId < 0 ∨ (a.written.length : Int) ≤ nId -> s.mapInfo.lookup nId = none
  triedSlot : forall slot, s.vvTried slot =
    if a.vvTried slot = -1 then -1 else a.newId (a.vvTried slot)
  newSlot : forall slot, s.vvNew slot =
    if a.vvNew slot = -1 then -1 else a.newId (a.vvNew slot)

/-- Renaming keeps the number of references. -/
theorem references_newId
    (h : forall slot, s.vvNew slot = if a.vvNew slot = -1 then -1 else a.newId (a.vvNew slot))
    {nId : Int} (hmem : nId ∈ a.writtenIds) (hne : nId ≠ -1) :
    references s.vvNew (a.newId nId) = references a.vvNew nId := by
  apply references_congr
  intro slot
  have hnonneg : 0 ≤ a.newId nId := Int.natCast_nonneg _
  rw [h]
  split_ifs with hempty
  · rw [hempty]
    exact iff_of_false (by omega) (Ne.symm hne)
  · exact newId_inj hmem

theorem LoadingSlots.newSlot_eq (h : LoadingSlots a b (slots ADDRMAN_NEW_BUCKET_COUNT) s)
    (slot : NewSlot) : s.vvNew slot =
      if a.vvNew slot = -1 then -1 else a.newId (a.vvNew slot) := by
  rw [h.filled]
  by_cases hempty : a.vvNew slot = -1
  · rw [if_pos hempty, if_neg fun hand => hand.2 hempty]
  · rw [if_neg hempty, if_pos ⟨mem_slots slot, hempty⟩]

theorem Loaded.triedSlot_eq (ha : a.Checked Hash) (h : Loaded a b a.written.length s)
    (slot : TriedSlot) : s.vvTried slot =
      if a.vvTried slot = -1 then -1 else a.newId (a.vvTried slot) := by
  rw [h.triedSlot]
  by_cases hempty : a.vvTried slot = -1
  · rw [if_pos hempty, if_neg fun hand => hand.1 hempty]
  · rcases ha.tables.triedSlot slot hempty with ⟨info, hinfo, _⟩
    have hbounds := ha.newId_bounds hinfo
    have hlen := ha.length_written
    rw [if_neg hempty, if_pos ⟨hempty, by omega⟩]

/-- The references of a restored entry are those it had. -/
theorem Checked.refCount_eq (ha : a.Checked Hash) {nId : Int} {info : CAddrInfo}
    (hinfo : a.mapInfo.lookup nId = some info) :
    nId ≠ -1 ∧ info.nRefCount = references a.vvNew nId := by
  cases hin : info.fInTried with
  | false =>
      rcases ha.tables.fresh nId info hinfo hin with ⟨hne, hcount⟩
      exact ⟨hne, hcount.symm⟩
  | true =>
      have hne := (ha.tables.tried nId info hinfo hin).1
      have hnone : references a.vvNew nId = 0 := by
        rw [references_eq_zero_iff]
        intro slot heq
        rcases ha.tables.newSlot slot (heq ▸ hne) with ⟨info', hinfo', hfresh, _⟩
        rw [heq, hinfo] at hinfo'
        cases hinfo'
        rw [hin] at hfresh
        cases hfresh
      rw [hnone, ((ha.entry nId info hinfo).tried hin).2]
      exact ⟨hne, rfl⟩

theorem Overwritten.restored (hover : Overwritten a b) (ha : a.Checked Hash)
    (nKeyDrawn : UInt256) : Restored a (b.rebuild Hash a.stored nKeyDrawn) := by
  have h := hover.loadingSlots ha nKeyDrawn
  have hlen := ha.length_written
  constructor
  case key => exact h.key
  case nNew => exact h.nNew
  case nTried => exact h.nTried
  case vRandom => exact h.vRandom
  case triedSlot => exact h.toLoaded.triedSlot_eq ha
  case newSlot => exact h.newSlot_eq
  case other =>
    intro nId hout
    rw [h.other nId hout]
    apply Option.eq_none_iff_forall_ne_some.mpr
    intro info hinfo
    have hin := hover nId info hinfo
    have htried := ha.nTried_bounds
    have hnew := ha.nNew_bounds
    omega
  case entry =>
    intro i e hget
    have hi := (List.getElem?_eq_some_iff.mp hget).1
    have hinfo := ha.lookup_of_getElem hget
    have hrefs := ha.refCount_eq hinfo
    have hcount : references (b.rebuild Hash a.stored nKeyDrawn).vvNew (i : Int) =
        references a.vvNew e.1 := by
      rw [← ha.newId_of_getElem hget]
      exact references_newId h.newSlot_eq (ha.mem_writtenIds hinfo) hrefs.1
    refine ⟨?_, h.address i e hi hget⟩
    rw [h.entry i e hi hget, hover.loaded_eq ha hget, hcount]
    unfold referred CAddrMan.restored
    dsimp only
    rw [Int.zero_add, ← hrefs.2]

theorem Restored.entry_of_lookup (ha : a.Checked Hash) (h : Restored a s) {nId : Int}
    {info : CAddrInfo} (hinfo : a.mapInfo.lookup nId = some info) :
    s.mapInfo.lookup (a.newId nId) = some (restored (a.newId nId).toNat info) ∧
      s.mapAddr.lookup info.toCNetAddr = some (a.newId nId) := by
  have hentry := h.entry _ _ (ha.getElem_newId hinfo)
  rw [Int.toNat_of_nonneg (ha.newId_bounds hinfo).1] at hentry
  exact hentry

/-- Every entry of the object is a restored one. -/
theorem Restored.exists_of_lookup (ha : a.Checked Hash) (h : Restored a s) {n : Int}
    {info : CAddrInfo} (hinfo : s.mapInfo.lookup n = some info) :
    exists nId old, a.mapInfo.lookup nId = some old ∧ n = a.newId nId ∧
      info = restored n.toNat old := by
  have hrange : 0 ≤ n ∧ n < a.written.length := by
    by_contra hnot
    rw [h.other n (by omega)] at hinfo
    cases hinfo
  have hcast := Int.toNat_of_nonneg hrange.1
  have hi : n.toNat < a.written.length := by omega
  have hget := List.getElem?_eq_getElem hi
  have hentry := (h.entry _ _ hget).1
  rw [hcast, hinfo] at hentry
  refine ⟨_, _, ha.lookup_of_getElem hget, ?_, Option.some.inj hentry⟩
  rw [ha.newId_of_getElem hget, hcast]

theorem Restored.sameEntries (ha : a.Checked Hash) (h : Restored a s) :
    SameEntries a.newId a s where
  ids := by
    apply (List.perm_ext_iff_of_nodup _ s.mapInfo.nodupKeys).mpr
    · intro n
      rw [List.mem_map]
      change _ <-> n ∈ s.mapInfo
      rw [← AList.lookup_isSome, Option.isSome_iff_exists]
      constructor
      · intro hin
        rcases hin with ⟨nId, hmem, rfl⟩
        rcases Option.isSome_iff_exists.mp (AList.lookup_isSome.mpr hmem) with ⟨info, hinfo⟩
        exact ⟨_, (h.entry_of_lookup ha hinfo).1⟩
      · intro hin
        rcases hin with ⟨info, hinfo⟩
        rcases h.exists_of_lookup ha hinfo with ⟨nId, old, hold, rfl, _⟩
        have hmem : nId ∈ a.mapInfo := by
          rw [← AList.lookup_isSome, hold]
          rfl
        exact ⟨nId, hmem, rfl⟩
    · apply List.Nodup.map_on _ a.mapInfo.nodupKeys
      intro nId hmem nId' hmem' heq
      rcases Option.isSome_iff_exists.mp (AList.lookup_isSome.mpr hmem') with ⟨info', hinfo'⟩
      exact (newId_inj (ha.mem_writtenIds hinfo')).mp heq
  entry := by
    intro nId info hinfo
    exact ⟨_, (h.entry_of_lookup ha hinfo).1, rfl⟩
  triedSlot := h.triedSlot
  newSlot := h.newSlot

/-- An id other than that of the empty slot is renamed to another. -/
theorem newId_ne_empty (a : CAddrMan) (nId : Int) : a.newId nId ≠ -1 := by
  have hnonneg : 0 ≤ a.newId nId := Int.natCast_nonneg _
  omega

theorem Restored.tables (ha : a.Checked Hash) (h : Restored a s) : s.TablesChecked Hash where
  triedSlot := by
    intro slot hne
    have hnow := h.triedSlot slot
    by_cases hempty : a.vvTried slot = -1
    · rw [if_pos hempty] at hnow
      exact absurd hnow hne
    · rw [if_neg hempty] at hnow
      rw [hnow]
      rcases ha.tables.triedSlot slot hempty with ⟨info, hinfo, htried, hslot⟩
      exact ⟨_, (h.entry_of_lookup ha hinfo).1, htried,
        hslot.trans (triedSlot_congr rfl h.key).symm⟩
  tried := by
    intro n info hinfo htried
    rcases h.exists_of_lookup ha hinfo with ⟨nId, old, hold, rfl, rfl⟩
    rcases ha.tables.tried nId old hold htried with ⟨hne, hslot⟩
    have hsame : s.triedSlot Hash (restored (a.newId nId).toNat old) = a.triedSlot Hash old :=
      triedSlot_congr rfl h.key
    refine ⟨newId_ne_empty a nId, ?_⟩
    rw [hsame, h.triedSlot, hslot, if_neg hne]
  newSlot := by
    intro slot hne
    have hnow := h.newSlot slot
    by_cases hempty : a.vvNew slot = -1
    · rw [if_pos hempty] at hnow
      exact absurd hnow hne
    · rw [if_neg hempty] at hnow
      rw [hnow]
      rcases ha.tables.newSlot slot hempty with ⟨info, hinfo, hfresh, hslot⟩
      exact ⟨_, (h.entry_of_lookup ha hinfo).1, hfresh,
        hslot.trans (slotIn_congr rfl h.key slot.1).symm⟩
  fresh := by
    intro n info hinfo hfresh
    rcases h.exists_of_lookup ha hinfo with ⟨nId, old, hold, rfl, rfl⟩
    rcases ha.tables.fresh nId old hold hfresh with ⟨hne, hcount⟩
    refine ⟨newId_ne_empty a nId, ?_⟩
    rw [references_newId h.newSlot (ha.mem_writtenIds hold) hne]
    exact hcount

theorem Restored.count_eq (ha : a.Checked Hash) (h : Restored a s) (P : CAddrInfo -> Bool)
    (hP : forall i info, P (restored i info) = P info) :
    StdMap.countValues s.mapInfo P = StdMap.countValues a.mapInfo P := by
  apply StdMap.countValues_rename a.newId (h.sameEntries ha).ids
  intro nId info hinfo
  exact ⟨_, (h.entry_of_lookup ha hinfo).1, hP _ _⟩

theorem Restored.checked (ha : a.Checked Hash) (h : Restored a s) : s.Checked Hash where
  total := by
    have hlen := ha.length_written
    rw [h.vRandom, List.length_map, List.length_range, h.nTried, h.nNew, hlen, Int.add_comm]
  entry := by
    intro n info hinfo
    rcases h.exists_of_lookup ha hinfo with ⟨nId, old, hold, rfl, rfl⟩
    have hentry := ha.entry nId old hold
    have hbounds := ha.newId_bounds hold
    have hlen := ha.length_written
    have hcast := Int.toNat_of_nonneg hbounds.1
    constructor
    · exact hentry.tried
    · exact hentry.fresh
    · change (s.mapAddr.lookup old.toCNetAddr).getD 0 = _
      rw [(h.entry_of_lookup ha hold).2, Option.getD_some]
    · have hlt : (a.newId nId).toNat < a.written.length := by omega
      refine ⟨Int.natCast_nonneg _, ?_⟩
      change s.vRandom[(((a.newId nId).toNat : Nat) : Int).toNat]? = _
      rw [Int.toNat_natCast, h.vRandom, List.getElem?_map, List.getElem?_range hlt,
        Option.map_some, hcast]
    · exact Int.le_refl 0
    · exact hentry.lastSuccess
  countTried := by
    rw [h.count_eq ha _ fun _ _ => rfl, ha.countTried, h.nTried]
  countNew := by
    rw [h.count_eq ha _ fun _ _ => rfl, ha.countNew, h.nNew]
  tables := h.tables ha

/-!
# Restoring
-/

theorem Checked.unserialize_stored (ha : a.Checked Hash) (b : CAddrMan) (nVersion : BitVec 32)
    (nKeyDrawn : UInt256) :
    b.unserialize Hash (a.storedBytes nVersion) nKeyDrawn =
      (b.rebuild Hash a.stored nKeyDrawn).prune := by
  have hread := ha.reads_storedBytes nVersion []
  rw [List.append_nil] at hread
  unfold unserialize
  rw [hread, some_bind]

theorem Checked.overwritten_of_restores (ha : a.Checked Hash) {nVersion : BitVec 32}
    {nKeyDrawn : UInt256} (h : Restores Hash nVersion nKeyDrawn a b) : Overwritten a b := by
  rcases h with ⟨bytes, b', hwrite, hread, hcheck, rename, hsame⟩
  rw [ha.serialize nVersion] at hwrite
  cases hwrite
  rw [ha.unserialize_stored] at hread
  have hb' := ((b'.check_eq_zero_iff Hash).mp hcheck).1
  have hloaded : Loaded a b a.written.length (b.rebuild Hash a.stored nKeyDrawn) := by
    have hentered := ha.loading_entered b nKeyDrawn
    have hlen := ha.length_written
    have htried := ha.nTried_bounds
    rw [hentered.2]
    exact hentered.1.toLoaded.loadBuckets (by omega) true _
  have hlength := hsame.length_entries
  -- a pruned entry would be missing from the count
  have hkept : b' = b.rebuild Hash a.stored nKeyDrawn := by
    rcases prune_cases hread with heq | hless
    · exact heq
    · have hcount := ha.length_entries
      have hcount' := hb'.length_entries
      have hnew := hloaded.nNew
      have htried := hloaded.nTried
      omega
  rw [hkept] at hb' hlength
  intro nId info hinfo
  by_cases hout : nId < 0 ∨ a.nNew + a.nTried ≤ nId
  · rw [hloaded.lookup_eq_none ha hlength hout] at hinfo
    cases hinfo
  · by_cases hnew : nId < a.nNew
    · have hclean := hloaded.fresh_of_checked ha hb' (by omega) hnew hinfo
      exact Or.inr ⟨by omega, hnew, hclean⟩
    · exact Or.inl ⟨by omega, by omega⟩

theorem Checked.restores_of_overwritten (ha : a.Checked Hash) (hkey : a.nKey ≠ 0)
    (nVersion : BitVec 32) (nKeyDrawn : UInt256) (h : Overwritten a b) :
    Restores Hash nVersion nKeyDrawn a b := by
  have hrestored := h.restored ha nKeyDrawn
  have hchecked := hrestored.checked ha
  refine ⟨_, _, ha.serialize nVersion, ?_, ?_, a.newId, hrestored.sameEntries ha⟩
  · rw [ha.unserialize_stored]
    exact hchecked.prune
  · apply (CAddrMan.check_eq_zero_iff _ Hash).mpr
    refine ⟨hchecked, ?_⟩
    rw [hrestored.key]
    exact hkey

/-- What a manager writes is restored by an object exactly if its entries are all overwritten. -/
theorem restores_iff_overwritten (Hash : List UInt8 -> UInt256) (nVersion : BitVec 32)
    (nKeyDrawn : UInt256) (a b : CAddrMan) (h : a.check Hash = 0) :
    Restores Hash nVersion nKeyDrawn a b <-> Overwritten a b := by
  have ha := (a.check_eq_zero_iff Hash).mp h
  constructor
  · exact ha.1.overwritten_of_restores
  · exact ha.1.restores_of_overwritten ha.2 nVersion nKeyDrawn

end CAddrMan

/-!
# A manager with one entry
-/

namespace RestoreExample

def noHash (_ : List UInt8) : UInt256 := 0

/-- The address 8.8.8.8 -/
def address : CNetAddr where
  ip := fun i => if i.val < 10 then 0 else if i.val < 12 then 0xff else 8

/-- It is heard of from itself. -/
def heard : Op :=
  Op.add { ip := address.ip, port := 8333, nServices := 1, nTime := 1000000, nLastTry := 0 } address
    0 1000000 1000000 0

def oneEntry : CAddrMan := ([heard].foldlM (step noHash) (CAddrMan.new 1)).getD (CAddrMan.new 1)

theorem run_oneEntry : [heard].foldlM (step noHash) (CAddrMan.new 1) = some oneEntry ∧
    oneEntry.check noHash = 0 := by
  rcases kept_run [heard] (CAddrMan.new 1) (CAddrMan.kept_new 1) with ⟨s, hrun, hkept⟩
  have hs : oneEntry = s := by
    unfold oneEntry
    rw [hrun]
    rfl
  rw [hs]
  refine ⟨hrun, ?_⟩
  apply (s.check_eq_zero_iff noHash).mpr
  refine ⟨hkept.checked, ?_⟩
  rw [hkept.key]
  decide

theorem restores_iff_overwritten_fresh :
    CAddrMan.Restores noHash 70000 7 oneEntry (CAddrMan.new 5) <->
      CAddrMan.Overwritten oneEntry (CAddrMan.new 5) :=
  CAddrMan.restores_iff_overwritten noHash 70000 7 oneEntry (CAddrMan.new 5) run_oneEntry.2

/-- Read into itself, the entry counts its reference twice. -/
theorem not_restored_into_itself :
    [heard].foldlM (step noHash) (CAddrMan.new 1) = some oneEntry ∧
      oneEntry.check noHash = 0 ∧
      ¬ CAddrMan.Restores noHash 70000 7 oneEntry oneEntry := by
  refine ⟨run_oneEntry.1, run_oneEntry.2, ?_⟩
  intro hrestores
  have hchecked := ((oneEntry.check_eq_zero_iff noHash).mp run_oneEntry.2).1
  have hover := hchecked.overwritten_of_restores hrestores
  have hentry : exists info, oneEntry.mapInfo.lookup 0 = some info ∧ info.nRefCount = 1 := by
    refine ⟨_, rfl, ?_⟩
    decide
  have hcounts : oneEntry.nNew = 1 := by decide
  rcases hentry with ⟨info, hinfo, hcount⟩
  rcases hover 0 info hinfo with htried | hnew
  · omega
  · omega

end RestoreExample

end AddrMan
end Hbcur
