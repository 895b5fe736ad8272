import Hbcur.AddrMan.Check

/-!
# What the address manager keeps

The invariant of the five structures, in the form in which it holds inside an operation: some
entries wait in limbo, referred to less often than they should be, and some may be missing from
`nNew`.
-/

namespace Hbcur
namespace AddrMan

open Foundation Serialize Net

namespace CAddrMan

/-!
# The maps and the vector
-/

/-- Ids are below `nIdCount`; `vRandom` and `mapAddr` are inverse to the entries. -/
structure Indexes (s : CAddrMan) : Prop where
  count : 0 ≤ s.nIdCount
  ids : forall nId info, s.mapInfo.lookup nId = some info -> 0 ≤ nId ∧ nId < s.nIdCount
  positions : Indexed s.vRandom fun nId => (s.mapInfo.lookup nId).map CAddrInfo.nRandomPos
  addresses : forall addr nId, s.mapAddr.lookup addr = some nId <->
    exists info, s.mapInfo.lookup nId = some info ∧ info.toCNetAddr = addr

/-- What is kept of an entry by itself. -/
structure EntryKept (limbo : List Int) (nId : Int) (info : CAddrInfo) : Prop where
  tried : info.fInTried = true -> info.nLastSuccess ≠ 0 ∧ info.nRefCount = 0
  bound : info.fInTried = false -> info.nRefCount ≤ ADDRMAN_NEW_BUCKETS_PER_ADDRESS
  referred : info.fInTried = false -> nId ∉ limbo -> 0 < info.nRefCount
  lastTry : 0 ≤ info.nLastTry.toInt
  lastSuccess : 0 ≤ info.nLastSuccess.toInt

structure Kept (Hash : List UInt8 -> UInt256) (nKey : UInt256) (limbo : List Int) (missing : Int)
    (s : CAddrMan) : Prop where
  key : s.nKey = nKey
  indexes : s.Indexes
  entry : forall nId info, s.mapInfo.lookup nId = some info -> EntryKept limbo nId info
  countTried : (StdMap.countValues s.mapInfo (fun info => info.fInTried) : Int) = s.nTried
  countNew : (StdMap.countValues s.mapInfo (fun info => !info.fInTried) : Int) = s.nNew + missing
  tables : s.TablesChecked Hash

variable {s s' : CAddrMan} {Hash : List UInt8 -> UInt256} {nKey : UInt256}
  {limbo limbo' : List Int} {missing : Int}

theorem kept_new (nKey : UInt256) : Kept Hash nKey [] 0 (new nKey) where
  key := rfl
  indexes :=
    { count := Int.le_refl 0
      ids := fun _ _ h => nomatch h
      positions := indexed_nil
      addresses := by
        intro addr nId
        exact iff_of_false (fun h => nomatch h) (fun h => nomatch h.choose_spec.1) }
  entry := fun _ _ h => nomatch h
  countTried := rfl
  countNew := rfl
  tables :=
    { triedSlot := fun _ h => absurd rfl h
      tried := fun _ _ h => nomatch h
      newSlot := fun _ h => absurd rfl h
      fresh := fun _ _ h => nomatch h }

/-!
# Changing one entry
-/

theorem slotIn_congr {info info' : CAddrInfo} (h : info'.toCService = info.toCService)
    (hkey : s'.nKey = s.nKey) (bucket : Fin ADDRMAN_NEW_BUCKET_COUNT) :
    s'.slotIn Hash info' bucket = s.slotIn Hash info bucket := by
  unfold slotIn CAddrInfo.getBucketPosition
  rw [h, hkey]

theorem triedSlot_congr {info info' : CAddrInfo} (h : info'.toCService = info.toCService)
    (hkey : s'.nKey = s.nKey) : s'.triedSlot Hash info' = s.triedSlot Hash info := by
  unfold triedSlot CAddrInfo.getBucketPosition CAddrInfo.getTriedBucket
  rw [h, hkey]

theorem lookup_insert_cases {m : StdMap Int CAddrInfo} {nId n : Int} {info i : CAddrInfo}
    (h : (m.insert n i).lookup nId = some info) :
    (nId = n ∧ info = i) ∨ (nId ≠ n ∧ m.lookup nId = some info) := by
  rw [StdMap.lookup_insert_eq] at h
  by_cases hid : nId = n
  · rw [if_pos hid] at h
    exact Or.inl ⟨hid, (Option.some.inj h).symm⟩
  · rw [if_neg hid] at h
    exact Or.inr ⟨hid, h⟩

/-- An entry keeps its address and its position. -/
theorem Indexes.update {nId : Int} {info info' : CAddrInfo} (h : s.Indexes)
    (hinfo : s.mapInfo.lookup nId = some info) (hmap : s'.mapInfo = s.mapInfo.insert nId info')
    (haddr : info'.toCService = info.toCService) (hpos : info'.nRandomPos = info.nRandomPos)
    (hcount : s'.nIdCount = s.nIdCount) (hvec : s'.vRandom = s.vRandom)
    (hmapAddr : s'.mapAddr = s.mapAddr) : s'.Indexes where
  count := by
    rw [hcount]
    exact h.count
  ids := by
    intro n i hi
    rw [hcount]
    rw [hmap] at hi
    rcases lookup_insert_cases hi with ⟨rfl, rfl⟩ | ⟨_, hi⟩
    · exact h.ids n info hinfo
    · exact h.ids n i hi
  positions := by
    have hsame : (fun n => (s'.mapInfo.lookup n).map CAddrInfo.nRandomPos) =
        fun n => (s.mapInfo.lookup n).map CAddrInfo.nRandomPos := by
      funext n
      rw [hmap, StdMap.lookup_insert_eq]
      by_cases hn : n = nId
      · rw [if_pos hn, hn, hinfo, Option.map_some, Option.map_some, hpos]
      · rw [if_neg hn]
    rw [hsame, hvec]
    exact h.positions
  addresses := by
    intro addr n
    rw [hmapAddr, h.addresses, hmap, StdMap.lookup_insert_eq]
    by_cases hn : n = nId
    · rw [if_pos hn, hn, hinfo]
      constructor
      · intro hi
        rcases hi with ⟨i, hi, rfl⟩
        cases hi
        exact ⟨info', rfl, congrArg CService.toCNetAddr haddr⟩
      · intro hi
        rcases hi with ⟨i, hi, rfl⟩
        cases hi
        exact ⟨info, rfl, (congrArg CService.toCNetAddr haddr).symm⟩
    · rw [if_neg hn]

/-- The numbers of tried and of other entries. -/
theorem count_insert {nId : Int} {info info' : CAddrInfo}
    (hinfo : s.mapInfo.lookup nId = some info) (hmap : s'.mapInfo = s.mapInfo.insert nId info')
    (P : CAddrInfo -> Bool) (h : P info' = P info) :
    StdMap.countValues s'.mapInfo P = StdMap.countValues s.mapInfo P := by
  have hcount := StdMap.countValues_insert s.mapInfo nId info' P hinfo
  rw [h, ← hmap] at hcount
  exact Nat.add_right_cancel hcount

/-- Limbo may change where the references of an entry allow it. -/
theorem Kept.relabel (h : Kept Hash nKey limbo missing s)
    (hleft : forall nId, nId ∈ limbo -> nId ∉ limbo' -> forall info,
      s.mapInfo.lookup nId = some info -> info.fInTried = false -> 0 < info.nRefCount) :
    Kept Hash nKey limbo' missing s where
  key := h.key
  indexes := h.indexes
  entry := by
    intro nId info hinfo
    have hentry := h.entry nId info hinfo
    refine ⟨hentry.tried, hentry.bound, ?_, hentry.lastTry, hentry.lastSuccess⟩
    intro hfresh hnot
    by_cases hin : nId ∈ limbo
    · exact hleft nId hin hnot info hinfo hfresh
    · exact hentry.referred hfresh hin
  countTried := h.countTried
  countNew := h.countNew
  tables := h.tables

theorem Kept.setNew (h : Kept Hash nKey limbo missing s) {nNew missing' : Int}
    (hsum : nNew + missing' = s.nNew + missing) :
    Kept Hash nKey limbo missing' { s with nNew := nNew } where
  key := h.key
  indexes := ⟨h.indexes.count, h.indexes.ids, h.indexes.positions, h.indexes.addresses⟩
  entry := h.entry
  countTried := h.countTried
  countNew := by
    change (StdMap.countValues s.mapInfo (fun info => !info.fInTried) : Int) = nNew + missing'
    rw [hsum]
    exact h.countNew
  tables := ⟨h.tables.triedSlot, h.tables.tried, h.tables.newSlot, h.tables.fresh⟩

/-!
# The tables after a change of one entry
-/

theorem Kept.ne_empty (h : Kept Hash nKey limbo missing s) {nId : Int} {info : CAddrInfo}
    (hinfo : s.mapInfo.lookup nId = some info) : nId ≠ -1 := by
  have hid := h.indexes.ids nId info hinfo
  omega

namespace TablesChecked

variable {nId : Int} {info info' : CAddrInfo}

theorem tried_iff (h : s.TablesChecked Hash) (hinfo : s.mapInfo.lookup nId = some info)
    (hid : nId ≠ -1) (slot : TriedSlot) :
    s.vvTried slot = nId <-> info.fInTried = true ∧ slot = s.triedSlot Hash info := by
  constructor
  · intro heq
    rcases h.triedSlot slot (heq ▸ hid) with ⟨i, hi, htried, hslot⟩
    rw [heq, hinfo] at hi
    cases hi
    exact ⟨htried, hslot⟩
  · intro hslot
    rw [hslot.2]
    exact (h.tried nId info hinfo hslot.1).2

theorem slot_of_new (h : s.TablesChecked Hash) (hinfo : s.mapInfo.lookup nId = some info)
    (hid : nId ≠ -1) {slot : NewSlot} (heq : s.vvNew slot = nId) :
    info.fInTried = false ∧ slot = s.slotIn Hash info slot.1 := by
  rcases h.newSlot slot (heq ▸ hid) with ⟨i, hi, hfresh, hslot⟩
  rw [heq, hinfo] at hi
  cases hi
  exact ⟨hfresh, hslot⟩

theorem references_eq_zero (h : s.TablesChecked Hash) (hinfo : s.mapInfo.lookup nId = some info)
    (hid : nId ≠ -1) (hzero : info.nRefCount = 0) : forall slot, s.vvNew slot ≠ nId := by
  intro slot heq
  have hfresh := (h.slot_of_new hinfo hid heq).1
  have hcount := (h.fresh nId info hinfo hfresh).2
  have hpos : 0 < references s.vvNew nId := (references_pos_iff _ _).mpr ⟨slot, heq⟩
  omega

/-- Other ids stay where they are; the entry itself is placed as its new data ask. -/
theorem update (h : s.TablesChecked Hash) (hinfo : s.mapInfo.lookup nId = some info)
    (hid : nId ≠ -1) (hmap : s'.mapInfo = s.mapInfo.insert nId info')
    (haddr : info'.toCService = info.toCService) (hkey : s'.nKey = s.nKey)
    (hotherTried : forall slot n, n ≠ nId -> n ≠ -1 -> (s'.vvTried slot = n <-> s.vvTried slot = n))
    (hselfTried : forall slot, s'.vvTried slot = nId <->
      info'.fInTried = true ∧ slot = s.triedSlot Hash info)
    (hotherNew : forall slot n, n ≠ nId -> n ≠ -1 -> (s'.vvNew slot = n <-> s.vvNew slot = n))
    (hselfNew : forall slot, s'.vvNew slot = nId ->
      info'.fInTried = false ∧ slot = s.slotIn Hash info slot.1)
    (hcount : info'.fInTried = false -> (references s'.vvNew nId : Int) = info'.nRefCount) :
    s'.TablesChecked Hash where
  triedSlot := by
    intro slot hne
    rw [hmap, StdMap.lookup_insert_eq]
    by_cases hslot : s'.vvTried slot = nId
    · rcases (hselfTried slot).mp hslot with ⟨htried, heq⟩
      rw [if_pos hslot]
      exact ⟨info', rfl, htried, heq.trans (triedSlot_congr haddr hkey).symm⟩
    · have hold := (hotherTried slot _ hslot hne).mp rfl
      rcases h.triedSlot slot (hold ▸ hne) with ⟨i, hi, htried, heq⟩
      rw [hold] at hi
      rw [if_neg hslot]
      exact ⟨i, hi, htried, heq.trans (triedSlot_congr rfl hkey).symm⟩
  tried := by
    intro n i hi htried
    rw [hmap] at hi
    rcases lookup_insert_cases hi with ⟨rfl, rfl⟩ | ⟨hn, hi⟩
    · exact ⟨hid, (hselfTried _).mpr ⟨htried, triedSlot_congr haddr hkey⟩⟩
    · rcases h.tried n i hi htried with ⟨hne, heq⟩
      rw [triedSlot_congr rfl hkey]
      exact ⟨hne, (hotherTried _ n hn hne).mpr heq⟩
  newSlot := by
    intro slot hne
    rw [hmap, StdMap.lookup_insert_eq]
    by_cases hslot : s'.vvNew slot = nId
    · rcases hselfNew slot hslot with ⟨hfresh, heq⟩
      rw [if_pos hslot]
      exact ⟨info', rfl, hfresh, heq.trans (slotIn_congr haddr hkey slot.1).symm⟩
    · have hold := (hotherNew slot _ hslot hne).mp rfl
      rcases h.newSlot slot (hold ▸ hne) with ⟨i, hi, hfresh, heq⟩
      rw [hold] at hi
      rw [if_neg hslot]
      exact ⟨i, hi, hfresh, heq.trans (slotIn_congr rfl hkey slot.1).symm⟩
  fresh := by
    intro n i hi hfresh
    rw [hmap] at hi
    rcases lookup_insert_cases hi with ⟨rfl, rfl⟩ | ⟨hn, hi⟩
    · exact ⟨hid, hcount hfresh⟩
    · rcases h.fresh n i hi hfresh with ⟨hne, heq⟩
      refine ⟨hne, ?_⟩
      rw [← heq]
      exact congrArg _ (references_congr fun slot => hotherNew slot n hn hne)

end TablesChecked

/-!
# Data, references and sets of an entry
-/

section Entry

variable {nId : Int} {info : CAddrInfo}

/-- The data of an entry change, but not its place in the structures. -/
theorem Kept.touch (h : Kept Hash nKey limbo missing s) (hinfo : s.mapInfo.lookup nId = some info)
    (info' : CAddrInfo) (haddr : info'.toCService = info.toCService) (hpos : info'.nRandomPos = info.nRandomPos)
    (href : info'.nRefCount = info.nRefCount) (htried : info'.fInTried = info.fInTried)
    (hsuccess : info'.fInTried = true -> info'.nLastSuccess ≠ 0)
    (hlastTry : 0 ≤ info'.nLastTry.toInt) (hlastSuccess : 0 ≤ info'.nLastSuccess.toInt) :
    Kept Hash nKey limbo missing (s.setInfo nId info') where
  key := h.key
  indexes := h.indexes.update hinfo rfl haddr hpos rfl rfl rfl
  entry := by
    intro n i hi
    rcases lookup_insert_cases hi with ⟨rfl, rfl⟩ | ⟨_, hi⟩
    · have hentry := h.entry n info hinfo
      refine ⟨?_, ?_, ?_, hlastTry, hlastSuccess⟩
      · intro hin
        exact ⟨hsuccess hin, by rw [href]; exact (hentry.tried (htried ▸ hin)).2⟩
      · intro hout
        rw [href]
        exact hentry.bound (htried ▸ hout)
      · intro hout
        rw [href]
        exact hentry.referred (htried ▸ hout)
    · exact h.entry n i hi
  countTried := by
    rw [count_insert hinfo rfl _ htried]
    exact h.countTried
  countNew := by
    rw [count_insert hinfo rfl _ (congrArg not htried)]
    exact h.countNew
  tables := by
    have hid := h.ne_empty hinfo
    have hmap : (s.setInfo nId info').mapInfo = s.mapInfo.insert nId info' := rfl
    apply h.tables.update hinfo hid hmap haddr rfl
    · exact fun _ _ _ _ => Iff.rfl
    · intro slot
      rw [htried]
      exact h.tables.tried_iff hinfo hid slot
    · exact fun _ _ _ _ => Iff.rfl
    · intro slot heq
      rw [htried]
      exact h.tables.slot_of_new hinfo hid heq
    · intro hfresh
      rw [href]
      exact (h.tables.fresh nId info hinfo (htried ▸ hfresh)).2

/-- Writing a slot does not move other ids, if it was empty or is emptied. -/
theorem update_slot_iff {slot : Type} [DecidableEq slot] (table : slot -> Int) (at' : slot)
    {v n : Int} (hn : n ≠ v) (hold : table at' ≠ n) (slot' : slot) :
    Function.update table at' v slot' = n <-> table slot' = n := by
  by_cases hslot : slot' = at'
  · subst hslot
    rw [Function.update_self]
    exact iff_of_false (Ne.symm hn) hold
  · rw [Function.update_of_ne hslot]

/-- One reference less: the entry may be in limbo now. -/
theorem Kept.dropReference (h : Kept Hash nKey limbo missing s)
    (hinfo : s.mapInfo.lookup nId = some info) {slot : NewSlot} (hslot : s.vvNew slot = nId) :
    Kept Hash nKey (nId :: limbo) missing (s.dropReference nId slot) ∧
      (s.dropReference nId slot).mapInfo.lookup nId =
        some { info with nRefCount := info.nRefCount - 1 } := by
  have hid := h.ne_empty hinfo
  have hfresh := (h.tables.slot_of_new hinfo hid hslot).1
  have hmap : (s.dropReference nId slot).mapInfo =
      s.mapInfo.insert nId { info with nRefCount := info.nRefCount - 1 } := by
    unfold CAddrMan.dropReference setInfo
    rw [info_of_lookup hinfo]
  have hcount : references (Function.update s.vvNew slot (-1)) nId + 1 = references s.vvNew nId :=
    references_update_away _ _ _ _ hslot (Ne.symm hid)
  refine ⟨?_, by rw [hmap, AList.lookup_insert]⟩
  constructor
  · exact h.key
  · exact h.indexes.update hinfo hmap rfl rfl rfl rfl rfl
  · intro n i hi
    rw [hmap] at hi
    rcases lookup_insert_cases hi with ⟨rfl, rfl⟩ | ⟨_, hi⟩
    · have hentry := h.entry n info hinfo
      refine ⟨?_, ?_, ?_, hentry.lastTry, hentry.lastSuccess⟩
      · intro hin
        exact absurd (hfresh.symm.trans hin) Bool.false_ne_true
      · intro hout
        have hbound := hentry.bound hout
        change info.nRefCount - 1 ≤ _
        omega
      · exact fun _ hnot => absurd List.mem_cons_self hnot
    · have hentry := h.entry n i hi
      exact ⟨hentry.tried, hentry.bound,
        fun hout hnot => hentry.referred hout fun hmem => hnot (List.mem_cons_of_mem nId hmem),
        hentry.lastTry, hentry.lastSuccess⟩
  · rw [count_insert hinfo hmap _ rfl]
    exact h.countTried
  · rw [count_insert hinfo hmap _ rfl]
    exact h.countNew
  · apply h.tables.update hinfo hid hmap rfl rfl
    · exact fun _ _ _ _ => Iff.rfl
    · exact fun slot' => h.tables.tried_iff hinfo hid slot'
    · intro slot' n hn hne
      exact update_slot_iff s.vvNew slot hne (fun heq => hn (heq.symm.trans hslot)) slot'
    · intro slot' heq
      have hold : s.vvNew slot' = nId := by
        by_cases hs : slot' = slot
        · rw [hs]
          exact hslot
        · rw [← heq]
          exact (Function.update_of_ne hs _ _).symm
      exact h.tables.slot_of_new hinfo hid hold
    · intro _
      have hold := (h.tables.fresh nId info hinfo hfresh).2
      change (references (Function.update s.vvNew slot (-1)) nId : Int) = info.nRefCount - 1
      omega

/-- One reference more takes the entry out of limbo. -/
theorem Kept.addReference (h : Kept Hash nKey limbo missing s)
    (hinfo : s.mapInfo.lookup nId = some info) (hfresh : info.fInTried = false)
    (hbound : info.nRefCount < ADDRMAN_NEW_BUCKETS_PER_ADDRESS) {slot : NewSlot}
    (hempty : s.vvNew slot = -1) (hslot : slot = s.slotIn Hash info slot.1)
    (hlimbo : forall n, n ∈ limbo -> n ≠ nId -> n ∈ limbo') :
    Kept Hash nKey limbo' missing (s.addReference nId slot) := by
  have hid := h.ne_empty hinfo
  have hold := (h.tables.fresh nId info hinfo hfresh).2
  have hmap : (s.addReference nId slot).mapInfo =
      s.mapInfo.insert nId { info with nRefCount := info.nRefCount + 1 } := by
    unfold CAddrMan.addReference setInfo
    rw [info_of_lookup hinfo]
  have hcount : references (Function.update s.vvNew slot nId) nId = references s.vvNew nId + 1 :=
    references_update_self _ _ _ (by rw [hempty]; exact Ne.symm hid)
  constructor
  · exact h.key
  · exact h.indexes.update hinfo hmap rfl rfl rfl rfl rfl
  · intro n i hi
    rw [hmap] at hi
    rcases lookup_insert_cases hi with ⟨rfl, rfl⟩ | ⟨hn, hi⟩
    · have hentry := h.entry n info hinfo
      refine ⟨?_, ?_, ?_, hentry.lastTry, hentry.lastSuccess⟩
      · intro hin
        exact absurd (hfresh.symm.trans hin) Bool.false_ne_true
      · intro _
        change info.nRefCount + 1 ≤ _
        omega
      · intro _ _
        change 0 < info.nRefCount + 1
        omega
    · have hentry := h.entry n i hi
      exact ⟨hentry.tried, hentry.bound,
        fun hout hnot => hentry.referred hout fun hmem => hnot (hlimbo n hmem hn),
        hentry.lastTry, hentry.lastSuccess⟩
  · rw [count_insert hinfo hmap _ rfl]
    exact h.countTried
  · rw [count_insert hinfo hmap _ rfl]
    exact h.countNew
  · apply h.tables.update hinfo hid hmap rfl rfl
    · exact fun _ _ _ _ => Iff.rfl
    · exact fun slot' => h.tables.tried_iff hinfo hid slot'
    · intro slot' n hn hne
      exact update_slot_iff s.vvNew slot hn (by rw [hempty]; exact Ne.symm hne) slot'
    · intro slot' heq
      by_cases hs : slot' = slot
      · rw [hs]
        exact ⟨hfresh, hslot⟩
      · have hold' : s.vvNew slot' = nId := by
          rw [← heq]
          exact (Function.update_of_ne hs _ _).symm
        exact h.tables.slot_of_new hinfo hid hold'
    · intro _
      change (references (Function.update s.vvNew slot nId) nId : Int) = info.nRefCount + 1
      omega

theorem Kept.enterNew (h : Kept Hash nKey limbo missing s) (hinfo : s.mapInfo.lookup nId = some info)
    (hfresh : info.fInTried = false) (hzero : info.nRefCount = 0) {slot : NewSlot}
    (hempty : s.vvNew slot = -1) (hslot : slot = s.slotIn Hash info slot.1)
    (hlimbo : forall n, n ∈ limbo -> n ≠ nId -> n ∈ limbo') :
    Kept Hash nKey limbo' (missing - 1) (s.enterNew nId slot) := by
  have hbound : info.nRefCount < ADDRMAN_NEW_BUCKETS_PER_ADDRESS := by
    rw [hzero]
    decide
  have hone : info.nRefCount + 1 = 1 := by
    rw [hzero]
    rfl
  have hsum : s.nNew + 1 + (missing - 1) = (s.addReference nId slot).nNew + missing := by
    change s.nNew + 1 + (missing - 1) = s.nNew + missing
    omega
  have heq : s.enterNew nId slot = { s.addReference nId slot with nNew := s.nNew + 1 } := by
    unfold CAddrMan.enterNew CAddrMan.addReference
    rw [info_of_lookup hinfo, hone]
  rw [heq]
  exact (h.addReference hinfo hfresh hbound hempty hslot hlimbo).setNew hsum

/-- A tried entry goes into limbo and is not counted. -/
theorem Kept.removeTried (h : Kept Hash nKey limbo missing s) {slot : TriedSlot}
    (hinfo : s.mapInfo.lookup (s.vvTried slot) = some info) (htried : info.fInTried = true) :
    Kept Hash nKey (s.vvTried slot :: limbo) (missing + 1) (s.removeTried slot) ∧
      (s.removeTried slot).mapInfo.lookup (s.vvTried slot) =
        some { info with fInTried := false } := by
  have hid := h.ne_empty hinfo
  have hentry := h.entry _ info hinfo
  have hzero := (hentry.tried htried).2
  have hmap : (s.removeTried slot).mapInfo =
      s.mapInfo.insert (s.vvTried slot) { info with fInTried := false } := by
    unfold CAddrMan.removeTried setInfo
    rw [info_of_lookup hinfo]
  have hslot := ((h.tables.tried_iff hinfo hid slot).mp rfl).2
  have hnone : forall slot', s.vvNew slot' ≠ s.vvTried slot := by
    intro slot' heq
    have hfresh := (h.tables.slot_of_new hinfo hid heq).1
    exact absurd (hfresh.symm.trans htried) Bool.false_ne_true
  refine ⟨?_, by rw [hmap, AList.lookup_insert]⟩
  constructor
  · exact h.key
  · exact h.indexes.update hinfo hmap rfl rfl rfl rfl rfl
  · intro n i hi
    rw [hmap] at hi
    rcases lookup_insert_cases hi with ⟨rfl, rfl⟩ | ⟨_, hi⟩
    · refine ⟨fun hin => (nomatch hin), ?_, ?_, hentry.lastTry, hentry.lastSuccess⟩
      · intro _
        change info.nRefCount ≤ _
        rw [hzero]
        decide
      · exact fun _ hnot => absurd List.mem_cons_self hnot
    · have hother := h.entry n i hi
      exact ⟨hother.tried, hother.bound,
        fun hout hnot => hother.referred hout fun hmem => hnot (List.mem_cons_of_mem _ hmem),
        hother.lastTry, hother.lastSuccess⟩
  · have hcount := StdMap.countValues_insert s.mapInfo _ { info with fInTried := false }
      (fun info => info.fInTried) hinfo
    have hold := h.countTried
    simp only [htried, if_true, Bool.false_eq_true, if_false] at hcount
    rw [hmap]
    change _ = s.nTried - 1
    omega
  · have hcount := StdMap.countValues_insert s.mapInfo _ { info with fInTried := false }
      (fun info => !info.fInTried) hinfo
    have hold := h.countNew
    simp only [htried, Bool.not_true, Bool.not_false, if_true, Bool.false_eq_true, if_false]
      at hcount
    rw [hmap]
    change _ = s.nNew + (missing + 1)
    omega
  · apply h.tables.update hinfo hid hmap rfl rfl
    · intro slot' n hn hne
      exact update_slot_iff s.vvTried slot hne (Ne.symm hn) slot'
    · intro slot'
      apply iff_of_false
      · change Function.update s.vvTried slot (-1) slot' ≠ s.vvTried slot
        by_cases hs : slot' = slot
        · rw [hs, Function.update_self]
          exact Ne.symm hid
        · rw [Function.update_of_ne hs]
          intro heq
          exact hs (((h.tables.tried_iff hinfo hid slot').mp heq).2.trans hslot.symm)
      · exact fun hin => nomatch hin.1
    · exact fun _ _ _ _ => Iff.rfl
    · exact fun slot' heq => absurd heq (hnone slot')
    · intro _
      change (references s.vvNew (s.vvTried slot) : Int) = info.nRefCount
      rw [hzero, (references_eq_zero_iff _ _).mpr hnone]
      rfl

/-- An entry without references leaves limbo for an empty slot of the tried table. -/
theorem Kept.enterTried (h : Kept Hash nKey limbo missing s)
    (hinfo : s.mapInfo.lookup nId = some info) (hfresh : info.fInTried = false)
    (hzero : info.nRefCount = 0) (hsuccess : info.nLastSuccess ≠ 0) {slot : TriedSlot}
    (hempty : s.vvTried slot = -1) (hslot : slot = s.triedSlot Hash info)
    (hlimbo : forall n, n ∈ limbo -> n ≠ nId -> n ∈ limbo') :
    Kept Hash nKey limbo' (missing - 1) (s.enterTried nId slot) := by
  have hid := h.ne_empty hinfo
  have hentry := h.entry nId info hinfo
  have hmap : (s.enterTried nId slot).mapInfo =
      s.mapInfo.insert nId { info with fInTried := true } := by
    unfold CAddrMan.enterTried setInfo
    rw [info_of_lookup hinfo]
  constructor
  · exact h.key
  · exact h.indexes.update hinfo hmap rfl rfl rfl rfl rfl
  · intro n i hi
    rw [hmap] at hi
    rcases lookup_insert_cases hi with ⟨rfl, rfl⟩ | ⟨hn, hi⟩
    · exact ⟨fun _ => ⟨hsuccess, hzero⟩, fun hout => (nomatch hout),
        fun hout => (nomatch hout),
        hentry.lastTry, hentry.lastSuccess⟩
    · have hother := h.entry n i hi
      exact ⟨hother.tried, hother.bound,
        fun hout hnot => hother.referred hout fun hmem => hnot (hlimbo n hmem hn),
        hother.lastTry, hother.lastSuccess⟩
  · have hcount := StdMap.countValues_insert s.mapInfo _ { info with fInTried := true }
      (fun info => info.fInTried) hinfo
    have hold := h.countTried
    simp only [hfresh, if_true, Bool.false_eq_true, if_false] at hcount
    rw [hmap]
    change _ = s.nTried + 1
    omega
  · have hcount := StdMap.countValues_insert s.mapInfo _ { info with fInTried := true }
      (fun info => !info.fInTried) hinfo
    have hold := h.countNew
    simp only [hfresh, Bool.not_true, Bool.not_false, if_true, Bool.false_eq_true, if_false]
      at hcount
    rw [hmap]
    change _ = s.nNew + (missing - 1)
    omega
  · apply h.tables.update hinfo hid hmap rfl rfl
    · intro slot' n hn hne
      exact update_slot_iff s.vvTried slot hn (by rw [hempty]; exact Ne.symm hne) slot'
    · intro slot'
      change Function.update s.vvTried slot nId slot' = nId <-> _
      by_cases hs : slot' = slot
      · rw [hs, Function.update_self]
        exact iff_of_true rfl ⟨rfl, hslot⟩
      · rw [Function.update_of_ne hs, h.tables.tried_iff hinfo hid slot']
        apply iff_of_false
        · exact fun hin => absurd (hfresh.symm.trans hin.1) Bool.false_ne_true
        · exact fun hin => hs (hin.2.trans hslot.symm)
    · exact fun _ _ _ _ => Iff.rfl
    · exact fun slot' heq => absurd heq (h.tables.references_eq_zero hinfo hid hzero slot')
    · exact fun hout => nomatch hout

end Entry

end CAddrMan

end AddrMan
end Hbcur
