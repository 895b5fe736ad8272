import Hbcur.AddrMan.Invariant
import Hbcur.AddrMan.Stored

/-!
# What `Unserialize` builds

The state after each entry which is read, and after each reference, for an object which may have
held anything before.
-/

namespace Hbcur
namespace AddrMan

open Foundation Serialize Net

namespace CAddrMan

variable {a b s : CAddrMan} {Hash : List UInt8 -> UInt256}

/-- The entries in the order in which they are written. -/
def written (a : CAddrMan) : List Entry :=
  a.freshEntries ++ a.triedEntries

def writtenIds (a : CAddrMan) : List Int := a.written.map Sigma.fst

/-- Ids are numbered in the order in which the entries are read. -/
def newId (a : CAddrMan) (nId : Int) : Int := (a.writtenIds.idxOf nId : Nat)

/-!
# The order of the entries
-/

theorem Checked.mem_written_iff (h : a.Checked Hash) (nId : Int) (info : CAddrInfo) :
    ⟨nId, info⟩ ∈ a.written <-> a.mapInfo.lookup nId = some info := by
  rw [written, List.mem_append, h.mem_freshEntries_iff, mem_triedEntries_iff, ← and_or_left]
  apply and_iff_left
  cases info.fInTried with
  | false => exact Or.inl rfl
  | true => exact Or.inr rfl

theorem Checked.mem_writtenIds (h : a.Checked Hash) {nId : Int} {info : CAddrInfo}
    (hinfo : a.mapInfo.lookup nId = some info) : nId ∈ a.writtenIds :=
  List.mem_map.mpr ⟨⟨nId, info⟩, (h.mem_written_iff nId info).mpr hinfo, rfl⟩

theorem Checked.nodup_writtenIds (h : a.Checked Hash) : a.writtenIds.Nodup := by
  unfold writtenIds written
  rw [List.map_append]
  apply nodup_freshIds.append nodup_triedIds
  intro nId hfresh htried
  rcases List.mem_map.mp hfresh with ⟨⟨n, info⟩, hin, rfl⟩
  rcases List.mem_map.mp htried with ⟨⟨n', info'⟩, hin', heq⟩
  rcases (h.mem_freshEntries_iff n info).mp hin with ⟨hinfo, hout⟩
  rcases (mem_triedEntries_iff n' info').mp hin' with ⟨hinfo', htried'⟩
  cases heq
  rw [hinfo] at hinfo'
  cases hinfo'
  rw [hout] at htried'
  cases htried'

theorem Checked.length_written (h : a.Checked Hash) :
    (a.written.length : Int) = a.nNew + a.nTried := by
  rw [written, List.length_append, Nat.cast_add, h.length_freshEntries, h.length_triedEntries]

theorem Checked.newId_of_getElem (h : a.Checked Hash) {i : Nat}
    {e : Entry} (hget : a.written[i]? = some e) : a.newId e.1 = i := by
  have hid : a.writtenIds[i]? = some e.1 := by
    rw [writtenIds, List.getElem?_map, hget]
    rfl
  rcases List.getElem?_eq_some_iff.mp hid with ⟨hlt, heq⟩
  rw [newId, ← heq, h.nodup_writtenIds.idxOf_getElem i hlt]

theorem Checked.getElem_newId (h : a.Checked Hash) {nId : Int} {info : CAddrInfo}
    (hinfo : a.mapInfo.lookup nId = some info) :
    a.written[(a.newId nId).toNat]? = some ⟨nId, info⟩ := by
  rcases List.mem_iff_getElem?.mp ((h.mem_written_iff nId info).mpr hinfo) with ⟨i, hget⟩
  rw [h.newId_of_getElem hget, Int.toNat_natCast]
  exact hget

/-- Different entries get different ids. -/
theorem newId_inj {nId nId' : Int} (hmem : nId ∈ a.writtenIds) :
    a.newId nId' = a.newId nId <-> nId' = nId := by
  constructor
  · intro heq
    have hidx : a.writtenIds.idxOf nId' = a.writtenIds.idxOf nId := Int.ofNat_inj.mp heq
    exact ((List.idxOf_inj hmem).mp hidx.symm).symm
  · exact congrArg _

theorem Checked.lookup_of_getElem (h : a.Checked Hash) {i : Nat}
    {e : Entry} (hget : a.written[i]? = some e) :
    a.mapInfo.lookup e.1 = some e.2 :=
  (h.mem_written_iff e.1 e.2).mp (List.mem_of_getElem? hget)

/-- New entries come first. -/
theorem Checked.fInTried_of_getElem (h : a.Checked Hash) {i : Nat}
    {e : Entry} (hget : a.written[i]? = some e) :
    e.2.fInTried = false <-> (i : Int) < a.nNew := by
  have hlen := h.length_freshEntries
  by_cases hlt : i < a.freshEntries.length
  · rw [written, List.getElem?_append_left hlt] at hget
    have hfresh := ((h.mem_freshEntries_iff e.1 e.2).mp (List.mem_of_getElem? hget)).2
    exact iff_of_true hfresh (by omega)
  · rw [written, List.getElem?_append_right (by omega)] at hget
    have htried := ((mem_triedEntries_iff e.1 e.2).mp (List.mem_of_getElem? hget)).2
    apply iff_of_false
    · rw [htried]
      exact Bool.false_ne_true.symm
    · omega

theorem Checked.newId_bounds (h : a.Checked Hash) {nId : Int} {info : CAddrInfo}
    (hinfo : a.mapInfo.lookup nId = some info) :
    0 ≤ a.newId nId ∧ a.newId nId < a.nNew + a.nTried ∧
      (info.fInTried = false <-> a.newId nId < a.nNew) := by
  have hget := h.getElem_newId hinfo
  have hfresh := h.fInTried_of_getElem hget
  have hnonneg : 0 ≤ a.newId nId := Int.natCast_nonneg _
  rcases List.getElem?_eq_some_iff.mp hget with ⟨hlt, _⟩
  have hlen := h.length_written
  rw [Int.toNat_of_nonneg hnonneg] at hfresh
  exact ⟨hnonneg, by omega, hfresh⟩

/-- In the stream a new entry has its number already. -/
theorem newId_of_mem_freshIds {nId : Int} (hmem : nId ∈ a.freshEntries.map Sigma.fst) :
    a.newId nId = a.numberOf nId := by
  unfold newId writtenIds written numberOf
  rw [List.map_append, List.idxOf_append_of_mem hmem]

/-- No two entries have one address. -/
theorem Checked.address_inj (h : a.Checked Hash) {nId nId' : Int} {info info' : CAddrInfo}
    (hinfo : a.mapInfo.lookup nId = some info) (hinfo' : a.mapInfo.lookup nId' = some info')
    (haddr : info.toCNetAddr = info'.toCNetAddr) : nId = nId' := by
  have hid := (h.entry nId info hinfo).address
  have hid' := (h.entry nId' info' hinfo').address
  rw [← hid, ← hid', haddr]

/-!
# The state while entries are read
-/

/-- What an entry becomes in an object which held `b`. -/
def loaded (b : CAddrMan) (i : Nat) (e : Entry) : CAddrInfo :=
  if e.2.fInTried then
    { CAddrInfo.init.load (storedRecord e) with nRandomPos := i, fInTried := true }
  else { (b.info i).load (storedRecord e) with nRandomPos := i }

/-- The references of an entry, more than it had in the object before. -/
def referred (info : CAddrInfo) (count : Nat) : CAddrInfo :=
  { info with nRefCount := info.nRefCount + count }

/-- The first `n` entries have been read. -/
structure Loaded (a b : CAddrMan) (n : Nat) (s : CAddrMan) : Prop where
  key : s.nKey = a.nKey
  nNew : s.nNew = a.nNew
  nTried : s.nTried = a.nTried
  vRandom : s.vRandom = (List.range n).map Nat.cast
  entry : forall (i : Nat) (e : Entry), i < n -> a.written[i]? = some e ->
    s.mapInfo.lookup (i : Int) = some (referred (b.loaded i e) (references s.vvNew (i : Int)))
  address : forall (i : Nat) (e : Entry), i < n -> a.written[i]? = some e ->
    s.mapAddr.lookup e.2.toCNetAddr = some (i : Int)
  other : forall nId, nId < 0 ∨ (n : Int) ≤ nId -> s.mapInfo.lookup nId = b.mapInfo.lookup nId
  triedSlot : forall slot, s.vvTried slot =
    if a.vvTried slot ≠ -1 ∧ a.newId (a.vvTried slot) < n then a.newId (a.vvTried slot) else -1
  newSlot : forall slot, s.vvNew slot ≠ -1 -> 0 ≤ s.vvNew slot ∧ s.vvNew slot < a.nNew

/-- As long as the new table is empty. -/
structure Loading (a b : CAddrMan) (n : Nat) (s : CAddrMan) : Prop extends Loaded a b n s where
  emptyNew : forall slot, s.vvNew slot = -1

theorem referred_zero (info : CAddrInfo) : referred info 0 = info := by
  unfold referred
  rw [Nat.cast_zero, Int.add_zero]

theorem Loading.references_eq_zero {n : Nat} (h : Loading a b n s) (i : Nat) :
    references s.vvNew (i : Int) = 0 := by
  rw [references_eq_zero_iff]
  intro slot heq
  rw [h.emptyNew slot] at heq
  omega

/-- The next entry is entered under the next id. -/
theorem Loading.next (ha : a.Checked Hash) {n : Nat} (h : Loading a b n s) {e : Entry}
    (hget : a.written[n]? = some e) {s' : CAddrMan}
    (hkey : s'.nKey = s.nKey) (hnew : s'.nNew = s.nNew) (htried : s'.nTried = s.nTried)
    (hvRandom : s'.vRandom = s.vRandom ++ [(n : Int)])
    (hmap : s'.mapInfo = s.mapInfo.insert (n : Int) (b.loaded n e))
    (haddr : s'.mapAddr = s.mapAddr.insert e.2.toCNetAddr (n : Int)) (hvvNew : s'.vvNew = s.vvNew)
    (hslot : forall slot, s'.vvTried slot =
      if a.vvTried slot = e.1 ∧ e.2.fInTried then (n : Int) else s.vvTried slot) :
    Loading a b (n + 1) s' where
  emptyNew := by
    rw [hvvNew]
    exact h.emptyNew
  key := hkey.trans h.key
  nNew := hnew.trans h.nNew
  nTried := htried.trans h.nTried
  vRandom := by
    rw [hvRandom, h.vRandom, List.range_succ, List.map_append]
    rfl
  entry := by
    intro i e' hi hget'
    rw [hmap, hvvNew, h.references_eq_zero, referred_zero, StdMap.lookup_insert_eq]
    by_cases heq : i = n
    · subst heq
      rw [hget] at hget'
      cases hget'
      exact if_pos rfl
    · have hold := h.entry i e' (by omega) hget'
      rw [h.references_eq_zero, referred_zero] at hold
      rw [if_neg (by omega)]
      exact hold
  address := by
    intro i e' hi hget'
    rw [haddr, StdMap.lookup_insert_eq]
    by_cases heq : i = n
    · subst heq
      rw [hget] at hget'
      cases hget'
      exact if_pos rfl
    · have hne : e'.2.toCNetAddr ≠ e.2.toCNetAddr := by
        intro hsame
        have hid := ha.address_inj (ha.lookup_of_getElem hget') (ha.lookup_of_getElem hget) hsame
        have hcast := ha.newId_of_getElem hget'
        rw [hid, ha.newId_of_getElem hget] at hcast
        omega
      rw [if_neg hne]
      exact h.address i e' (by omega) hget'
  other := by
    intro nId hid
    rw [hmap, StdMap.lookup_insert_eq, if_neg (by omega)]
    exact h.other nId (by omega)
  triedSlot := by
    intro slot
    have hinfo := ha.lookup_of_getElem hget
    have hid := ha.newId_of_getElem hget
    have hmem := ha.mem_writtenIds hinfo
    rw [hslot slot, h.triedSlot slot]
    by_cases hself : a.vvTried slot = e.1
    · have hne : e.1 ≠ -1 := by
        cases hin : e.2.fInTried with
        | true => exact (ha.tables.tried _ _ hinfo hin).1
        | false => exact (ha.tables.fresh _ _ hinfo hin).1
      have hin : e.2.fInTried = true := by
        rcases ha.tables.triedSlot slot (by rw [hself]; exact hne) with ⟨info, hinfo', hin, _⟩
        rw [hself, hinfo] at hinfo'
        cases hinfo'
        exact hin
      rw [if_pos ⟨hself, hin⟩, hself, hid, if_pos ⟨hne, by omega⟩]
    · rw [if_neg (fun hand => hself hand.1)]
      have hother : a.newId (a.vvTried slot) ≠ n := by
        rw [← hid]
        exact fun heq => hself ((newId_inj hmem).mp heq)
      have hiff : (a.vvTried slot ≠ -1 ∧ a.newId (a.vvTried slot) < n) <->
          (a.vvTried slot ≠ -1 ∧ a.newId (a.vvTried slot) < (n + 1 : Nat)) := by
        apply and_congr_right
        intro _
        omega
      exact if_congr hiff rfl rfl
  newSlot := by
    intro slot hne
    rw [hvvNew] at hne
    exact absurd (h.emptyNew slot) hne

/-!
# Both loops over entries
-/

theorem getElem_of_split {item : Type} {xs done rest : List item} {x : item}
    (h : xs = done ++ x :: rest) : xs[done.length]? = some x := by
  rw [h, List.getElem?_append_right (Nat.le_refl _), Nat.sub_self]
  rfl

theorem Loaded.length_vRandom {n : Nat} (h : Loaded a b n s) : s.vRandom.length = n := by
  rw [h.vRandom, List.length_map, List.length_range]

theorem Loaded.info_eq {n : Nat} (h : Loaded a b n s) : s.info (n : Int) = b.info n := by
  unfold CAddrMan.info
  rw [h.other n (Or.inr (Int.le_refl _))]

/-- The object before the loops. -/
def cleared (a b : CAddrMan) (nKeyDrawn : UInt256) : CAddrMan :=
  { b.clear nKeyDrawn with nKey := a.nKey, nNew := a.nNew, nTried := a.nTried }

theorem loading_cleared (a b : CAddrMan) (nKeyDrawn : UInt256) :
    Loading a b 0 (cleared a b nKeyDrawn) where
  emptyNew := fun _ => rfl
  key := rfl
  nNew := rfl
  nTried := rfl
  vRandom := rfl
  entry := fun _ _ hi => absurd hi (Nat.not_lt_zero _)
  address := fun _ _ hi => absurd hi (Nat.not_lt_zero _)
  other := fun _ _ => rfl
  triedSlot := by
    intro slot
    rw [if_neg]
    · rfl
    · intro hand
      exact absurd hand.2 (Int.not_lt.mpr (Int.natCast_nonneg _))
  newSlot := fun _ hne => absurd rfl hne

theorem Loading.setIdCount {n : Nat} (h : Loading a b n s) (nIdCount : Int) :
    Loading a b n { s with nIdCount := nIdCount } :=
  { h with }

/-- One round of the loop over the entries of the new table. -/
theorem Loading.loadFresh (ha : a.Checked Hash) {n : Nat} (h : Loading a b n s) {e : Entry}
    (hget : a.written[n]? = some e) (hin : e.2.fInTried = false) :
    Loading a b (n + 1) (s.loadFresh Hash true (storedRecord e, n)) := by
  have hinfo : b.loaded n e =
      { (s.info (n : Int)).load (storedRecord e) with nRandomPos := s.vRandom.length } := by
    unfold loaded
    rw [hin, h.info_eq, h.length_vRandom]
    rfl
  apply h.next ha hget
  · rfl
  · rfl
  · rfl
  · rfl
  · rw [hinfo]
    rfl
  · rfl
  · rfl
  · intro slot
    rw [hin, if_neg (fun hand => Bool.false_ne_true hand.2)]
    rfl

/-- The loop over the entries of the new table. -/
theorem Checked.loading_fresh (ha : a.Checked Hash) (b : CAddrMan) (nKeyDrawn : UInt256) :
    Loading a b a.freshEntries.length
      (a.stored.fresh.zipIdx.foldl (fun s item => s.loadFresh Hash true item)
        (cleared a b nKeyDrawn)) := by
  have hlen : a.stored.fresh.zipIdx.length = a.freshEntries.length := by
    rw [List.length_zipIdx]
    exact List.length_map _
  rw [← hlen]
  apply foldl_invariant fun done s => Loading a b done.length s
  · exact loading_cleared a b nKeyDrawn
  · intro done item rest s hsplit h
    have hitem := getElem_of_split hsplit
    rw [List.getElem?_zipIdx, Option.map_eq_some_iff] at hitem
    rcases hitem with ⟨record, hrecord, rfl⟩
    change (a.freshEntries.map storedRecord)[done.length]? = some record at hrecord
    rw [List.getElem?_map, Option.map_eq_some_iff] at hrecord
    rcases hrecord with ⟨e, hfresh, rfl⟩
    have hlt := (List.getElem?_eq_some_iff.mp hfresh).1
    have hget : a.written[done.length]? = some e := by
      rw [written, List.getElem?_append_left hlt]
      exact hfresh
    have hcount := ha.length_freshEntries
    have hin := (ha.fInTried_of_getElem hget).mpr (by omega)
    rw [List.length_append, List.length_singleton, Nat.zero_add]
    exact h.loadFresh ha hget hin

/-- One round of the loop over the entries of the tried table: no slot is taken. -/
theorem Loading.loadTried (ha : a.Checked Hash) {n : Nat} (h : Loading a b n s)
    (hcount : s.nIdCount = n) {e : Entry} (hget : a.written[n]? = some e)
    (hin : e.2.fInTried = true) (nLost : Nat) :
    Loading a b (n + 1) (CAddrMan.loadTried Hash (s, nLost) (storedRecord e)).1 ∧
      (CAddrMan.loadTried Hash (s, nLost) (storedRecord e)).1.nIdCount = (n + 1 : Nat) ∧
      (CAddrMan.loadTried Hash (s, nLost) (storedRecord e)).2 = nLost := by
  have hinfo := ha.lookup_of_getElem hget
  have hslot : s.triedSlot Hash (CAddrInfo.init.load (storedRecord e)) = a.triedSlot Hash e.2 :=
    triedSlot_congr rfl h.key
  rcases ha.tables.tried _ _ hinfo hin with ⟨hne, hself⟩
  have hempty : s.vvTried (a.triedSlot Hash e.2) = -1 := by
    rw [h.triedSlot, hself, ha.newId_of_getElem hget, if_neg]
    exact fun hand => absurd hand.2 (Int.lt_irrefl _)
  unfold CAddrMan.loadTried
  dsimp only
  rw [hslot, if_pos hempty]
  refine ⟨?_, ?_, rfl⟩
  · apply h.next ha hget
    · rfl
    · rfl
    · rfl
    · rw [← hcount]
    · rw [← hcount]
      unfold loaded
      rw [hin, if_pos rfl, ← hcount, h.length_vRandom, hcount]
    · rw [← hcount]
      rfl
    · rfl
    · intro slot
      dsimp only
      rw [hin, hcount]
      by_cases hsame : slot = a.triedSlot Hash e.2
      · rw [hsame, Function.update_self, if_pos ⟨hself, rfl⟩]
      · rw [Function.update_of_ne hsame, if_neg]
        intro hand
        rcases ha.tables.triedSlot slot (by rw [hand.1]; exact hne) with ⟨info, hinfo', _, heq⟩
        rw [hand.1, hinfo] at hinfo'
        cases hinfo'
        exact hsame heq
  · dsimp only
    rw [hcount]
    rfl

/-- The new entries and some tried ones have been read, and none is lost. -/
structure LoadingTried (a b : CAddrMan) (done : List Record) (acc : CAddrMan × Nat) : Prop where
  loading : Loading a b (a.freshEntries.length + done.length) acc.1
  idCount : acc.1.nIdCount = (a.freshEntries.length + done.length : Nat)
  lost : acc.2 = 0

/-- The loop over the entries of the tried table. -/
theorem Checked.loading_tried (ha : a.Checked Hash) (h : Loading a b a.freshEntries.length s)
    (hcount : s.nIdCount = a.nNew) :
    LoadingTried a b a.stored.tried (a.stored.tried.foldl (CAddrMan.loadTried Hash) (s, 0)) := by
  have hinit : LoadingTried a b [] (s, 0) :=
    ⟨h, hcount.trans ha.length_freshEntries.symm, rfl⟩
  apply foldl_invariant (LoadingTried a b) a.stored.tried hinit
  intro done record rest acc hsplit hinv
  rcases acc with ⟨s', nLost⟩
  have hrecord := getElem_of_split hsplit
  change (a.triedEntries.map storedRecord)[done.length]? = some record at hrecord
  rw [List.getElem?_map, Option.map_eq_some_iff] at hrecord
  rcases hrecord with ⟨e, htried, rfl⟩
  have hget : a.written[a.freshEntries.length + done.length]? = some e := by
    rw [written, List.getElem?_append_right (Nat.le_add_right _ _), Nat.add_sub_cancel_left]
    exact htried
  have hin := ((mem_triedEntries_iff e.1 e.2).mp (List.mem_of_getElem? htried)).2
  rcases hinv.loading.loadTried ha hinv.idCount hget hin nLost with ⟨hnext, hid, hsame⟩
  constructor
  · rw [List.length_append, List.length_singleton, ← Nat.add_assoc]
    exact hnext
  · rw [List.length_append, List.length_singleton, ← Nat.add_assoc]
    exact hid
  · exact hsame.trans hinv.lost

/-!
# The loops over references
-/

theorem referred_succ (info : CAddrInfo) (count : Nat) :
    { referred info count with nRefCount := (referred info count).nRefCount + 1 } =
      referred info (count + 1) := by
  unfold referred
  rw [Nat.cast_succ, Int.add_assoc]

/-- A reference is counted by its entry, whatever was counted before. -/
theorem Loaded.addReference {n : Nat} (h : Loaded a b n s) (hn : a.nNew ≤ n)
    {nIndex : Int} (h0 : 0 ≤ nIndex) (hlt : nIndex < a.nNew)
    {slot : NewSlot} (hempty : s.vvNew slot = -1) : Loaded a b n (s.addReference nIndex slot) where
  key := h.key
  nNew := h.nNew
  nTried := h.nTried
  vRandom := h.vRandom
  entry := by
    intro i e hi hget
    have hold := h.entry i e hi hget
    unfold CAddrMan.addReference setInfo
    dsimp only
    rw [StdMap.lookup_insert_eq]
    by_cases heq : (i : Int) = nIndex
    · have hne : s.vvNew slot ≠ nIndex := by omega
      rw [if_pos heq, ← heq, references_update_self _ _ _ (heq ▸ hne), ← referred_succ,
        info_of_lookup hold]
    · have hne : s.vvNew slot ≠ (i : Int) := by omega
      rw [if_neg heq, references_update_of_ne _ _ _ _ hne (Ne.symm heq)]
      exact hold
  address := h.address
  other := by
    intro nId hid
    unfold CAddrMan.addReference setInfo
    dsimp only
    rw [StdMap.lookup_insert_eq, if_neg (by omega)]
    exact h.other nId hid
  triedSlot := h.triedSlot
  newSlot := by
    intro slot' hne
    change Function.update s.vvNew slot nIndex slot' ≠ -1 at hne
    change 0 ≤ Function.update s.vvNew slot nIndex slot' ∧
      Function.update s.vvNew slot nIndex slot' < a.nNew
    by_cases hsame : slot' = slot
    · rw [hsame, Function.update_self]
      exact ⟨h0, hlt⟩
    · rw [Function.update_of_ne hsame] at hne ⊢
      exact h.newSlot slot' hne

theorem Loaded.loadIndex {n : Nat} (h : Loaded a b n s) (hn : a.nNew ≤ n)
    (usable : Bool) (bucket : Nat) (nIndex : Int) :
    Loaded a b n (s.loadIndex Hash usable bucket nIndex) := by
  unfold CAddrMan.loadIndex
  dsimp only
  split_ifs with hrange hbucket hempty
  · rw [h.nNew] at hrange
    exact h.addReference hn hrange.1 hrange.2 hempty.1
  · exact h
  · exact h
  · exact h

theorem Loaded.loadBuckets {n : Nat} (h : Loaded a b n s) (hn : a.nNew ≤ n)
    (usable : Bool) (items : List (List Int × Nat)) :
    Loaded a b n (items.foldl (fun s item => s.loadBucket Hash usable item) s) := by
  induction items generalizing s with
  | nil => exact h
  | cons item rest ih =>
      apply ih
      unfold CAddrMan.loadBucket
      have hall : forall (indexes : List Int) (s : CAddrMan), Loaded a b n s ->
          Loaded a b n (indexes.foldl (fun s nIndex => s.loadIndex Hash usable item.2 nIndex) s) := by
        intro indexes
        induction indexes with
        | nil => exact fun s h => h
        | cons nIndex indexes ih' => exact fun s h => ih' _ (h.loadIndex hn usable item.2 nIndex)
      exact hall item.1 s h

/-!
# Before pruning
-/

theorem usable_stored (a : CAddrMan) : a.stored.usable = true :=
  decide_eq_true ⟨rfl, rfl⟩

/-- The object when all entries have been read. -/
def entered (a b : CAddrMan) (Hash : List UInt8 -> UInt256) (nKeyDrawn : UInt256) : CAddrMan :=
  let s1 := a.stored.fresh.zipIdx.foldl (fun s item => s.loadFresh Hash true item)
    (cleared a b nKeyDrawn)
  (a.stored.tried.foldl (CAddrMan.loadTried Hash) ({ s1 with nIdCount := s1.nNew }, 0)).1

theorem Checked.loading_entered (ha : a.Checked Hash) (b : CAddrMan) (nKeyDrawn : UInt256) :
    Loading a b a.written.length (entered a b Hash nKeyDrawn) ∧
      b.rebuild Hash a.stored nKeyDrawn =
        a.stored.bucketIndexes.zipIdx.foldl (fun s item => s.loadBucket Hash true item)
          (entered a b Hash nKeyDrawn) := by
  have hfresh := ha.loading_fresh b nKeyDrawn
  have htried := ha.loading_tried (hfresh.setIdCount _) hfresh.nNew
  have hlen : a.freshEntries.length + a.stored.tried.length = a.written.length := by
    rw [written, List.length_append]
    exact congrArg _ (List.length_map _)
  have hlost := htried.lost
  have hloading := htried.loading
  rw [hlen] at hloading
  have hnone : forall acc : CAddrMan × Nat, acc.2 = 0 ->
      { acc.1 with nTried := acc.1.nTried - acc.2 } = acc.1 := by
    intro acc hzero
    rw [hzero, Nat.cast_zero, Int.sub_zero]
  refine ⟨hloading, ?_⟩
  unfold rebuild
  rw [usable_stored]
  exact congrArg (fun s => a.stored.bucketIndexes.zipIdx.foldl
    (fun s item => s.loadBucket Hash true item) s) (hnone _ hlost)

end CAddrMan

end AddrMan
end Hbcur
