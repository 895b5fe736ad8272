import Mathlib.Data.Fintype.Prod
import Hbcur.AddrMan.State
import Hbcur.Foundation.Checks
import Hbcur.Foundation.Positions

/-!
# The consistency check

`Check_` of `addrman.cpp`, which is compiled under `DEBUG_ADDRMAN`, and the conditions under which
it returns zero.
-/

namespace Hbcur
namespace AddrMan

open Foundation Serialize Net

/-- The slots of a table, bucket by bucket. -/
@[irreducible]
def slots (count : Nat) : List (Fin count × Fin ADDRMAN_BUCKET_SIZE) :=
  (buckets count).product (buckets ADDRMAN_BUCKET_SIZE)

theorem nodup_buckets (count : Nat) : (buckets count).Nodup := by
  rw [buckets]
  exact List.nodup_finRange count

theorem mem_buckets {count : Nat} (bucket : Fin count) : bucket ∈ buckets count := by
  rw [buckets]
  exact List.mem_finRange bucket

namespace CAddrMan

variable (s : CAddrMan) (Hash : List UInt8 -> UInt256)

/-- `setTried`: the ids of the entries which are in tried. -/
def setTried : Finset Int :=
  (((StdMap.inOrder s.mapInfo).filter fun e => e.2.fInTried).map Sigma.fst).toFinset

/-- `mapNew`: the reference counts of the other entries. -/
def mapNew : StdMap Int Int :=
  StdMap.assignAll ∅ (((StdMap.inOrder s.mapInfo).filter fun e => !e.2.fInTried).map
    fun e => (e.1, e.2.nRefCount))

/-- `mapAddr[info]` is zero where the address is missing. -/
def checkEntry (e : Sigma fun _ : Int => CAddrInfo) : Except Int Unit := do
  onlyIf e.2.fInTried do
    require (decide (e.2.nLastSuccess ≠ 0)) (-1)
    require (decide (e.2.nRefCount = 0)) (-2)
  onlyIf (!e.2.fInTried) do
    require (decide (0 ≤ e.2.nRefCount ∧ e.2.nRefCount ≤ ADDRMAN_NEW_BUCKETS_PER_ADDRESS)) (-3)
    require (decide (e.2.nRefCount ≠ 0)) (-4)
  require (decide ((s.mapAddr.lookup e.2.toCNetAddr).getD 0 = e.1)) (-5)
  require (decide (0 ≤ e.2.nRandomPos ∧ s.vRandom[e.2.nRandomPos.toNat]? = some e.1)) (-14)
  require (decide (0 ≤ e.2.nLastTry.toInt)) (-6)
  require (decide (0 ≤ e.2.nLastSuccess.toInt)) (-8)

def checkTriedSlot (left : Finset Int) (slot : TriedSlot) : Except Int (Finset Int) :=
  let n := s.vvTried slot
  if n = -1 then Except.ok left
  else do
    require (decide (n ∈ left)) (-11)
    require (decide ((s.info n).getTriedBucket Hash s.nKey = slot.1)) (-17)
    require (decide ((s.info n).getBucketPosition Hash s.nKey false slot.1 = slot.2)) (-18)
    Except.ok (left.erase n)

/-- One reference less is expected; an entry without expected references is erased. -/
def countDown (left : StdMap Int Int) (n : Int) : StdMap Int Int :=
  let count := (left.lookup n).getD 0 - 1
  if count = 0 then left.erase n else left.insert n count

def checkNewSlot (left : StdMap Int Int) (slot : NewSlot) : Except Int (StdMap Int Int) :=
  let n := s.vvNew slot
  if n = -1 then Except.ok left
  else do
    require (StdMap.contains left n) (-12)
    require (decide ((s.info n).getBucketPosition Hash s.nKey true slot.1 = slot.2)) (-19)
    Except.ok (countDown left n)

def checkStructures : Except Int Unit := do
  require (decide ((s.vRandom.length : Int) = s.nTried + s.nNew)) (-7)
  forEach s.checkEntry (StdMap.inOrder s.mapInfo)
  require (decide ((s.setTried.card : Int) = s.nTried)) (-9)
  require (decide ((s.mapNew.entries.length : Int) = s.nNew)) (-10)
  let setTried ← accumulate (s.checkTriedSlot Hash) s.setTried (slots ADDRMAN_TRIED_BUCKET_COUNT)
  let mapNew ← accumulate (s.checkNewSlot Hash) s.mapNew (slots ADDRMAN_NEW_BUCKET_COUNT)
  require (decide (setTried.card = 0)) (-13)
  require (decide (mapNew.entries.length = 0)) (-15)

/-- `Check_`; the key is checked last. -/
def checks : Except Int Unit := do
  s.checkStructures Hash
  require (decide (s.nKey ≠ 0)) (-16)

/-- The value which `Check_` returns. -/
def check : Int :=
  match s.checks Hash with
  | Except.error err => err
  | Except.ok _ => 0

/-!
# What is checked
-/

/-- What the check asks of an entry by itself. -/
structure EntryChecked (nId : Int) (info : CAddrInfo) : Prop where
  tried : info.fInTried = true -> info.nLastSuccess ≠ 0 ∧ info.nRefCount = 0
  fresh : info.fInTried = false ->
    0 < info.nRefCount ∧ info.nRefCount ≤ ADDRMAN_NEW_BUCKETS_PER_ADDRESS
  address : (s.mapAddr.lookup info.toCNetAddr).getD 0 = nId
  position : 0 ≤ info.nRandomPos ∧ s.vRandom[info.nRandomPos.toNat]? = some nId
  lastTry : 0 ≤ info.nLastTry.toInt
  lastSuccess : 0 ≤ info.nLastSuccess.toInt

/-- What the check asks of the tables. -/
structure TablesChecked : Prop where
  triedSlot : forall slot, s.vvTried slot ≠ -1 -> exists info,
    s.mapInfo.lookup (s.vvTried slot) = some info ∧ info.fInTried = true ∧
      slot = s.triedSlot Hash info
  tried : forall nId info, s.mapInfo.lookup nId = some info -> info.fInTried = true ->
    nId ≠ -1 ∧ s.vvTried (s.triedSlot Hash info) = nId
  newSlot : forall slot, s.vvNew slot ≠ -1 -> exists info,
    s.mapInfo.lookup (s.vvNew slot) = some info ∧ info.fInTried = false ∧
      slot = s.slotIn Hash info slot.1
  fresh : forall nId info, s.mapInfo.lookup nId = some info -> info.fInTried = false ->
    nId ≠ -1 ∧ (references s.vvNew nId : Int) = info.nRefCount

/-- Everything but the key. -/
structure Checked : Prop where
  total : (s.vRandom.length : Int) = s.nTried + s.nNew
  entry : forall nId info, s.mapInfo.lookup nId = some info -> s.EntryChecked nId info
  countTried : (StdMap.countValues s.mapInfo (fun info => info.fInTried) : Int) = s.nTried
  countNew : (StdMap.countValues s.mapInfo (fun info => !info.fInTried) : Int) = s.nNew
  tables : s.TablesChecked Hash

/-!
# The loop over the tried table
-/

theorem checkEntry_eq_ok_iff (nId : Int) (info : CAddrInfo) :
    s.checkEntry ⟨nId, info⟩ = Except.ok () <-> s.EntryChecked nId info := by
  unfold checkEntry
  simp only [then_eq_ok_iff, onlyIf_eq_ok_iff, require_eq_ok_iff, decide_eq_true_iff,
    Bool.not_eq_true']
  constructor
  · intro h
    rcases h with ⟨htried, hfresh, haddress, hposition, htry, hsuccess⟩
    refine ⟨htried, ?_, haddress, hposition, htry, hsuccess⟩
    intro hnot
    have hcount := hfresh hnot
    omega
  · intro h
    refine ⟨h.tried, ?_, h.address, h.position, h.lastTry, h.lastSuccess⟩
    intro hnot
    have hcount := h.fresh hnot
    omega

theorem mem_setTried_iff (nId : Int) :
    nId ∈ s.setTried <-> exists info, s.mapInfo.lookup nId = some info ∧ info.fInTried = true := by
  unfold setTried
  rw [List.mem_toFinset, List.mem_map]
  constructor
  · intro h
    rcases h with ⟨⟨n, info⟩, hmem, rfl⟩
    rw [List.mem_filter, StdMap.mem_inOrder_iff] at hmem
    exact ⟨info, hmem⟩
  · intro h
    rcases h with ⟨info, hmem⟩
    exact ⟨⟨nId, info⟩, List.mem_filter.mpr
      ⟨(StdMap.mem_inOrder_iff _ _ _).mpr hmem.1, hmem.2⟩, rfl⟩

theorem card_setTried :
    s.setTried.card = StdMap.countValues s.mapInfo fun info => info.fInTried := by
  unfold setTried StdMap.countValues
  have hnodup : (((StdMap.inOrder s.mapInfo).filter fun e => e.2.fInTried).map Sigma.fst).Nodup :=
    (StdMap.nodup_keys_inOrder s.mapInfo).sublist (List.filter_sublist.map Sigma.fst)
  rw [List.toFinset_card_of_nodup hnodup, List.length_map, ← List.countP_eq_length_filter,
    (StdMap.perm_inOrder s.mapInfo).countP_eq]

theorem nodup_slots (count : Nat) : (slots count).Nodup := by
  rw [slots]
  exact (nodup_buckets count).product (nodup_buckets ADDRMAN_BUCKET_SIZE)

theorem mem_slots {count : Nat} (slot : Fin count × Fin ADDRMAN_BUCKET_SIZE) :
    slot ∈ slots count := by
  rw [slots, List.product, List.mem_flatMap]
  exact ⟨slot.1, mem_buckets _, List.mem_map.mpr ⟨slot.2, mem_buckets _, rfl⟩⟩

theorem checkTriedSlot_eq_ok_iff (left left' : Finset Int) (slot : TriedSlot) :
    s.checkTriedSlot Hash left slot = Except.ok left' <->
      (s.vvTried slot = -1 ∧ left' = left) ∨
        (s.vvTried slot ≠ -1 ∧ s.vvTried slot ∈ left ∧
          slot = s.triedSlot Hash (s.info (s.vvTried slot)) ∧
          left' = left.erase (s.vvTried slot)) := by
  unfold checkTriedSlot
  by_cases hempty : s.vvTried slot = -1
  · simp [hempty, eq_comm]
  · dsimp only
    rw [if_neg hempty]
    simp only [then_eq_ok_iff, require_eq_ok_iff, decide_eq_true_iff, hempty,
      false_and, false_or, ne_eq, not_false_eq_true, true_and, Except.ok.injEq]
    apply and_congr_right
    intro _
    constructor
    · intro h
      rcases h with ⟨hbucket, hposition, hleft⟩
      refine ⟨?_, hleft.symm⟩
      unfold triedSlot
      rw [hbucket, hposition]
    · intro h
      have hbucket : slot.1 = _ := congrArg Prod.fst h.1
      have hposition : slot.2 = _ := congrArg Prod.snd h.1
      refine ⟨hbucket.symm, ?_, h.2.symm⟩
      rw [hbucket]
      exact hposition.symm

/-- The ids in some slots of the tried table. -/
def triedIn (L : List TriedSlot) : Finset Int :=
  ((L.map s.vvTried).filter (· ≠ -1)).toFinset

/-- The slot of an id is determined by its entry, so that no id is seen twice. -/
theorem accumulate_checkTriedSlot_iff :
    forall (L : List TriedSlot) (left left' : Finset Int), L.Nodup ->
      (accumulate (s.checkTriedSlot Hash) left L = Except.ok left' <->
        (forall slot, slot ∈ L -> s.vvTried slot ≠ -1 ->
          s.vvTried slot ∈ left ∧ slot = s.triedSlot Hash (s.info (s.vvTried slot))) ∧
        left' = left \ s.triedIn L) := by
  intro L
  induction L with
  | nil =>
      intro left left' _
      simp [accumulate, triedIn, eq_comm]
  | cons slot rest ih =>
      intro left left' hnodup
      rw [List.nodup_cons] at hnodup
      simp only [accumulate, bind_eq_ok_iff, checkTriedSlot_eq_ok_iff, ih _ _ hnodup.2,
        List.forall_mem_cons]
      by_cases hempty : s.vvTried slot = -1
      · have hrest : s.triedIn (slot :: rest) = s.triedIn rest := by
          unfold triedIn
          rw [List.map_cons, List.filter_cons_of_neg (by simp [hempty])]
        simp [hempty, hrest]
      · have hrest : s.triedIn (slot :: rest) = insert (s.vvTried slot) (s.triedIn rest) := by
          unfold triedIn
          rw [List.map_cons, List.filter_cons_of_pos (by simp [hempty]), List.toFinset_cons]
        have hother : forall slot', slot' ∈ rest ->
            slot = s.triedSlot Hash (s.info (s.vvTried slot)) ->
            slot' = s.triedSlot Hash (s.info (s.vvTried slot')) ->
            s.vvTried slot' ≠ s.vvTried slot := by
          intro slot' hmem hslot hslot' heq
          rw [heq, ← hslot] at hslot'
          exact hnodup.1 (hslot' ▸ hmem)
        constructor
        · intro h
          rcases h with ⟨acc, hacc, hall, hleft⟩
          rcases hacc with hacc | hacc
          · exact absurd hacc.1 hempty
          · rcases hacc with ⟨_, hmem, hslot, rfl⟩
            refine ⟨⟨fun _ => ⟨hmem, hslot⟩, ?_⟩, ?_⟩
            · intro slot' hmem' hne
              exact ⟨Finset.mem_of_mem_erase (hall slot' hmem' hne).1, (hall slot' hmem' hne).2⟩
            · rw [hleft, hrest, Finset.sdiff_insert, Finset.erase_sdiff_comm]
        · intro h
          rcases h with ⟨⟨hslot, hall⟩, hleft⟩
          refine ⟨left.erase (s.vvTried slot),
            Or.inr ⟨hempty, (hslot hempty).1, (hslot hempty).2, rfl⟩, ?_, ?_⟩
          · intro slot' hmem' hne
            have h' := hall slot' hmem' hne
            exact ⟨Finset.mem_erase.mpr
              ⟨hother slot' hmem' (hslot hempty).2 h'.2, h'.1⟩, h'.2⟩
          · rw [hleft, hrest, Finset.sdiff_insert, Finset.erase_sdiff_comm]

/-!
# The loop over the new table
-/

/-- How many references of an id are still expected. -/
def expected (left : StdMap Int Int) (nId : Int) : Int := (left.lookup nId).getD 0

def AllPositive (left : StdMap Int Int) : Prop :=
  forall nId count, left.lookup nId = some count -> 0 < count

theorem lookup_countDown {left : StdMap Int Int} {n count : Int} (h : left.lookup n = some count)
    (nId : Int) :
    (countDown left n).lookup nId =
      if nId = n then (if count = 1 then none else some (count - 1)) else left.lookup nId := by
  unfold countDown
  rw [h, Option.getD_some]
  by_cases hone : count = 1
  · rw [if_pos (by omega), StdMap.lookup_erase_eq, if_pos hone]
  · rw [if_neg (by omega), StdMap.lookup_insert_eq, if_neg hone]

theorem AllPositive.countDown {left : StdMap Int Int} (h : AllPositive left) {n count : Int}
    (hn : left.lookup n = some count) : AllPositive (countDown left n) := by
  intro nId k hk
  rw [lookup_countDown hn] at hk
  have hpos := h n count hn
  split_ifs at hk with hid hone
  · have hcount := Option.some.inj hk
    omega
  · exact h nId k hk

theorem expected_countDown {left : StdMap Int Int} {n count : Int} (hn : left.lookup n = some count)
    (nId : Int) :
    expected (countDown left n) nId = expected left nId - if nId = n then 1 else 0 := by
  unfold expected
  rw [lookup_countDown hn]
  by_cases hid : nId = n
  · rw [if_pos hid, if_pos hid, hid, hn]
    by_cases hone : count = 1
    · rw [if_pos hone, hone]
      rfl
    · rw [if_neg hone]
      rfl
  · rw [if_neg hid, if_neg hid, Int.sub_zero]

theorem AllPositive.length_eq_zero_iff {left : StdMap Int Int} (h : AllPositive left) :
    left.entries.length = 0 <-> forall nId, expected left nId = 0 := by
  constructor
  · intro hlen nId
    have hnone : left.lookup nId = none := by
      unfold AList.lookup
      rw [List.length_eq_zero_iff.mp hlen]
      rfl
    unfold expected
    rw [hnone]
    rfl
  · intro hall
    rw [List.length_eq_zero_iff, List.eq_nil_iff_forall_not_mem]
    intro e hmem
    have hlookup : left.lookup e.1 = some e.2 := AList.mem_lookup_iff.mpr hmem
    have hpos := h e.1 e.2 hlookup
    have hzero := hall e.1
    unfold expected at hzero
    rw [hlookup, Option.getD_some] at hzero
    omega

theorem checkNewSlot_eq_ok_iff (left left' : StdMap Int Int) (slot : NewSlot) :
    s.checkNewSlot Hash left slot = Except.ok left' <->
      (s.vvNew slot = -1 ∧ left' = left) ∨
        (s.vvNew slot ≠ -1 ∧ (exists count, left.lookup (s.vvNew slot) = some count) ∧
          slot = s.slotIn Hash (s.info (s.vvNew slot)) slot.1 ∧
          left' = countDown left (s.vvNew slot)) := by
  unfold checkNewSlot
  by_cases hempty : s.vvNew slot = -1
  · simp [hempty, eq_comm]
  · dsimp only
    rw [if_neg hempty]
    simp only [then_eq_ok_iff, require_eq_ok_iff, decide_eq_true_iff, hempty, false_and, false_or,
      ne_eq, not_false_eq_true, true_and, Except.ok.injEq, StdMap.contains_iff]
    apply and_congr_right
    intro _
    constructor
    · intro h
      refine ⟨?_, h.2.symm⟩
      unfold slotIn
      rw [h.1]
    · intro h
      have hposition : slot.2 = _ := congrArg Prod.snd h.1
      exact ⟨hposition.symm, h.2.symm⟩

/-- Every reference is at its own position, and each id is referred to as often as expected. -/
theorem accumulate_checkNewSlot_iff :
    forall (L : List NewSlot) (left : StdMap Int Int), AllPositive left ->
      ((exists left', accumulate (s.checkNewSlot Hash) left L = Except.ok left' ∧
          left'.entries.length = 0) <->
        (forall slot, slot ∈ L -> s.vvNew slot ≠ -1 ->
          slot = s.slotIn Hash (s.info (s.vvNew slot)) slot.1) ∧
        forall nId, expected left nId =
          if nId = -1 then 0 else ((L.map s.vvNew).count nId : Int)) := by
  intro L
  induction L with
  | nil =>
      intro left hpos
      simpa [accumulate] using hpos.length_eq_zero_iff
  | cons slot rest ih =>
      intro left hpos
      simp only [accumulate, bind_eq_ok_iff, checkNewSlot_eq_ok_iff, List.forall_mem_cons,
        List.map_cons]
      by_cases hempty : s.vvNew slot = -1
      · have hcount : forall nId : Int, nId ≠ -1 ->
            (s.vvNew slot :: rest.map s.vvNew).count nId = (rest.map s.vvNew).count nId := by
          intro nId hne
          exact List.count_cons_of_ne (by rw [hempty]; exact Ne.symm hne)
        have hsame : (forall nId, expected left nId =
              if nId = -1 then 0 else ((s.vvNew slot :: rest.map s.vvNew).count nId : Int)) <->
            forall nId, expected left nId =
              if nId = -1 then 0 else ((rest.map s.vvNew).count nId : Int) := by
          apply forall_congr'
          intro nId
          by_cases hid : nId = -1
          · rw [if_pos hid, if_pos hid]
          · rw [if_neg hid, if_neg hid, hcount nId hid]
        rw [hsame]
        simpa [hempty] using ih left hpos
      · constructor
        · intro h
          rcases h with ⟨left', ⟨acc, hacc, hrun⟩, hlen⟩
          rcases hacc with hacc | hacc
          · exact absurd hacc.1 hempty
          · rcases hacc with ⟨_, ⟨count, hlookup⟩, hslot, rfl⟩
            have hrest := (ih _ (hpos.countDown hlookup)).mp ⟨left', hrun, hlen⟩
            refine ⟨⟨fun _ => hslot, hrest.1⟩, ?_⟩
            intro nId
            have hexp := hrest.2 nId
            rw [expected_countDown hlookup] at hexp
            by_cases hid : nId = s.vvNew slot
            · subst hid
              rw [if_neg hempty] at hexp ⊢
              rw [if_pos rfl] at hexp
              rw [List.count_cons_self]
              omega
            · rw [List.count_cons_of_ne (Ne.symm hid), ← hexp, if_neg hid, Int.sub_zero]
        · intro h
          rcases h with ⟨⟨hslot, hall⟩, hexp⟩
          have hself := hexp (s.vvNew slot)
          rw [if_neg hempty, List.count_cons_self] at hself
          cases hlookup : left.lookup (s.vvNew slot) with
          | none =>
              unfold expected at hself
              rw [hlookup, Option.getD_none] at hself
              omega
          | some count =>
              have hrest : exists left', accumulate (s.checkNewSlot Hash)
                  (countDown left (s.vvNew slot)) rest = Except.ok left' ∧
                  left'.entries.length = 0 := by
                apply (ih _ (hpos.countDown hlookup)).mpr
                refine ⟨hall, ?_⟩
                intro nId
                have hid := hexp nId
                rw [expected_countDown hlookup, hid]
                by_cases heq : nId = s.vvNew slot
                · subst heq
                  rw [if_neg hempty, if_pos rfl, if_neg hempty, List.count_cons_self]
                  omega
                · rw [if_neg heq, Int.sub_zero, List.count_cons_of_ne (Ne.symm heq)]
              rcases hrest with ⟨left', hrun, hlen⟩
              exact ⟨left', ⟨countDown left (s.vvNew slot),
                Or.inr ⟨hempty, ⟨count, rfl⟩, hslot hempty, rfl⟩, hrun⟩, hlen⟩

/-!
# The whole check
-/

variable {s}

theorem info_of_lookup {nId : Int} {info : CAddrInfo} (h : s.mapInfo.lookup nId = some info) :
    s.info nId = info := by
  unfold CAddrMan.info
  rw [h, Option.getD_some]

variable (s)

theorem map_fst_fresh :
    (((StdMap.inOrder s.mapInfo).filter fun e => !e.2.fInTried).map
      fun e => (e.1, e.2.nRefCount)).map Prod.fst =
    ((StdMap.inOrder s.mapInfo).filter fun e => !e.2.fInTried).map Sigma.fst := by
  rw [List.map_map]
  rfl

theorem nodup_fresh :
    (((StdMap.inOrder s.mapInfo).filter fun e => !e.2.fInTried).map Sigma.fst).Nodup :=
  (StdMap.nodup_keys_inOrder s.mapInfo).sublist (List.filter_sublist.map Sigma.fst)

theorem lookup_mapNew_of_fresh {nId : Int} {info : CAddrInfo}
    (h : s.mapInfo.lookup nId = some info) (hfresh : info.fInTried = false) :
    s.mapNew.lookup nId = some info.nRefCount := by
  apply StdMap.lookup_assignAll_of_mem
  · rw [map_fst_fresh]
    exact s.nodup_fresh
  · apply List.mem_map.mpr
    refine ⟨⟨nId, info⟩, List.mem_filter.mpr ⟨(StdMap.mem_inOrder_iff _ _ _).mpr h, ?_⟩, rfl⟩
    simp [hfresh]

theorem fresh_of_lookup_mapNew {nId count : Int} (h : s.mapNew.lookup nId = some count) :
    exists info, s.mapInfo.lookup nId = some info ∧ info.fInTried = false ∧
      info.nRefCount = count := by
  by_cases hmem : nId ∈ ((StdMap.inOrder s.mapInfo).filter fun e => !e.2.fInTried).map Sigma.fst
  · rcases List.mem_map.mp hmem with ⟨⟨n, info⟩, hentry, rfl⟩
    rw [List.mem_filter, StdMap.mem_inOrder_iff] at hentry
    have hfresh : info.fInTried = false := by simpa using hentry.2
    rw [s.lookup_mapNew_of_fresh hentry.1 hfresh] at h
    exact ⟨info, hentry.1, hfresh, Option.some.inj h⟩
  · rw [← map_fst_fresh] at hmem
    have hnone := StdMap.lookup_assignAll_of_notMem (∅ : StdMap Int Int) nId hmem
    change s.mapNew.lookup nId = none at hnone
    rw [hnone] at h
    cases h

theorem length_mapNew :
    s.mapNew.entries.length = StdMap.countValues s.mapInfo fun info => !info.fInTried := by
  unfold mapNew
  rw [StdMap.length_entries_assignAll ∅ (by rw [map_fst_fresh]; exact s.nodup_fresh)
    (fun _ _ => rfl), List.length_map, ← List.countP_eq_length_filter,
    (StdMap.perm_inOrder s.mapInfo).countP_eq]
  exact Nat.zero_add _

theorem checkTried_iff :
    (exists left, accumulate (s.checkTriedSlot Hash) s.setTried
        (slots ADDRMAN_TRIED_BUCKET_COUNT) = Except.ok left ∧ left.card = 0) <->
      (forall slot, s.vvTried slot ≠ -1 -> exists info,
        s.mapInfo.lookup (s.vvTried slot) = some info ∧ info.fInTried = true ∧
          slot = s.triedSlot Hash info) ∧
      forall nId info, s.mapInfo.lookup nId = some info -> info.fInTried = true ->
        nId ≠ -1 ∧ s.vvTried (s.triedSlot Hash info) = nId := by
  simp only [accumulate_checkTriedSlot_iff s Hash _ _ _ (nodup_slots _)]
  constructor
  · intro h
    rcases h with ⟨left, ⟨hall, rfl⟩, hcard⟩
    have hslot : forall slot, s.vvTried slot ≠ -1 -> exists info,
        s.mapInfo.lookup (s.vvTried slot) = some info ∧ info.fInTried = true ∧
          slot = s.triedSlot Hash info := by
      intro slot hne
      rcases hall slot (mem_slots slot) hne with ⟨hmem, hslot⟩
      rcases (s.mem_setTried_iff _).mp hmem with ⟨info, hlookup, htried⟩
      rw [info_of_lookup hlookup] at hslot
      exact ⟨info, hlookup, htried, hslot⟩
    refine ⟨hslot, ?_⟩
    intro nId info hlookup htried
    have hmem : nId ∈ s.triedIn (slots ADDRMAN_TRIED_BUCKET_COUNT) := by
      rw [Finset.card_eq_zero, Finset.sdiff_eq_empty_iff_subset] at hcard
      exact hcard ((s.mem_setTried_iff nId).mpr ⟨info, hlookup, htried⟩)
    unfold triedIn at hmem
    rw [List.mem_toFinset, List.mem_filter, List.mem_map] at hmem
    rcases hmem with ⟨⟨slot, _, rfl⟩, hne⟩
    have hne' : s.vvTried slot ≠ -1 := by simpa using hne
    rcases hslot slot hne' with ⟨info', hlookup', _, heq⟩
    rw [hlookup] at hlookup'
    cases hlookup'
    exact ⟨hne', by rw [← heq]⟩
  · intro h
    rcases h with ⟨hslot, htried⟩
    refine ⟨_, ⟨?_, rfl⟩, ?_⟩
    · intro slot _ hne
      rcases hslot slot hne with ⟨info, hlookup, hin, heq⟩
      rw [info_of_lookup hlookup]
      exact ⟨(s.mem_setTried_iff _).mpr ⟨info, hlookup, hin⟩, heq⟩
    · rw [Finset.card_eq_zero, Finset.sdiff_eq_empty_iff_subset]
      intro nId hmem
      rcases (s.mem_setTried_iff nId).mp hmem with ⟨info, hlookup, hin⟩
      rcases htried nId info hlookup hin with ⟨hne, heq⟩
      unfold triedIn
      rw [List.mem_toFinset, List.mem_filter, List.mem_map]
      exact ⟨⟨_, mem_slots _, heq⟩, by simpa using hne⟩

theorem checkNew_iff (hpos : AllPositive s.mapNew) :
    (exists left, accumulate (s.checkNewSlot Hash) s.mapNew
        (slots ADDRMAN_NEW_BUCKET_COUNT) = Except.ok left ∧ left.entries.length = 0) <->
      (forall slot, s.vvNew slot ≠ -1 -> exists info,
        s.mapInfo.lookup (s.vvNew slot) = some info ∧ info.fInTried = false ∧
          slot = s.slotIn Hash info slot.1) ∧
      forall nId info, s.mapInfo.lookup nId = some info -> info.fInTried = false ->
        nId ≠ -1 ∧ (references s.vvNew nId : Int) = info.nRefCount := by
  rw [accumulate_checkNewSlot_iff s Hash _ _ hpos]
  simp only [count_map_eq_references s.vvNew _ (nodup_slots _) mem_slots]
  constructor
  · intro h
    rcases h with ⟨hslot, hexp⟩
    constructor
    · intro slot hne
      have hcount := hexp (s.vvNew slot)
      have href : 0 < references s.vvNew (s.vvNew slot) := (references_pos_iff _ _).mpr ⟨slot, rfl⟩
      rw [if_neg hne] at hcount
      cases hlookup : s.mapNew.lookup (s.vvNew slot) with
      | none =>
          unfold expected at hcount
          rw [hlookup, Option.getD_none] at hcount
          omega
      | some count =>
          rcases s.fresh_of_lookup_mapNew hlookup with ⟨info, hinfo, hfresh, _⟩
          have heq := hslot slot (mem_slots slot) hne
          rw [info_of_lookup hinfo] at heq
          exact ⟨info, hinfo, hfresh, heq⟩
    · intro nId info hlookup hfresh
      have hnew := s.lookup_mapNew_of_fresh hlookup hfresh
      have hpositive := hpos nId _ hnew
      have hcount := hexp nId
      unfold expected at hcount
      rw [hnew, Option.getD_some] at hcount
      by_cases hid : nId = -1
      · rw [if_pos hid] at hcount
        omega
      · rw [if_neg hid] at hcount
        exact ⟨hid, hcount.symm⟩
  · intro h
    rcases h with ⟨hslot, hfresh⟩
    constructor
    · intro slot _ hne
      rcases hslot slot hne with ⟨info, hlookup, _, heq⟩
      rw [info_of_lookup hlookup]
      exact heq
    · intro nId
      unfold expected
      cases hlookup : s.mapNew.lookup nId with
      | some count =>
          rcases s.fresh_of_lookup_mapNew hlookup with ⟨info, hinfo, hnot, rfl⟩
          rcases hfresh nId info hinfo hnot with ⟨hne, hcount⟩
          rw [if_neg hne, hcount, Option.getD_some]
      | none =>
          by_cases hid : nId = -1
          · rw [if_pos hid, Option.getD_none]
          · have hzero : references s.vvNew nId = 0 := by
              rw [references_eq_zero_iff]
              intro slot heq
              rcases hslot slot (heq ▸ hid) with ⟨info, hinfo, hnot, _⟩
              rw [heq] at hinfo
              rw [s.lookup_mapNew_of_fresh hinfo hnot] at hlookup
              cases hlookup
            rw [if_neg hid, hzero]
            rfl

theorem checkStructures_eq_ok_iff : s.checkStructures Hash = Except.ok () <-> s.Checked Hash := by
  have hentries : (forall e, e ∈ StdMap.inOrder s.mapInfo -> s.checkEntry e = Except.ok ()) <->
      forall nId info, s.mapInfo.lookup nId = some info -> s.EntryChecked nId info := by
    constructor
    · intro h nId info hlookup
      exact (s.checkEntry_eq_ok_iff nId info).mp
        (h ⟨nId, info⟩ ((StdMap.mem_inOrder_iff _ _ _).mpr hlookup))
    · intro h e hmem
      exact (s.checkEntry_eq_ok_iff e.1 e.2).mpr
        (h e.1 e.2 ((StdMap.mem_inOrder_iff _ _ _).mp hmem))
  have hpositive : (forall nId info, s.mapInfo.lookup nId = some info -> s.EntryChecked nId info) ->
      AllPositive s.mapNew := by
    intro hentry nId count hlookup
    rcases s.fresh_of_lookup_mapNew hlookup with ⟨info, hinfo, hfresh, rfl⟩
    exact ((hentry nId info hinfo).fresh hfresh).1
  unfold checkStructures
  simp only [bind_eq_ok_iff, require_eq_ok_iff, decide_eq_true_iff, forEach_eq_ok_iff, hentries,
    card_setTried, length_mapNew, exists_const]
  constructor
  · intro h
    rcases h with ⟨htotal, hentry, htried, hnew, left, hleft, left', hleft', hcard, hlen⟩
    have htables := (s.checkTried_iff Hash).mp ⟨left, hleft, hcard⟩
    have htables' := (s.checkNew_iff Hash (hpositive hentry)).mp ⟨left', hleft', hlen⟩
    exact ⟨htotal, hentry, htried, hnew, ⟨htables.1, htables.2, htables'.1, htables'.2⟩⟩
  · intro h
    rcases (s.checkTried_iff Hash).mpr ⟨h.tables.triedSlot, h.tables.tried⟩
      with ⟨left, hleft, hcard⟩
    rcases (s.checkNew_iff Hash (hpositive h.entry)).mpr ⟨h.tables.newSlot, h.tables.fresh⟩
      with ⟨left', hleft', hlen⟩
    exact ⟨h.total, h.entry, h.countTried, h.countNew, left, hleft, left', hleft', hcard, hlen⟩

/-- No return value of the check but the last is zero. -/
theorem ensures_checkStructures :
    Ensures (fun err => err ≠ 0) (fun _ => True) (s.checkStructures Hash) := by
  unfold checkStructures
  apply ensures_then (ensures_check (by decide))
  intro _
  apply ensures_then
  · apply ensures_forEach
    intro e
    unfold checkEntry
    apply ensures_then
    · exact ensures_onlyIf
        (ensures_then (ensures_check (by decide)) fun _ => ensures_check (by decide))
    intro _
    apply ensures_then
    · exact ensures_onlyIf
        (ensures_then (ensures_check (by decide)) fun _ => ensures_check (by decide))
    intro _
    apply ensures_then (ensures_check (by decide))
    intro _
    apply ensures_then (ensures_check (by decide))
    intro _
    exact ensures_then (ensures_check (by decide)) fun _ => ensures_check (by decide)
  intro _
  apply ensures_then (ensures_check (by decide))
  intro _
  apply ensures_then (ensures_check (by decide))
  intro _
  apply ensures_then
  · apply ensures_accumulate
    intro left slot
    unfold checkTriedSlot
    apply ensures_ite
    · exact fun _ => trivial
    intro _
    apply ensures_then (ensures_check (by decide))
    intro _
    exact ensures_then (ensures_check (by decide)) fun _ =>
      ensures_then (ensures_check (by decide)) fun _ => trivial
  intro _
  apply ensures_then
  · apply ensures_accumulate
    intro left slot
    unfold checkNewSlot
    apply ensures_ite
    · exact fun _ => trivial
    intro _
    exact ensures_then (ensures_check (by decide)) fun _ =>
      ensures_then (ensures_check (by decide)) fun _ => trivial
  intro _
  exact ensures_then (ensures_check (by decide)) fun _ => ensures_check (by decide)

theorem check_of_checked (h : s.Checked Hash) :
    s.check Hash = if s.nKey = 0 then -16 else 0 := by
  have hstructures := (s.checkStructures_eq_ok_iff Hash).mpr h
  unfold check checks
  rw [hstructures]
  by_cases hkey : s.nKey = 0
  · rw [if_pos hkey, hkey]
    rfl
  · rw [if_neg hkey, decide_eq_true hkey]
    rfl

theorem check_eq_zero_iff : s.check Hash = 0 <-> s.Checked Hash ∧ s.nKey ≠ 0 := by
  constructor
  · intro h
    cases hresult : s.checkStructures Hash with
    | error err =>
        have hne := (s.ensures_checkStructures Hash).of_error hresult
        unfold check checks at h
        rw [hresult] at h
        exact absurd h hne
    | ok u =>
        have hchecked := (s.checkStructures_eq_ok_iff Hash).mp hresult
        refine ⟨hchecked, ?_⟩
        intro hkey
        rw [s.check_of_checked Hash hchecked, if_pos hkey] at h
        cases h
  · intro h
    rw [s.check_of_checked Hash h.1, if_neg h.2]

end CAddrMan

end AddrMan
end Hbcur
