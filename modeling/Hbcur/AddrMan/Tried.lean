import Hbcur.AddrMan.Deletion

/-!
# Moving entries to the tried table

`MakeTried` clears the references of an entry, makes space in the tried table by moving an entry
back, which may delete a third one, and keeps the invariant.
-/

namespace Hbcur
namespace AddrMan

open Foundation Serialize Net

namespace CAddrMan

variable {s s' : CAddrMan} {Hash : List UInt8 -> UInt256} {nKey : UInt256} {limbo : List Int}
  {missing : Int} {nId : Int} {info : CAddrInfo}

/-!
# Clearing the references
-/

/-- What clearing some buckets leaves. -/
structure Cleared (nId : Int) (info : CAddrInfo) (buckets : List (Fin ADDRMAN_NEW_BUCKET_COUNT))
    (s s' : CAddrMan) : Prop where
  key : s'.nKey = s.nKey
  nNew : s'.nNew = s.nNew
  info : exists count, s'.mapInfo.lookup nId = some { info with nRefCount := count }
  slots : forall slot, s'.vvNew slot = nId -> s.vvNew slot = nId ∧ slot.1 ∉ buckets

theorem Kept.clearBucket (h : Kept Hash nKey [nId] missing s)
    (hinfo : s.mapInfo.lookup nId = some info) (bucket : Fin ADDRMAN_NEW_BUCKET_COUNT) :
    Kept Hash nKey [nId] missing (s.clearBucket Hash nId bucket) ∧
      Cleared nId info [bucket] s (s.clearBucket Hash nId bucket) := by
  have hid := h.ne_empty hinfo
  have hown : forall slot, s.vvNew slot = nId -> slot.1 = bucket ->
      slot = s.slotIn Hash (s.info nId) bucket := by
    intro slot heq hbucket
    rw [info_of_lookup hinfo, ← hbucket]
    exact (h.tables.slot_of_new hinfo hid heq).2
  unfold CAddrMan.clearBucket
  by_cases hslot : s.vvNew (s.slotIn Hash (s.info nId) bucket) = nId
  · dsimp only
    rw [if_pos hslot]
    rcases h.dropReference hinfo hslot with ⟨hkept, hinfo'⟩
    constructor
    · apply hkept.relabel
      intro n hmem hnot _ _ _
      rcases List.mem_cons.mp hmem with rfl | hmem
      · exact absurd List.mem_cons_self hnot
      · exact absurd hmem hnot
    · refine ⟨rfl, rfl, ⟨_, hinfo'⟩, ?_⟩
      intro slot heq
      have hne : slot ≠ s.slotIn Hash (s.info nId) bucket := by
        intro hs
        have hupdate : Function.update s.vvNew (s.slotIn Hash (s.info nId) bucket) (-1) slot =
            nId := heq
        rw [hs, Function.update_self] at hupdate
        exact hid hupdate.symm
      have hold : s.vvNew slot = nId := by
        rw [← heq]
        exact (Function.update_of_ne hne _ _).symm
      refine ⟨hold, ?_⟩
      intro hmem
      exact hne (hown slot hold (List.mem_singleton.mp hmem))
  · dsimp only
    rw [if_neg hslot]
    refine ⟨h, rfl, rfl, ⟨info.nRefCount, hinfo⟩, ?_⟩
    intro slot heq
    refine ⟨heq, ?_⟩
    intro hmem
    have hs := hown slot heq (List.mem_singleton.mp hmem)
    exact hslot (hs ▸ heq)

theorem Kept.clearBucketList :
    forall (buckets : List (Fin ADDRMAN_NEW_BUCKET_COUNT)) (s : CAddrMan) (info : CAddrInfo),
      Kept Hash nKey [nId] missing s -> s.mapInfo.lookup nId = some info ->
      Kept Hash nKey [nId] missing (buckets.foldl (fun s b => s.clearBucket Hash nId b) s) ∧
        Cleared nId info buckets s (buckets.foldl (fun s b => s.clearBucket Hash nId b) s) := by
  intro buckets
  induction buckets with
  | nil =>
      intro s info h hinfo
      exact ⟨h, rfl, rfl, ⟨info.nRefCount, hinfo⟩, fun slot heq => ⟨heq, List.not_mem_nil⟩⟩
  | cons bucket rest ih =>
      intro s info h hinfo
      rcases h.clearBucket hinfo bucket with ⟨hkept, hcleared⟩
      rcases hcleared.info with ⟨count, hinfo'⟩
      rcases ih _ _ hkept hinfo' with ⟨hkept', hcleared'⟩
      refine ⟨hkept', hcleared'.key.trans hcleared.key, hcleared'.nNew.trans hcleared.nNew,
        hcleared'.info, ?_⟩
      intro slot heq
      rcases hcleared'.slots slot heq with ⟨heq', hrest⟩
      rcases hcleared.slots slot heq' with ⟨hold, hne⟩
      refine ⟨hold, ?_⟩
      intro hmem
      rcases List.mem_cons.mp hmem with hbucket | hmem
      · exact hne (List.mem_singleton.mpr hbucket)
      · exact hrest hmem

/-- No reference is left after the loop. -/
theorem Kept.clearBuckets (h : Kept Hash nKey [] missing s) (hinfo : s.mapInfo.lookup nId = some info)
    (hfresh : info.fInTried = false) :
    Kept Hash nKey [nId] missing (s.clearBuckets Hash nId) ∧
      (s.clearBuckets Hash nId).mapInfo.lookup nId = some { info with nRefCount := 0 } := by
  have hlimbo : Kept Hash nKey [nId] missing s := h.relabel fun n hmem => nomatch hmem
  rcases Kept.clearBucketList (buckets ADDRMAN_NEW_BUCKET_COUNT) s info hlimbo hinfo with
    ⟨hkept, hcleared⟩
  refine ⟨hkept, ?_⟩
  rcases hcleared.info with ⟨count, hinfo'⟩
  have hcount := (hkept.tables.fresh nId _ hinfo' hfresh).2
  have hnone : references (s.clearBuckets Hash nId).vvNew nId = 0 := by
    rw [references_eq_zero_iff]
    intro slot heq
    exact (hcleared.slots slot heq).2 (mem_buckets slot.1)
  have hzero : count = 0 := by
    change (references (s.clearBuckets Hash nId).vvNew nId : Int) = count at hcount
    rw [hnone] at hcount
    exact hcount.symm
  rw [hzero] at hinfo'
  exact hinfo'

/-!
# Making space
-/

theorem Frame.lookup (h : Frame nId s s') {n : Int} (hn : n ≠ nId)
    (hinfo : s.mapInfo.lookup n = some info) :
    exists pos, s'.mapInfo.lookup n = some { info with nRandomPos := pos } := by
  rcases lookup_of_placeless (h.entries n hn).symm hinfo with ⟨info', hinfo', heq⟩
  refine ⟨info'.nRandomPos, ?_⟩
  rw [heq]
  exact hinfo'

/-- The entry `nId`, which has no references, waits while another one moves back. -/
theorem Kept.evict (h : Kept Hash nKey [nId] missing s) (hinfo : s.mapInfo.lookup nId = some info)
    (hfresh : info.fInTried = false) (hzero : info.nRefCount = 0) {slot : TriedSlot}
    (hslot : s.vvTried slot ≠ -1) :
    exists s', s.evict Hash slot = some s' ∧ Kept Hash nKey [nId] missing s' ∧ s'.nKey = s.nKey ∧
      s'.vvTried slot = -1 ∧
      exists pos, s'.mapInfo.lookup nId = some { info with nRandomPos := pos } := by
  rcases h.tables.triedSlot slot hslot with ⟨infoOld, hinfoOld, htried, _⟩
  have hzeroOld := ((h.entry _ infoOld hinfoOld).tried htried).2
  have hne : s.vvTried slot ≠ nId := by
    intro heq
    rw [heq, hinfo] at hinfoOld
    cases hinfoOld
    exact absurd (hfresh.symm.trans htried) Bool.false_ne_true
  rcases h.removeTried hinfoOld htried with ⟨hremoved, hinfoOld1⟩
  have hinfo1 : (s.removeTried slot).mapInfo.lookup nId = some info := by
    change (s.mapInfo.insert (s.vvTried slot) _).lookup nId = some info
    rw [StdMap.lookup_insert_eq, if_neg (Ne.symm hne)]
    exact hinfo
  have hidOld := h.ne_empty hinfoOld
  have hid := h.ne_empty hinfo
  have hnoneOld := hremoved.tables.references_eq_zero hinfoOld1 hidOld hzeroOld
  have hnone := hremoved.tables.references_eq_zero hinfo1 hid hzero
  let uslot := (s.removeTried slot).newSlot Hash { infoOld with fInTried := false } infoOld.source
  have hfree : (s.removeTried slot).vvNew uslot ∉ [s.vvTried slot, nId] := by
    intro hmem
    rcases List.mem_cons.mp hmem with hmem | hmem
    · exact hnoneOld uslot hmem
    · exact hnone uslot (List.mem_singleton.mp hmem)
  rcases hremoved.clearNew hfree with ⟨s2, hclear, hkept2, hframe, hnew2⟩
  rcases hframe.lookup (Ne.symm (hnoneOld uslot)) hinfoOld1 with ⟨posOld, hinfoOld2⟩
  rcases hframe.lookup (Ne.symm (hnone uslot)) hinfo1 with ⟨pos, hinfo2⟩
  have hempty : s2.vvNew uslot = -1 := by
    rw [hnew2, Function.update_self]
  have hplace : uslot = s2.slotIn Hash
      { { infoOld with fInTried := false } with nRandomPos := posOld } uslot.1 :=
    (slotIn_congr rfl hframe.key uslot.1).symm
  have hleft : forall n, n ∈ [s.vvTried slot, nId] -> n ≠ s.vvTried slot -> n ∈ [nId] :=
    fun n hmem hn => (List.mem_cons.mp hmem).resolve_left hn
  have henter := hkept2.enterNew hinfoOld2 rfl hzeroOld hempty hplace hleft
  rw [Int.add_sub_cancel] at henter
  refine ⟨s2.enterNew (s.vvTried slot) uslot, ?_, henter, hframe.key, ?_, pos, ?_⟩
  · unfold CAddrMan.evict
    dsimp only
    rw [guard_bind ((StdMap.contains_iff _ _).mpr ⟨infoOld, hinfoOld⟩), info_of_lookup hinfoOld1,
      hclear, some_bind, guard_bind hempty]
  · change s2.vvTried slot = -1
    rw [hframe.vvTried]
    exact Function.update_self slot (-1) s.vvTried
  · change (s2.mapInfo.insert (s.vvTried slot) _).lookup nId = _
    rw [StdMap.lookup_insert_eq, if_neg (Ne.symm hne)]
    exact hinfo2

/-!
# The whole move
-/

theorem Kept.makeSpace (h : Kept Hash nKey [nId] missing s) (hinfo : s.mapInfo.lookup nId = some info)
    (hfresh : info.fInTried = false) (hzero : info.nRefCount = 0) (slot : TriedSlot) :
    exists s', s.makeSpace Hash slot = some s' ∧ Kept Hash nKey [nId] missing s' ∧ s'.nKey = s.nKey ∧
      s'.vvTried slot = -1 ∧
      exists pos, s'.mapInfo.lookup nId = some { info with nRandomPos := pos } := by
  unfold CAddrMan.makeSpace
  by_cases hslot : s.vvTried slot = -1
  · rw [if_neg (not_not.mpr hslot)]
    exact ⟨s, rfl, h, rfl, hslot, info.nRandomPos, hinfo⟩
  · rw [if_pos hslot]
    exact h.evict hinfo hfresh hzero hslot

theorem Kept.moveToTried (h : Kept Hash nKey [nId] 1 s) (hinfo : s.mapInfo.lookup nId = some info)
    (hfresh : info.fInTried = false) (hzero : info.nRefCount = 0)
    (hsuccess : info.nLastSuccess ≠ 0) :
    exists s', s.moveToTried Hash nId = some s' ∧ Kept Hash nKey [] 0 s' := by
  rcases h.makeSpace hinfo hfresh hzero (s.triedSlot Hash info)
    with ⟨s', hrun, hkept, hkey, hempty, pos, hinfo'⟩
  have hleft : forall n, n ∈ [nId] -> n ≠ nId -> n ∈ ([] : List Int) :=
    fun n hmem hn => absurd (List.mem_singleton.mp hmem) hn
  have hslot : s.triedSlot Hash info = s'.triedSlot Hash { info with nRandomPos := pos } :=
    (triedSlot_congr rfl hkey).symm
  have henter := hkept.enterTried hinfo' hfresh hzero hsuccess hempty hslot hleft
  refine ⟨s'.enterTried nId (s.triedSlot Hash info), ?_, henter⟩
  have hguard : (s.info nId).nRefCount = 0 := by
    rw [info_of_lookup hinfo]
    exact hzero
  unfold CAddrMan.moveToTried
  rw [guard_bind hguard, info_of_lookup hinfo]
  dsimp only
  rw [hrun, some_bind, guard_bind hempty]

/-- `MakeTried` of a new entry which has been connected to. -/
theorem Kept.makeTried (h : Kept Hash nKey [] 0 s) (hinfo : s.mapInfo.lookup nId = some info)
    (hfresh : info.fInTried = false) (hsuccess : info.nLastSuccess ≠ 0) :
    exists s', s.makeTried Hash nId = some s' ∧ Kept Hash nKey [] 0 s' := by
  rcases h.clearBuckets hinfo hfresh with ⟨hkept, hinfo'⟩
  have hsum : (s.clearBuckets Hash nId).nNew - 1 + 1 = (s.clearBuckets Hash nId).nNew + 0 := by
    omega
  exact (hkept.setNew hsum).moveToTried hinfo' hfresh rfl hsuccess

end CAddrMan

end AddrMan
end Hbcur
