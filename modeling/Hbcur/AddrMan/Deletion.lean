import Hbcur.AddrMan.Invariant

/-!
# Creating and deleting entries

`Create`, `SwapRandom`, `Delete` and `ClearNew` keep the invariant, and their assertions hold.
-/

namespace Hbcur
namespace AddrMan

open Foundation Serialize Net

/-- An entry up to its position in `vRandom`. -/
def CAddrInfo.placeless (info : CAddrInfo) : CAddrInfo := { info with nRandomPos := 0 }

namespace CAddrMan

variable {s s' : CAddrMan} {Hash : List UInt8 -> UInt256} {nKey : UInt256}
  {limbo limbo' : List Int} {missing : Int}

/-- Only positions in `vRandom` differ. -/
structure Moved (s s' : CAddrMan) : Prop where
  key : s'.nKey = s.nKey
  idCount : s'.nIdCount = s.nIdCount
  mapAddr : s'.mapAddr = s.mapAddr
  length : s'.vRandom.length = s.vRandom.length
  nTried : s'.nTried = s.nTried
  vvTried : s'.vvTried = s.vvTried
  nNew : s'.nNew = s.nNew
  vvNew : s'.vvNew = s.vvNew
  entries : forall nId, (s'.mapInfo.lookup nId).map CAddrInfo.placeless =
    (s.mapInfo.lookup nId).map CAddrInfo.placeless

theorem Moved.refl (s : CAddrMan) : Moved s s :=
  ⟨rfl, rfl, rfl, rfl, rfl, rfl, rfl, rfl, fun _ => rfl⟩

/-- An entry which is the same up to its position. -/
theorem lookup_of_placeless {m m' : StdMap Int CAddrInfo} {nId : Int}
    (h : (m'.lookup nId).map CAddrInfo.placeless = (m.lookup nId).map CAddrInfo.placeless)
    {info' : CAddrInfo} (hinfo' : m'.lookup nId = some info') :
    exists info, m.lookup nId = some info ∧
      info' = { info with nRandomPos := info'.nRandomPos } := by
  rw [hinfo', Option.map_some] at h
  rcases Option.map_eq_some_iff.mp h.symm with ⟨info, hinfo, heq⟩
  refine ⟨info, hinfo, ?_⟩
  have hback := congrArg (fun i : CAddrInfo => { i with nRandomPos := info'.nRandomPos }) heq
  exact hback.symm

theorem TablesChecked.moved (h : s.TablesChecked Hash) (hkey : s'.nKey = s.nKey)
    (htried : s'.vvTried = s.vvTried) (hnew : s'.vvNew = s.vvNew)
    (hentries : forall nId, (s'.mapInfo.lookup nId).map CAddrInfo.placeless =
      (s.mapInfo.lookup nId).map CAddrInfo.placeless) : s'.TablesChecked Hash where
  triedSlot := by
    intro slot hne
    rw [htried] at hne ⊢
    rcases h.triedSlot slot hne with ⟨info, hinfo, hin, hslot⟩
    rcases lookup_of_placeless (hentries _).symm hinfo with ⟨info', hinfo', heq⟩
    rw [heq] at hin hslot
    exact ⟨info', hinfo', hin, hslot.trans (triedSlot_congr rfl hkey).symm⟩
  tried := by
    intro nId info' hinfo' hin
    rcases lookup_of_placeless (hentries nId) hinfo' with ⟨info, hinfo, heq⟩
    rw [heq] at hin
    rcases h.tried nId info hinfo hin with ⟨hne, hslot⟩
    rw [htried, triedSlot_congr (congrArg (fun i : CAddrInfo => i.toCService) heq) hkey]
    exact ⟨hne, hslot⟩
  newSlot := by
    intro slot hne
    rw [hnew] at hne ⊢
    rcases h.newSlot slot hne with ⟨info, hinfo, hout, hslot⟩
    rcases lookup_of_placeless (hentries _).symm hinfo with ⟨info', hinfo', heq⟩
    rw [heq] at hout hslot
    exact ⟨info', hinfo', hout, hslot.trans (slotIn_congr rfl hkey slot.1).symm⟩
  fresh := by
    intro nId info' hinfo' hout
    rcases lookup_of_placeless (hentries nId) hinfo' with ⟨info, hinfo, heq⟩
    rw [heq] at hout ⊢
    rw [hnew]
    exact h.fresh nId info hinfo hout

theorem Kept.moved (h : Kept Hash nKey limbo missing s) (hmoved : Moved s s') (hindexes : s'.Indexes) :
    Kept Hash nKey limbo missing s' where
  key := hmoved.key.trans h.key
  indexes := hindexes
  entry := by
    intro nId info' hinfo'
    rcases lookup_of_placeless (hmoved.entries nId) hinfo' with ⟨info, hinfo, heq⟩
    rw [heq]
    have hentry := h.entry nId info hinfo
    exact ⟨hentry.tried, hentry.bound, hentry.referred, hentry.lastTry, hentry.lastSuccess⟩
  countTried := by
    rw [hmoved.nTried, ← h.countTried]
    exact congrArg _ (StdMap.countValues_congr CAddrInfo.placeless hmoved.entries
      fun info => info.fInTried)
  countNew := by
    rw [hmoved.nNew, ← h.countNew]
    exact congrArg _ (StdMap.countValues_congr CAddrInfo.placeless hmoved.entries
      fun info => !info.fInTried)
  tables := h.tables.moved hmoved.key hmoved.vvTried hmoved.vvNew hmoved.entries

/-!
# Changing places
-/

theorem lookup_exchange {nId1 nId2 : Int} {info1 info2 : CAddrInfo} (hne : nId1 ≠ nId2)
    (h1 : s.mapInfo.lookup nId1 = some info1) (h2 : s.mapInfo.lookup nId2 = some info2)
    (p1 p2 nId : Int) :
    (s.exchange p1 p2 nId1 nId2).mapInfo.lookup nId =
      if nId = nId2 then some { info2 with nRandomPos := p1 }
      else if nId = nId1 then some { info1 with nRandomPos := p2 }
      else s.mapInfo.lookup nId := by
  have hinfo2 : (s.setInfo nId1 { s.info nId1 with nRandomPos := p2 }).info nId2 = info2 := by
    apply info_of_lookup
    change (s.mapInfo.insert nId1 _).lookup nId2 = some info2
    rw [StdMap.lookup_insert_eq, if_neg (Ne.symm hne)]
    exact h2
  unfold exchange
  dsimp only
  rw [hinfo2, info_of_lookup h1]
  change ((s.mapInfo.insert nId1 _).insert nId2 _).lookup nId = _
  rw [StdMap.lookup_insert_eq, StdMap.lookup_insert_eq]

theorem Indexes.lookup_of_getElem (h : s.Indexes) {i : Nat} {nId : Int}
    (hget : s.vRandom[i]? = some nId) :
    exists info, s.mapInfo.lookup nId = some info ∧ info.nRandomPos = (i : Int) :=
  Option.map_eq_some_iff.mp (h.positions.pos_of_getElem hget)

/-- The entries at two positions change places. -/
theorem Indexes.swapRandom (h : s.Indexes) {i j : Nat} (hi : i < s.vRandom.length)
    (hj : j < s.vRandom.length) :
    exists s', s.swapRandom i j = some s' ∧ Moved s s' ∧ s'.Indexes ∧
      s'.vRandom[j]? = s.vRandom[i]? := by
  by_cases hij : i = j
  · subst hij
    exact ⟨s, if_pos rfl, Moved.refl s, h, rfl⟩
  · have hcast : (i : Int) ≠ j := fun heq => hij (Int.ofNat.inj heq)
    have hget1 := List.getElem?_eq_getElem hi
    have hget2 := List.getElem?_eq_getElem hj
    rcases h.lookup_of_getElem hget1 with ⟨info1, hinfo1, hpos1⟩
    rcases h.lookup_of_getElem hget2 with ⟨info2, hinfo2, hpos2⟩
    have hne : s.vRandom[i] ≠ s.vRandom[j] := by
      intro heq
      rw [heq, hinfo2] at hinfo1
      cases hinfo1
      exact hcast (hpos1.symm.trans hpos2)
    have hlookup := lookup_exchange hne hinfo1 hinfo2 i j
    have hvec : (s.exchange i j s.vRandom[i] s.vRandom[j]).vRandom =
        (s.vRandom.set i s.vRandom[j]).set j s.vRandom[i] := rfl
    refine ⟨s.exchange i j s.vRandom[i] s.vRandom[j], ?_, ?_, ?_, ?_⟩
    · unfold CAddrMan.swapRandom
      rw [if_neg hcast]
      have hrange : 0 ≤ (i : Int) ∧ (i : Int) < s.vRandom.length ∧ 0 ≤ (j : Int) ∧
          (j : Int) < s.vRandom.length := by omega
      have hin1 := (StdMap.contains_iff s.mapInfo s.vRandom[i]).mpr ⟨info1, hinfo1⟩
      have hin2 := (StdMap.contains_iff s.mapInfo s.vRandom[j]).mpr ⟨info2, hinfo2⟩
      rw [guard_bind hrange, Int.toNat_natCast, Int.toNat_natCast, hget1, some_bind, hget2,
        some_bind, guard_bind hin1, guard_bind hin2]
    · refine ⟨rfl, rfl, rfl, ?_, rfl, rfl, rfl, rfl, ?_⟩
      · rw [hvec, List.length_set, List.length_set]
      · intro nId
        rw [hlookup]
        by_cases hid2 : nId = s.vRandom[j]
        · rw [if_pos hid2, hid2, hinfo2]
          rfl
        · rw [if_neg hid2]
          by_cases hid1 : nId = s.vRandom[i]
          · rw [if_pos hid1, hid1, hinfo1]
            rfl
          · rw [if_neg hid1]
    · refine ⟨h.count, ?_, ?_, ?_⟩
      · intro nId info hinfo
        change 0 ≤ nId ∧ nId < s.nIdCount
        rw [hlookup] at hinfo
        by_cases hid2 : nId = s.vRandom[j]
        · rw [hid2]
          exact h.ids _ _ hinfo2
        · rw [if_neg hid2] at hinfo
          by_cases hid1 : nId = s.vRandom[i]
          · rw [hid1]
            exact h.ids _ _ hinfo1
          · rw [if_neg hid1] at hinfo
            exact h.ids _ _ hinfo
      · rw [hvec]
        apply (h.positions.swap hget1 hget2 hij).congr
        intro nId
        rw [hlookup, Function.update_apply, Function.update_apply]
        split_ifs with hid2 hid1 <;> rfl
      · intro addr nId
        change s.mapAddr.lookup addr = some nId <-> _
        rw [h.addresses, hlookup]
        by_cases hid2 : nId = s.vRandom[j]
        · rw [if_pos hid2, hid2, hinfo2]
          simp
        · rw [if_neg hid2]
          by_cases hid1 : nId = s.vRandom[i]
          · rw [if_pos hid1, hid1, hinfo1]
            simp
          · rw [if_neg hid1]
    · rw [hvec, hget1, List.getElem?_set_self (by rw [List.length_set]; exact hj)]

/-!
# Deleting
-/

/-- Nothing of the other entries and of the tried table differs. -/
structure Frame (nId : Int) (s s' : CAddrMan) : Prop where
  key : s'.nKey = s.nKey
  vvTried : s'.vvTried = s.vvTried
  entries : forall n, n ≠ nId -> (s'.mapInfo.lookup n).map CAddrInfo.placeless =
    (s.mapInfo.lookup n).map CAddrInfo.placeless

/-- Take out the entry which is at the end of the vector. -/
def removeLast (s : CAddrMan) (nId : Int) (addr : CNetAddr) : CAddrMan :=
  { s with
    vRandom := s.vRandom.dropLast
    mapAddr := s.mapAddr.erase addr
    mapInfo := s.mapInfo.erase nId
    nNew := s.nNew - 1 }

section Delete

variable {nId : Int} {info : CAddrInfo}

theorem lookup_removeLast (s : CAddrMan) (nId : Int) (addr : CNetAddr) (n : Int) :
    (s.removeLast nId addr).mapInfo.lookup n =
      if n = nId then none else s.mapInfo.lookup n :=
  StdMap.lookup_erase_eq s.mapInfo n nId

theorem Indexes.removeLast (h : s.Indexes) (hinfo : s.mapInfo.lookup nId = some info)
    (hlast : s.vRandom[s.vRandom.length - 1]? = some nId) :
    (s.removeLast nId info.toCNetAddr).Indexes := by
  have hlookup := lookup_removeLast s nId info.toCNetAddr
  have haddr := (h.addresses info.toCNetAddr nId).mpr ⟨info, hinfo, rfl⟩
  constructor
  · exact h.count
  · intro n i hi
    rw [hlookup] at hi
    split_ifs at hi
    exact h.ids n i hi
  · apply (h.positions.pop hlast).congr
    intro n
    rw [hlookup, Function.update_apply]
    split_ifs <;> rfl
  · intro addr n
    change (s.mapAddr.erase info.toCNetAddr).lookup addr = some n <-> _
    rw [StdMap.lookup_erase_eq, hlookup]
    by_cases hn : n = nId
    · rw [if_pos hn]
      apply iff_of_false
      · intro hin
        split_ifs at hin with haddr'
        rcases (h.addresses addr n).mp hin with ⟨i, hi, heq⟩
        rw [hn, hinfo] at hi
        cases hi
        exact haddr' heq.symm
      · exact fun hin => nomatch hin.choose_spec.1
    · rw [if_neg hn]
      by_cases haddr' : addr = info.toCNetAddr
      · rw [if_pos haddr']
        apply iff_of_false
        · exact fun hin => nomatch hin
        · intro hin
          have hother := (h.addresses addr n).mpr hin
          rw [haddr', haddr] at hother
          exact hn (Option.some.inj hother).symm
      · rw [if_neg haddr', h.addresses]

theorem Kept.removeLast (h : Kept Hash nKey limbo missing s) (hinfo : s.mapInfo.lookup nId = some info)
    (hfresh : info.fInTried = false) (hzero : info.nRefCount = 0)
    (hlast : s.vRandom[s.vRandom.length - 1]? = some nId)
    (hlimbo : forall n, n ∈ limbo -> n ≠ nId -> n ∈ limbo') :
    Kept Hash nKey limbo' missing (s.removeLast nId info.toCNetAddr) := by
  have hid := h.ne_empty hinfo
  have hlookup := lookup_removeLast s nId info.toCNetAddr
  have hold : forall {n i}, (s.removeLast nId info.toCNetAddr).mapInfo.lookup n = some i ->
      n ≠ nId ∧ s.mapInfo.lookup n = some i := by
    intro n i hi
    rw [hlookup] at hi
    split_ifs at hi with hn
    exact ⟨hn, hi⟩
  constructor
  · exact h.key
  · exact h.indexes.removeLast hinfo hlast
  · intro n i hi
    rcases hold hi with ⟨hn, hi⟩
    have hentry := h.entry n i hi
    exact ⟨hentry.tried, hentry.bound,
      fun hout hnot => hentry.referred hout fun hmem => hnot (hlimbo n hmem hn),
      hentry.lastTry, hentry.lastSuccess⟩
  · have hcount := StdMap.countValues_erase s.mapInfo nId info (fun info => info.fInTried) hinfo
    have htried := h.countTried
    simp only [hfresh, Bool.false_eq_true, if_false, Nat.add_zero] at hcount
    change (StdMap.countValues (s.mapInfo.erase nId) _ : Int) = s.nTried
    rw [hcount]
    exact htried
  · have hcount := StdMap.countValues_erase s.mapInfo nId info (fun info => !info.fInTried) hinfo
    have hnew := h.countNew
    simp only [hfresh, Bool.not_false, if_true] at hcount
    change (StdMap.countValues (s.mapInfo.erase nId) _ : Int) = s.nNew - 1 + missing
    omega
  · constructor
    · intro slot hne
      rcases h.tables.triedSlot slot hne with ⟨i, hi, hin, hslot⟩
      have hn : s.vvTried slot ≠ nId := by
        intro heq
        rw [heq, hinfo] at hi
        cases hi
        exact absurd (hfresh.symm.trans hin) Bool.false_ne_true
      refine ⟨i, ?_, hin, hslot⟩
      change (s.removeLast nId info.toCNetAddr).mapInfo.lookup (s.vvTried slot) = some i
      rw [hlookup, if_neg hn]
      exact hi
    · intro n i hi hin
      exact h.tables.tried n i (hold hi).2 hin
    · intro slot hne
      rcases h.tables.newSlot slot hne with ⟨i, hi, hout, hslot⟩
      have hn := h.tables.references_eq_zero hinfo hid hzero slot
      refine ⟨i, ?_, hout, hslot⟩
      change (s.removeLast nId info.toCNetAddr).mapInfo.lookup (s.vvNew slot) = some i
      rw [hlookup, if_neg hn]
      exact hi
    · intro n i hi hout
      exact h.tables.fresh n i (hold hi).2 hout

/-- `Delete` of an entry without references. -/
theorem Kept.delete (h : Kept Hash nKey limbo missing s) (hinfo : s.mapInfo.lookup nId = some info)
    (hfresh : info.fInTried = false) (hzero : info.nRefCount = 0)
    (hlimbo : forall n, n ∈ limbo -> n ≠ nId -> n ∈ limbo') :
    exists s', s.delete nId = some s' ∧ Kept Hash nKey limbo' missing s' ∧ Frame nId s s' ∧
      s'.vvNew = s.vvNew := by
  have hpos : (fun n => (s.mapInfo.lookup n).map CAddrInfo.nRandomPos) nId =
      some info.nRandomPos := by
    change (s.mapInfo.lookup nId).map _ = _
    rw [hinfo, Option.map_some]
  have hget := h.indexes.positions.getElem hpos
  have hlt := h.indexes.positions.lt_length hpos
  have hi : info.nRandomPos.toNat < s.vRandom.length := by omega
  have hj : s.vRandom.length - 1 < s.vRandom.length := by omega
  have hcast : (info.nRandomPos.toNat : Int) = info.nRandomPos := Int.toNat_of_nonneg hget.1
  have hcast' : ((s.vRandom.length - 1 : Nat) : Int) = (s.vRandom.length : Int) - 1 := by omega
  rcases h.indexes.swapRandom hi hj with ⟨s1, hswap, hmoved, hindexes, hlast⟩
  rw [hcast, hcast'] at hswap
  have hkept := h.moved hmoved hindexes
  rcases lookup_of_placeless (hmoved.entries nId).symm hinfo with ⟨info1, hinfo1, heq⟩
  have haddr : info.toCNetAddr = info1.toCNetAddr := by
    rw [heq]
  have hfresh1 : info1.fInTried = false := by
    rw [heq] at hfresh
    exact hfresh
  have hzero1 : info1.nRefCount = 0 := by
    rw [heq] at hzero
    exact hzero
  have hlast1 : s1.vRandom[s1.vRandom.length - 1]? = some nId := by
    rw [hmoved.length, hlast]
    exact hget.2
  refine ⟨s1.removeLast nId info.toCNetAddr, ?_, ?_, ⟨hmoved.key, hmoved.vvTried, ?_⟩, hmoved.vvNew⟩
  · unfold CAddrMan.delete
    rw [hinfo, some_bind, guard_bind hfresh, guard_bind hzero, hswap, some_bind]
    rfl
  · rw [haddr]
    exact hkept.removeLast hinfo1 hfresh1 hzero1 hlast1 hlimbo
  · intro n hn
    rw [lookup_removeLast, if_neg hn]
    exact hmoved.entries n

end Delete

/-- `ClearNew` of a slot whose entry is not in limbo. -/
theorem Kept.clearNew (h : Kept Hash nKey limbo missing s) {slot : NewSlot}
    (hslot : s.vvNew slot ∉ limbo) :
    exists s', s.clearNew slot = some s' ∧ Kept Hash nKey limbo missing s' ∧
      Frame (s.vvNew slot) s s' ∧ s'.vvNew = Function.update s.vvNew slot (-1) := by
  by_cases hempty : s.vvNew slot = -1
  · refine ⟨s, if_pos hempty, h, ⟨rfl, rfl, fun _ _ => rfl⟩, ?_⟩
    rw [← hempty, Function.update_eq_self]
  · rcases h.tables.newSlot slot hempty with ⟨info, hinfo, hfresh, _⟩
    have href := (h.entry _ info hinfo).referred hfresh hslot
    rcases h.dropReference hinfo rfl with ⟨hdrop, hinfo1⟩
    have hframe : Frame (s.vvNew slot) s (s.dropReference (s.vvNew slot) slot) := by
      refine ⟨rfl, rfl, ?_⟩
      intro n hn
      change ((s.mapInfo.insert (s.vvNew slot) _).lookup n).map _ = _
      rw [StdMap.lookup_insert_eq, if_neg hn]
    have hguard : (s.info (s.vvNew slot)).nRefCount > 0 := by
      rw [info_of_lookup hinfo]
      exact href
    have hrun : s.clearNew slot =
        if (info.nRefCount - 1 = 0) then
          (s.dropReference (s.vvNew slot) slot).delete (s.vvNew slot)
        else some (s.dropReference (s.vvNew slot) slot) := by
      unfold CAddrMan.clearNew
      rw [if_neg hempty]
      dsimp only
      rw [guard_bind hguard, info_of_lookup hinfo1]
    rw [hrun]
    by_cases hlast : info.nRefCount - 1 = 0
    · have hleft : forall n, n ∈ s.vvNew slot :: limbo -> n ≠ s.vvNew slot -> n ∈ limbo :=
        fun n hmem hn => (List.mem_cons.mp hmem).resolve_left hn
      rcases hdrop.delete hinfo1 hfresh hlast hleft with ⟨s', hdelete, hkept, hframe', hnew⟩
      rw [if_pos hlast]
      refine ⟨s', hdelete, hkept, ⟨hframe'.key.trans hframe.key,
        hframe'.vvTried.trans hframe.vvTried, ?_⟩, hnew⟩
      intro n hn
      rw [hframe'.entries n hn, hframe.entries n hn]
    · rw [if_neg hlast]
      refine ⟨_, rfl, ?_, hframe, rfl⟩
      apply hdrop.relabel
      intro n hmem hnot i hi _
      have hn := (List.mem_cons.mp hmem).resolve_right hnot
      subst hn
      rw [hinfo1] at hi
      cases hi
      change 0 < info.nRefCount - 1
      omega

/-!
# Creating
-/

/-- A new entry waits in limbo and is not counted. -/
theorem Kept.create (h : Kept Hash nKey limbo missing s) {addr : CAddress} (addrSource : CNetAddr)
    (hnew : s.mapAddr.lookup addr.toCNetAddr = none) :
    Kept Hash nKey (s.nIdCount :: limbo) (missing + 1) (s.create addr addrSource) ∧
      (s.create addr addrSource).mapInfo.lookup s.nIdCount =
        some { CAddrInfo.ofAddress addr addrSource with nRandomPos := s.vRandom.length } := by
  have hnone : s.mapInfo.lookup s.nIdCount = none := by
    cases hlookup : s.mapInfo.lookup s.nIdCount with
    | none => rfl
    | some i =>
        have hid := h.indexes.ids _ i hlookup
        omega
  have hcontains := (StdMap.contains_eq_false_iff s.mapInfo s.nIdCount).mpr hnone
  have hcount := h.indexes.count
  have hmap : (s.create addr addrSource).mapInfo = s.mapInfo.insert s.nIdCount
      { CAddrInfo.ofAddress addr addrSource with nRandomPos := s.vRandom.length } := rfl
  have hold : forall {n i}, s.mapInfo.lookup n = some i ->
      (s.create addr addrSource).mapInfo.lookup n = some i := by
    intro n i hi
    have hne : n ≠ s.nIdCount := by
      intro heq
      rw [heq, hnone] at hi
      cases hi
    rw [hmap, StdMap.lookup_insert_eq, if_neg hne]
    exact hi
  refine ⟨?_, by rw [hmap, AList.lookup_insert]⟩
  constructor
  · exact h.key
  · constructor
    · change 0 ≤ s.nIdCount + 1
      omega
    · intro n i hi
      change 0 ≤ n ∧ n < s.nIdCount + 1
      rcases lookup_insert_cases hi with ⟨rfl, _⟩ | ⟨_, hi⟩
      · omega
      · have hid := h.indexes.ids n i hi
        omega
    · have hpos : (s.mapInfo.lookup s.nIdCount).map CAddrInfo.nRandomPos = none := by
        rw [hnone]
        rfl
      apply (h.indexes.positions.push hpos).congr
      intro n
      rw [hmap, StdMap.lookup_insert_eq, Function.update_apply]
      split_ifs <;> rfl
    · intro addr' n
      change (s.mapAddr.insert addr.toCNetAddr s.nIdCount).lookup addr' = some n <-> _
      rw [hmap, StdMap.lookup_insert_eq, StdMap.lookup_insert_eq]
      by_cases haddr : addr' = addr.toCNetAddr
      · rw [if_pos haddr, Option.some.injEq]
        constructor
        · intro hn
          rw [if_pos hn.symm]
          exact ⟨_, rfl, haddr.symm⟩
        · intro hin
          rcases hin with ⟨i, hi, heq⟩
          by_contra hn
          rw [if_neg (Ne.symm hn)] at hi
          have hin := (h.indexes.addresses addr' n).mpr ⟨i, hi, heq⟩
          rw [haddr, hnew] at hin
          cases hin
      · rw [if_neg haddr, h.indexes.addresses]
        by_cases hn : n = s.nIdCount
        · rw [if_pos hn, hn, hnone]
          apply iff_of_false
          · exact fun hin => nomatch hin.choose_spec.1
          · intro hin
            rcases hin with ⟨i, hi, heq⟩
            cases hi
            exact haddr heq.symm
        · rw [if_neg hn]
  · intro n i hi
    rcases lookup_insert_cases hi with ⟨rfl, rfl⟩ | ⟨_, hi⟩
    · exact ⟨fun hin => (nomatch hin), fun _ => Int.zero_le_ofNat 8,
        fun _ hnot => absurd List.mem_cons_self hnot, Int.le_refl 0, Int.le_refl 0⟩
    · have hentry := h.entry n i hi
      exact ⟨hentry.tried, hentry.bound,
        fun hout hnot => hentry.referred hout fun hmem => hnot (List.mem_cons_of_mem _ hmem),
        hentry.lastTry, hentry.lastSuccess⟩
  · rw [hmap, StdMap.countValues_insert_new _ _ _ _ hcontains]
    exact h.countTried
  · have hnewCount := h.countNew
    rw [hmap, StdMap.countValues_insert_new _ _ _ _ hcontains]
    change ((_ + 1 : Nat) : Int) = s.nNew + (missing + 1)
    omega
  · constructor
    · intro slot hne
      rcases h.tables.triedSlot slot hne with ⟨i, hi, hin, hslot⟩
      exact ⟨i, hold hi, hin, hslot⟩
    · intro n i hi hin
      rcases lookup_insert_cases hi with ⟨rfl, rfl⟩ | ⟨_, hi⟩
      · cases hin
      · exact h.tables.tried n i hi hin
    · intro slot hne
      rcases h.tables.newSlot slot hne with ⟨i, hi, hout, hslot⟩
      exact ⟨i, hold hi, hout, hslot⟩
    · intro n i hi hout
      rcases lookup_insert_cases hi with ⟨rfl, rfl⟩ | ⟨_, hi⟩
      · have hne : s.nIdCount ≠ -1 := by omega
        refine ⟨hne, ?_⟩
        have hzero : references s.vvNew s.nIdCount = 0 := by
          rw [references_eq_zero_iff]
          intro slot heq
          rcases h.tables.newSlot slot (heq ▸ hne) with ⟨i, hi, _, _⟩
          rw [heq, hnone] at hi
          cases hi
        change (references s.vvNew s.nIdCount : Int) = 0
        rw [hzero]
        rfl
      · exact h.tables.fresh n i hi hout

end CAddrMan

end AddrMan
end Hbcur
