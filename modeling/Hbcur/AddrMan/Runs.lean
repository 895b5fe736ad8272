import Hbcur.AddrMan.Tried
import Hbcur.Foundation.Run

/-!
# Runs of the address manager

Every operation keeps the invariant and no assertion fails, so that the consistency check returns
zero after any run, unless the key which `Clear` drew is zero.
-/

namespace Hbcur
namespace AddrMan

open Foundation Serialize Net

namespace CAddrMan

variable {s s' : CAddrMan} {Hash : List UInt8 -> UInt256} {nKey : UInt256} {limbo : List Int}
  {missing : Int} {nId : Int} {info : CAddrInfo}

/-!
# Finding an entry
-/

theorem find_cases (h : s.Indexes) (addr : CNetAddr) :
    (s.find addr = none ∧ s.mapAddr.lookup addr = none) ∨
      exists nId info, s.find addr = some (nId, info) ∧ s.mapInfo.lookup nId = some info := by
  unfold find
  cases haddr : s.mapAddr.lookup addr with
  | none => exact Or.inl ⟨rfl, rfl⟩
  | some nId =>
      rcases (h.addresses addr nId).mp haddr with ⟨info, hinfo, _⟩
      dsimp only
      rw [hinfo]
      exact Or.inr ⟨nId, info, rfl, hinfo⟩

/-!
# Adding
-/

/-- The end of `Add_`, for an entry which is not in tried and may still be without references. -/
theorem Kept.place (h : Kept Hash nKey [nId] 0 s) (hinfo : s.mapInfo.lookup nId = some info)
    (hfresh : info.fInTried = false) (hbound : info.nRefCount < ADDRMAN_NEW_BUCKETS_PER_ADDRESS)
    (source : CNetAddr) (nNow : Int) :
    exists s', s.place Hash nId source nNow = some s' ∧ Kept Hash nKey [] 0 s' := by
  have hid := h.ne_empty hinfo
  have hleft : forall n, n ∈ [nId] -> n ≠ nId -> n ∈ ([] : List Int) :=
    fun n hmem hn => absurd (List.mem_singleton.mp hmem) hn
  have hcount := (h.tables.fresh nId info hinfo hfresh).2
  have hrelabel : 0 < info.nRefCount -> Kept Hash nKey [] 0 s := by
    intro hpos
    apply h.relabel
    intro n hmem _ i hi _
    rw [List.mem_singleton.mp hmem, hinfo] at hi
    cases hi
    exact hpos
  unfold CAddrMan.place
  rw [info_of_lookup hinfo]
  dsimp only
  by_cases hsame : s.vvNew (s.newSlot Hash info source) = nId
  · rw [if_pos hsame]
    have href : 0 < references s.vvNew nId := (references_pos_iff _ _).mpr ⟨_, hsame⟩
    exact ⟨s, rfl, hrelabel (by omega)⟩
  · rw [if_neg hsame]
    by_cases hinsert : s.vvNew (s.newSlot Hash info source) = -1 ∨
        (s.info (s.vvNew (s.newSlot Hash info source))).isTerrible nNow = true ∨
        (s.info (s.vvNew (s.newSlot Hash info source))).nRefCount > 1 ∧ info.nRefCount = 0
    · rw [if_pos hinsert]
      have hnot : s.vvNew (s.newSlot Hash info source) ∉ [nId] :=
        fun hmem => hsame (List.mem_singleton.mp hmem)
      rcases h.clearNew hnot with ⟨s1, hclear, hkept, hframe, hnew⟩
      rcases hframe.lookup (Ne.symm hsame) hinfo with ⟨pos, hinfo1⟩
      have hempty : s1.vvNew (s.newSlot Hash info source) = -1 := by
        rw [hnew, Function.update_self]
      have hslot : s.newSlot Hash info source = s1.slotIn Hash { info with nRandomPos := pos }
          (s.newSlot Hash info source).1 :=
        (slotIn_congr rfl hframe.key (s.newSlot Hash info source).1).symm
      rw [hclear, some_bind]
      exact ⟨_, rfl, hkept.addReference hinfo1 hfresh hbound hempty hslot hleft⟩
    · rw [if_neg hinsert]
      by_cases hzero : info.nRefCount = 0
      · rw [if_pos hzero]
        rcases h.delete hinfo hfresh hzero hleft with ⟨s', hdelete, hkept, _, _⟩
        exact ⟨s', hdelete, hkept⟩
      · rw [if_neg hzero]
        exact ⟨s, rfl, hrelabel (by omega)⟩

theorem refreshed_spec (info : CAddrInfo) (addr : CAddress) (nTimePenalty nNow : Int) :
    exists nTime nServices, refreshed info addr nTimePenalty nNow =
      { info with nTime := nTime, nServices := nServices } :=
  ⟨_, _, rfl⟩

theorem of_keepsReferences_eq_false {addr : CAddress} {nRand : Nat}
    (h : keepsReferences info addr nRand = false) :
    info.fInTried = false ∧ info.nRefCount ≠ ADDRMAN_NEW_BUCKETS_PER_ADDRESS := by
  unfold keepsReferences at h
  dsimp only at h
  split_ifs at h with htime htried hcount
  exact ⟨Bool.eq_false_iff.mpr htried, hcount⟩

theorem Kept.createNew (h : Kept Hash nKey [] 0 s) {addr : CAddress} (source : CNetAddr)
    (nTimePenalty : Int) (hnew : s.mapAddr.lookup addr.toCNetAddr = none) :
    Kept Hash nKey [s.nIdCount] 0 (s.createNew addr source nTimePenalty) ∧
      exists info, (s.createNew addr source nTimePenalty).mapInfo.lookup s.nIdCount = some info ∧
        info.fInTried = false ∧ info.nRefCount = 0 := by
  rcases h.create source hnew with ⟨hcreated, hinfo⟩
  unfold CAddrMan.createNew
  dsimp only
  rw [info_of_lookup hinfo]
  have htouched := hcreated.touch hinfo
    { CAddrInfo.ofAddress addr source with
      nTime := BitVec.ofInt 32 (max 0 (addr.nTime.toNat - nTimePenalty))
      nRandomPos := s.vRandom.length }
    rfl rfl rfl rfl (fun hin => (nomatch hin)) (Int.le_refl 0) (Int.le_refl 0)
  refine ⟨htouched.setNew ?_, _, AList.lookup_insert _, rfl, rfl⟩
  change s.nNew + 1 + 0 = s.nNew + (0 + 1)
  omega

theorem Kept.add (h : Kept Hash nKey [] 0 s) (addr : CAddress) (source : CNetAddr)
    (nTimePenalty nNow nLater : Int) (nRand : Nat) :
    exists fNew s', s.add Hash addr source nTimePenalty nNow nLater nRand = some (fNew, s') ∧
      Kept Hash nKey [] 0 s' := by
  unfold CAddrMan.add
  by_cases hroutable : addr.isRoutable = false
  · rw [if_pos hroutable]
    exact ⟨false, s, rfl, h⟩
  · rw [if_neg hroutable]
    rcases find_cases h.indexes addr.toCNetAddr with ⟨hfind, hnone⟩ | ⟨nId, info, hfind, hinfo⟩
    · rw [hfind]
      dsimp only
      rcases h.createNew source nTimePenalty hnone with ⟨hkept, info, hinfo, hfresh, hzero⟩
      have hbound : info.nRefCount < ADDRMAN_NEW_BUCKETS_PER_ADDRESS := by
        rw [hzero]
        decide
      rcases hkept.place hinfo hfresh hbound source nLater with ⟨s', hplace, hkept'⟩
      rw [hplace]
      exact ⟨true, s', rfl, hkept'⟩
    · rw [hfind]
      dsimp only
      have hentry := h.entry nId info hinfo
      rcases refreshed_spec info addr nTimePenalty nNow with ⟨nTime, nServices, hrefreshed⟩
      rw [hrefreshed]
      have htouched := h.touch hinfo { info with nTime := nTime, nServices := nServices }
        rfl rfl rfl rfl (fun hin => (hentry.tried hin).1) hentry.lastTry hentry.lastSuccess
      cases hkeeps : keepsReferences { info with nTime := nTime, nServices := nServices } addr
          nRand with
      | true => exact ⟨false, _, rfl, htouched⟩
      | false =>
          rcases of_keepsReferences_eq_false hkeeps with ⟨hfresh, hcount⟩
          have hbound := lt_of_le_of_ne (hentry.bound hfresh) hcount
          have hlimbo : Kept Hash nKey [nId] 0
              (s.setInfo nId { info with nTime := nTime, nServices := nServices }) :=
            htouched.relabel fun n hmem => nomatch hmem
          rcases hlimbo.place (AList.lookup_insert _) hfresh hbound source nLater
            with ⟨s', hplace, hkept'⟩
          rw [if_neg Bool.false_ne_true, hplace]
          exact ⟨false, s', rfl, hkept'⟩

/-!
# Connections
-/

/-- Every bucket is looked at in some round. -/
theorem exists_round (bucket : Fin ADDRMAN_NEW_BUCKET_COUNT) (nRnd : Nat) :
    exists n, n < ADDRMAN_NEW_BUCKET_COUNT ∧
      Fin.ofNat ADDRMAN_NEW_BUCKET_COUNT (n + nRnd) = bucket := by
  have hlt : bucket.val < 1024 := bucket.isLt
  refine ⟨(bucket.val + (1024 - nRnd % 1024)) % 1024, Nat.mod_lt _ (by decide), Fin.ext ?_⟩
  change ((bucket.val + (1024 - nRnd % 1024)) % 1024 + nRnd) % 1024 = bucket.val
  omega

/-- A new entry is found in some bucket, whichever bucket comes first. -/
theorem Kept.inSomeBucket (h : Kept Hash nKey [] 0 s) (hinfo : s.mapInfo.lookup nId = some info)
    (hfresh : info.fInTried = false) (nRnd : Nat) : s.inSomeBucket Hash nId nRnd = true := by
  have hid := h.ne_empty hinfo
  have hpos := (h.entry nId info hinfo).referred hfresh List.not_mem_nil
  have hcount := (h.tables.fresh nId info hinfo hfresh).2
  have href : 0 < references s.vvNew nId := by omega
  rcases (references_pos_iff _ _).mp href with ⟨slot, hslot⟩
  have hown := (h.tables.slot_of_new hinfo hid hslot).2
  rcases exists_round slot.1 nRnd with ⟨n, hn, hbucket⟩
  unfold CAddrMan.inSomeBucket
  rw [List.any_eq_true]
  refine ⟨n, List.mem_range.mpr hn, ?_⟩
  rw [hbucket, info_of_lookup hinfo, ← hown, hslot]
  exact beq_self_eq_true nId

theorem Kept.good (h : Kept Hash nKey [] 0 s) (addr : CService) (nTime : Time) (nRand : Nat) :
    exists s', s.good Hash addr nTime.val nRand = some s' ∧ Kept Hash nKey [] 0 s' := by
  have hne : nTime.val ≠ 0 := by
    intro hzero
    have hpos := nTime.positive
    rw [hzero] at hpos
    exact absurd hpos (by decide)
  have hnonneg : 0 ≤ nTime.val.toInt := Int.le_of_lt nTime.positive
  unfold CAddrMan.good
  rcases find_cases h.indexes addr.toCNetAddr with ⟨hfind, _⟩ | ⟨nId, info, hfind, hinfo⟩
  · rw [hfind]
    exact ⟨s, rfl, h⟩
  · rw [hfind]
    dsimp only
    by_cases hsame : info.toCService ≠ addr
    · rw [if_pos hsame]
      exact ⟨s, rfl, h⟩
    · rw [if_neg hsame]
      have htouched := h.touch hinfo
        { info with nLastSuccess := nTime.val, nLastTry := nTime.val, nAttempts := 0 }
        rfl rfl rfl rfl (fun _ => hne) hnonneg hnonneg
      by_cases htried : info.fInTried = true
      · rw [if_pos htried]
        exact ⟨_, rfl, htouched⟩
      · rw [if_neg htried, if_pos (htouched.inSomeBucket (AList.lookup_insert _)
          (Bool.eq_false_iff.mpr htried) _)]
        exact htouched.makeTried (AList.lookup_insert _) (Bool.eq_false_iff.mpr htried) hne

theorem Kept.attempt (h : Kept Hash nKey [] 0 s) (addr : CService) (nTime : Time) :
    Kept Hash nKey [] 0 (s.attempt addr nTime.val) := by
  unfold CAddrMan.attempt
  rcases find_cases h.indexes addr.toCNetAddr with ⟨hfind, _⟩ | ⟨nId, info, hfind, hinfo⟩
  · rw [hfind]
    exact h
  · rw [hfind]
    dsimp only
    have hentry := h.entry nId info hinfo
    by_cases hsame : info.toCService ≠ addr
    · rw [if_pos hsame]
      exact h
    · rw [if_neg hsame]
      exact h.touch hinfo _ rfl rfl rfl rfl (fun hin => (hentry.tried hin).1)
        (Int.le_of_lt nTime.positive) hentry.lastSuccess

theorem Kept.connected (h : Kept Hash nKey [] 0 s) (addr : CService) (nTime : Time) :
    Kept Hash nKey [] 0 (s.connected addr nTime.val) := by
  unfold CAddrMan.connected
  rcases find_cases h.indexes addr.toCNetAddr with ⟨hfind, _⟩ | ⟨nId, info, hfind, hinfo⟩
  · rw [hfind]
    exact h
  · rw [hfind]
    dsimp only
    have hentry := h.entry nId info hinfo
    by_cases hsame : info.toCService ≠ addr
    · rw [if_pos hsame]
      exact h
    · rw [if_neg hsame]
      by_cases hinterval : nTime.val.toInt - info.nTime.toNat > 20 * 60
      · rw [if_pos hinterval]
        exact h.touch hinfo _ rfl rfl rfl rfl (fun hin => (hentry.tried hin).1) hentry.lastTry
          hentry.lastSuccess
      · rw [if_neg hinterval]
        exact h

/-!
# Drawing addresses
-/

theorem Kept.getAddrLoop (nNodes : Nat) (nRand : Nat -> Nat) (nNow : Nat -> Int) :
    forall (left n : Nat) (vAddr : List CAddress) (s : CAddrMan), Kept Hash nKey [] 0 s ->
      n + left = s.vRandom.length ->
      exists vAddr' s', CAddrMan.getAddrLoop nNodes nRand nNow left n vAddr s =
        some (vAddr', s') ∧ Kept Hash nKey [] 0 s' := by
  intro left
  induction left with
  | zero => exact fun n vAddr s h _ => ⟨vAddr, s, rfl, h⟩
  | succ left ih =>
      intro n vAddr s h hlen
      unfold CAddrMan.getAddrLoop
      by_cases hfull : vAddr.length ≥ nNodes
      · rw [if_pos hfull]
        exact ⟨vAddr, s, rfl, h⟩
      · rw [if_neg hfull]
        have hn : n < s.vRandom.length := by omega
        have hdraw : getRandInt (s.vRandom.length - n) (nRand n) + n < s.vRandom.length := by
          have hmod := Nat.mod_lt (nRand n) (show 0 < s.vRandom.length - n by omega)
          unfold getRandInt
          omega
        rcases h.indexes.swapRandom hn hdraw with ⟨s', hswap, hmoved, hindexes, _⟩
        have hn' : n < s'.vRandom.length := by
          rw [hmoved.length]
          exact hn
        have hget := List.getElem?_eq_getElem hn'
        rcases hindexes.lookup_of_getElem hget with ⟨ai, hai, _⟩
        have hkept := h.moved hmoved hindexes
        have hlen' : n + 1 + left = s'.vRandom.length := by
          rw [hmoved.length]
          omega
        dsimp only
        rw [hswap, some_bind, hget, some_bind, hai, some_bind]
        exact ih (n + 1) _ s' hkept hlen'

theorem Kept.getAddr (h : Kept Hash nKey [] 0 s) (nRand : Nat -> Nat) (nNow : Nat -> Int) :
    exists vAddr s', s.getAddr nRand nNow = some (vAddr, s') ∧ Kept Hash nKey [] 0 s' :=
  Kept.getAddrLoop _ nRand nNow _ 0 [] s h (Nat.zero_add _)

end CAddrMan

/-!
# Whole runs
-/

variable {Hash : List UInt8 -> UInt256} {nKey : UInt256}

theorem kept_step {s : CAddrMan} (h : s.Kept Hash nKey [] 0) (op : Op) :
    exists s', step Hash s op = some s' ∧ s'.Kept Hash nKey [] 0 := by
  cases op with
  | add addr source nTimePenalty nNow nLater nRand =>
      rcases h.add addr source nTimePenalty nNow nLater nRand with ⟨fNew, s', hadd, hkept⟩
      refine ⟨s', ?_, hkept⟩
      rw [step, hadd]
      rfl
  | good addr nTime nRand => exact h.good addr nTime nRand
  | attempt addr nTime => exact ⟨_, rfl, h.attempt addr nTime⟩
  | connected addr nTime => exact ⟨_, rfl, h.connected addr nTime⟩
  | getAddr nRand nNow =>
      rcases h.getAddr nRand nNow with ⟨vAddr, s', hget, hkept⟩
      refine ⟨s', ?_, hkept⟩
      rw [step, hget]
      rfl

theorem kept_run (ops : List Op) :
    forall s : CAddrMan, s.Kept Hash nKey [] 0 ->
      exists s', ops.foldlM (step Hash) s = some s' ∧ s'.Kept Hash nKey [] 0 := by
  induction ops with
  | nil => exact fun s h => ⟨s, rfl, h⟩
  | cons op ops ih =>
      intro s h
      rcases kept_step h op with ⟨s1, hstep, hkept⟩
      rcases ih s1 hkept with ⟨s', hrun, hkept'⟩
      refine ⟨s', ?_, hkept'⟩
      rw [List.foldlM_cons, hstep]
      exact hrun

/-- The vector holds every id once. -/
theorem CAddrMan.Indexes.length_vRandom {s : CAddrMan} (h : s.Indexes) :
    s.vRandom.length = s.mapInfo.entries.length := by
  have hperm : s.vRandom.Perm s.mapInfo.keys := by
    rw [List.perm_ext_iff_of_nodup h.positions.nodup s.mapInfo.keys_nodup]
    intro nId
    rw [h.positions.mem_iff]
    change _ <-> nId ∈ s.mapInfo
    rw [← AList.lookup_isSome, Option.isSome_iff_exists]
    constructor
    · intro hpos
      rcases hpos with ⟨p, hp⟩
      rcases Option.map_eq_some_iff.mp hp with ⟨info, hinfo, _⟩
      exact ⟨info, hinfo⟩
    · intro hinfo
      rcases hinfo with ⟨info, hinfo⟩
      exact ⟨info.nRandomPos, Option.map_eq_some_iff.mpr ⟨info, hinfo, rfl⟩⟩
  rw [hperm.length_eq]
  exact List.length_map _

/-- Between two operations everything that is checked holds. -/
theorem CAddrMan.Kept.checked {s : CAddrMan} (h : s.Kept Hash nKey [] 0) : s.Checked Hash where
  total := by
    have hsplit := List.length_eq_countP_add_countP
      (fun e : Sigma fun _ : Int => CAddrInfo => e.2.fInTried) (l := s.mapInfo.entries)
    have hnot : (s.mapInfo.entries.countP fun e => decide ¬e.2.fInTried = true) =
        StdMap.countValues s.mapInfo fun info => !info.fInTried := by
      apply List.countP_congr
      intro e _
      simp
    rw [hnot] at hsplit
    have htried : ((s.mapInfo.entries.countP fun e => e.2.fInTried : Nat) : Int) = s.nTried :=
      h.countTried
    have hnew := h.countNew
    rw [h.indexes.length_vRandom]
    omega
  entry := by
    intro nId info hinfo
    have hentry := h.entry nId info hinfo
    have haddr := (h.indexes.addresses info.toCNetAddr nId).mpr ⟨info, hinfo, rfl⟩
    have hpos := (h.indexes.positions nId info.nRandomPos).mp
      (Option.map_eq_some_iff.mpr ⟨info, hinfo, rfl⟩)
    refine ⟨hentry.tried, ?_, ?_, hpos, hentry.lastTry, hentry.lastSuccess⟩
    · intro hfresh
      exact ⟨hentry.referred hfresh List.not_mem_nil, hentry.bound hfresh⟩
    · rw [haddr, Option.getD_some]
  countTried := h.countTried
  countNew := by
    rw [h.countNew, Int.add_zero]
  tables := h.tables

end AddrMan
end Hbcur
