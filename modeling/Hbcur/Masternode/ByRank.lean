import Hbcur.Masternode.Rank

/-!
# Masternodes by rank

`GetMasternodeByRank` sorts the same scores as `GetMasternodeRank`, but it neither leaves out
masternodes which have only just been activated nor asks whether the block is known.
-/

namespace Hbcur
namespace CMasternodeMan

/-- Whether a masternode is looked at when one is asked for by rank. -/
def looksAtByRank (minProtocol : Int) (fOnlyActive : Bool) (mn : CMasternode) : Bool :=
  !decide (mn.protocolVersion < minProtocol) && !(fOnlyActive && !mn.isEnabled)

def scoresByRank (mnodeman : CMasternodeMan) (nBlockHeight minProtocol : Int)
    (fOnlyActive : Bool) : List (Int × CTxIn) :=
  (mnodeman.vMasternodes.filter (looksAtByRank minProtocol fOnlyActive)).map fun mn =>
    (mnodeman.calculateScore mn nBlockHeight, mn.vin)

def getMasternodeByRank (mnodeman : CMasternodeMan) (nRank nBlockHeight minProtocol : Int)
    (fOnlyActive : Bool := true) : Option CMasternode :=
  if nRank ≤ 0 then none
  else
    ((mnodeman.sortScores (mnodeman.scoresByRank nBlockHeight minProtocol
      fOnlyActive))[(nRank - 1).toNat]?).bind fun s => mnodeman.find s.2

/-- Ranks and masternodes are found from each other. -/
structure RanksAgree (mnodeman : CMasternodeMan) (nBlockHeight minProtocol : Int)
    (fOnlyActive : Bool) : Prop where
  byRank : forall vin,
    0 < mnodeman.getMasternodeRank vin nBlockHeight minProtocol fOnlyActive ->
      exists mn, mn.vin.prevout = vin.prevout ∧
        mnodeman.getMasternodeByRank
          (mnodeman.getMasternodeRank vin nBlockHeight minProtocol fOnlyActive)
          nBlockHeight minProtocol fOnlyActive = some mn
  rank : forall nRank mn,
    mnodeman.getMasternodeByRank nRank nBlockHeight minProtocol fOnlyActive = some mn ->
      mnodeman.getMasternodeRank mn.vin nBlockHeight minProtocol fOnlyActive = nRank

theorem takesPart_eq (mnodeman : CMasternodeMan) (minProtocol : Int) (fOnlyActive : Bool)
    (mn : CMasternode) :
    mnodeman.takesPart minProtocol fOnlyActive mn =
      (looksAtByRank minProtocol fOnlyActive mn && !mnodeman.tooYoung mn) := by
  unfold takesPart looksAtByRank
  rw [Bool.and_right_comm]

/-- The block is known, and no masternode is left out for its age alone. -/
def NoneTooYoung (mnodeman : CMasternodeMan) (nBlockHeight minProtocol : Int)
    (fOnlyActive : Bool) : Prop :=
  forall mn, mn ∈ mnodeman.vMasternodes -> looksAtByRank minProtocol fOnlyActive mn = true ->
    (mnodeman.getBlockHash nBlockHeight).isSome = true ∧ mnodeman.tooYoung mn = false

variable {mnodeman : CMasternodeMan} {vin : CTxIn} {nBlockHeight minProtocol : Int}
  {fOnlyActive : Bool}

theorem find_mem {mn : CMasternode} (h : mnodeman.find vin = some mn) :
    mn ∈ mnodeman.vMasternodes ∧ mn.vin.prevout = vin.prevout := by
  unfold find at h
  have hvin := List.find?_some h
  exact ⟨List.mem_of_find?_eq_some h, eq_of_beq hvin⟩

theorem find_isSome {mn : CMasternode} (hin : mn ∈ mnodeman.vMasternodes)
    (hvin : mn.vin.prevout = vin.prevout) : exists mn', mnodeman.find vin = some mn' := by
  apply Option.isSome_iff_exists.mp
  unfold find
  rw [List.find?_isSome]
  exact ⟨mn, hin, beq_iff_eq.mpr hvin⟩

/-- Who is found by a rank is a masternode which is looked at. -/
theorem getMasternodeByRank_eq_some {nRank : Int} {mn : CMasternode}
    (h : mnodeman.getMasternodeByRank nRank nBlockHeight minProtocol fOnlyActive = some mn) :
    exists i s, nRank = (i : Nat) + 1 ∧
      (mnodeman.sortScores (mnodeman.scoresByRank nBlockHeight minProtocol fOnlyActive))[i]? =
        some s ∧ mnodeman.find s.2 = some mn := by
  unfold getMasternodeByRank at h
  split_ifs at h with hpositive
  rcases Option.bind_eq_some_iff.mp h with ⟨s, hs, hfind⟩
  exact ⟨(nRank - 1).toNat, s, by omega, hs, hfind⟩

theorem getMasternodeByRank_succ (i : Nat) :
    mnodeman.getMasternodeByRank (i + 1) nBlockHeight minProtocol fOnlyActive =
      ((mnodeman.sortScores (mnodeman.scoresByRank nBlockHeight minProtocol
        fOnlyActive))[i]?).bind fun s => mnodeman.find s.2 := by
  unfold getMasternodeByRank
  rw [if_neg (by omega), add_sub_cancel_right, Int.toNat_natCast]

/-- The first position of a masternode's outpoint is its rank. -/
theorem exists_findIdx_of_rank
    (h : 0 < mnodeman.getMasternodeRank vin nBlockHeight minProtocol fOnlyActive) :
    exists i : Nat,
      (mnodeman.sortScores (mnodeman.scores nBlockHeight minProtocol
        fOnlyActive)).findIdx? (fun s => s.2.prevout == vin.prevout) = some i ∧
      mnodeman.getMasternodeRank vin nBlockHeight minProtocol fOnlyActive = i + 1 := by
  unfold getMasternodeRank at h ⊢
  cases hhash : mnodeman.getBlockHash nBlockHeight with
  | none => simp [hhash] at h
  | some hash =>
      cases hidx : (mnodeman.sortScores (mnodeman.scores nBlockHeight minProtocol
          fOnlyActive)).findIdx? fun s => s.2.prevout == vin.prevout with
      | none => simp [hhash, hidx] at h
      | some i => exact ⟨i, rfl, rfl⟩

/-- The position of a masternode among the scores. -/
theorem getMasternodeRank_eq_succ (hknown : (mnodeman.getBlockHash nBlockHeight).isSome = true)
    {i : Nat}
    (hi : (mnodeman.sortScores (mnodeman.scores nBlockHeight minProtocol
      fOnlyActive)).findIdx? (fun s => s.2.prevout == vin.prevout) = some i) :
    mnodeman.getMasternodeRank vin nBlockHeight minProtocol fOnlyActive = i + 1 := by
  rcases Option.isSome_iff_exists.mp hknown with ⟨hash, hhash⟩
  unfold getMasternodeRank
  rw [hhash, hi]

end CMasternodeMan

namespace ScoredMan

open CMasternodeMan

variable {mnodeman : ScoredMan} {nBlockHeight minProtocol : Int} {fOnlyActive : Bool}

/-- Entries of the ranking for the same outpoint are the same. -/
theorem entry_eq (hdistinct : mnodeman.DistinctScores nBlockHeight) {s s' : Int × CTxIn}
    (hs : s ∈ mnodeman.scoresByRank nBlockHeight minProtocol fOnlyActive)
    (hs' : s' ∈ mnodeman.scoresByRank nBlockHeight minProtocol fOnlyActive)
    (hvin : s.2.prevout = s'.2.prevout) : s = s' := by
  rcases List.mem_map.mp hs with ⟨mn, hmn, rfl⟩
  rcases List.mem_map.mp hs' with ⟨mn', hmn', rfl⟩
  rw [eq_of_prevout_eq hdistinct (List.mem_of_mem_filter hmn) (List.mem_of_mem_filter hmn') hvin]

theorem nodup_scoresByRank (hdistinct : mnodeman.DistinctScores nBlockHeight) :
    (mnodeman.scoresByRank nBlockHeight minProtocol fOnlyActive).Nodup := by
  apply List.Nodup.of_map Prod.fst
  unfold scoresByRank
  rw [List.map_map]
  exact hdistinct.sublist (List.filter_sublist.map _)

/-- Every masternode which is looked at is found by some rank. -/
theorem exists_rank (hdistinct : mnodeman.DistinctScores nBlockHeight) {mn : CMasternode}
    (hin : mn ∈ mnodeman.vMasternodes)
    (hlooks : looksAtByRank minProtocol fOnlyActive mn = true) :
    exists i : Nat,
      mnodeman.getMasternodeByRank (i + 1) nBlockHeight minProtocol fOnlyActive = some mn := by
  have hentry : (mnodeman.calculateScore mn nBlockHeight, mn.vin) ∈
      mnodeman.sortScores (mnodeman.scoresByRank nBlockHeight minProtocol fOnlyActive) :=
    (mnodeman.sortScores_perm _).mem_iff.mpr
      (List.mem_map.mpr ⟨mn, List.mem_filter.mpr ⟨hin, hlooks⟩, rfl⟩)
  rcases List.getElem?_of_mem hentry with ⟨i, hi⟩
  rcases find_isSome hin rfl with ⟨mn', hfind⟩
  rcases find_mem hfind with ⟨hin', hvin⟩
  refine ⟨i, ?_⟩
  rw [getMasternodeByRank_succ, hi]
  exact hfind.trans (congrArg some (eq_of_prevout_eq hdistinct hin' hin hvin))

/-- The two functions rank the same masternodes if none is left out for its age. -/
theorem scoresByRank_eq (h : mnodeman.NoneTooYoung nBlockHeight minProtocol fOnlyActive) :
    mnodeman.scoresByRank nBlockHeight minProtocol fOnlyActive =
      mnodeman.scores nBlockHeight minProtocol fOnlyActive := by
  unfold scoresByRank scores
  rw [List.filter_congr]
  intro mn hin
  rw [takesPart_eq]
  cases hlooks : looksAtByRank minProtocol fOnlyActive mn with
  | false => rfl
  | true => rw [(h mn hin hlooks).2]; rfl

/-- Whoever has a rank is found by it. -/
theorem found_by_rank (hnone : mnodeman.NoneTooYoung nBlockHeight minProtocol fOnlyActive)
    {vin : CTxIn}
    (hpositive : 0 < mnodeman.getMasternodeRank vin nBlockHeight minProtocol fOnlyActive) :
    exists mn, mn.vin.prevout = vin.prevout ∧
      mnodeman.getMasternodeByRank
        (mnodeman.getMasternodeRank vin nBlockHeight minProtocol fOnlyActive)
        nBlockHeight minProtocol fOnlyActive = some mn := by
  rcases exists_findIdx_of_rank hpositive with ⟨i, hidx, hrank⟩
  rcases List.findIdx?_eq_some_iff_getElem.mp hidx with ⟨hlt, hvin, _⟩
  rcases one_le_rank_iff.mp hpositive with ⟨_, mn, hin, hmn, _⟩
  have hs := eq_of_beq hvin
  rcases find_isSome hin (hmn.trans hs.symm) with ⟨mn', hfind⟩
  refine ⟨mn', (find_mem hfind).2.trans hs, ?_⟩
  rw [hrank, getMasternodeByRank_succ, scoresByRank_eq hnone, List.getElem?_eq_getElem hlt]
  exact hfind

/-- In the sorted scores the place of an entry is the first one with its outpoint. -/
theorem findIdx_eq (hdistinct : mnodeman.DistinctScores nBlockHeight) {i : Nat}
    {s : Int × CTxIn} {vin : CTxIn}
    (hi : (mnodeman.sortScores
      (mnodeman.scoresByRank nBlockHeight minProtocol fOnlyActive))[i]? = some s)
    (hvin : vin.prevout = s.2.prevout) :
    (mnodeman.sortScores (mnodeman.scoresByRank nBlockHeight minProtocol
      fOnlyActive)).findIdx? (fun s => s.2.prevout == vin.prevout) = some i := by
  have hperm := mnodeman.sortScores_perm
    (mnodeman.scoresByRank nBlockHeight minProtocol fOnlyActive)
  rcases List.getElem?_eq_some_iff.mp hi with ⟨hlt, hs⟩
  refine List.findIdx?_eq_some_iff_getElem.mpr ⟨hlt, ?_, ?_⟩
  · rw [hs, hvin]
    exact beq_self_eq_true _
  · intro j hj hsamevin
    -- An entry before it for the same outpoint would be the same entry.
    have hmem := hperm.mem_iff.mp (List.mem_of_getElem? hi)
    have hjmem := hperm.mem_iff.mp (List.getElem_mem (hj.trans hlt))
    have heq := entry_eq hdistinct hjmem hmem ((eq_of_beq hsamevin).trans hvin)
    have hnodup := hperm.nodup_iff.mpr (nodup_scoresByRank hdistinct)
    have hij := (hnodup.getElem_inj_iff).mp (heq.trans hs.symm)
    omega

/-- Whoever is found by a rank has it. -/
theorem rank_of_found (hdistinct : mnodeman.DistinctScores nBlockHeight)
    (hnone : mnodeman.NoneTooYoung nBlockHeight minProtocol fOnlyActive) {nRank : Int}
    {mn : CMasternode}
    (hfound : mnodeman.getMasternodeByRank nRank nBlockHeight minProtocol fOnlyActive = some mn) :
    mnodeman.getMasternodeRank mn.vin nBlockHeight minProtocol fOnlyActive = nRank := by
  rcases getMasternodeByRank_eq_some hfound with ⟨i, s, rfl, hi, hfind⟩
  have hmem : s ∈ mnodeman.scoresByRank nBlockHeight minProtocol fOnlyActive :=
    (mnodeman.sortScores_perm _).mem_iff.mp (List.mem_of_getElem? hi)
  rcases List.mem_map.mp hmem with ⟨mn', hmn', _⟩
  rcases List.mem_filter.mp hmn' with ⟨hin', hlooks'⟩
  apply getMasternodeRank_eq_succ (hnone mn' hin' hlooks').1
  rw [← scoresByRank_eq hnone]
  exact findIdx_eq hdistinct hi (find_mem hfind).2

/-- With distinct scores the rank functions agree exactly if they rank the same masternodes. -/
theorem ranksAgree_iff (hdistinct : mnodeman.DistinctScores nBlockHeight) :
    mnodeman.RanksAgree nBlockHeight minProtocol fOnlyActive <->
      mnodeman.NoneTooYoung nBlockHeight minProtocol fOnlyActive := by
  constructor
  · intro hagree mn hin hlooks
    rcases exists_rank hdistinct hin hlooks with ⟨i, hi⟩
    have hrank := hagree.rank _ _ hi
    rcases one_le_rank_iff.mp (show 1 ≤ mnodeman.getMasternodeRank mn.vin nBlockHeight
      minProtocol fOnlyActive by omega) with ⟨hknown, mn', hin', hvin, htakes⟩
    rw [eq_of_prevout_eq hdistinct hin' hin hvin, takesPart_eq, Bool.and_eq_true,
      Bool.not_eq_true'] at htakes
    exact ⟨hknown, htakes.2⟩
  · intro hnone
    constructor
    · exact fun vin hpositive => found_by_rank hnone hpositive
    · exact fun nRank mn hfound => rank_of_found hdistinct hnone hfound

theorem old_masternodes_agree :
    (RankExample.node [RankExample.masternode 1 0, RankExample.masternode 2 5]).RanksAgree
      100 70914 true := by
  refine (ranksAgree_iff ?_).mpr ?_
  · unfold DistinctScores
    decide +kernel
  · unfold NoneTooYoung
    decide +kernel

/-- The rank of the old masternode is the position of the one which is too young. -/
theorem young_masternode_found_by_rank :
    ¬ forall (mnodeman : ScoredMan) (nBlockHeight minProtocol : Int) (fOnlyActive : Bool),
      mnodeman.DistinctScores nBlockHeight ->
        mnodeman.RanksAgree nBlockHeight minProtocol fOnlyActive := by
  intro h
  have hagree := h (RankExample.node [RankExample.masternode 1 0, RankExample.masternode 2 15])
    100 70914 true (by unfold DistinctScores; decide +kernel)
  rcases hagree.byRank (RankExample.masternode 1 0).vin (by decide +kernel) with
    ⟨mn, hvin, hfound⟩
  have hyoung : (RankExample.node
      [RankExample.masternode 1 0, RankExample.masternode 2 15]).getMasternodeByRank
        ((RankExample.node
          [RankExample.masternode 1 0, RankExample.masternode 2 15]).getMasternodeRank
            (RankExample.masternode 1 0).vin 100 70914 true) 100 70914 true =
      some (RankExample.masternode 2 15) := by
    decide +kernel
  rw [Option.some_inj.mp (hfound.symm.trans hyoung)] at hvin
  exact absurd hvin (by decide +kernel)

end ScoredMan

end Hbcur
