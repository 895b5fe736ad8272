import Hbcur.Foundation.Arrangement
import Hbcur.Masternode.ByRank
import Hbcur.Masternode.Queue

/-!
# The order in which masternodes have arrived

Masternodes are listed in the order in which a node has heard of them.  Sorting leaves equal
scores in an order which depends on that of the list, and so may ranks and payees.
-/

namespace Hbcur

open Foundation

/-!
# Sorted listings
-/

/-- The masternodes which take part, with what they are sorted by. -/
def listing (takes : CMasternode -> Bool) (key : CMasternode -> Int) (l : List CMasternode) :
    List (Int × CTxIn) :=
  (l.filter takes).map fun mn => (key mn, mn.vin)

/-- A sort sees nothing but the scores. -/
def ComparesScores (sort : List (Int × CTxIn) -> List (Int × CTxIn)) : Prop :=
  forall f : Int × CTxIn -> Int × CTxIn, (forall s, (f s).1 = s.1) ->
    forall l, sort (l.map f) = (sort l).map f

/-- No two masternodes have the same outpoint. -/
def DistinctOutPoints (l : List CMasternode) : Prop :=
  (l.map fun mn => mn.vin.prevout).Nodup

section Listings

variable {takes : CMasternode -> Bool} {key : CMasternode -> Int} {l l' : List CMasternode}

theorem DistinctOutPoints.eq (h : DistinctOutPoints l) {mn mn' : CMasternode} (hin : mn ∈ l)
    (hin' : mn' ∈ l) (hvin : mn.vin.prevout = mn'.vin.prevout) : mn = mn' :=
  List.inj_on_of_nodup_map h hin hin' hvin

theorem DistinctOutPoints.perm (h : DistinctOutPoints l) (hperm : l'.Perm l) :
    DistinctOutPoints l' :=
  (hperm.map _).nodup_iff.mpr h

theorem mem_listing_iff {s : Int × CTxIn} :
    s ∈ listing takes key l <->
      exists mn, mn ∈ l ∧ takes mn = true ∧ s = (key mn, mn.vin) := by
  unfold listing
  constructor
  · intro hs
    rcases List.mem_map.mp hs with ⟨mn, hmn, rfl⟩
    rcases List.mem_filter.mp hmn with ⟨hin, htakes⟩
    exact ⟨mn, hin, htakes, rfl⟩
  · intro hs
    rcases hs with ⟨mn, hin, htakes, rfl⟩
    exact List.mem_map.mpr ⟨mn, List.mem_filter.mpr ⟨hin, htakes⟩, rfl⟩

/-- Entries of a listing are known by their outpoints. -/
theorem listing_inj (h : DistinctOutPoints l) {s s' : Int × CTxIn}
    (hs : s ∈ listing takes key l) (hs' : s' ∈ listing takes key l)
    (hvin : s.2.prevout = s'.2.prevout) : s = s' := by
  rcases mem_listing_iff.mp hs with ⟨mn, hin, _, rfl⟩
  rcases mem_listing_iff.mp hs' with ⟨mn', hin', _, rfl⟩
  rw [h.eq hin hin' hvin]

variable (takes key) in
theorem nodup_listing (h : DistinctOutPoints l) : (listing takes key l).Nodup := by
  apply List.Nodup.of_map (fun s => s.2.prevout)
  unfold listing
  rw [List.map_map]
  exact h.sublist (List.filter_sublist.map _)

theorem perm_listing (hperm : l'.Perm l) : (listing takes key l').Perm (listing takes key l) :=
  (hperm.filter takes).map _

/-- Exchanging two masternodes which take part exchanges their entries. -/
theorem listing_map_swap (h : DistinctOutPoints l) {x y : CMasternode} (hx : x ∈ l) (hy : y ∈ l)
    (htakesx : takes x = true) (htakesy : takes y = true) :
    listing takes key (l.map (Equiv.swap x y)) =
      (listing takes key l).map (Equiv.swap (key x, x.vin) (key y, y.vin)) := by
  have htakes : takes ∘ Equiv.swap x y = takes := by
    funext mn
    by_cases hmx : mn = x
    · simp [hmx, htakesx, htakesy]
    · by_cases hmy : mn = y
      · simp [hmy, htakesx, htakesy]
      · simp [Equiv.swap_apply_of_ne_of_ne hmx hmy]
  unfold listing
  rw [List.filter_map, htakes, List.map_map, List.map_map]
  apply List.map_congr_left
  intro mn hmn
  have hin := List.mem_of_mem_filter hmn
  change (key (Equiv.swap x y mn), (Equiv.swap x y mn).vin) =
    Equiv.swap (key x, x.vin) (key y, y.vin) (key mn, mn.vin)
  by_cases hmx : mn = x
  · rw [hmx, Equiv.swap_apply_left, Equiv.swap_apply_left]
  · by_cases hmy : mn = y
    · rw [hmy, Equiv.swap_apply_right, Equiv.swap_apply_right]
    · have hvin : forall z, z ∈ l -> mn ≠ z -> (key mn, mn.vin) ≠ (key z, z.vin) := by
        intro z hz hne heq
        exact hne (h.eq hin hz (congrArg (fun s => s.2.prevout) heq))
      rw [Equiv.swap_apply_of_ne_of_ne hmx hmy,
        Equiv.swap_apply_of_ne_of_ne (hvin x hx hmx) (hvin y hy hmy)]

/-- The sorted listings of all orders in which the masternodes may have arrived. -/
def arrivals (sort : List (Int × CTxIn) -> List (Int × CTxIn)) (takes : CMasternode -> Bool)
    (key : CMasternode -> Int) (l : List CMasternode) (sorted : List (Int × CTxIn)) : Prop :=
  exists l', l'.Perm l ∧ sorted = sort (listing takes key l')

variable (takes key) in
/-- Entries with the same score change places when their masternodes do. -/
theorem exchangeable_arrivals {mnodeman : CMasternodeMan}
    (hsort : ComparesScores mnodeman.sortScores) (h : DistinctOutPoints l) :
    Exchangeable Prod.fst (listing takes key l)
      (arrivals mnodeman.sortScores takes key l) := by
  constructor
  · intro sorted hsorted
    rcases hsorted with ⟨l', hperm, rfl⟩
    exact (mnodeman.sortScores_perm _).trans (perm_listing hperm)
  · intro sorted hsorted
    rcases hsorted with ⟨l', _, rfl⟩
    exact mnodeman.sortScores_sorted _
  · intro sorted a b hsorted ha hb hkey
    rcases hsorted with ⟨l', hperm, rfl⟩
    rcases mem_listing_iff.mp ha with ⟨x, hx, htakesx, rfl⟩
    rcases mem_listing_iff.mp hb with ⟨y, hy, htakesy, rfl⟩
    have hx' := hperm.mem_iff.mpr hx
    have hy' := hperm.mem_iff.mpr hy
    have hdistinct := h.perm hperm
    refine ⟨l'.map (Equiv.swap x y), ?_, ?_⟩
    · exact (perm_map_swap (List.Nodup.of_map _ hdistinct) hx' hy').trans hperm
    · rw [listing_map_swap hdistinct hx' hy' htakesx htakesy]
      refine (hsort _ ?_ _).symm
      intro s
      rw [Equiv.swap_apply_def]
      split_ifs with hsx hsy
      · rw [hsx]
        exact hkey.symm
      · rw [hsy]
        exact hkey
      · rfl

end Listings

/-!
# Ranks
-/

namespace ScoredMan

/-- The same node, had it heard of the masternodes in another order. -/
def arrivedAs (mnodeman : ScoredMan) (l : List CMasternode) : ScoredMan :=
  { mnodeman with vMasternodes := l }

variable {mnodeman : ScoredMan} {nBlockHeight minProtocol : Int} {fOnlyActive : Bool}

/-- Lists of entries in which all outpoints have the same positions are the same. -/
theorem eq_of_positions {sorted sorted' : List (Int × CTxIn)}
    (hperm : sorted'.Perm sorted) (hnodup : sorted.Nodup)
    (hinj : forall s s', s ∈ sorted -> s' ∈ sorted -> s.2.prevout = s'.2.prevout -> s = s')
    (hsame : forall vin : CTxIn, sorted'.findIdx? (fun s => s.2.prevout == vin.prevout) =
      sorted.findIdx? fun s => s.2.prevout == vin.prevout) : sorted' = sorted := by
  apply List.ext_getElem hperm.length_eq
  intro i hi' hi
  have hfirst : sorted.findIdx? (fun s => s.2.prevout == (sorted[i]).2.prevout) = some i := by
    refine List.findIdx?_eq_some_iff_getElem.mpr ⟨hi, beq_self_eq_true _, ?_⟩
    intro j hj hvin
    have heq := hinj _ _ (List.getElem_mem (hj.trans hi)) (List.getElem_mem hi) (eq_of_beq hvin)
    have hij := hnodup.getElem_inj_iff.mp heq
    omega
  rw [← hsame (sorted[i]).2] at hfirst
  rcases List.findIdx?_eq_some_iff_getElem.mp hfirst with ⟨_, hvin, _⟩
  exact hinj _ _ (hperm.mem_iff.mp (List.getElem_mem hi')) (List.getElem_mem hi) (eq_of_beq hvin)

theorem rank_eq_iff {mnodeman' : ScoredMan} {vin : CTxIn}
    (hknown : (mnodeman.getBlockHash nBlockHeight).isSome = true)
    (hsame : mnodeman'.getBlockHash = mnodeman.getBlockHash) :
    mnodeman'.getMasternodeRank vin nBlockHeight minProtocol fOnlyActive =
        mnodeman.getMasternodeRank vin nBlockHeight minProtocol fOnlyActive <->
      (mnodeman'.sortScores (mnodeman'.scores nBlockHeight minProtocol fOnlyActive)).findIdx?
          (fun s => s.2.prevout == vin.prevout) =
        (mnodeman.sortScores (mnodeman.scores nBlockHeight minProtocol fOnlyActive)).findIdx?
          fun s => s.2.prevout == vin.prevout := by
  rcases Option.isSome_iff_exists.mp hknown with ⟨hash, hhash⟩
  unfold CMasternodeMan.getMasternodeRank
  rw [hsame, hhash]
  simp only
  constructor
  · intro hrank
    cases hidx' : (mnodeman'.sortScores (mnodeman'.scores nBlockHeight minProtocol
        fOnlyActive)).findIdx? fun s => s.2.prevout == vin.prevout <;>
      cases hidx : (mnodeman.sortScores (mnodeman.scores nBlockHeight minProtocol
        fOnlyActive)).findIdx? fun s => s.2.prevout == vin.prevout <;>
      simp only [hidx', hidx] at hrank <;> grind
  · intro hidx
    rw [hidx]

/-- Ranks are the same in all orders exactly if those who are ranked have different scores. -/
theorem rank_arrivedAs_iff (hsort : ComparesScores mnodeman.sortScores)
    (hdistinct : DistinctOutPoints mnodeman.vMasternodes) :
    (forall l, l.Perm mnodeman.vMasternodes -> forall vin,
        (mnodeman.arrivedAs l).getMasternodeRank vin nBlockHeight minProtocol fOnlyActive =
          mnodeman.getMasternodeRank vin nBlockHeight minProtocol fOnlyActive) <->
      (mnodeman.getBlockHash nBlockHeight = none ∨
        ((mnodeman.scores nBlockHeight minProtocol fOnlyActive).map Prod.fst).Nodup) := by
  cases hhash : mnodeman.getBlockHash nBlockHeight with
  | none =>
      refine iff_of_true ?_ (Or.inl rfl)
      intro l _ vin
      have hhash' : (mnodeman.arrivedAs l).getBlockHash nBlockHeight = none := hhash
      unfold CMasternodeMan.getMasternodeRank
      rw [hhash, hhash']
  | some hash =>
      have hknown : (mnodeman.getBlockHash nBlockHeight).isSome = true := by rw [hhash]; rfl
      have hexchange := exchangeable_arrivals (mnodeman.takesPart minProtocol fOnlyActive)
        (fun mn => mnodeman.calculateScore mn nBlockHeight) hsort hdistinct
      have hnodup := nodup_listing (mnodeman.takesPart minProtocol fOnlyActive)
        (fun mn => mnodeman.calculateScore mn nBlockHeight) hdistinct
      have hself : arrivals mnodeman.sortScores _ _ mnodeman.vMasternodes
          (mnodeman.sortScores (mnodeman.scores nBlockHeight minProtocol fOnlyActive)) :=
        ⟨_, List.Perm.refl _, rfl⟩
      have hperm := hexchange.perm _ hself
      rw [or_iff_right (Option.some_ne_none hash)]
      refine Iff.trans ?_ (hexchange.unique_iff hnodup hself)
      constructor
      · intro hranks sorted' hsorted'
        refine eq_of_positions ((hexchange.perm _ hsorted').trans hperm.symm)
          (hperm.nodup_iff.mpr hnodup) ?_ ?_
        · intro s s' hs hs' hvin
          exact listing_inj hdistinct (hperm.mem_iff.mp hs) (hperm.mem_iff.mp hs') hvin
        · rcases hsorted' with ⟨l, hl, rfl⟩
          have hsame : (mnodeman.arrivedAs l).getBlockHash = mnodeman.getBlockHash := rfl
          exact fun vin => (rank_eq_iff hknown hsame).mp (hranks l hl vin)
      · intro hunique l hl vin
        have hsame : (mnodeman.arrivedAs l).getBlockHash = mnodeman.getBlockHash := rfl
        apply (rank_eq_iff hknown hsame).mpr
        exact congrArg (List.findIdx? _) (hunique _ ⟨l, hl, rfl⟩)

/-!
# Payees
-/

section Queue

variable (mnodeman) (env : QueueEnv)

/-- What an entry of the queue is worth. -/
def queueScore (nBlockHeight : Int) (s : Int × CTxIn) : Nat :=
  match mnodeman.find s.2 with
  | none => 0
  | some pmn =>
      (pmn.calculateScore mnodeman.hashes (mnodeman.getBlockHash (nBlockHeight - 100))).toNat

/-- How many entries of the queue are looked at. -/
def tenthNetwork : Nat :=
  max 1 (mnodeman.nMnCount env / 10)

/-- Whether new masternodes are left out in the end. -/
def filtersSigTime (nBlockHeight : Int) (fFilterSigTime : Bool) : Bool :=
  fFilterSigTime && !decide ((mnodeman.vecMasternodeLastPaid env nBlockHeight
    fFilterSigTime).length < mnodeman.nMnCount env / 3)

theorem getNext_eq (nBlockHeight : Int) (fFilterSigTime : Bool) :
    mnodeman.getNextMasternodeInQueueForPayment env nBlockHeight fFilterSigTime =
      mnodeman.payFrom env nBlockHeight (mnodeman.vecMasternodeLastPaid env nBlockHeight
        (mnodeman.filtersSigTime env nBlockHeight fFilterSigTime)) := by
  unfold getNextMasternodeInQueueForPayment filtersSigTime
  cases fFilterSigTime with
  | false => simp
  | true =>
      simp only [Bool.true_and]
      split_ifs with hfew <;> simp [hfew]

variable {mnodeman}

/-- The loop keeps the best entry so far. -/
theorem bestOfTenth_eq (nTenthNetwork : Nat) :
    forall (sorted : List (Int × CTxIn)) (nCountTenth : Nat) (nHigh : UInt256)
      (best : Option (Int × CTxIn) × Nat), nHigh.toNat = best.2 ->
      (forall s, s ∈ sorted -> exists mn, mnodeman.find s.2 = some mn) ->
        mnodeman.bestOfTenth nTenthNetwork nBlockHeight nCountTenth nHigh
            (best.1.bind fun s => mnodeman.find s.2) sorted =
          ((sorted.take (max 1 (nTenthNetwork - nCountTenth))).foldl
            (better (mnodeman.queueScore nBlockHeight)) best).1.bind
              fun s => mnodeman.find s.2 := by
  intro sorted
  induction sorted with
  | nil =>
      intro nCountTenth nHigh best _ _
      rw [List.take_nil]
      rfl
  | cons s rest ih =>
      intro nCountTenth nHigh best hhigh hfound
      rcases hfound s List.mem_cons_self with ⟨pmn, hpmn⟩
      have hrest := fun s' hmem => hfound s' (List.mem_cons_of_mem _ hmem)
      have hscore : mnodeman.queueScore nBlockHeight s =
          (pmn.calculateScore mnodeman.hashes
            (mnodeman.getBlockHash (nBlockHeight - 100))).toNat := by
        unfold queueScore
        rw [hpmn]
      have hstep : forall n : UInt256, n.toNat = mnodeman.queueScore nBlockHeight s ->
          (if n > nHigh then n else nHigh).toNat =
              (better (mnodeman.queueScore nBlockHeight) best s).2 ∧
            (if n > nHigh then some pmn else best.1.bind fun s => mnodeman.find s.2) =
              (better (mnodeman.queueScore nBlockHeight) best s).1.bind
                fun s => mnodeman.find s.2 := by
        intro n hn
        have hgt : n > nHigh <-> mnodeman.queueScore nBlockHeight s > best.2 := by
          rw [← hn, ← hhigh]
          exact BitVec.lt_def
        unfold better
        by_cases hbetter : n > nHigh
        · rw [if_pos hbetter, if_pos hbetter, if_pos (hgt.mp hbetter)]
          exact ⟨hn, hpmn.symm⟩
        · rw [if_neg hbetter, if_neg hbetter, if_neg (mt hgt.mpr hbetter)]
          exact ⟨hhigh, rfl⟩
      rcases hstep _ hscore.symm with ⟨hhigh', hbest'⟩
      unfold bestOfTenth
      rw [hpmn]
      simp only
      rw [hbest']
      by_cases hlast : nCountTenth + 1 ≥ nTenthNetwork
      · have hone : max 1 (nTenthNetwork - nCountTenth) = 1 := by omega
        rw [if_pos hlast, hone]
        rfl
      · have hmore : max 1 (nTenthNetwork - nCountTenth) =
            max 1 (nTenthNetwork - (nCountTenth + 1)) + 1 := by omega
        rw [if_neg hlast, ih _ _ _ hhigh' hrest, hmore, List.take_succ_cons, List.foldl_cons]

theorem payFrom_eq {vec : List (Int × CTxIn)}
    (hfound : forall s, s ∈ vec -> exists mn, mnodeman.find s.2 = some mn) :
    mnodeman.payFrom env nBlockHeight vec =
      ((firstHighest (mnodeman.queueScore nBlockHeight)
          ((mnodeman.sortScores vec).take (mnodeman.tenthNetwork env))).bind
        fun s => mnodeman.find s.2, vec.length) := by
  refine Prod.ext ?_ rfl
  have hsorted : forall s, s ∈ mnodeman.sortScores vec ->
      exists mn, mnodeman.find s.2 = some mn :=
    fun s hs => hfound s ((mnodeman.sortScores_perm vec).mem_iff.mp hs)
  exact bestOfTenth_eq (mnodeman.nMnCount env / 10) _ 0 0 (none, 0) rfl hsorted

section Arrived

variable {l : List CMasternode}

theorem find_arrivedAs (hdistinct : DistinctOutPoints mnodeman.vMasternodes)
    (hl : l.Perm mnodeman.vMasternodes) (vin : CTxIn) :
    (mnodeman.arrivedAs l).find vin = mnodeman.find vin := by
  cases hfind : mnodeman.find vin with
  | none =>
      unfold CMasternodeMan.find at hfind ⊢
      rw [List.find?_eq_none] at hfind ⊢
      exact fun mn hin => hfind mn (hl.mem_iff.mp hin)
  | some mn =>
      rcases CMasternodeMan.find_mem hfind with ⟨hin, hvin⟩
      have hin' : mn ∈ (mnodeman.arrivedAs l).vMasternodes := hl.mem_iff.mpr hin
      rcases CMasternodeMan.find_isSome hin' hvin with ⟨mn', hfind'⟩
      rcases CMasternodeMan.find_mem hfind' with ⟨hin'', hvin'⟩
      rw [hfind', hdistinct.eq (hl.mem_iff.mp hin'') hin (hvin'.trans hvin.symm)]

theorem nMnCount_arrivedAs (hl : l.Perm mnodeman.vMasternodes) :
    (mnodeman.arrivedAs l).nMnCount env = mnodeman.nMnCount env :=
  (hl.filter _).length_eq

/-- The queue is made from the masternodes one by one, given how many there are. -/
theorem vecMasternodeLastPaid_arrivedAs (hl : l.Perm mnodeman.vMasternodes)
    (fFilterSigTime : Bool) :
    (mnodeman.arrivedAs l).vecMasternodeLastPaid env nBlockHeight fFilterSigTime =
      listing (mnodeman.isQueued env nBlockHeight fFilterSigTime)
        (mnodeman.secondsSincePayment env) l := by
  have hcount := nMnCount_arrivedAs env hl
  have hqueued : (mnodeman.arrivedAs l).isQueued env nBlockHeight fFilterSigTime =
      mnodeman.isQueued env nBlockHeight fFilterSigTime := by
    funext mn
    unfold isQueued newerThanCycle
    rw [hcount]
    rfl
  have hseconds : (mnodeman.arrivedAs l).secondsSincePayment env =
      mnodeman.secondsSincePayment env := by
    funext mn
    unfold secondsSincePayment getLastPaid
    rw [hcount]
    rfl
  unfold vecMasternodeLastPaid
  rw [hqueued, hseconds]
  rfl

theorem filtersSigTime_arrivedAs (hl : l.Perm mnodeman.vMasternodes) (fFilterSigTime : Bool) :
    (mnodeman.arrivedAs l).filtersSigTime env nBlockHeight fFilterSigTime =
      mnodeman.filtersSigTime env nBlockHeight fFilterSigTime := by
  unfold filtersSigTime
  rw [vecMasternodeLastPaid_arrivedAs env hl, nMnCount_arrivedAs env hl,
    (perm_listing hl).length_eq]
  rfl

/-- Who is paid, in terms of the entries in their order. -/
theorem getNext_arrivedAs (hdistinct : DistinctOutPoints mnodeman.vMasternodes)
    (hl : l.Perm mnodeman.vMasternodes) (fFilterSigTime : Bool) :
    (mnodeman.arrivedAs l).getNextMasternodeInQueueForPayment env nBlockHeight fFilterSigTime =
      ((firstHighest (mnodeman.queueScore nBlockHeight)
          ((mnodeman.sortScores (listing (mnodeman.isQueued env nBlockHeight
            (mnodeman.filtersSigTime env nBlockHeight fFilterSigTime))
              (mnodeman.secondsSincePayment env) l)).take (mnodeman.tenthNetwork env))).bind
        fun s => mnodeman.find s.2,
        (mnodeman.vecMasternodeLastPaid env nBlockHeight
          (mnodeman.filtersSigTime env nBlockHeight fFilterSigTime)).length) := by
  have hscore : (mnodeman.arrivedAs l).queueScore nBlockHeight =
      mnodeman.queueScore nBlockHeight := by
    funext s
    unfold queueScore
    rw [find_arrivedAs hdistinct hl]
    rfl
  have htenth : (mnodeman.arrivedAs l).tenthNetwork env = mnodeman.tenthNetwork env := by
    unfold tenthNetwork
    rw [nMnCount_arrivedAs env hl]
  rw [getNext_eq, filtersSigTime_arrivedAs env hl, vecMasternodeLastPaid_arrivedAs env hl,
    payFrom_eq, hscore, htenth, (perm_listing hl).length_eq]
  · simp only [find_arrivedAs hdistinct hl]
    rfl
  · intro s hs
    rcases mem_listing_iff.mp hs with ⟨mn, hin, _, rfl⟩
    have hin' : mn ∈ (mnodeman.arrivedAs l).vMasternodes := hin
    exact CMasternodeMan.find_isSome hin' rfl

end Arrived

/-- Different entries stand for different masternodes. -/
theorem bind_find_inj {takes : CMasternode -> Bool} {key : CMasternode -> Int}
    (hdistinct : DistinctOutPoints mnodeman.vMasternodes) {best best' : Option (Int × CTxIn)}
    (hbest : forall s, best = some s -> s ∈ listing takes key mnodeman.vMasternodes)
    (hbest' : forall s, best' = some s -> s ∈ listing takes key mnodeman.vMasternodes)
    (heq : (best.bind fun s => mnodeman.find s.2) = best'.bind fun s => mnodeman.find s.2) :
    best = best' := by
  have hfound : forall s, s ∈ listing takes key mnodeman.vMasternodes ->
      exists mn, mnodeman.find s.2 = some mn ∧ mn.vin.prevout = s.2.prevout := by
    intro s hs
    rcases mem_listing_iff.mp hs with ⟨mn, hin, _, rfl⟩
    rcases CMasternodeMan.find_isSome hin rfl with ⟨mn', hfind⟩
    exact ⟨mn', hfind, (CMasternodeMan.find_mem hfind).2⟩
  cases best with
  | none =>
      cases best' with
      | none => rfl
      | some s' =>
          rcases hfound s' (hbest' s' rfl) with ⟨mn', hfind', _⟩
          simp [hfind'] at heq
  | some s =>
      rcases hfound s (hbest s rfl) with ⟨mn, hfind, hvin⟩
      cases best' with
      | none => simp [hfind] at heq
      | some s' =>
          rcases hfound s' (hbest' s' rfl) with ⟨mn', hfind', hvin'⟩
          rw [Option.bind_some, Option.bind_some, hfind, hfind', Option.some_inj] at heq
          rw [heq] at hvin
          rw [listing_inj hdistinct (hbest s rfl) (hbest' s' rfl) (hvin.symm.trans hvin')]

/-- The same masternode is found in all orders exactly if it is decided which one it is. -/
theorem choice_arrivals_iff (takes : CMasternode -> Bool) (key : CMasternode -> Int)
    (score : Int × CTxIn -> Nat) (k : Nat) (hsort : ComparesScores mnodeman.sortScores)
    (hdistinct : DistinctOutPoints mnodeman.vMasternodes) :
    (forall l, l.Perm mnodeman.vMasternodes ->
        ((firstHighest score ((mnodeman.sortScores (listing takes key l)).take k)).bind
            fun s => mnodeman.find s.2) =
          (firstHighest score ((mnodeman.sortScores
            (listing takes key mnodeman.vMasternodes)).take k)).bind
              fun s => mnodeman.find s.2) <->
      Decided Prod.fst score k (listing takes key mnodeman.vMasternodes) := by
  have hexchange := exchangeable_arrivals takes key hsort hdistinct
  have hnodup := nodup_listing takes key hdistinct
  have hself : arrivals mnodeman.sortScores takes key mnodeman.vMasternodes
      (mnodeman.sortScores (listing takes key mnodeman.vMasternodes)) :=
    ⟨_, List.Perm.refl _, rfl⟩
  have hmem : forall sorted s,
      arrivals mnodeman.sortScores takes key mnodeman.vMasternodes sorted ->
      firstHighest score (sorted.take k) = some s ->
        s ∈ listing takes key mnodeman.vMasternodes := by
    intro sorted s hsorted hfirst
    have hwins := (firstHighest_eq_some_iff (hexchange.nodup_take hnodup hsorted k)).mp hfirst
    exact (hexchange.perm _ hsorted).mem_iff.mp (List.mem_of_mem_take hwins.mem)
  refine Iff.trans ?_ (hexchange.choice_iff hnodup score k hself)
  constructor
  · intro hsame sorted hsorted
    have hentries := fun s => hmem sorted s hsorted
    rcases hsorted with ⟨l, hl, rfl⟩
    exact bind_find_inj hdistinct hentries (fun s => hmem _ s hself) (hsame l hl)
  · intro hsame l hl
    rw [hsame _ ⟨l, hl, rfl⟩]

/-- The payee is the same in all orders exactly if how long they waited decides who it is. -/
theorem getNext_arrivedAs_iff (hsort : ComparesScores mnodeman.sortScores)
    (hdistinct : DistinctOutPoints mnodeman.vMasternodes) (fFilterSigTime : Bool) :
    (forall l, l.Perm mnodeman.vMasternodes ->
        (mnodeman.arrivedAs l).getNextMasternodeInQueueForPayment env nBlockHeight
            fFilterSigTime =
          mnodeman.getNextMasternodeInQueueForPayment env nBlockHeight fFilterSigTime) <->
      Decided Prod.fst (mnodeman.queueScore nBlockHeight) (mnodeman.tenthNetwork env)
        (mnodeman.vecMasternodeLastPaid env nBlockHeight
          (mnodeman.filtersSigTime env nBlockHeight fFilterSigTime)) := by
  have hself : mnodeman.getNextMasternodeInQueueForPayment env nBlockHeight fFilterSigTime = _ :=
    getNext_arrivedAs env hdistinct (List.Perm.refl mnodeman.vMasternodes) fFilterSigTime
  refine Iff.trans ?_ (choice_arrivals_iff _ _ _ _ hsort hdistinct)
  refine forall_congr' fun l => imp_congr_right fun hl => ?_
  rw [getNext_arrivedAs env hdistinct hl, hself, Prod.mk.injEq, and_iff_left rfl]

end Queue

/-!
# Both
-/

/--
Ranks and payees do not depend on the order of arrival exactly if no two masternodes which are
ranked have the same score, and of those who have waited longest one is sure to be looked at
and beats all the others who may be.
-/
theorem selection_arrivedAs_iff (mnodeman : ScoredMan) (env : QueueEnv)
    (hsort : ComparesScores mnodeman.sortScores)
    (hdistinct : DistinctOutPoints mnodeman.vMasternodes) :
    (forall (nBlockHeight minProtocol : Int) (fOnlyActive : Bool),
        (forall l, l.Perm mnodeman.vMasternodes -> forall vin,
          (mnodeman.arrivedAs l).getMasternodeRank vin nBlockHeight minProtocol fOnlyActive =
            mnodeman.getMasternodeRank vin nBlockHeight minProtocol fOnlyActive) <->
        (mnodeman.getBlockHash nBlockHeight = none ∨
          ((mnodeman.scores nBlockHeight minProtocol fOnlyActive).map Prod.fst).Nodup)) ∧
      forall (nBlockHeight : Int) (fFilterSigTime : Bool),
        (forall l, l.Perm mnodeman.vMasternodes ->
          (mnodeman.arrivedAs l).getNextMasternodeInQueueForPayment env nBlockHeight
              fFilterSigTime =
            mnodeman.getNextMasternodeInQueueForPayment env nBlockHeight fFilterSigTime) <->
        Decided Prod.fst (mnodeman.queueScore nBlockHeight) (mnodeman.tenthNetwork env)
          (mnodeman.vecMasternodeLastPaid env nBlockHeight
            (mnodeman.filtersSigTime env nBlockHeight fFilterSigTime)) := by
  constructor
  · exact fun nBlockHeight minProtocol fOnlyActive => rank_arrivedAs_iff hsort hdistinct
  · exact fun nBlockHeight fFilterSigTime =>
      getNext_arrivedAs_iff env hsort hdistinct fFilterSigTime

/-- A node which knows no votes, long after its masternodes have been activated. -/
def unpaidNode (vMasternodes : List CMasternode) : ScoredMan :=
  { RankExample.node vMasternodes with adjustedTime := 3000000 }

def unpaidEnv : QueueEnv where
  chain := [{ nHeight := 200, nTime := 1000 }]
  locked := true
  votes := {}
  minMasternodePaymentsProto := 0
  getMasternodeInputAge := fun _ => 100
  hashPayment := fun vin _ => vin.prevout.hash

theorem comparesScores_unpaidNode (vMasternodes : List CMasternode) :
    ComparesScores (unpaidNode vMasternodes).sortScores := by
  intro f hf l
  refine (List.map_insertionSort _ _ f l ?_).symm
  intro a _ b _
  rw [hf a, hf b]

theorem ranked_alike_in_any_order :
    (forall l, l.Perm [RankExample.masternode 1 0, RankExample.masternode 2 0] -> forall vin,
      ((unpaidNode [RankExample.masternode 1 0, RankExample.masternode 2 0]).arrivedAs
          l).getMasternodeRank vin 100 70914 true =
        (unpaidNode [RankExample.masternode 1 0, RankExample.masternode 2 0]).getMasternodeRank
          vin 100 70914 true) ∧
      forall l, l.Perm [RankExample.masternode 1 0, RankExample.masternode 2 0] ->
        ((unpaidNode [RankExample.masternode 1 0, RankExample.masternode 2 0]).arrivedAs
            l).getNextMasternodeInQueueForPayment unpaidEnv 200 true =
          (unpaidNode [RankExample.masternode 1 0,
            RankExample.masternode 2 0]).getNextMasternodeInQueueForPayment unpaidEnv 200 true := by
  have hfixed := selection_arrivedAs_iff
    (unpaidNode [RankExample.masternode 1 0, RankExample.masternode 2 0]) unpaidEnv
    (comparesScores_unpaidNode _) (by unfold DistinctOutPoints; decide +kernel)
  constructor
  · exact (hfixed.1 100 70914 true).mpr (Or.inr (by decide +kernel))
  · refine (hfixed.2 200 true).mpr (Or.inr ?_)
    refine ⟨(2592000 + Pow.compactOf 2, (RankExample.masternode 2 0).vin), ?_, ?_, ?_, ?_⟩
    · decide +kernel
    · decide +kernel
    · decide +kernel
    · decide +kernel

/-- Two masternodes whose scores are alike in compact form, in both orders. -/
theorem selection_depends_on_arrival :
    ¬ (forall mnodeman : ScoredMan, ComparesScores mnodeman.sortScores ->
          DistinctOutPoints mnodeman.vMasternodes ->
          forall l, l.Perm mnodeman.vMasternodes ->
          forall (vin : CTxIn) (nBlockHeight minProtocol : Int) (fOnlyActive : Bool),
            (mnodeman.arrivedAs l).getMasternodeRank vin nBlockHeight minProtocol fOnlyActive =
              mnodeman.getMasternodeRank vin nBlockHeight minProtocol fOnlyActive) ∧
      ¬ forall (mnodeman : ScoredMan) (env : QueueEnv), ComparesScores mnodeman.sortScores ->
          DistinctOutPoints mnodeman.vMasternodes ->
          forall l, l.Perm mnodeman.vMasternodes ->
          forall (nBlockHeight : Int) (fFilterSigTime : Bool),
            (mnodeman.arrivedAs l).getNextMasternodeInQueueForPayment env nBlockHeight
                fFilterSigTime =
              mnodeman.getNextMasternodeInQueueForPayment env nBlockHeight fFilterSigTime := by
  constructor
  · intro h
    have hrank := h
      (unpaidNode [RankExample.masternode 16777216 0, RankExample.masternode 16777217 0])
      (comparesScores_unpaidNode _) (by unfold DistinctOutPoints; decide +kernel)
      [RankExample.masternode 16777217 0, RankExample.masternode 16777216 0]
      (List.Perm.swap _ _ []) (RankExample.masternode 16777216 0).vin 100 70914 true
    revert hrank
    decide +kernel
  · intro h
    have hpayee := h
      (unpaidNode [RankExample.masternode 16777216 0, RankExample.masternode 16777217 0])
      unpaidEnv (comparesScores_unpaidNode _) (by unfold DistinctOutPoints; decide +kernel)
      [RankExample.masternode 16777217 0, RankExample.masternode 16777216 0]
      (List.Perm.swap _ _ []) 200 true
    revert hpayee
    decide +kernel

end ScoredMan

end Hbcur
