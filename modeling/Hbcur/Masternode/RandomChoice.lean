import Hbcur.Masternode.Manager

/-!
# A masternode chosen at random

`FindRandomNotInVec` draws a number below the count of the enabled masternodes less the size of the
list of excluded ones, and counts it down along the masternodes which are not excluded.
-/

namespace Hbcur
namespace Manager

open Foundation Serialize

def maxUInt64 : Nat := 18446744073709551615

/-- `GetRand`, from the last of the 64-bit words it draws. -/
def getRand (nMax nRand : Nat) : Nat := if nMax = 0 then 0 else nRand % nMax

/-- The loop of `GetRand` ends with this word. -/
def IsDrawn (nMax nRand : Nat) : Prop := nMax = 0 ∨ nRand < maxUInt64 / nMax * nMax

def getRandInt (nMax : Int) (nRand : Nat) : Int :=
  wrapInt32 (getRand (wrapUInt64 nMax).toNat nRand)

namespace CMasternodeMan

/-- The protocol version which is asked for. -/
def minProtocol (env : ManagerEnv) (protocolVersion : Int) : Int :=
  if protocolVersion = -1 then env.nMinPaymentsProto else protocolVersion

def isCounted (protocolVersion : Int) (mn : CMasternode) : Bool :=
  !(decide (mn.protocolVersion < protocolVersion) || !mn.isEnabled)

/-- `CountEnabled` checks every masternode right before it looks at it. -/
def countEnabled (env : ManagerEnv) (protocolVersion : Int) (s : CMasternodeMan) :
    Int × CMasternodeMan :=
  let checked := s.check env
  (checked.vMasternodes.foldl
    (fun i mn => if isCounted (minProtocol env protocolVersion) mn then wrapInt32 (i + 1) else i) 0,
    checked)

def isExcluded (vecToExclude : List CTxIn) (mn : CMasternode) : Bool :=
  vecToExclude.any fun usedVin => mn.vin.prevout == usedVin.prevout

/-- The walk of the draw over the rest of the list, from position `i` on. -/
def walk (vecToExclude : List CTxIn) (protocolVersion : Int) :
    List CMasternode -> Int -> Nat -> Option Nat
  | [], _, _ => none
  | mn :: rest, rand, i =>
      if !isCounted protocolVersion mn then walk vecToExclude protocolVersion rest rand (i + 1)
      else if isExcluded vecToExclude mn then
        walk vecToExclude protocolVersion rest rand (i + 1)
      else if wrapInt32 (rand - 1) < 1 then some i
      else walk vecToExclude protocolVersion rest (wrapInt32 (rand - 1)) (i + 1)

/-- `nCountEnabled - vecToExclude.size()`, which is unsigned. -/
def countLeft (env : ManagerEnv) (vecToExclude : List CTxIn) (protocolVersion : Int)
    (s : CMasternodeMan) : Int :=
  wrapUInt64
    ((countEnabled env (minProtocol env protocolVersion) s).1 - (vecToExclude.length : Int))

/-- The position of the masternode which is found, and the list with every masternode checked. -/
def findRandomNotInVec (env : ManagerEnv) (vecToExclude : List CTxIn) (protocolVersion : Int)
    (s : CMasternodeMan) (nRand : Nat) : Option Nat × CMasternodeMan :=
  let checked := (countEnabled env (minProtocol env protocolVersion) s).2
  if countLeft env vecToExclude protocolVersion s < 1 then (none, checked)
  else
    let rand := getRandInt (wrapInt32 (countLeft env vecToExclude protocolVersion s)) nRand
    (walk vecToExclude (minProtocol env protocolVersion) checked.vMasternodes rand 0, checked)

/-!
# Candidates
-/

/-- Enabled, recent enough and not excluded. -/
def isCandidate (vecToExclude : List CTxIn) (protocolVersion : Int) (mn : CMasternode) : Bool :=
  isCounted protocolVersion mn && !isExcluded vecToExclude mn

section Walk

variable {vecToExclude : List CTxIn} {protocolVersion : Int}

theorem walk_cons (mn : CMasternode) (rest : List CMasternode) (rand : Int) (i : Nat) :
    walk vecToExclude protocolVersion (mn :: rest) rand i =
      if isCandidate vecToExclude protocolVersion mn then
        if wrapInt32 (rand - 1) < 1 then some i
        else walk vecToExclude protocolVersion rest (wrapInt32 (rand - 1)) (i + 1)
      else walk vecToExclude protocolVersion rest rand (i + 1) := by
  rw [walk, isCandidate]
  cases isCounted protocolVersion mn with
  | false => rfl
  | true => cases isExcluded vecToExclude mn <;> rfl

/-- Whatever is drawn, the walk ends at a candidate if at all. -/
theorem mem_of_walk {mns : List CMasternode} {rand : Int} {i j : Nat}
    (h : walk vecToExclude protocolVersion mns rand i = some j) :
    j ∈ mns.findIdxs (isCandidate vecToExclude protocolVersion) i := by
  induction mns generalizing rand i with
  | nil => cases h
  | cons mn rest ih =>
      rw [walk_cons] at h
      rw [List.findIdxs_cons]
      split at h
      · case isTrue hcandidate =>
          rw [if_pos hcandidate]
          split at h
          · cases h
            exact List.mem_cons_self
          · exact List.mem_cons_of_mem _ (ih h)
      · case isFalse hcandidate =>
          rw [if_neg hcandidate]
          exact ih h

/-- A draw of zero ends at the first candidate like a draw of one. -/
theorem walk_eq (mns : List CMasternode) (rand i : Nat) (hrand : rand < 2147483648) :
    walk vecToExclude protocolVersion mns rand i =
      (mns.findIdxs (isCandidate vecToExclude protocolVersion) i)[rand - 1]? := by
  induction mns generalizing rand i with
  | nil => rfl
  | cons mn rest ih =>
      have hwrap : wrapInt32 ((rand : Int) - 1) = (rand : Int) - 1 :=
        wrapInt32_of_range _ (by omega) (by omega)
      rw [walk_cons, List.findIdxs_cons, hwrap]
      split
      · by_cases hlast : rand ≤ 1
        · have hzero : rand - 1 = 0 := by omega
          rw [if_pos (by omega), hzero, List.getElem?_cons_zero]
        · have hpred : (rand : Int) - 1 = ((rand - 1 : Nat) : Int) := by omega
          have hsucc : rand - 1 = (rand - 1 - 1) + 1 := by omega
          rw [if_neg (by omega), hpred, ih (rand - 1) (i + 1) (by omega)]
          conv_rhs => rw [hsucc]
          rw [List.getElem?_cons_succ]
      · exact ih rand (i + 1) hrand

end Walk

/-!
# The range of the draw
-/

section Range

variable (env : ManagerEnv) (vecToExclude : List CTxIn) (protocolVersion : Int)
  (s : CMasternodeMan)

/-- The number of enabled masternodes which are recent enough. -/
def enabledCount : Nat :=
  (s.check env).vMasternodes.countP (isCounted (minProtocol env protocolVersion))

/-- The positions of the candidates. -/
def candidates : List Nat :=
  (s.check env).vMasternodes.findIdxs
    (isCandidate vecToExclude (minProtocol env protocolVersion))

/--
The count and the difference are exact, only candidates are found, one is found if there is any,
and each of them is found for some draw.
-/
structure CoversCandidates : Prop where
  counted : (countEnabled env (minProtocol env protocolVersion) s).1 =
    (enabledCount env protocolVersion s : Int)
  noWrap : countLeft env vecToExclude protocolVersion s =
    (enabledCount env protocolVersion s : Int) - (vecToExclude.length : Int)
  sound : forall nRand i, (findRandomNotInVec env vecToExclude protocolVersion s nRand).1 = some i ->
    i ∈ candidates env vecToExclude protocolVersion s
  found : candidates env vecToExclude protocolVersion s ≠ [] ->
    forall nRand, IsDrawn (wrapInt32 (countLeft env vecToExclude protocolVersion s)).toNat nRand ->
      (findRandomNotInVec env vecToExclude protocolVersion s nRand).1 ≠ none
  covered : forall i, i ∈ candidates env vecToExclude protocolVersion s ->
    exists nRand, IsDrawn (wrapInt32 (countLeft env vecToExclude protocolVersion s)).toNat nRand ∧
      (findRandomNotInVec env vecToExclude protocolVersion s nRand).1 = some i

/--
No more are excluded than are enabled, and the candidates, if there are any, are one less than the
enabled masternodes which are left, or one if there is just one left.
-/
def RangeMatches : Prop :=
  enabledCount env protocolVersion s < 2147483648 ∧
    vecToExclude.length ≤ enabledCount env protocolVersion s ∧
    (candidates env vecToExclude protocolVersion s = [] ∨
      vecToExclude.length < enabledCount env protocolVersion s ∧
        (candidates env vecToExclude protocolVersion s).length =
          max 1 (enabledCount env protocolVersion s - vecToExclude.length - 1))

end Range

section Count

variable {env : ManagerEnv} {vecToExclude : List CTxIn} {protocolVersion : Int}
  {s : CMasternodeMan}

theorem minProtocol_minProtocol :
    minProtocol env (minProtocol env protocolVersion) = minProtocol env protocolVersion := by
  unfold minProtocol
  split_ifs <;> rfl

theorem foldl_count (p : CMasternode -> Bool) (mns : List CMasternode) (i : Int) :
    mns.foldl (fun i mn => if p mn then wrapInt32 (i + 1) else i) (wrapInt32 i) =
      wrapInt32 (i + (mns.countP p : Int)) := by
  induction mns generalizing i with
  | nil => rw [List.foldl_nil, List.countP_nil, Int.natCast_zero, add_zero]
  | cons mn mns ih =>
      rw [List.foldl_cons, List.countP_cons]
      split
      · have hnext : wrapInt32 (wrapInt32 i + 1) = wrapInt32 (i + 1) := Int.bmod_add_bmod
        rw [hnext, ih]
        congr 1
        omega
      · rw [ih, Nat.add_zero]

theorem fst_countEnabled :
    (countEnabled env (minProtocol env protocolVersion) s).1 =
      wrapInt32 (enabledCount env protocolVersion s) := by
  have h := foldl_count (isCounted (minProtocol env protocolVersion)) (s.check env).vMasternodes 0
  rw [zero_add] at h
  unfold countEnabled enabledCount
  rw [minProtocol_minProtocol]
  exact h

theorem counted_iff :
    (countEnabled env (minProtocol env protocolVersion) s).1 =
        (enabledCount env protocolVersion s : Int) <->
      enabledCount env protocolVersion s < 2147483648 := by
  rw [fst_countEnabled]
  constructor
  · intro h
    have hlt : wrapInt32 (enabledCount env protocolVersion s) < (4294967296 + 1) / 2 :=
      Int.bmod_lt (by decide)
    omega
  · intro h
    exact wrapInt32_of_range _ (by omega) (by omega)

theorem countLeft_eq (hcount : enabledCount env protocolVersion s < 2147483648)
    (hsize : vecToExclude.length ≤ enabledCount env protocolVersion s) :
    countLeft env vecToExclude protocolVersion s =
      ((enabledCount env protocolVersion s - vecToExclude.length : Nat) : Int) := by
  unfold countLeft
  rw [counted_iff.mpr hcount, Nat.cast_sub hsize]
  exact wrapUInt64_of_range _ (by omega) (by omega)

theorem length_le_of_noWrap
    (h : countLeft env vecToExclude protocolVersion s =
      (enabledCount env protocolVersion s : Int) - (vecToExclude.length : Int)) :
    vecToExclude.length ≤ enabledCount env protocolVersion s := by
  have hnonneg : 0 ≤ countLeft env vecToExclude protocolVersion s :=
    Int.emod_nonneg _ (by decide)
  omega

/-- Without a wrap the draw is a number below the difference. -/
theorem fst_findRandomNotInVec (hcount : enabledCount env protocolVersion s < 2147483648)
    (hsize : vecToExclude.length ≤ enabledCount env protocolVersion s) (nRand : Nat) :
    (findRandomNotInVec env vecToExclude protocolVersion s nRand).1 =
      if enabledCount env protocolVersion s = vecToExclude.length then none
      else (candidates env vecToExclude protocolVersion s)[
        nRand % (enabledCount env protocolVersion s - vecToExclude.length) - 1]? := by
  have hleft := countLeft_eq hcount hsize
  unfold findRandomNotInVec
  dsimp only
  split
  · case isTrue hlt => rw [if_pos (by omega)]
  · case isFalse hlt =>
      have hwrap : wrapInt32 ((enabledCount env protocolVersion s - vecToExclude.length : Nat) : Int)
          = ((enabledCount env protocolVersion s - vecToExclude.length : Nat) : Int) :=
        wrapInt32_of_range _ (by omega) (by omega)
      have hwide : wrapUInt64
          ((enabledCount env protocolVersion s - vecToExclude.length : Nat) : Int) =
          ((enabledCount env protocolVersion s - vecToExclude.length : Nat) : Int) :=
        wrapUInt64_of_range _ (by omega) (by omega)
      have hpos : enabledCount env protocolVersion s - vecToExclude.length ≠ 0 := by omega
      have hrand : nRand % (enabledCount env protocolVersion s - vecToExclude.length) <
          2147483648 := by
        have := Nat.mod_lt nRand (Nat.pos_of_ne_zero hpos)
        omega
      have hnarrow : wrapInt32
          ((nRand % (enabledCount env protocolVersion s - vecToExclude.length) : Nat) : Int) =
          ((nRand % (enabledCount env protocolVersion s - vecToExclude.length) : Nat) : Int) :=
        wrapInt32_of_range _ (by omega) (by omega)
      rw [if_neg (by omega), hleft, hwrap, getRandInt, hwide, Int.toNat_natCast, getRand,
        if_neg hpos, hnarrow]
      exact walk_eq _ _ _ hrand

/-- A number in the range is drawn as it is. -/
theorem isDrawn_of_lt {nMax nRand : Nat} (h : nRand < nMax) (hmax : nMax ≤ maxUInt64) :
    IsDrawn nMax nRand := by
  have hone : 1 ≤ maxUInt64 / nMax := Nat.div_pos hmax (by omega)
  have hle := Nat.mul_le_mul_right nMax hone
  exact Or.inr (by omega)

theorem sound_findRandomNotInVec {nRand i : Nat}
    (h : (findRandomNotInVec env vecToExclude protocolVersion s nRand).1 = some i) :
    i ∈ candidates env vecToExclude protocolVersion s := by
  unfold findRandomNotInVec at h
  dsimp only at h
  split at h
  · cases h
  · exact mem_of_walk h

theorem toNat_countLeft (hcount : enabledCount env protocolVersion s < 2147483648)
    (hsize : vecToExclude.length ≤ enabledCount env protocolVersion s) :
    (wrapInt32 (countLeft env vecToExclude protocolVersion s)).toNat =
      enabledCount env protocolVersion s - vecToExclude.length := by
  have hwrap : wrapInt32 ((enabledCount env protocolVersion s - vecToExclude.length : Nat) : Int)
      = ((enabledCount env protocolVersion s - vecToExclude.length : Nat) : Int) :=
    wrapInt32_of_range _ (by omega) (by omega)
  rw [countLeft_eq hcount hsize, hwrap, Int.toNat_natCast]

/-- The draws below `n` end at the entries of a list when there is one less of them than of draws. -/
theorem draws_cover_iff {l : List Nat} (hnodup : l.Nodup) (hne : l ≠ []) {n : Nat} (hn : 0 < n) :
    ((forall r, r < n -> l[r - 1]? ≠ none) ∧
        forall i, i ∈ l -> exists r, r < n ∧ l[r - 1]? = some i) <->
      l.length = max 1 (n - 1) := by
  have hpositive := List.length_pos_of_ne_nil hne
  constructor
  · rintro ⟨hfound, hcovered⟩
    have hlast := hfound (n - 1) (by omega)
    rw [ne_eq, List.getElem?_eq_none_iff] at hlast
    have hend : l.length - 1 < l.length := by omega
    rcases hcovered _ (List.getElem_mem hend) with ⟨r, hr, hget⟩
    rw [← List.getElem?_eq_getElem hend] at hget
    have hindex := (List.getElem?_inj hend hnodup).mp hget.symm
    omega
  · intro hlength
    constructor
    · intro r hr
      rw [ne_eq, List.getElem?_eq_none_iff]
      omega
    · intro i hi
      rcases List.getElem_of_mem hi with ⟨j, hj, rfl⟩
      by_cases hzero : j = 0
      · subst hzero
        exact ⟨0, hn, List.getElem?_eq_getElem hj⟩
      · exact ⟨j + 1, by omega, List.getElem?_eq_getElem hj⟩

/-- For which lists and exclusions all the candidates are covered. -/
theorem coversCandidates_iff_rangeMatches (env : ManagerEnv) (vecToExclude : List CTxIn)
    (protocolVersion : Int) (s : CMasternodeMan) :
    CoversCandidates env vecToExclude protocolVersion s <->
      RangeMatches env vecToExclude protocolVersion s := by
  have hnodup : (candidates env vecToExclude protocolVersion s).Nodup := List.nodup_findIdxs
  constructor
  · intro h
    have hcount := counted_iff.mp h.counted
    have hsize := length_le_of_noWrap h.noWrap
    have hresult := @fst_findRandomNotInVec env vecToExclude protocolVersion s hcount hsize
    have hfound := h.found
    have hcovered := h.covered
    rw [toNat_countLeft hcount hsize] at hfound hcovered
    refine ⟨hcount, hsize, ?_⟩
    by_cases hnil : candidates env vecToExclude protocolVersion s = []
    · exact Or.inl hnil
    · right
      -- Where nothing is left nothing is found.
      have hne : enabledCount env protocolVersion s ≠ vecToExclude.length := by
        intro heq
        rcases hcovered _ (List.getElem_mem (List.length_pos_of_ne_nil hnil)) with ⟨nRand, _, hget⟩
        rw [hresult, if_pos heq] at hget
        cases hget
      have hpos : 0 < enabledCount env protocolVersion s - vecToExclude.length := by omega
      refine ⟨by omega, (draws_cover_iff hnodup hnil hpos).mp ⟨?_, ?_⟩⟩
      · intro r hr
        have hget := hfound hnil r (isDrawn_of_lt hr (by unfold maxUInt64; omega))
        rw [hresult, if_neg hne, Nat.mod_eq_of_lt hr] at hget
        exact hget
      · intro i hi
        rcases hcovered i hi with ⟨nRand, _, hget⟩
        rw [hresult, if_neg hne] at hget
        exact ⟨_, Nat.mod_lt nRand hpos, hget⟩
  · rintro ⟨hcount, hsize, hmatch⟩
    have hresult := @fst_findRandomNotInVec env vecToExclude protocolVersion s hcount hsize
    have hleft := countLeft_eq hcount hsize
    rw [Nat.cast_sub hsize] at hleft
    refine ⟨counted_iff.mpr hcount, hleft, fun nRand i => sound_findRandomNotInVec, ?_, ?_⟩
    · intro hnil nRand _
      rcases hmatch.resolve_left hnil with ⟨hlt, hlength⟩
      have hne : enabledCount env protocolVersion s ≠ vecToExclude.length := by omega
      have hpos : 0 < enabledCount env protocolVersion s - vecToExclude.length := by omega
      rw [hresult, if_neg hne]
      exact ((draws_cover_iff hnodup hnil hpos).mpr hlength).1 _ (Nat.mod_lt nRand hpos)
    · intro i hi
      have hnil := List.ne_nil_of_mem hi
      rcases hmatch.resolve_left hnil with ⟨hlt, hlength⟩
      have hne : enabledCount env protocolVersion s ≠ vecToExclude.length := by omega
      have hpos : 0 < enabledCount env protocolVersion s - vecToExclude.length := by omega
      rcases ((draws_cover_iff hnodup hnil hpos).mpr hlength).2 i hi with ⟨r, hr, hget⟩
      refine ⟨r, ?_, ?_⟩
      · rw [toNat_countLeft hcount hsize]
        exact isDrawn_of_lt hr (by unfold maxUInt64; omega)
      · rw [hresult, if_neg hne, Nat.mod_eq_of_lt hr]
        exact hget

end Count

end CMasternodeMan

/-!
# Two enabled masternodes
-/

namespace RandomChoiceExample

open ManagerExample Manager.CMasternodeMan

def enabled (hash : UInt256) : CMasternode :=
  { CMasternode.ofBroadcast (broadcast 1 100000) with
    vin := ⟨⟨hash, 0⟩, [], COutPoint.maxUInt32⟩
    lastPing := { CMasternodePing.init with blockHash := 1, sigTime := 100000 }
    unitTest := true }

def state : CMasternodeMan := { CMasternodeMan.init with vMasternodes := [enabled 1, enabled 2] }

/-- Both draws end at the first masternode. -/
theorem not_coversCandidates_state : ¬ CoversCandidates env [] 70000 state := by
  intro h
  have hcandidates : CMasternodeMan.candidates env [] 70000 state = [0, 1] := by decide
  have hcount : CMasternodeMan.enabledCount env 70000 state = 2 := by decide
  rcases h.covered 1 (by decide) with ⟨nRand, _, hfound⟩
  rw [fst_findRandomNotInVec (by decide) (by decide), hcount, hcandidates,
    if_neg (by decide), List.length_nil] at hfound
  have hfirst : nRand % (2 - 0) - 1 = 0 := by
    have hlt : nRand % 2 < 2 := Nat.mod_lt nRand (by decide)
    change nRand % 2 - 1 = 0
    omega
  rw [hfirst] at hfound
  cases hfound

end RandomChoiceExample

end Manager
end Hbcur
