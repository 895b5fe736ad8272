import Hbcur.Foundation.Arrangement
import Hbcur.Foundation.Run
import Hbcur.Net.Address

/-!
# The clocks of the peers

`CMedianFilter` of `timedata.h` and `AddTimeData` of `timedata.cpp`, which sets `nTimeOffset` to
the median of the offsets that the peers report.
-/

namespace Hbcur
namespace Net

open Foundation Serialize

/-!
# The filter
-/

/-- The last values of a stream, with a sorted copy. -/
structure CMedianFilter (α : Type) [LinearOrder α] where
  vValues : List α
  vSorted : List α
  nSize : Nat
  nonempty : vValues ≠ []
  sorted_eq : vSorted = vValues.insertionSort (· ≤ ·)

namespace CMedianFilter

section Values

variable {α : Type}

/-- The values after a new one was put at the end. -/
def push (nSize : Nat) (vValues : List α) (value : α) : List α :=
  (if vValues.length = nSize then vValues.drop 1 else vValues) ++ [value]

/-- Until it is full, the filter holds its first value and everything put into it. -/
theorem push_of_lt {nSize : Nat} {vValues : List α} (hroom : vValues.length < nSize) (value : α) :
    push nSize vValues value = vValues ++ [value] := by
  unfold push
  rw [if_neg (Nat.ne_of_lt hroom)]

/-- A full filter stays full. -/
theorem length_push_of_full {nSize : Nat} {vValues : List α} (hpos : 0 < nSize)
    (hfull : vValues.length = nSize) (value : α) : (push nSize vValues value).length = nSize := by
  unfold push
  rw [if_pos hfull, List.length_append, List.length_drop, List.length_singleton]
  omega

variable [LinearOrder α]

def init (size : Nat) (initial_value : α) : CMedianFilter α where
  vValues := [initial_value]
  vSorted := [initial_value]
  nSize := size
  nonempty := List.cons_ne_nil _ _
  sorted_eq := rfl

def input (filter : CMedianFilter α) (value : α) : CMedianFilter α where
  vValues := push filter.nSize filter.vValues value
  vSorted := (push filter.nSize filter.vValues value).insertionSort (· ≤ ·)
  nSize := filter.nSize
  nonempty := List.append_ne_nil_of_right_ne_nil _ (List.cons_ne_nil _ _)
  sorted_eq := rfl

def size (filter : CMedianFilter α) : Nat := filter.vValues.length

def sorted (filter : CMedianFilter α) : List α := filter.vSorted

theorem perm_sorted (filter : CMedianFilter α) : filter.vSorted.Perm filter.vValues := by
  rw [filter.sorted_eq]
  exact List.perm_insertionSort _ _

theorem pairwise_sorted (filter : CMedianFilter α) : filter.vSorted.Pairwise (· ≤ ·) := by
  rw [filter.sorted_eq]
  exact List.pairwise_insertionSort _ _

end Values

/-- For `T = int64_t`, whose sum wraps and whose division rounds towards zero. -/
def median (filter : CMedianFilter Int) : Int :=
  if filter.vSorted.length % 2 = 1 then
    filter.vSorted.getD (filter.vSorted.length / 2) 0
  else
    (wrapInt64 (filter.vSorted.getD (filter.vSorted.length / 2 - 1) 0 +
      filter.vSorted.getD (filter.vSorted.length / 2) 0)).tdiv 2

theorem isMedian_median {filter : CMedianFilter Int} (hodd : filter.size % 2 = 1) :
    IsMedian filter.vValues filter.median := by
  have hlength := filter.perm_sorted.length_eq
  unfold size at hodd
  have hmid : filter.vSorted.length / 2 < filter.vSorted.length := by
    omega
  have hodd' : filter.vSorted.length % 2 = 1 := by
    rw [hlength]
    exact hodd
  rw [median, if_pos hodd', List.getD_eq_getElem _ _ hmid]
  exact (isMedian_getElem filter.pairwise_sorted hodd' hmid).perm filter.perm_sorted

end CMedianFilter

/-!
# Adding a sample
-/

structure TimeData where
  nTimeOffset : Int
  setKnown : Finset CNetAddr
  vTimeOffsets : CMedianFilter Int
  fDone : Bool
  strMiscWarning : String

/-- A call: the address and the time it gave, and the clock of the node. -/
structure TimeCall where
  ip : CNetAddr
  nTime : Int
  getTime : Int

def TimeCall.nOffsetSample (call : TimeCall) : Int := wrapInt64 (call.nTime - call.getTime)

/-- The negation of the least value is that value again. -/
def abs64 (n : Int) : Int := if n ≥ 0 then n else wrapInt64 (-n)

def INT64_MIN : Int := -9223372036854775808

namespace TimeData

def init : TimeData where
  nTimeOffset := 0
  setKnown := ∅
  vTimeOffsets := CMedianFilter.init 200 0
  fDone := false
  strMiscWarning := ""

def clockWarning : String :=
  "Warning: Please check that your computer's date and time are correct! " ++
    "If your clock is wrong hbcur Core will not work properly."

/-- Some other node has a time different from ours but within 5 minutes of ours. -/
def fMatch (vSorted : List Int) : Bool :=
  vSorted.any fun nOffset => decide (nOffset ≠ 0) && decide (abs64 nOffset < 5 * 60)

def setOffset (s : TimeData) : TimeData :=
  let nMedian := s.vTimeOffsets.median
  if abs64 nMedian < 70 * 60 then
    { s with nTimeOffset := nMedian }
  else if s.fDone || fMatch s.vTimeOffsets.sorted then
    { s with nTimeOffset := 0 }
  else
    { s with nTimeOffset := 0, fDone := true, strMiscWarning := clockWarning }

def addTimeData (s : TimeData) (call : TimeCall) : TimeData :=
  if call.ip ∈ s.setKnown then s
  else
    let s' := { s with
      setKnown := insert call.ip s.setKnown
      vTimeOffsets := s.vTimeOffsets.input call.nOffsetSample }
    if s'.vTimeOffsets.size ≥ 5 ∧ s'.vTimeOffsets.size % 2 = 1 then s'.setOffset else s'

def getTimeOffset (s : TimeData) : Int := s.nTimeOffset

/-- The call sets the offset anew. -/
def Updates (s : TimeData) (call : TimeCall) : Prop :=
  call.ip ∉ s.setKnown ∧ 5 ≤ (s.vTimeOffsets.input call.nOffsetSample).size ∧
    (s.vTimeOffsets.input call.nOffsetSample).size % 2 = 1

instance (s : TimeData) (call : TimeCall) : Decidable (s.Updates call) :=
  inferInstanceAs (Decidable (_ ∧ _ ∧ _))

variable {s : TimeData} {call : TimeCall}

theorem setOffset_nTimeOffset :
    s.setOffset.nTimeOffset =
      if abs64 s.vTimeOffsets.median < 70 * 60 then s.vTimeOffsets.median else 0 := by
  unfold setOffset
  dsimp only
  split
  · rfl
  · split <;> rfl

theorem setOffset_setKnown : s.setOffset.setKnown = s.setKnown := by
  unfold setOffset
  dsimp only
  split
  · rfl
  · split <;> rfl

theorem setOffset_vTimeOffsets : s.setOffset.vTimeOffsets = s.vTimeOffsets := by
  unfold setOffset
  dsimp only
  split
  · rfl
  · split <;> rfl

/-- An address is heard once. -/
theorem addTimeData_of_known (h : call.ip ∈ s.setKnown) : s.addTimeData call = s :=
  if_pos h

theorem addTimeData_setKnown : (s.addTimeData call).setKnown = insert call.ip s.setKnown := by
  by_cases hknown : call.ip ∈ s.setKnown
  · rw [addTimeData_of_known hknown, Finset.insert_eq_of_mem hknown]
  · rw [addTimeData, if_neg hknown]
    dsimp only
    split
    · exact setOffset_setKnown
    · rfl

theorem addTimeData_vTimeOffsets (hnew : call.ip ∉ s.setKnown) :
    (s.addTimeData call).vTimeOffsets = s.vTimeOffsets.input call.nOffsetSample := by
  rw [addTimeData, if_neg hnew]
  dsimp only
  split
  · exact setOffset_vTimeOffsets
  · rfl

theorem addTimeData_nTimeOffset :
    (s.addTimeData call).nTimeOffset =
      if s.Updates call then
        if abs64 (s.vTimeOffsets.input call.nOffsetSample).median < 70 * 60 then
          (s.vTimeOffsets.input call.nOffsetSample).median
        else 0
      else s.nTimeOffset := by
  by_cases hknown : call.ip ∈ s.setKnown
  · rw [addTimeData_of_known hknown, if_neg fun h => h.1 hknown]
  · rw [addTimeData, if_neg hknown]
    dsimp only
    split
    · case isTrue hodd =>
        rw [if_pos ⟨hknown, hodd⟩]
        exact setOffset_nTimeOffset
    · case isFalse heven => rw [if_neg fun h => heven h.2]

end TimeData

/-!
# Absolute values
-/

theorem abs64_of_ne {n : Int} (hleast : INT64_MIN < n) (hlt : n < 9223372036854775808) :
    abs64 n = |n| := by
  unfold INT64_MIN at hleast
  unfold abs64
  split
  · case isTrue h => exact (abs_of_nonneg h).symm
  · case isFalse h =>
      rw [wrapInt64_of_range _ (by omega) (by omega), abs_of_neg (by omega)]

/-- Its absolute value being negative, the least offset passes for a small one. -/
theorem abs64_INT64_MIN_lt : abs64 INT64_MIN < 70 * 60 := by decide

/-!
# Runs of calls

A run is watched with the samples which the filter held when the offset was last set.
-/

structure ObservedTime where
  state : TimeData
  kept : Option (List Int)

namespace ObservedTime

def init : ObservedTime := ⟨TimeData.init, none⟩

def addTimeData (o : ObservedTime) (call : TimeCall) : ObservedTime where
  state := o.state.addTimeData call
  kept :=
    if o.state.Updates call then some (o.state.addTimeData call).vTimeOffsets.vValues else o.kept

/-- The offset is small, and it is zero or the median of the samples it was taken from. -/
def Bounded (o : ObservedTime) : Prop :=
  |o.state.getTimeOffset| < 70 * 60 ∧
    (o.state.getTimeOffset = 0 ∨
      exists samples, o.kept = some samples ∧ IsMedian samples o.state.getTimeOffset)

/-- Half of the samples from which the call takes the median are not the least offset. -/
def Balanced (o : ObservedTime) (call : TimeCall) : Prop :=
  o.state.Updates call ->
    2 * ((o.state.vTimeOffsets.input call.nOffsetSample).vValues.count INT64_MIN) ≤
      (o.state.vTimeOffsets.input call.nOffsetSample).size

end ObservedTime

/-- The samples of the calls which are the first ones from their address. -/
def acceptedSamples : Finset CNetAddr -> List TimeCall -> List Int
  | _, [] => []
  | known, call :: calls =>
      if call.ip ∈ known then acceptedSamples known calls
      else call.nOffsetSample :: acceptedSamples (insert call.ip known) calls

/-- The filter after it was fed some samples. -/
structure FedWith (filter : CMedianFilter Int) (samples : List Int) : Prop where
  nSize : filter.nSize = 200
  values : samples.length < 200 -> filter.vValues = 0 :: samples
  full : 199 ≤ samples.length -> filter.size = 200
  range : forall x, x ∈ samples -> INT64_MIN ≤ x ∧ x < 9223372036854775808

theorem nOffsetSample_range (call : TimeCall) :
    INT64_MIN ≤ call.nOffsetSample ∧ call.nOffsetSample < 9223372036854775808 := by
  have hge := Int.le_bmod (x := call.nTime - call.getTime)
    (m := 18446744073709551616) (by decide)
  have hlt := Int.bmod_lt (x := call.nTime - call.getTime)
    (m := 18446744073709551616) (by decide)
  unfold TimeCall.nOffsetSample wrapInt64 INT64_MIN
  omega

theorem fedWith_init : FedWith TimeData.init.vTimeOffsets [] where
  nSize := rfl
  values := fun _ => rfl
  full := fun h => absurd h (by decide)
  range := fun x hx => absurd hx List.not_mem_nil

namespace FedWith

variable {filter : CMedianFilter Int} {samples : List Int}

theorem input (h : FedWith filter samples) (call : TimeCall) :
    FedWith (filter.input call.nOffsetSample) (samples ++ [call.nOffsetSample]) where
  nSize := h.nSize
  values := by
    intro hlength
    rw [List.length_append, List.length_singleton] at hlength
    have hvalues := h.values (by omega)
    have hroom : filter.vValues.length < filter.nSize := by
      rw [h.nSize, hvalues, List.length_cons]
      omega
    rw [← List.cons_append, ← hvalues]
    exact CMedianFilter.push_of_lt hroom _
  full := by
    intro hlength
    rw [List.length_append, List.length_singleton] at hlength
    by_cases hfull : 199 ≤ samples.length
    · rw [← h.nSize]
      exact CMedianFilter.length_push_of_full (by rw [h.nSize]; decide)
        ((h.full hfull).trans h.nSize.symm) _
    · have hvalues := h.values (by omega)
      have hroom : filter.vValues.length < filter.nSize := by
        rw [h.nSize, hvalues, List.length_cons]
        omega
      have hpush := congrArg List.length (CMedianFilter.push_of_lt hroom call.nOffsetSample)
      rw [List.length_append, List.length_singleton] at hpush
      have hlast : filter.vValues.length + 1 = 200 := by
        rw [hvalues, List.length_cons]
        omega
      exact hpush.trans hlast
  range := by
    intro x hx
    rcases List.mem_append.mp hx with hold | hnew
    · exact h.range x hold
    · rw [List.mem_singleton.mp hnew]
      exact nOffsetSample_range call

theorem size_eq (h : FedWith filter samples) (hlength : samples.length < 199) :
    filter.size = samples.length + 1 := by
  unfold CMedianFilter.size
  rw [h.values (by omega), List.length_cons]

/-- The offset is set after an even number of samples, and never once the filter is full. -/
theorem odd_size_iff (h : FedWith filter samples) :
    5 ≤ filter.size ∧ filter.size % 2 = 1 <->
      4 ≤ samples.length ∧ samples.length ≤ 198 ∧ samples.length % 2 = 0 := by
  by_cases hlength : samples.length < 199
  · rw [h.size_eq hlength]
    omega
  · rw [h.full (by omega)]
    omega

theorem count_eq (h : FedWith filter samples) (hlength : samples.length < 199) :
    filter.vValues.count INT64_MIN = samples.count INT64_MIN := by
  rw [h.values (by omega), List.count_cons_of_ne (by decide)]

theorem vValues_range (h : FedWith filter samples) (hlength : samples.length < 199) {x : Int}
    (hx : x ∈ filter.vValues) : INT64_MIN ≤ x ∧ x < 9223372036854775808 := by
  rw [h.values (by omega)] at hx
  rcases List.mem_cons.mp hx with hzero | hold
  · rw [hzero]
    decide
  · exact h.range x hold

end FedWith

namespace ObservedTime

variable {o : ObservedTime} {call : TimeCall} {samples : List Int}

/-- What holds between two calls. -/
structure Valid (o : ObservedTime) (samples : List Int) : Prop where
  bounded : o.Bounded
  fed : FedWith o.state.vTimeOffsets samples

theorem valid_init : init.Valid [] where
  bounded := ⟨by decide, Or.inl rfl⟩
  fed := fedWith_init

theorem addTimeData_of_known (h : call.ip ∈ o.state.setKnown) : o.addTimeData call = o := by
  have hkeep : ¬ o.state.Updates call := fun hupdates => hupdates.1 h
  unfold addTimeData
  rw [if_neg hkeep, TimeData.addTimeData_of_known h]

theorem fed_addTimeData (h : FedWith o.state.vTimeOffsets samples)
    (hnew : call.ip ∉ o.state.setKnown) :
    FedWith (o.addTimeData call).state.vTimeOffsets (samples ++ [call.nOffsetSample]) := by
  unfold addTimeData
  rw [TimeData.addTimeData_vTimeOffsets hnew]
  exact h.input call

/-- A call which leaves the offset alone. -/
theorem bounded_of_not_updates (h : o.Bounded) (hkeep : ¬ o.state.Updates call) :
    (o.addTimeData call).Bounded := by
  have hoffset : (o.addTimeData call).state.getTimeOffset = o.state.getTimeOffset := by
    unfold addTimeData TimeData.getTimeOffset
    rw [TimeData.addTimeData_nTimeOffset, if_neg hkeep]
  have hkept : (o.addTimeData call).kept = o.kept := by
    unfold addTimeData
    rw [if_neg hkeep]
  unfold Bounded
  rw [hoffset, hkept]
  exact h

/-- A call which sets the offset sets it well unless the median is the least value. -/
theorem bounded_iff_of_updates (h : FedWith o.state.vTimeOffsets samples)
    (hupdates : o.state.Updates call) :
    (o.addTimeData call).Bounded <->
      (o.state.vTimeOffsets.input call.nOffsetSample).median ≠ INT64_MIN := by
  have hfed := h.input call
  have hmedian := CMedianFilter.isMedian_median hupdates.2.2
  have hlength := (hfed.odd_size_iff.mp hupdates.2).2.1
  have hrange := hfed.vValues_range (Nat.lt_succ_of_le hlength) hmedian.mem
  have hkept : (o.addTimeData call).kept =
      some (o.state.vTimeOffsets.input call.nOffsetSample).vValues := by
    unfold addTimeData
    rw [if_pos hupdates, TimeData.addTimeData_vTimeOffsets hupdates.1]
  have hoffset : (o.addTimeData call).state.getTimeOffset =
      if abs64 (o.state.vTimeOffsets.input call.nOffsetSample).median < 70 * 60 then
        (o.state.vTimeOffsets.input call.nOffsetSample).median
      else 0 := by
    unfold addTimeData TimeData.getTimeOffset
    rw [TimeData.addTimeData_nTimeOffset, if_pos hupdates]
  unfold Bounded
  rw [hkept, hoffset]
  constructor
  · rintro ⟨hsmall, _⟩ hleast
    rw [hleast, if_pos abs64_INT64_MIN_lt] at hsmall
    exact absurd hsmall (by decide)
  · intro hne
    rw [abs64_of_ne (lt_of_le_of_ne hrange.1 hne.symm) hrange.2]
    split
    · case isTrue hsmall => exact ⟨hsmall, Or.inr ⟨_, rfl, hmedian⟩⟩
    · case isFalse => exact ⟨by decide, Or.inl rfl⟩

/-- The least value is the median exactly if more than half of the samples are equal to it. -/
theorem median_ne_iff (h : FedWith o.state.vTimeOffsets samples)
    (hupdates : o.state.Updates call) :
    (o.state.vTimeOffsets.input call.nOffsetSample).median ≠ INT64_MIN <->
      2 * ((o.state.vTimeOffsets.input call.nOffsetSample).vValues.count INT64_MIN) ≤
        (o.state.vTimeOffsets.input call.nOffsetSample).size := by
  have hfed := h.input call
  have hlength := Nat.lt_succ_of_le (hfed.odd_size_iff.mp hupdates.2).2.1
  have hmedian := CMedianFilter.isMedian_median hupdates.2.2
  have hleast : forall x, x ∈ (o.state.vTimeOffsets.input call.nOffsetSample).vValues ->
      INT64_MIN ≤ x := fun x hx => (hfed.vValues_range hlength hx).1
  unfold CMedianFilter.size
  rw [← not_lt, ← isMedian_least_iff hleast, not_iff_not]
  constructor
  · intro heq
    exact heq ▸ hmedian
  · intro hmin
    exact hmedian.unique hmin

theorem bounded_addTimeData_iff (h : o.Valid samples) :
    (o.addTimeData call).Bounded <-> o.Balanced call := by
  by_cases hupdates : o.state.Updates call
  · rw [bounded_iff_of_updates h.fed hupdates, median_ne_iff h.fed hupdates]
    exact ⟨fun hle _ => hle, fun hbalanced => hbalanced hupdates⟩
  · exact iff_of_true (bounded_of_not_updates h.bounded hupdates)
      fun h => absurd h hupdates

theorem Valid.next (h : o.Valid samples) (hbalanced : o.Balanced call) :
    exists samples', (o.addTimeData call).Valid samples' := by
  by_cases hknown : call.ip ∈ o.state.setKnown
  · rw [addTimeData_of_known hknown]
    exact ⟨samples, h⟩
  · exact ⟨_, (bounded_addTimeData_iff h).mpr hbalanced, fed_addTimeData h.fed hknown⟩

/-- All states of a run are good exactly if its calls leave the least value in the minority. -/
theorem statesSatisfy_bounded_iff (calls : List TimeCall) (h : o.Valid samples) :
    StatesSatisfy addTimeData Bounded o calls <-> StepsSatisfy addTimeData Balanced o calls :=
  statesSatisfy_iff_steps (fun o => exists samples, o.Valid samples)
    (fun _ ⟨_, hvalid⟩ => hvalid.bounded) (fun _ _ ⟨_, hvalid⟩ => hvalid.next)
    (fun _ _ ⟨_, hvalid⟩ => (bounded_addTimeData_iff hvalid).mp) calls o ⟨samples, h⟩

end ObservedTime

/-!
# The samples which keep the offset bounded
-/

/-- Among the first `k` samples the least value has no majority. -/
def BalancedAt (samples : List Int) (k : Nat) : Prop :=
  4 ≤ k -> k ≤ 198 -> k % 2 = 0 -> (samples.take k).count INT64_MIN ≤ k / 2

/-- Whenever the offset is set, at most half of the samples so far are the least value. -/
def NeverMostlyLeast (samples : List Int) : Prop :=
  forall k, k ≤ samples.length -> BalancedAt samples k

namespace ObservedTime

variable {o : ObservedTime} {call : TimeCall} {samples : List Int}

theorem balanced_iff (h : FedWith o.state.vTimeOffsets samples)
    (hnew : call.ip ∉ o.state.setKnown) (rest : List Int) :
    o.Balanced call <->
      BalancedAt (samples ++ call.nOffsetSample :: rest) (samples.length + 1) := by
  have hfed := h.input call
  have htake : (samples ++ call.nOffsetSample :: rest).take (samples.length + 1) =
      samples ++ [call.nOffsetSample] := by
    rw [List.take_length_add_append, List.take_succ_cons, List.take_zero]
  have hupdates : o.state.Updates call <->
      4 ≤ samples.length + 1 ∧ samples.length + 1 ≤ 198 ∧ (samples.length + 1) % 2 = 0 := by
    have hodd := hfed.odd_size_iff
    rw [List.length_append, List.length_singleton] at hodd
    rw [← hodd]
    exact and_iff_right hnew
  unfold Balanced BalancedAt
  rw [htake, hupdates]
  constructor
  · intro hbalanced h4 h198 heven
    have hlength : (samples ++ [call.nOffsetSample]).length < 199 := by
      rw [List.length_append, List.length_singleton]
      omega
    have hle := hbalanced ⟨h4, h198, heven⟩
    rw [hfed.count_eq hlength, hfed.size_eq hlength, List.length_append,
      List.length_singleton] at hle
    omega
  · rintro hbalanced ⟨h4, h198, heven⟩
    have hlength : (samples ++ [call.nOffsetSample]).length < 199 := by
      rw [List.length_append, List.length_singleton]
      omega
    have hle := hbalanced h4 h198 heven
    rw [hfed.count_eq hlength, hfed.size_eq hlength, List.length_append, List.length_singleton]
    omega

/-- The steps of a run which starts after some samples. -/
theorem stepsSatisfy_balanced_iff (calls : List TimeCall)
    (h : FedWith o.state.vTimeOffsets samples) :
    StepsSatisfy addTimeData Balanced o calls <->
      forall k, samples.length < k ->
        k ≤ (samples ++ acceptedSamples o.state.setKnown calls).length ->
        BalancedAt (samples ++ acceptedSamples o.state.setKnown calls) k := by
  induction calls generalizing o samples with
  | nil =>
      refine iff_of_true trivial fun k hlt hle => ?_
      rw [acceptedSamples, List.append_nil] at hle
      omega
  | cons call calls ih =>
      by_cases hknown : call.ip ∈ o.state.setKnown
      · have hbalanced : o.Balanced call := fun hupdates => absurd hknown hupdates.1
        rw [StepsSatisfy, addTimeData_of_known hknown, acceptedSamples, if_pos hknown, ih h]
        exact and_iff_right hbalanced
      · have hrest := ih (fed_addTimeData h hknown)
        have hset : (o.addTimeData call).state.setKnown = insert call.ip o.state.setKnown :=
          TimeData.addTimeData_setKnown
        rw [StepsSatisfy, hrest, hset, acceptedSamples, if_neg hknown, List.append_assoc,
          List.singleton_append, balanced_iff h hknown]
        constructor
        · rintro ⟨hnow, hlater⟩ k hlt hle
          rcases Nat.eq_or_lt_of_le (Nat.succ_le_of_lt hlt) with heq | hgt
          · exact heq ▸ hnow
          · refine hlater k ?_ hle
            rw [List.length_append, List.length_singleton]
            exact hgt
        · intro hall
          constructor
          · apply hall
            · exact Nat.lt_succ_self _
            · rw [List.length_append, List.length_cons]
              omega
          · intro k hlt hle
            rw [List.length_append, List.length_singleton] at hlt
            exact hall k (by omega) hle

end ObservedTime

/--
The offset is small and zero or a median all along a run exactly if, among the samples accepted
up to any time at which it is set, no more than half are the least 64-bit value.
-/
theorem timeOffset_bounded_iff (calls : List TimeCall) :
    StatesSatisfy ObservedTime.addTimeData ObservedTime.Bounded ObservedTime.init calls <->
      NeverMostlyLeast (acceptedSamples ∅ calls) := by
  rw [ObservedTime.statesSatisfy_bounded_iff calls ObservedTime.valid_init,
    ObservedTime.stepsSatisfy_balanced_iff calls fedWith_init]
  constructor
  · intro h k hle h4
    exact h k (by rw [List.length_nil]; omega) hle h4
  · intro h k _ hle
    exact h k hle

/-- Four peers which report the least offset. -/
def leastCalls : List TimeCall :=
  [1, 2, 3, 4].map fun byte => ⟨⟨fun _ => byte⟩, INT64_MIN + 1700000000, 1700000000⟩

theorem timeOffset_of_leastCalls :
    (leastCalls.foldl TimeData.addTimeData TimeData.init).getTimeOffset = INT64_MIN ∧
      ¬ StatesSatisfy ObservedTime.addTimeData ObservedTime.Bounded ObservedTime.init
        leastCalls := by
  constructor
  · decide
  · intro h
    have hend := h.foldl.1
    have hleast : (leastCalls.foldl ObservedTime.addTimeData
        ObservedTime.init).state.getTimeOffset = INT64_MIN := by decide
    rw [hleast] at hend
    exact absurd hend (by decide)

end Net
end Hbcur
