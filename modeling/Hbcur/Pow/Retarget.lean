import Hbcur.Pow.Compact
import Hbcur.Pow.DarkGravityWave

/-!
# The retarget over exact integers
-/

namespace Hbcur
namespace Pow

/-!
# The formula
-/

/-- The target of an entry. -/
def PowIndex.target (b : PowIndex) : Nat := (BlockIndex.setCompact b.nBits.toNat).bnTarget

/-- `averageOf k average targets`: the average of `k - 1` targets, continued. -/
def averageOf : Nat -> Nat -> List Nat -> Nat
  | _, average, [] => average
  | k, average, t :: ts => averageOf (k + 1) ((average * k + t) / (k + 1)) ts

def exactAverage : List PowIndex -> Nat
  | [] => 0
  | b :: bs => averageOf 2 b.target (bs.map PowIndex.target)

/-- The time between the first and the last entry of a list. -/
def exactTimespan (bs : List PowIndex) : Int :=
  (bs.head?.map PowIndex.getBlockTime).getD 0 - (bs.getLast?.map PowIndex.getBlockTime).getD 0

/-- The timespan of the last 24 blocks, clamped. -/
def exactClamped (params : PowParams) (chain : List PowIndex) : Int :=
  clampTimespan (targetTimespan params 24 (chain.length - 1)) (exactTimespan (chain.take 24))

def exactStakeTarget (last prev : PowIndex) : Nat :=
  let average := last.target * (stakeFactor last prev).toNat / 3000
  if average = 0 ∨ 2 ^ 232 - 1 < average then 2 ^ 232 - 1 else average

def exactWaveTarget (params : PowParams) (chain : List PowIndex) : Nat :=
  min params.bnProofOfWorkLimit.value
    (exactAverage (chain.take 24) * (exactClamped params chain).toNat /
      (targetTimespan params 24 (chain.length - 1)).toNat)

/-- The next target over exact integers. -/
def exactTarget (params : PowParams) (chain : List PowIndex) : Nat :=
  match chain with
  | last :: prev :: rest =>
      if chain.length ≤ 24 then params.bnProofOfWorkLimit.value
      else if params.nLastPOWBlock < chain.length - 1 then exactStakeTarget last prev
      else exactWaveTarget params (last :: prev :: rest)
  | _ => params.bnProofOfWorkLimit.value

/-!
# The computation modulo 2^256
-/

def wrapAverageOf : Nat -> Nat -> List Nat -> Nat
  | _, average, [] => average
  | k, average, t :: ts =>
      wrapAverageOf (k + 1) ((average * k % 2 ^ 256 + t) % 2 ^ 256 / (k + 1)) ts

def wrapAverage : List PowIndex -> Nat
  | [] => 0
  | b :: bs => wrapAverageOf 2 b.target (bs.map PowIndex.target)

def wrapWaveTarget (params : PowParams) (chain : List PowIndex) : Nat :=
  min params.bnProofOfWorkLimit.value
    (wrapAverage (chain.take 24) * (exactClamped params chain).toNat % 2 ^ 256 /
      (targetTimespan params 24 (chain.length - 1)).toNat)

/-!
# The property
-/

/-- The product and the sum of one turn of the loop are the exact ones. -/
def Wave.StepExact (s : Wave) (b : PowIndex) : Prop :=
  s.countBlocks ≠ 0 ->
    ((averageProduct s.averagePrev (s.countBlocks + 1)).value : Int) =
        s.averagePrev.value * (s.countBlocks + 1) ∧
      ((averageProduct s.averagePrev (s.countBlocks + 1)).add
          (BaseUint.setCompact b.nBits)).value =
        (averageProduct s.averagePrev (s.countBlocks + 1)).value +
          (BaseUint.setCompact b.nBits).value

def LoopExact : Nat -> List PowIndex -> Wave -> Prop
  | turns + 1, b :: prev :: rest, s =>
      s.StepExact b ∧ forall s', s.step b = some s' -> LoopExact turns (prev :: rest) s'
  | _, _, _ => True

def StakeProductExact (last prev : PowIndex) : Prop :=
  (((BaseUint.setCompact last.nBits).mulUint32 (toUint32 (stakeFactor last prev))).value : Int) =
    (BaseUint.setCompact last.nBits).value * stakeFactor last prev

def WaveProductsExact (params : PowParams) (chain : List PowIndex) : Prop :=
  LoopExact 24 chain Wave.start ∧
    forall s, waveLoop 24 chain Wave.start = some s ->
      ((s.average.mulUint32 (toUint32 (clampTimespan
          (targetTimespan params s.countBlocks (chain.length - 1)) s.nActualTimespan))).value :
        Int) = s.average.value * clampTimespan
          (targetTimespan params s.countBlocks (chain.length - 1)) s.nActualTimespan

/-- No product of the computation wraps, and none of its operands is cut off. -/
def ProductsExact (params : PowParams) (chain : List PowIndex) : Prop :=
  match chain with
  | last :: prev :: rest =>
      if chain.length ≤ 24 then True
      else if params.nLastPOWBlock < chain.length - 1 then StakeProductExact last prev
      else WaveProductsExact params (last :: prev :: rest)
  | _ => True

/-- The result is the compact form of the exact target, and a target of the network. -/
structure RetargetExact (params : PowParams) (chain : List PowIndex) : Prop where
  products : ProductsExact params chain
  result : getNextWorkRequired params chain = some (compactOf (exactTarget params chain))
  pos : 0 < (BlockIndex.setCompact (compactOf (exactTarget params chain))).bnTarget
  le_limit : (BlockIndex.setCompact (compactOf (exactTarget params chain))).bnTarget ≤
    params.bnProofOfWorkLimit.value

/-!
# The condition
-/

def AverageFits : Nat -> Nat -> List Nat -> Prop
  | _, _, [] => True
  | k, average, t :: ts =>
      average * k + t < 2 ^ 256 ∧ AverageFits (k + 1) ((average * k + t) / (k + 1)) ts

instance decidableAverageFits : forall k average ts, Decidable (AverageFits k average ts)
  | _, _, [] => inferInstanceAs (Decidable True)
  | k, average, t :: ts =>
      have := decidableAverageFits (k + 1) ((average * k + t) / (k + 1)) ts
      inferInstanceAs (Decidable (_ ∧ _))

def ExactAverageFits : List PowIndex -> Prop
  | [] => True
  | b :: bs => AverageFits 2 b.target (bs.map PowIndex.target)

instance : forall bs, Decidable (ExactAverageFits bs)
  | [] => inferInstanceAs (Decidable True)
  | b :: bs => decidableAverageFits 2 b.target (bs.map PowIndex.target)

def StakeFits (last prev : PowIndex) : Prop :=
  stakeFactor last prev < 2 ^ 32 ∧ last.target * (stakeFactor last prev).toNat < 2 ^ 256

def WaveFits (params : PowParams) (chain : List PowIndex) : Prop :=
  ExactAverageFits (chain.take 24) ∧
    exactAverage (chain.take 24) * (exactClamped params chain).toNat < 2 ^ 256 ∧
    (targetTimespan params 24 (chain.length - 1)).toNat ≤
      exactAverage (chain.take 24) * (exactClamped params chain).toNat

instance (last prev : PowIndex) : Decidable (StakeFits last prev) :=
  inferInstanceAs (Decidable (_ ∧ _))

instance (params : PowParams) (chain : List PowIndex) : Decidable (WaveFits params chain) :=
  inferInstanceAs (Decidable (_ ∧ _ ∧ _))

/--
The exact products fit in 256 bits, the factor of a proof-of-stake block fits in 32 bits,
and the new target of the average is not zero.
-/
def RetargetFits (params : PowParams) (chain : List PowIndex) : Prop :=
  match chain with
  | last :: prev :: rest =>
      if chain.length ≤ 24 then True
      else if params.nLastPOWBlock < chain.length - 1 then StakeFits last prev
      else WaveFits params (last :: prev :: rest)
  | _ => True

instance (params : PowParams) : forall chain, Decidable (RetargetFits params chain)
  | [] => inferInstanceAs (Decidable True)
  | [_] => inferInstanceAs (Decidable True)
  | last :: prev :: rest =>
      inferInstanceAs (Decidable
        (if (last :: prev :: rest).length ≤ 24 then True
        else if params.nLastPOWBlock < ((last :: prev :: rest).length : Int) - 1 then
          StakeFits last prev
        else WaveFits params (last :: prev :: rest)))

/-- The range check of `CheckProofOfWork`. -/
def PowIndex.ValidBits (params : PowParams) (b : PowIndex) : Prop :=
  (BlockIndex.setCompact b.nBits.toNat).fNegative = false ∧
    (BlockIndex.setCompact b.nBits.toNat).fOverflow = false ∧
    0 < b.target ∧ b.target ≤ params.bnProofOfWorkLimit.value

/-- The time check of `ContextualCheckBlockHeader`, which the genesis block does not need. -/
def ValidTimes : List PowIndex -> Prop
  | b :: prev :: rest =>
      PowIndex.getMedianTimePast (prev :: rest) < b.getBlockTime ∧ ValidTimes (prev :: rest)
  | _ => True

instance (params : PowParams) (b : PowIndex) : Decidable (b.ValidBits params) :=
  inferInstanceAs (Decidable (_ ∧ _))

instance decidableValidTimes : forall chain, Decidable (ValidTimes chain)
  | [] => inferInstanceAs (Decidable True)
  | [_] => inferInstanceAs (Decidable True)
  | b :: prev :: rest =>
      have := decidableValidTimes (prev :: rest)
      inferInstanceAs (Decidable
        (PowIndex.getMedianTimePast (prev :: rest) < b.getBlockTime ∧ ValidTimes (prev :: rest)))

/-- Entries as the block checks admit them. -/
structure ValidChain (params : PowParams) (chain : List PowIndex) : Prop where
  bits : forall b, b ∈ chain -> b.ValidBits params
  times : ValidTimes chain

section Unfolding

variable {params : PowParams} {last prev : PowIndex} {rest : List PowIndex}

theorem nextTarget_cons : nextTarget params (last :: prev :: rest) =
    if ((prev :: rest).length : Int) = 0 ∨ ((prev :: rest).length : Int) < 24 then
      some params.bnProofOfWorkLimit
    else if params.nLastPOWBlock < ((prev :: rest).length : Int) then stakeTarget last prev
    else
      match waveLoop 24 (last :: prev :: rest) Wave.start with
      | none => none
      | some s => waveTarget params (prev :: rest).length s := rfl

theorem exactTarget_cons : exactTarget params (last :: prev :: rest) =
    if (last :: prev :: rest).length ≤ 24 then params.bnProofOfWorkLimit.value
    else if params.nLastPOWBlock < ((last :: prev :: rest).length : Int) - 1 then
      exactStakeTarget last prev
    else exactWaveTarget params (last :: prev :: rest) := rfl

theorem productsExact_cons : ProductsExact params (last :: prev :: rest) =
    if (last :: prev :: rest).length ≤ 24 then True
    else if params.nLastPOWBlock < ((last :: prev :: rest).length : Int) - 1 then
      StakeProductExact last prev
    else WaveProductsExact params (last :: prev :: rest) := rfl

theorem retargetFits_cons : RetargetFits params (last :: prev :: rest) =
    if (last :: prev :: rest).length ≤ 24 then True
    else if params.nLastPOWBlock < ((last :: prev :: rest).length : Int) - 1 then
      StakeFits last prev
    else WaveFits params (last :: prev :: rest) := rfl

end Unfolding

/-!
# Operands
-/

theorem toNat_toUint32 {n : Int} (hn : 0 ≤ n) : (toUint32 n).toNat = n.toNat % 2 ^ 32 := by
  rw [toUint32, BitVec.toNat_ofInt]
  omega

theorem value_ofInt64 {n : Int} (hn : 0 ≤ n) (hlt : n < 2 ^ 64) :
    (ofInt64 n).value = n.toNat := by
  rw [ofInt64, Int.emod_eq_of_lt hn hlt]
  exact BaseUint.value_ofUint64 (by omega)

/-- A product is exact when neither its operand nor the product itself is cut off. -/
theorem mulUint32_exact_iff {a : BaseUint} {n : Int} (ha : 0 < a.value) (hn : 0 ≤ n) :
    ((a.mulUint32 (toUint32 n)).value : Int) = a.value * n <->
      n < 2 ^ 32 ∧ a.value * n.toNat < 2 ^ 256 := by
  rw [BaseUint.value_mulUint32, toNat_toUint32 hn]
  have hcast : ((a.value * n.toNat : Nat) : Int) = a.value * n := by
    rw [Nat.cast_mul, Int.toNat_of_nonneg hn]
  rw [← hcast, Nat.cast_inj]
  constructor
  · intro h
    have hmod := Nat.mod_le (a.value * (n.toNat % 2 ^ 32)) (2 ^ 256)
    have hlt := Nat.mod_lt (a.value * (n.toNat % 2 ^ 32)) (Nat.two_pow_pos 256)
    rw [h] at hmod hlt
    have hle := Nat.le_of_mul_le_mul_left hmod ha
    have hsmall := Nat.mod_lt n.toNat (Nat.two_pow_pos 32)
    exact ⟨by omega, hlt⟩
  · rintro ⟨hsmall, hlt⟩
    have hoperand : n.toNat % 2 ^ 32 = n.toNat := Nat.mod_eq_of_lt (by omega)
    rw [hoperand, Nat.mod_eq_of_lt hlt]

theorem value_mulUint32_of_small {a : BaseUint} {n : Int} (hn : 0 ≤ n) (hsmall : n < 2 ^ 32) :
    (a.mulUint32 (toUint32 n)).value = a.value * n.toNat % 2 ^ 256 := by
  have hoperand : n.toNat % 2 ^ 32 = n.toNat := Nat.mod_eq_of_lt (by omega)
  rw [BaseUint.value_mulUint32, toNat_toUint32 hn, hoperand]

theorem value_mulUint32_of_fits {a : BaseUint} {n : Int} (hn : 0 ≤ n) (hsmall : n < 2 ^ 32)
    (hlt : a.value * n.toNat < 2 ^ 256) :
    (a.mulUint32 (toUint32 n)).value = a.value * n.toNat := by
  rw [value_mulUint32_of_small hn hsmall, Nat.mod_eq_of_lt hlt]

/-!
# The loop
-/

section Loop

variable {s : Wave} {b : PowIndex} {k : Nat}

/-- The state between two turns, after `k` blocks. -/
structure Wave.After (s : Wave) (k : Nat) : Prop where
  pos : 0 < k
  count : s.countBlocks = k
  prev : s.averagePrev = s.average
  time : 0 < s.lastBlockTime

theorem Wave.After.stepExact_iff (h : s.After k) (hk : k < 24) (ha : 0 < s.average.value) :
    s.StepExact b <-> s.average.value * (k + 1) + b.target < 2 ^ 256 := by
  have hpos := h.pos
  have hcount : s.countBlocks ≠ 0 := by
    rw [h.count]
    omega
  have hcast : s.countBlocks + 1 = ((k + 1 : Nat) : Int) := by
    rw [h.count]
    omega
  have hsmall : ((k + 1 : Nat) : Int) < 2 ^ 32 := by omega
  have hbig : 2 ^ 256 > b.target := by
    rw [PowIndex.target, ← BaseUint.value_setCompact]
    exact BaseUint.value_lt _
  unfold Wave.StepExact averageProduct
  rw [h.prev, hcast, mulUint32_exact_iff ha (Int.natCast_nonneg _), Int.toNat_natCast]
  constructor
  · intro hexact
    rcases hexact hcount with ⟨⟨_, hproduct⟩, hsum⟩
    rw [BaseUint.value_add, value_mulUint32_of_fits (Int.natCast_nonneg _) hsmall
      (by rw [Int.toNat_natCast]; exact hproduct), Int.toNat_natCast,
      BaseUint.value_setCompact] at hsum
    have hlt := Nat.mod_lt (s.average.value * (k + 1) + b.target) (Nat.two_pow_pos 256)
    rw [PowIndex.target] at hlt ⊢
    omega
  · intro hfits _
    have hproduct : s.average.value * (k + 1) < 2 ^ 256 := by omega
    refine ⟨⟨hsmall, hproduct⟩, ?_⟩
    rw [BaseUint.value_add, value_mulUint32_of_fits (Int.natCast_nonneg _) hsmall
      (by rw [Int.toNat_natCast]; exact hproduct), Int.toNat_natCast,
      BaseUint.value_setCompact]
    exact Nat.mod_eq_of_lt hfits

/-- A turn after the first one. -/
structure Wave.Stepped (s : Wave) (b : PowIndex) (k : Nat) (s' : Wave) : Prop where
  count : s'.countBlocks = (k + 1 : Nat)
  prev : s'.averagePrev = s'.average
  time : s'.lastBlockTime = b.getBlockTime
  timespan : s'.nActualTimespan = s.nActualTimespan + (s.lastBlockTime - b.getBlockTime)
  average : s'.average.value =
    (s.average.value * (k + 1) % 2 ^ 256 + b.target) % 2 ^ 256 / (k + 2)

theorem Wave.After.exists_step (h : s.After k) (hk : k < 24) :
    exists s', s.step b = some s' ∧ s.Stepped b k s' := by
  have hpos := h.pos
  have hcount : ¬ s.countBlocks + 1 = 1 := by
    rw [h.count]
    omega
  have hle : s.countBlocks + 1 ≤ 24 := by
    rw [h.count]
    omega
  have hdivisor : (ofInt64 (s.countBlocks + 1 + 1)).value = k + 2 := by
    rw [h.count, value_ofInt64 (by omega) (by omega)]
    omega
  have hne : (ofInt64 (s.countBlocks + 1 + 1)).value ≠ 0 := by
    rw [hdivisor]
    omega
  rcases BaseUint.div_eq_some (a := (averageProduct s.averagePrev (s.countBlocks + 1)).add
    (BaseUint.setCompact b.nBits)) hne with ⟨average, hdiv, hvalue⟩
  unfold Wave.step nextAverage
  simp only [if_pos hle, if_neg hcount, hdiv, if_pos h.time]
  refine ⟨_, rfl, ?_, rfl, rfl, rfl, ?_⟩
  · rw [h.count]
    rfl
  · have hproduct : (averageProduct s.average (s.countBlocks + 1)).value =
        s.average.value * (k + 1) % 2 ^ 256 := by
      have hcast : s.countBlocks + 1 = ((k + 1 : Nat) : Int) := by
        rw [h.count]
        omega
      rw [averageProduct, hcast, value_mulUint32_of_small (Int.natCast_nonneg _) (by omega),
        Int.toNat_natCast]
    change average.value = _
    rw [hvalue, hdivisor, h.prev, BaseUint.value_add, hproduct, BaseUint.value_setCompact]
    rfl

/-- Without a wrap a turn computes the exact average. -/
theorem Wave.Stepped.average_exact {s' : Wave} (h : s.Stepped b k s')
    (hfits : s.average.value * (k + 1) + b.target < 2 ^ 256) :
    s'.average.value = (s.average.value * (k + 1) + b.target) / (k + 2) := by
  have hproduct : s.average.value * (k + 1) < 2 ^ 256 := by omega
  rw [h.average, Nat.mod_eq_of_lt hproduct, Nat.mod_eq_of_lt hfits]

/-- What the rest of the loop does. -/
structure Wave.Ran (s : Wave) (k turns : Nat) (chain : List PowIndex) (s' : Wave) : Prop where
  count : s'.countBlocks = (k + turns : Nat)
  timespan : s'.nActualTimespan = s.nActualTimespan + (s.lastBlockTime - s'.lastBlockTime)
  time : s'.lastBlockTime =
    ((chain.take turns).getLast?.map PowIndex.getBlockTime).getD s.lastBlockTime
  exact_iff : 0 < s.average.value -> (LoopExact turns chain s <->
    AverageFits (k + 1) s.average.value ((chain.take turns).map PowIndex.target))
  average : s'.average.value =
    wrapAverageOf (k + 1) s.average.value ((chain.take turns).map PowIndex.target)

theorem getLast?_cons_getD {α : Type} (f : PowIndex -> α) (b : PowIndex)
    (bs : List PowIndex) (d : α) :
    ((b :: bs).getLast?.map f).getD d = (bs.getLast?.map f).getD (f b) := by
  rw [List.getLast?_cons]
  cases bs.getLast? <;> rfl

theorem loopExact_cons {turns : Nat} {prev : PowIndex} {rest : List PowIndex} {s1 : Wave}
    (hstep : s.step b = some s1) :
    LoopExact (turns + 1) (b :: prev :: rest) s <->
      s.StepExact b ∧ LoopExact turns (prev :: rest) s1 := by
  rw [LoopExact]
  apply and_congr_right
  intro _
  constructor
  · intro hall
    exact hall s1 hstep
  · intro hone s2 hs2
    rw [hstep] at hs2
    cases hs2
    exact hone

theorem Wave.After.exists_ran (turns : Nat) :
    forall {s : Wave} {k : Nat} {chain : List PowIndex}, s.After k -> k + turns ≤ 24 ->
      turns < chain.length ->
      (forall b, b ∈ chain.take turns -> 0 < b.getBlockTime ∧ 0 < b.target) ->
      exists s', waveLoop turns chain s = some s' ∧ s.Ran k turns chain s' := by
  induction turns with
  | zero =>
      intro s k chain h _ _ _
      refine ⟨s, ?_, h.count, ?_, rfl, ?_, rfl⟩
      · cases chain <;> rfl
      · omega
      · exact fun _ => iff_of_true trivial trivial
  | succ turns ih =>
      intro s k chain h hk hlen hpos
      match chain, hlen, hpos with
      | b :: prev :: rest, hlen, hpos =>
          have hb := hpos b List.mem_cons_self
          rcases h.exists_step (b := b) (by omega) with ⟨s1, hstep, hstepped⟩
          have hafter : s1.After (k + 1) :=
            ⟨Nat.succ_pos k, hstepped.count, hstepped.prev, hstepped.time ▸ hb.1⟩
          rcases ih hafter (by omega) (by simpa using hlen)
            (fun x hx => hpos x (List.mem_cons_of_mem b hx)) with ⟨s', hrun, hran⟩
          have hpositive : 0 < s.average.value ->
              s.average.value * (k + 1) + b.target < 2 ^ 256 -> 0 < s1.average.value := by
            intro ha hfits
            have hmul := Nat.mul_le_mul_right (k + 1) ha
            rw [hstepped.average_exact hfits]
            apply Nat.div_pos
            · omega
            · omega
          refine ⟨s', ?_, ?_, ?_, ?_, ?_, ?_⟩
          · rw [waveLoop, hstep]
            exact hrun
          · rw [hran.count]
            congr 1
            omega
          · rw [hran.timespan, hstepped.timespan, hstepped.time]
            omega
          · rw [hran.time, List.take_succ_cons, getLast?_cons_getD, hstepped.time]
          · intro ha
            rw [loopExact_cons hstep, List.take_succ_cons, List.map_cons, AverageFits,
              h.stepExact_iff (by omega) ha]
            apply and_congr_right
            intro hfits
            rw [hran.exact_iff (hpositive ha hfits), hstepped.average_exact hfits]
          · rw [hran.average, hstepped.average]
            rfl

/-- The whole loop over a chain of more than 24 entries. -/
structure Waved (chain : List PowIndex) (s : Wave) : Prop where
  count : s.countBlocks = 24
  timespan : s.nActualTimespan = exactTimespan (chain.take 24)
  exact_iff : LoopExact 24 chain Wave.start <-> ExactAverageFits (chain.take 24)
  average : s.average.value = wrapAverage (chain.take 24)

/-- The first turn takes the target of the last block itself. -/
def Wave.first (b : PowIndex) : Wave where
  nActualTimespan := 0
  lastBlockTime := b.getBlockTime
  countBlocks := 1
  average := BaseUint.setCompact b.nBits
  averagePrev := BaseUint.setCompact b.nBits

theorem step_start : Wave.start.step b = some (Wave.first b) := rfl

theorem exists_waved {chain : List PowIndex} (hlen : 24 < chain.length)
    (hpos : forall b, b ∈ chain.take 24 -> 0 < b.getBlockTime ∧ 0 < b.target) :
    exists s, waveLoop 24 chain Wave.start = some s ∧ Waved chain s := by
  match chain, hlen, hpos with
  | b :: prev :: rest, hlen, hpos =>
      have hb := hpos b List.mem_cons_self
      have hafter : (Wave.first b).After 1 := ⟨Nat.one_pos, rfl, rfl, hb.1⟩
      rcases hafter.exists_ran 23 (le_refl 24) (Nat.lt_of_succ_lt_succ hlen)
        (fun x hx => hpos x (List.mem_cons_of_mem b hx)) with ⟨s, hrun, hran⟩
      have ha : 0 < (Wave.first b).average.value := by
        change 0 < (BaseUint.setCompact b.nBits).value
        rw [BaseUint.value_setCompact]
        exact hb.2
      have hvalue : (Wave.first b).average.value = b.target := BaseUint.value_setCompact _
      have hloop : LoopExact (23 + 1) (b :: prev :: rest) Wave.start <->
          Wave.start.StepExact b ∧ LoopExact 23 (prev :: rest) (Wave.first b) :=
        loopExact_cons step_start
      have hzero : Wave.start.StepExact b := fun h => absurd rfl h
      refine ⟨s, ?_, hran.count, ?_, ?_, ?_⟩
      · rw [waveLoop, step_start]
        exact hrun
      · have hlast : (((b :: prev :: rest).take 24).getLast?.map PowIndex.getBlockTime).getD 0 =
            (((prev :: rest).take 23).getLast?.map PowIndex.getBlockTime).getD
              b.getBlockTime := by
          rw [List.take_succ_cons]
          exact getLast?_cons_getD _ _ _ _
        rw [hran.timespan, hran.time, exactTimespan, hlast]
        exact Int.zero_add _
      · rw [hloop, hran.exact_iff ha, hvalue]
        exact and_iff_right hzero
      · rw [hran.average, hvalue]
        rfl

end Loop

/-!
# The three cases
-/

section Cases

variable {params : PowParams} {chain : List PowIndex}

theorem getMedianTimePast_nonneg (chain : List PowIndex) :
    0 ≤ PowIndex.getMedianTimePast chain := by
  unfold PowIndex.getMedianTimePast
  simp only
  generalize hsorted : ((chain.take 11).map PowIndex.getBlockTime).insertionSort
    (fun a b => a ≤ b) = sorted
  cases h : sorted[sorted.length / 2]? with
  | none => exact le_refl 0
  | some time =>
      have hmem := List.mem_of_getElem? h
      rw [← hsorted, List.mem_insertionSort] at hmem
      rcases List.mem_map.mp hmem with ⟨b, _, rfl⟩
      exact Int.natCast_nonneg _

/-- Only the genesis block may have the time zero. -/
theorem time_pos_of_validTimes (n : Nat) :
    forall {chain : List PowIndex}, ValidTimes chain -> n < chain.length ->
      forall b, b ∈ chain.take n -> 0 < b.getBlockTime := by
  induction n with
  | zero =>
      intro chain _ _ b hb
      rw [List.take_zero] at hb
      cases hb
  | succ n ih =>
      intro chain h hn b hb
      match chain, h, hn, hb with
      | first :: prev :: rest, h, hn, hb =>
          rcases List.mem_cons.mp hb with rfl | hb
          · exact (getMedianTimePast_nonneg _).trans_lt h.1
          · exact ih h.2 (Nat.lt_of_succ_lt_succ hn) b hb

theorem ValidChain.time_pos (h : ValidChain params chain) {n : Nat} (hn : n < chain.length)
    {b : PowIndex} (hb : b ∈ chain.take n) : 0 < b.getBlockTime ∧ 0 < b.target :=
  ⟨time_pos_of_validTimes n h.times hn b hb, (h.bits b (List.mem_of_mem_take hb)).2.2.1⟩

theorem limit_pos (params : PowParams) : 0 < params.bnProofOfWorkLimit.value :=
  lt_of_lt_of_le (by decide) params.limit_ge

/-- The parts of the property which follow from a positive exact target below the limit. -/
theorem retargetExact_of_target {b : BaseUint} (hproducts : ProductsExact params chain)
    (hnext : nextTarget params chain = some b)
    (hvalue : b.value = exactTarget params chain) (hpos : 0 < b.value)
    (hle : b.value ≤ params.bnProofOfWorkLimit.value) : RetargetExact params chain := by
  have hcut := setCompact_compactOf b.value_lt
  rw [hvalue] at hcut hpos hle
  refine ⟨hproducts, ?_, hcut.2 hpos, hcut.1.trans hle⟩
  rw [getNextWorkRequired, hnext, Option.map_some, BaseUint.getCompact_eq, hvalue]

theorem retargetExact_of_short (params : PowParams) {chain : List PowIndex}
    (h : chain.length ≤ 24) :
    RetargetExact params chain ∧ RetargetFits params chain := by
  match chain, h with
  | [], _ =>
      exact ⟨retargetExact_of_target trivial rfl rfl (limit_pos params) (le_refl _), trivial⟩
  | [last], _ =>
      exact ⟨retargetExact_of_target trivial rfl rfl (limit_pos params) (le_refl _), trivial⟩
  | last :: prev :: rest, h =>
      have hheight : ((prev :: rest).length : Int) = 0 ∨ ((prev :: rest).length : Int) < 24 := by
        rw [List.length_cons] at h
        omega
      have hnext : nextTarget params (last :: prev :: rest) = some params.bnProofOfWorkLimit := by
        rw [nextTarget_cons, if_pos hheight]
      refine ⟨retargetExact_of_target ?_ hnext ?_ (limit_pos params) (le_refl _), ?_⟩
      · rw [productsExact_cons, if_pos h]
        trivial
      · rw [exactTarget_cons, if_pos h]
      · rw [retargetFits_cons, if_pos h]
        trivial

/-!
# Proof of stake
-/

section Stake

variable {last prev : PowIndex} {rest : List PowIndex}

theorem stakeFactor_nonneg : 0 ≤ stakeFactor last prev := by
  have hspacing : 0 ≤ actualSpacing last prev := by
    unfold actualSpacing
    simp only
    split_ifs <;> omega
  unfold stakeFactor
  omega

theorem value_bnTargetLimit : bnTargetLimit.value = 2 ^ 232 - 1 := by
  rw [bnTargetLimit, BaseUint.value_shr, BaseUint.value_allOnes]
  decide

theorem exists_stakeTarget (hfactor : stakeFactor last prev < 2 ^ 32)
    (hproduct : last.target * (stakeFactor last prev).toNat < 2 ^ 256) :
    exists bnNew, stakeTarget last prev = some bnNew ∧
      bnNew.value = exactStakeTarget last prev := by
  have hdivisor : (ofInt64 ((24 + 1) * 120)).value = 3000 := value_ofInt64 (by decide) (by decide)
  rcases BaseUint.div_eq_some
    (a := (BaseUint.setCompact last.nBits).mulUint32 (toUint32 (stakeFactor last prev)))
    (b := ofInt64 ((24 + 1) * 120)) (by rw [hdivisor]; decide) with ⟨quotient, hdiv, hvalue⟩
  have hfits : (BaseUint.setCompact last.nBits).value * (stakeFactor last prev).toNat <
      2 ^ 256 := by
    rw [BaseUint.value_setCompact]
    exact hproduct
  rw [hdivisor, value_mulUint32_of_fits stakeFactor_nonneg hfactor hfits,
    BaseUint.value_setCompact] at hvalue
  have hzero : (BaseUint.ofUint64 0).value = 0 := BaseUint.value_ofUint64 (by decide)
  have hiff : (quotient.compareTo (BaseUint.ofUint64 0) ≠ Ordering.gt ∨
      quotient.compareTo bnTargetLimit = Ordering.gt) <->
      (quotient.value = 0 ∨ 2 ^ 232 - 1 < quotient.value) := by
    rw [Ne, BaseUint.compareTo_eq_gt, BaseUint.compareTo_eq_gt, hzero, value_bnTargetLimit,
      Nat.not_lt, Nat.le_zero]
  have hexact : exactStakeTarget last prev =
      if quotient.value = 0 ∨ 2 ^ 232 - 1 < quotient.value then 2 ^ 232 - 1
      else quotient.value := by
    simp only [hvalue]
    rfl
  unfold stakeTarget
  simp only [hdiv]
  rw [hexact]
  by_cases hcap : quotient.value = 0 ∨ 2 ^ 232 - 1 < quotient.value
  · rw [if_pos (hiff.mpr hcap), if_pos hcap]
    exact ⟨bnTargetLimit, rfl, value_bnTargetLimit⟩
  · rw [if_neg (fun h => hcap (hiff.mp h)), if_neg hcap]
    exact ⟨quotient, rfl, rfl⟩

theorem exactStakeTarget_bounds (last prev : PowIndex) :
    0 < exactStakeTarget last prev ∧ exactStakeTarget last prev ≤ 2 ^ 232 - 1 := by
  unfold exactStakeTarget
  simp only
  split_ifs with hcap
  · exact ⟨by decide, le_refl _⟩
  · omega

theorem retargetExact_iff_of_stake (hlen : 24 < (last :: prev :: rest).length)
    (hstake : params.nLastPOWBlock < (last :: prev :: rest).length - 1)
    (htarget : 0 < last.target) :
    RetargetExact params (last :: prev :: rest) <-> RetargetFits params (last :: prev :: rest) := by
  have hnot : ¬ (last :: prev :: rest).length ≤ 24 := by omega
  have ha : 0 < (BaseUint.setCompact last.nBits).value := by
    rw [BaseUint.value_setCompact]
    exact htarget
  have hproducts : ProductsExact params (last :: prev :: rest) <->
      RetargetFits params (last :: prev :: rest) := by
    rw [productsExact_cons, retargetFits_cons, if_neg hnot, if_neg hnot, if_pos hstake,
      if_pos hstake, StakeProductExact, mulUint32_exact_iff ha stakeFactor_nonneg,
      BaseUint.value_setCompact]
    rfl
  constructor
  · intro h
    exact hproducts.mp h.products
  · intro h
    have hfits := h
    rw [retargetFits_cons, if_neg hnot, if_pos hstake] at hfits
    rcases exists_stakeTarget hfits.1 hfits.2 with ⟨bnNew, hnew, hvalue⟩
    have hbounds := exactStakeTarget_bounds last prev
    have hheight : ¬ (((prev :: rest).length : Int) = 0 ∨ ((prev :: rest).length : Int) < 24) := by
      rw [List.length_cons] at hlen
      omega
    have hpos' : params.nLastPOWBlock < ((prev :: rest).length : Int) := by
      rw [List.length_cons, Nat.cast_succ] at hstake
      omega
    refine retargetExact_of_target (b := bnNew) (hproducts.mpr h) ?_ ?_ ?_ ?_
    · rw [nextTarget_cons, if_neg hheight, if_pos hpos']
      exact hnew
    · rw [exactTarget_cons, if_neg hnot, if_pos hstake]
      exact hvalue
    · omega
    · have hlimit := params.limit_ge
      omega

end Stake

/-!
# The average
-/

section Average

variable {last prev : PowIndex} {rest : List PowIndex}

theorem targetTimespan_bounds (params : PowParams) (nHeight : Int) :
    0 < targetTimespan params 24 nHeight ∧ targetTimespan params 24 nHeight * 3 < 2 ^ 32 := by
  have h1 := params.spacing_pos
  have h2 := params.spacing_lt
  have h3 := params.slowLaunch_pos
  have h4 := params.slowLaunch_lt
  unfold targetTimespan
  split_ifs <;> omega

theorem clampTimespan_bounds {nTarget : Int} (nActual : Int) (h : 0 < nTarget) :
    0 ≤ clampTimespan nTarget nActual ∧ clampTimespan nTarget nActual ≤ nTarget * 3 := by
  have hthird : nTarget.tdiv 3 = nTarget / 3 := Int.tdiv_eq_ediv_of_nonneg h.le
  unfold clampTimespan
  simp only
  rw [hthird]
  split_ifs <;> omega

theorem wrapAverageOf_eq (targets : List Nat) :
    forall {k average : Nat}, AverageFits k average targets ->
      wrapAverageOf k average targets = averageOf k average targets := by
  induction targets with
  | nil =>
      intro k average _
      rfl
  | cons t ts ih =>
      intro k average h
      have hproduct : average * k < 2 ^ 256 := by
        have hsum := h.1
        omega
      rw [wrapAverageOf, Nat.mod_eq_of_lt hproduct, Nat.mod_eq_of_lt h.1, ih h.2]
      rfl

theorem wrapAverage_eq {bs : List PowIndex} (h : ExactAverageFits bs) :
    wrapAverage bs = exactAverage bs := by
  cases bs with
  | nil => rfl
  | cons b bs => exact wrapAverageOf_eq _ h

theorem exists_waveTarget (params : PowParams) (nHeight : Int) {s : Wave}
    (hcount : s.countBlocks = 24) :
    exists bnNew, waveTarget params nHeight s = some bnNew ∧
      bnNew.value = min params.bnProofOfWorkLimit.value (s.average.value *
        (clampTimespan (targetTimespan params 24 nHeight) s.nActualTimespan).toNat % 2 ^ 256 /
          (targetTimespan params 24 nHeight).toNat) := by
  have htarget := targetTimespan_bounds params nHeight
  have hclamp := clampTimespan_bounds s.nActualTimespan htarget.1
  have hdivisor := value_ofInt64 htarget.1.le (by omega)
  rcases BaseUint.div_eq_some
    (a := s.average.mulUint32
      (toUint32 (clampTimespan (targetTimespan params 24 nHeight) s.nActualTimespan)))
    (b := ofInt64 (targetTimespan params 24 nHeight)) (by rw [hdivisor]; omega)
    with ⟨quotient, hdiv, hvalue⟩
  rw [hdivisor, value_mulUint32_of_small hclamp.1 (by omega)] at hvalue
  unfold waveTarget
  simp only [hcount, hdiv]
  rw [← hvalue]
  by_cases hcap : params.bnProofOfWorkLimit.value < quotient.value
  · rw [if_pos (BaseUint.compareTo_eq_gt.mpr hcap)]
    exact ⟨_, rfl, (min_eq_left hcap.le).symm⟩
  · rw [if_neg (fun h => hcap (BaseUint.compareTo_eq_gt.mp h))]
    exact ⟨_, rfl, (min_eq_right (Nat.not_lt.mp hcap)).symm⟩

/-- The target by the average, modulo 2^256. -/
theorem exists_nextTarget_wave (hchain : ValidChain params (last :: prev :: rest))
    (hlen : 24 < (last :: prev :: rest).length)
    (hwave : ¬ params.nLastPOWBlock < ((last :: prev :: rest).length : Int) - 1) :
    exists bnNew, nextTarget params (last :: prev :: rest) = some bnNew ∧
      bnNew.value = wrapWaveTarget params (last :: prev :: rest) := by
  have hheight : ¬ (((prev :: rest).length : Int) = 0 ∨ ((prev :: rest).length : Int) < 24) := by
    rw [List.length_cons] at hlen
    omega
  have hcast : ((prev :: rest).length : Int) = ((last :: prev :: rest).length : Int) - 1 := by
    simp
  rcases exists_waved hlen (fun b hb => hchain.time_pos hlen hb) with ⟨s, hrun, hwaved⟩
  rcases exists_waveTarget params ((prev :: rest).length : Int) hwaved.count with
    ⟨bnNew, hnew, hvalue⟩
  refine ⟨bnNew, ?_, ?_⟩
  · rw [nextTarget_cons, if_neg hheight, if_neg (hcast ▸ hwave), hrun]
    exact hnew
  · rw [hvalue, hwaved.average, hwaved.timespan, hcast]
    rfl

theorem averageOf_pos (targets : List Nat) :
    forall {k average : Nat}, 0 < average -> 0 < k ->
      (forall t, t ∈ targets -> 0 < t) -> 0 < averageOf k average targets := by
  induction targets with
  | nil =>
      intro k average h _ _
      exact h
  | cons t ts ih =>
      intro k average h hk ht
      have hfirst := ht t List.mem_cons_self
      have hmul := Nat.mul_le_mul_right k h
      apply ih _ (Nat.succ_pos k) (fun x hx => ht x (List.mem_cons_of_mem t hx))
      apply Nat.div_pos
      · omega
      · omega

theorem exactAverage_pos {bs : List PowIndex} (hne : bs ≠ [])
    (h : forall b, b ∈ bs -> 0 < b.target) : 0 < exactAverage bs := by
  cases bs with
  | nil => exact absurd rfl hne
  | cons b bs =>
      apply averageOf_pos _ (h b List.mem_cons_self) (by decide)
      intro t ht
      rcases List.mem_map.mp ht with ⟨x, hx, rfl⟩
      exact h x (List.mem_cons_of_mem b hx)

/-- The products of the computation are exact when those of the formula fit. -/
theorem waveProductsExact_iff {s : Wave} (hchain : ValidChain params chain)
    (hlen : 24 < chain.length) (hrun : waveLoop 24 chain Wave.start = some s)
    (hwaved : Waved chain s) :
    WaveProductsExact params chain <-> ExactAverageFits (chain.take 24) ∧
      exactAverage (chain.take 24) * (exactClamped params chain).toNat < 2 ^ 256 := by
  have htarget := targetTimespan_bounds params (chain.length - 1)
  have hclamp := clampTimespan_bounds s.nActualTimespan htarget.1
  have hne : chain.take 24 ≠ [] := by
    intro hnil
    have hzero := congrArg List.length hnil
    rw [List.length_take, List.length_nil] at hzero
    omega
  have hpos := exactAverage_pos hne (fun b hb => (hchain.time_pos hlen hb).2)
  unfold WaveProductsExact
  rw [hwaved.exact_iff]
  apply and_congr_right
  intro hfits
  have haverage := hwaved.average.trans (wrapAverage_eq hfits)
  have hone : (forall s', waveLoop 24 chain Wave.start = some s' ->
      ((s'.average.mulUint32 (toUint32 (clampTimespan
          (targetTimespan params s'.countBlocks (chain.length - 1)) s'.nActualTimespan))).value :
        Int) = s'.average.value * clampTimespan
          (targetTimespan params s'.countBlocks (chain.length - 1)) s'.nActualTimespan) <->
      ((s.average.mulUint32 (toUint32 (clampTimespan
          (targetTimespan params s.countBlocks (chain.length - 1)) s.nActualTimespan))).value :
        Int) = s.average.value * clampTimespan
          (targetTimespan params s.countBlocks (chain.length - 1)) s.nActualTimespan := by
    constructor
    · intro h
      exact h s hrun
    · intro h s' hs'
      rw [hrun] at hs'
      cases hs'
      exact h
  rw [hone, hwaved.count, mulUint32_exact_iff (haverage.symm ▸ hpos) hclamp.1, haverage,
    exactClamped, hwaved.timespan]
  apply and_iff_right
  rw [← hwaved.timespan]
  omega

theorem retargetExact_iff_of_wave (hchain : ValidChain params (last :: prev :: rest))
    (hlen : 24 < (last :: prev :: rest).length)
    (hwave : ¬ params.nLastPOWBlock < ((last :: prev :: rest).length : Int) - 1) :
    RetargetExact params (last :: prev :: rest) <-> RetargetFits params (last :: prev :: rest) := by
  have hnot : ¬ (last :: prev :: rest).length ≤ 24 := by omega
  rcases exists_waved hlen (fun b hb => hchain.time_pos hlen hb) with ⟨s, hrun, hwaved⟩
  have hproducts := waveProductsExact_iff hchain hlen hrun hwaved
  have htarget := targetTimespan_bounds params ((last :: prev :: rest).length - 1)
  constructor
  · intro h
    have hexact := h.products
    have hpos := h.pos
    rw [productsExact_cons, if_neg hnot, if_neg hwave] at hexact
    rcases hproducts.mp hexact with ⟨hfits, hproduct⟩
    rw [retargetFits_cons, if_neg hnot, if_neg hwave]
    refine ⟨hfits, hproduct, ?_⟩
    -- a target of zero has the compact form zero
    by_contra hzero
    rw [exactTarget_cons, if_neg hnot, if_neg hwave, exactWaveTarget,
      Nat.div_eq_of_lt (Nat.not_le.mp hzero), Nat.min_zero] at hpos
    exact absurd hpos (by decide)
  · intro h
    rw [retargetFits_cons, if_neg hnot, if_neg hwave] at h
    rcases h with ⟨hall, hproduct, hnonzero⟩
    rcases exists_nextTarget_wave hchain hlen hwave with ⟨bnNew, hnew, hvalue⟩
    have hexact : bnNew.value = exactWaveTarget params (last :: prev :: rest) := by
      rw [hvalue, wrapWaveTarget, wrapAverage_eq hall, Nat.mod_eq_of_lt hproduct]
      rfl
    have hquotient := Nat.div_pos hnonzero (by omega)
    have hlimit := limit_pos params
    refine retargetExact_of_target (b := bnNew) ?_ hnew ?_ ?_ ?_
    · rw [productsExact_cons, if_neg hnot, if_neg hwave]
      exact hproducts.mpr ⟨hall, hproduct⟩
    · rw [exactTarget_cons, if_neg hnot, if_neg hwave]
      exact hexact
    · rw [hexact]
      exact Nat.lt_min.mpr ⟨hlimit, hquotient⟩
    · rw [hexact]
      exact Nat.min_le_left _ _

end Average

end Cases

/-!
# Exactness
-/

/-- The retarget is exact on a valid chain if and only if its products fit. -/
theorem retargetExact_iff_retargetFits {params : PowParams} {chain : List PowIndex}
    (hchain : ValidChain params chain) :
    RetargetExact params chain <-> RetargetFits params chain := by
  by_cases hlen : chain.length ≤ 24
  · have hshort := retargetExact_of_short params hlen
    exact iff_of_true hshort.1 hshort.2
  · match chain, hlen, hchain with
    | [], hlen, _ => exact absurd (Nat.zero_le 24) hlen
    | [last], hlen, _ => exact absurd (Nat.succ_le_succ (Nat.zero_le 23)) hlen
    | last :: prev :: rest, hlen, hchain =>
        by_cases hstake : params.nLastPOWBlock < ((last :: prev :: rest).length : Int) - 1
        · exact retargetExact_iff_of_stake (Nat.not_le.mp hlen) hstake
            (hchain.bits last List.mem_cons_self).2.2.1
        · exact retargetExact_iff_of_wave hchain (Nat.not_le.mp hlen) hstake

/-!
# The smallest chains
-/

namespace RetargetExample

/-- The genesis block and 24 blocks with one target, `gap` seconds apart. -/
def chain (nBits gap : Nat) : List PowIndex :=
  (List.range 25).reverse.map (fun n =>
    { nTime := BitVec.ofNat 32 (1454124731 + gap * n), nBits := BitVec.ofNat 32 nBits })

theorem validChain_main : ValidChain mainPowParams (chain 0x1e0fffff 120) :=
  ⟨by decide +kernel, by decide +kernel⟩

theorem retargetFits_main : RetargetFits mainPowParams (chain 0x1e0fffff 120) := by
  decide +kernel

theorem validChain_regTest : ValidChain regTestPowParams (chain 0x207fffff 60) :=
  ⟨by decide +kernel, by decide +kernel⟩

theorem getNextWorkRequired_regTest :
    getNextWorkRequired regTestPowParams (chain 0x207fffff 60) = some 0x1f0da6c6 := by
  have hvalid := validChain_regTest
  have hwrap : compactOf (wrapWaveTarget regTestPowParams (chain 0x207fffff 60)) =
      0x1f0da6c6 := by
    decide +kernel
  have hnext : exists bnNew, nextTarget regTestPowParams (chain 0x207fffff 60) = some bnNew ∧
      bnNew.value = wrapWaveTarget regTestPowParams (chain 0x207fffff 60) :=
    exists_nextTarget_wave hvalid (by decide) (by decide)
  rcases hnext with ⟨bnNew, hnew, hvalue⟩
  rw [getNextWorkRequired, hnew, Option.map_some, BaseUint.getCompact_eq, hvalue, hwrap]

theorem exactTarget_regTest :
    compactOf (exactTarget regTestPowParams (chain 0x207fffff 60)) = 0x203d5554 := by
  decide +kernel

end RetargetExample

open RetargetExample in
theorem retargetExact_main : RetargetExact mainPowParams (chain 0x1e0fffff 120) :=
  (retargetExact_iff_retargetFits validChain_main).mpr retargetFits_main

open RetargetExample in
/-- On the regression test network the first retarget wraps. -/
theorem retarget_wraps_regTest :
    ValidChain regTestPowParams (chain 0x207fffff 60) ∧
      getNextWorkRequired regTestPowParams (chain 0x207fffff 60) = some 0x1f0da6c6 ∧
      compactOf (exactTarget regTestPowParams (chain 0x207fffff 60)) = 0x203d5554 ∧
      ¬ RetargetExact regTestPowParams (chain 0x207fffff 60) := by
  refine ⟨validChain_regTest, getNextWorkRequired_regTest, exactTarget_regTest, ?_⟩
  intro h
  have hresult := h.result
  rw [getNextWorkRequired_regTest, exactTarget_regTest] at hresult
  exact absurd (Option.some.inj hresult) (by decide)

end Pow
end Hbcur
