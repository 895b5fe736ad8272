import Hbcur.Miner.ContextFree

/-!
# Fee rates

The rates of `CFeeRate` against the quotients of the integers, and the order of the fees in the
queue of `CreateNewBlock`, for fees which may have been prioritised below zero.
-/

namespace Hbcur

open Foundation Serialize

/-!
# One rate
-/

/-- A fee whose thousandfold fits into 64 bits. -/
def IsFee (nFeePaid : Int) : Prop := nFeePaid.natAbs * 1000 < 2 ^ 63

instance (nFeePaid : Int) : Decidable (IsFee nFeePaid) :=
  inferInstanceAs (Decidable (_ < _))

/-- The quotient of the integers, which is zero for the size zero. -/
def exactRate (nFeePaid : Int) (nSize : Nat) : Int := (nFeePaid * 1000).tdiv nSize

/-- The sign is not lost: there is none, it comes back, or nothing is left. -/
def KeepsSign (nSize : Nat) (nFeePaid : Int) : Prop :=
  0 ≤ nFeePaid ∨ nSize ≤ 1 ∨ 2 ^ 64 + nFeePaid * 1000 < nSize

instance (nSize : Nat) (nFeePaid : Int) : Decidable (KeepsSign nSize nFeePaid) :=
  inferInstanceAs (Decidable (_ ∨ _ ∨ _))

theorem exactRate_of_nonneg {nFeePaid : Int} (h : 0 ≤ nFeePaid) (nSize : Nat) :
    exactRate nFeePaid nSize = nFeePaid * 1000 / nSize :=
  Int.tdiv_eq_ediv_of_nonneg (Int.mul_nonneg h (by decide))

theorem exactRate_nonpos {nFeePaid : Int} (h : nFeePaid ≤ 0) (nSize : Nat) :
    exactRate nFeePaid nSize ≤ 0 := by
  have hnonneg : 0 ≤ (-(nFeePaid * 1000)).tdiv nSize :=
    Int.tdiv_nonneg (by omega) (Int.natCast_nonneg nSize)
  rw [Int.neg_tdiv] at hnonneg
  unfold exactRate
  omega

theorem exactRate_mono {nFeePaid nFeePaid' : Int} (h : nFeePaid ≤ nFeePaid') (nSize : Nat) :
    exactRate nFeePaid nSize ≤ exactRate nFeePaid' nSize := by
  cases nSize with
  | zero =>
      unfold exactRate
      rw [Int.natCast_zero, Int.tdiv_zero, Int.tdiv_zero]
  | succ n => exact Int.tdiv_le_tdiv (Int.natCast_pos.mpr (Nat.succ_pos n)) (by omega)

theorem satoshisPerK_of_nonneg {nFeePaid : Int} (hfee : IsFee nFeePaid) (h : 0 ≤ nFeePaid)
    (nSize : Nat) : satoshisPerK nFeePaid nSize = exactRate nFeePaid nSize := by
  unfold IsFee at hfee
  rw [exactRate_of_nonneg h]
  unfold satoshisPerK
  split_ifs with hsize
  · have hnonneg : 0 ≤ nFeePaid * 1000 / nSize := Int.ediv_nonneg (by omega) (by omega)
    have hle : nFeePaid * 1000 / nSize ≤ nFeePaid * 1000 := Int.ediv_le_self _ (by omega)
    rw [wrapUInt64_of_range _ (by omega) (by omega), wrapInt64_of_range _ (by omega) (by omega)]
  · have hzero : nSize = 0 := Nat.eq_zero_of_not_pos hsize
    rw [hzero, Int.natCast_zero, Int.ediv_zero]

/-- A negative fee counts from the top of the numbers without signs. -/
theorem satoshisPerK_of_neg {nFeePaid : Int} (hfee : IsFee nFeePaid) (h : nFeePaid < 0)
    {nSize : Nat} (hsize : 2 ≤ nSize) :
    satoshisPerK nFeePaid nSize = (2 ^ 64 + nFeePaid * 1000) / nSize := by
  unfold IsFee at hfee
  have hwrap : wrapUInt64 (nFeePaid * 1000) = 2 ^ 64 + nFeePaid * 1000 := by
    unfold wrapUInt64
    rw [← Int.add_emod_right, Int.emod_eq_of_lt (by omega) (by omega)]
    omega
  have hnonneg : 0 ≤ (2 ^ 64 + nFeePaid * 1000) / (nSize : Int) :=
    Int.ediv_nonneg (by omega) (by omega)
  have hlt : (2 ^ 64 + nFeePaid * 1000) / (nSize : Int) < 9223372036854775808 := by
    apply Int.ediv_lt_of_lt_mul (by omega)
    omega
  unfold satoshisPerK
  rw [if_pos (by omega), hwrap, wrapInt64_of_range _ (by omega) hlt]

/-- Divided by one, it comes back. -/
theorem satoshisPerK_of_le_one {nFeePaid : Int} (hfee : IsFee nFeePaid) {nSize : Nat}
    (hsize : nSize ≤ 1) : satoshisPerK nFeePaid nSize = exactRate nFeePaid nSize := by
  unfold IsFee at hfee
  unfold satoshisPerK exactRate
  rcases Nat.le_one_iff_eq_zero_or_eq_one.mp hsize with rfl | rfl
  · rw [if_neg (Nat.lt_irrefl 0), Int.natCast_zero, Int.tdiv_zero]
  · rw [if_pos Nat.one_pos, Int.natCast_one, Int.ediv_one, Int.tdiv_one]
    exact (Int.emod_bmod (nFeePaid * 1000) 18446744073709551616).trans
      (wrapInt64_of_range _ (by omega) (by omega))

/-- The code gives at least zero and the integers at most zero. -/
theorem satoshisPerK_eq_iff_of_neg {nFeePaid : Int} (hfee : IsFee nFeePaid) (h : nFeePaid < 0)
    {nSize : Nat} (hsize : 2 ≤ nSize) :
    satoshisPerK nFeePaid nSize = exactRate nFeePaid nSize <->
      2 ^ 64 + nFeePaid * 1000 < nSize := by
  rw [satoshisPerK_of_neg hfee h hsize]
  unfold IsFee at hfee
  have hnonneg : 0 ≤ (2 ^ 64 + nFeePaid * 1000) / (nSize : Int) :=
    Int.ediv_nonneg (by omega) (by omega)
  have hnonpos := exactRate_nonpos (Int.le_of_lt h) nSize
  constructor
  · intro heq
    have hzero : (2 ^ 64 + nFeePaid * 1000) / (nSize : Int) = 0 := by omega
    have hbounds := (Int.ediv_eq_iff_of_pos (by omega)).mp hzero
    omega
  · intro hlt
    rw [Int.ediv_eq_zero_of_lt (by omega) hlt]
    unfold exactRate
    rw [← Int.neg_neg (nFeePaid * 1000), Int.neg_tdiv,
      Int.tdiv_eq_zero_of_lt (by omega) (by omega)]
    rfl

theorem satoshisPerK_eq_iff {nFeePaid : Int} (hfee : IsFee nFeePaid) (nSize : Nat) :
    satoshisPerK nFeePaid nSize = exactRate nFeePaid nSize <-> KeepsSign nSize nFeePaid := by
  unfold KeepsSign
  rcases lt_or_ge nFeePaid 0 with hneg | hnonneg
  · rcases Nat.lt_or_ge 1 nSize with hlarge | hsmall
    · rw [satoshisPerK_eq_iff_of_neg hfee hneg hlarge]
      omega
    · exact iff_of_true (satoshisPerK_of_le_one hfee hsmall) (Or.inr (Or.inl hsmall))
  · exact iff_of_true (satoshisPerK_of_nonneg hfee hnonneg nSize) (Or.inl hnonneg)

/-- The rates of some fees for one size. -/
structure RatesHold (nSize : Nat) (fees : Set Int) : Prop where
  exact_eq : forall nFeePaid, nFeePaid ∈ fees ->
    satoshisPerK nFeePaid nSize = exactRate nFeePaid nSize
  mono : forall nFeePaid nFeePaid', nFeePaid ∈ fees -> nFeePaid' ∈ fees ->
    nFeePaid ≤ nFeePaid' -> satoshisPerK nFeePaid nSize ≤ satoshisPerK nFeePaid' nSize

theorem ratesHold_iff {nSize : Nat} {fees : Set Int}
    (hfees : forall nFeePaid, nFeePaid ∈ fees -> IsFee nFeePaid) :
    RatesHold nSize fees <-> forall nFeePaid, nFeePaid ∈ fees -> KeepsSign nSize nFeePaid := by
  constructor
  · intro hhold nFeePaid hmem
    exact (satoshisPerK_eq_iff (hfees nFeePaid hmem) nSize).mp (hhold.exact_eq nFeePaid hmem)
  · intro hkeeps
    have hexact : forall nFeePaid, nFeePaid ∈ fees ->
        satoshisPerK nFeePaid nSize = exactRate nFeePaid nSize := by
      intro nFeePaid hmem
      exact (satoshisPerK_eq_iff (hfees nFeePaid hmem) nSize).mpr (hkeeps nFeePaid hmem)
    refine ⟨hexact, ?_⟩
    intro nFeePaid nFeePaid' hmem hmem' hle
    rw [hexact nFeePaid hmem, hexact nFeePaid' hmem']
    exact exactRate_mono hle nSize

/-!
# The queue
-/

section Queue

variable {state : Type} [CoinsState state] {env : MinerEnv} {v : state} {pool : CTxMemPool}
  {nHeight : Int}

/-- All that waits in the queue or for a parent. -/
def Collected.offered (found : Collected) : List TxPriority :=
  found.vecPriority ++ found.vOrphan.map COrphan.priority

theorem Collected.ranks_iff {P : TxPriority -> Prop} {found : Collected} :
    found.Ranks P <-> forall p, p ∈ found.offered -> P p := by
  unfold Collected.offered
  constructor
  · intro h p hmem
    rcases List.mem_append.mp hmem with hqueued | hwaiting
    · exact h.queued p hqueued
    · rcases List.mem_map.mp hwaiting with ⟨orphan, horphan, rfl⟩
      exact h.waiting orphan horphan
  · intro h
    constructor
    · intro p hmem
      exact h p (List.mem_append_left _ hmem)
    · intro orphan hmem
      exact h _ (List.mem_append_right _ (List.mem_map_of_mem hmem))

/-- A smaller fee comes above a larger one of the same size only by its priority, where the rates
are the same. -/
def FeesInOrder (fee : CTransaction -> Int) (queue : List TxPriority) : Prop :=
  forall p q, p ∈ queue -> q ∈ queue -> p.tx.getSerializeSize = q.tx.getSerializeSize ->
    fee p.tx < fee q.tx -> TxPriority.less true q p = true ->
    p.feeRate = q.feeRate ∧ q.dPriority < p.dPriority

theorem less_byFee {p q : TxPriority} (h : TxPriority.less true q p = true)
    (hle : p.feeRate ≤ q.feeRate) : p.feeRate = q.feeRate ∧ q.dPriority < p.dPriority := by
  unfold TxPriority.less at h
  rw [if_pos rfl] at h
  split_ifs at h with heq
  · exact ⟨heq.symm, of_decide_eq_true h⟩
  · exact absurd (of_decide_eq_true h) (Int.not_lt.mpr hle)

theorem feesInOrder_of_exact {fee : CTransaction -> Int} {queue : List TxPriority}
    (h : forall p, p ∈ queue -> p.feeRate = exactRate (fee p.tx) p.tx.getSerializeSize) :
    FeesInOrder fee queue := by
  intro p q hp hq hsize hfee hless
  apply less_byFee hless
  rw [h p hp, h q hq, hsize]
  exact exactRate_mono (Int.le_of_lt hfee) _

/-- The state of the selection after some rounds. -/
def SelectedIn (env : MinerEnv) (v : state) (pool : CTxMemPool) (nHeight : Int)
    (found : Collected) (rounds : Nat) (s : Selection state) : Prop :=
  selectRounds env pool nHeight found.mapDependers rounds (found.selection env v) = some s

theorem ranks_of_selectedIn {P : TxPriority -> Prop} {found : Collected} {rounds : Nat}
    {s : Selection state} (hranks : found.Ranks P)
    (h : SelectedIn env v pool nHeight found rounds s) : s.Ranks P := by
  refine selectRounds_ranks rounds ⟨?_, hranks.waiting⟩ h
  intro p hmem
  exact hranks.queued p (PriorityQueue.mem_make.mp hmem)

/--
The rates are the quotients, do not fall as the fee grows, and keep the queue of `CreateNewBlock`
in order in every round, if and only if no fee loses its sign in the division.
-/
theorem feeRates_exact_iff {found : Collected}
    (hcollect : collect env v pool nHeight = some found)
    (hfees : forall p, p ∈ found.offered -> IsFee (modifiedFee v pool nHeight p.tx)) :
    (forall (nSize : Nat) (fees : Set Int), (forall nFeePaid, nFeePaid ∈ fees -> IsFee nFeePaid) ->
      (RatesHold nSize fees <-> forall nFeePaid, nFeePaid ∈ fees -> KeepsSign nSize nFeePaid)) ∧
    ((forall p, p ∈ found.offered ->
          p.feeRate = exactRate (modifiedFee v pool nHeight p.tx) p.tx.getSerializeSize) ∧
        (forall rounds s, SelectedIn env v pool nHeight found rounds s ->
          FeesInOrder (modifiedFee v pool nHeight) s.vecPriority) <->
      forall p, p ∈ found.offered ->
        KeepsSign p.tx.getSerializeSize (modifiedFee v pool nHeight p.tx)) := by
  have hrate : forall p, p ∈ found.offered ->
      p.feeRate = satoshisPerK (modifiedFee v pool nHeight p.tx) p.tx.getSerializeSize := by
    refine Collected.ranks_iff.mp (collect_ranks ?_ hcollect)
    intro tx p _ hoffered
    rw [hoffered.tx_eq]
    exact hoffered.feeRate
  have hkeeps : forall p, p ∈ found.offered ->
      (p.feeRate = exactRate (modifiedFee v pool nHeight p.tx) p.tx.getSerializeSize <->
        KeepsSign p.tx.getSerializeSize (modifiedFee v pool nHeight p.tx)) := by
    intro p hmem
    rw [hrate p hmem]
    exact satoshisPerK_eq_iff (hfees p hmem) _
  constructor
  · intro nSize fees h
    exact ratesHold_iff h
  · constructor
    · intro h p hmem
      exact (hkeeps p hmem).mp (h.1 p hmem)
    · intro h
      have hexact : forall p, p ∈ found.offered ->
          p.feeRate = exactRate (modifiedFee v pool nHeight p.tx) p.tx.getSerializeSize := by
        intro p hmem
        exact (hkeeps p hmem).mpr (h p hmem)
      refine ⟨hexact, ?_⟩
      intro rounds s hselected
      exact feesInOrder_of_exact
        (ranks_of_selectedIn (Collected.ranks_iff.mpr hexact) hselected).queued

end Queue

namespace FeeRateExample

open MinerExample SupplyExample

/-- The transaction of the pool pays one coin, before it is prioritised. -/
def prioritised (nFeeDelta : Int) : CTxMemPool :=
  { pool with mapDeltas := pool.mapDeltas.insert spender.hash (0, nFeeDelta) }

def offeredWith (nFeeDelta : Int) : Collected :=
  (collect env view (prioritised nFeeDelta) 2).getD {}

theorem collect_eq {nFeeDelta : Int}
    (h : (collect env view (prioritised nFeeDelta) 2).isSome = true) :
    collect env view (prioritised nFeeDelta) 2 = some (offeredWith nFeeDelta) := by
  unfold offeredWith
  rcases Option.isSome_iff_exists.mp h with ⟨found, hfound⟩
  rw [hfound]
  rfl

/-- Its rate, next to the one of a transaction of the same size which pays a tenth of a coin. -/
def paying (nFeePaid : Int) : TxPriority :=
  { dPriority := 0, feeRate := satoshisPerK nFeePaid spender.getSerializeSize, tx := spender }

end FeeRateExample

open MinerExample SupplyExample FeeRateExample

/-- A transaction which has lost its fee and one unit more comes above one which pays. -/
theorem prioritised_below_zero :
    collect env view (prioritised (-COIN - 1)) 2 = some (offeredWith (-COIN - 1)) ∧
    modifiedFee view (prioritised (-COIN - 1)) 2 spender = -1 ∧
    (offeredWith (-COIN - 1)).vecPriority.map TxPriority.feeRate = [302405640552615583] ∧
    exactRate (-1) spender.getSerializeSize = -16 ∧
    (paying 10000000).feeRate = 163934426 ∧ (paying (-1)).feeRate = 302405640552615583 ∧
    TxPriority.less true (paying 10000000) (paying (-1)) = true :=
  ⟨collect_eq (by decide +kernel), by decide +kernel⟩

theorem feeRates_exact_iff_raised :
    collect env view (prioritised 5) 2 = some (offeredWith 5) ∧
    (forall p, p ∈ (offeredWith 5).offered -> IsFee (modifiedFee view (prioritised 5) 2 p.tx)) ∧
    RatesHold 250 {0, 1000} ∧
    forall rounds s, SelectedIn env view (prioritised 5) 2 (offeredWith 5) rounds s ->
      FeesInOrder (modifiedFee view (prioritised 5) 2) s.vecPriority := by
  have hcollect := @collect_eq 5 (by decide +kernel)
  have hfees : forall p, p ∈ (offeredWith 5).offered ->
      IsFee (modifiedFee view (prioritised 5) 2 p.tx) := by decide +kernel
  have hrates := feeRates_exact_iff hcollect hfees
  refine ⟨hcollect, hfees, ?_, (hrates.2.mpr (by decide +kernel)).2⟩
  apply (hrates.1 250 {0, 1000} ?_).mpr
  · rintro nFeePaid (rfl | rfl)
    · exact Or.inl (by decide)
    · exact Or.inl (by decide)
  · rintro nFeePaid (rfl | rfl)
    · decide
    · decide

theorem selectRounds_empty_raised : (offeredWith 5).vecPriority ≠ [] ∧
    exists s, SelectedIn env view (prioritised 5) 2 (offeredWith 5) 1 s ∧ s.vecPriority = [] := by
  have hsome : (selectRounds env (prioritised 5) 2 (offeredWith 5).mapDependers 1
      ((offeredWith 5).selection env view)).isSome = true := by decide +kernel
  rcases Option.isSome_iff_exists.mp hsome with ⟨s, hs⟩
  exact ⟨by decide +kernel, s, hs, selectRounds_empty 1 (by decide +kernel) hs⟩

end Hbcur
