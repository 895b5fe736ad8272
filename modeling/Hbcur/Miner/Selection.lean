import Hbcur.Miner.Template

/-!
# Selecting transactions

What one round of the selection does, and from it what holds of the block when the queue is
empty.  A round takes one transaction out of the queue; those which it puts in have stopped
to wait for a parent, so the rounds which are left become fewer each time.
-/

namespace Hbcur

open Foundation Serialize

variable {state : Type}

/-!
# Transactions which are offered
-/

/-- What waits in the queue or for a parent satisfies a property. -/
structure Selection.Offers (P : CTransaction -> Prop) (s : Selection state) : Prop where
  queued : forall p, p ∈ s.vecPriority -> P p.tx
  waiting : forall orphan, orphan ∈ s.vOrphan -> P orphan.ptx

structure Collected.Offers (P : CTransaction -> Prop) (found : Collected) : Prop where
  queued : forall p, p ∈ found.vecPriority -> P p.tx
  waiting : forall orphan, orphan ∈ found.vOrphan -> P orphan.ptx

/-- The same of the priorities with which it waits. -/
structure Selection.Ranks (P : TxPriority -> Prop) (s : Selection state) : Prop where
  queued : forall p, p ∈ s.vecPriority -> P p
  waiting : forall orphan, orphan ∈ s.vOrphan -> P orphan.priority

structure Collected.Ranks (P : TxPriority -> Prop) (found : Collected) : Prop where
  queued : forall p, p ∈ found.vecPriority -> P p
  waiting : forall orphan, orphan ∈ found.vOrphan -> P orphan.priority

theorem Selection.offers_iff_ranks {P : CTransaction -> Prop} {s : Selection state} :
    s.Offers P <-> s.Ranks fun p => P p.tx := by
  constructor
  · intro h
    exact ⟨h.queued, h.waiting⟩
  · intro h
    exact ⟨h.queued, h.waiting⟩

/-!
# Releasing orphans
-/

section Release

variable {P : TxPriority -> Prop} {byFee : Bool} {hash : UInt256}

theorem releaseOrphan_rounds (pq : PriorityQueue TxPriority)
    (found : List TxPriority × List COrphan) (i : Nat) :
    (releaseOrphan pq byFee hash found i).1.length +
        (releaseOrphan pq byFee hash found i).2.countP COrphan.waits ≤
      found.1.length + found.2.countP COrphan.waits := by
  unfold releaseOrphan
  split
  · exact Nat.le_refl _
  · rename_i orphan hget
    split_ifs with hwaits
    · rcases List.getElem?_eq_some_iff.mp hget with ⟨hlt, horphan⟩
      have hpos : 0 < found.2.countP COrphan.waits :=
        List.countP_pos_iff.mpr ⟨orphan, List.mem_of_getElem? hget, hwaits⟩
      simp only [List.countP_set hlt, horphan, hwaits, if_true]
      split_ifs with hstill
      · omega
      · rw [(pq.push_perm _ _ _).length_eq, List.length_cons]
        omega
    · exact Nat.le_refl _

/-- A release changes what an orphan waits for, and not its priority. -/
theorem releaseOrphan_ranks (pq : PriorityQueue TxPriority)
    {found : List TxPriority × List COrphan} (i : Nat)
    (hqueue : forall p, p ∈ found.1 -> P p)
    (hwait : forall orphan, orphan ∈ found.2 -> P orphan.priority) :
    (forall p, p ∈ (releaseOrphan pq byFee hash found i).1 -> P p) ∧
      forall orphan, orphan ∈ (releaseOrphan pq byFee hash found i).2 -> P orphan.priority := by
  unfold releaseOrphan
  split
  · exact ⟨hqueue, hwait⟩
  · rename_i orphan hget
    have horphan : P (orphan.release hash).priority := hwait orphan (List.mem_of_getElem? hget)
    split_ifs with hwaits
    · constructor
      · intro p hmem
        simp only at hmem
        split_ifs at hmem
        · exact hqueue p hmem
        · rcases PriorityQueue.mem_push.mp hmem with rfl | hold
          · exact horphan
          · exact hqueue p hold
      · intro other hmem
        rcases List.mem_or_eq_of_mem_set hmem with hold | rfl
        · exact hwait other hold
        · exact horphan
    · exact ⟨hqueue, hwait⟩

variable (env : MinerEnv) (mapDependers : StdMap UInt256 (List Nat)) (s : Selection state)

theorem releaseAll_rounds (filling : Filling state) :
    (releaseAll env mapDependers s hash filling).rounds ≤ s.rounds := by
  unfold releaseAll Selection.rounds
  simp only
  generalize (mapDependers.lookup hash).getD [] = dependers
  generalize s.vecPriority = queue, s.vOrphan = orphans
  induction dependers generalizing queue orphans with
  | nil => exact Nat.le_refl _
  | cons i rest ih =>
      rw [List.foldl_cons]
      exact (ih _ _).trans (releaseOrphan_rounds env.pq (queue, orphans) i)

variable {s}

theorem releaseAll_ranks (h : s.Ranks P) (filling : Filling state) :
    (releaseAll env mapDependers s hash filling).Ranks P := by
  suffices hfold : forall (dependers : List Nat) (found : List TxPriority × List COrphan),
      (forall p, p ∈ found.1 -> P p) ->
      (forall orphan, orphan ∈ found.2 -> P orphan.priority) ->
      (forall p, p ∈ (dependers.foldl (releaseOrphan env.pq s.fSortedByFee hash) found).1 ->
          P p) ∧
        forall orphan, orphan ∈
            (dependers.foldl (releaseOrphan env.pq s.fSortedByFee hash) found).2 ->
          P orphan.priority by
    rcases hfold ((mapDependers.lookup hash).getD []) (s.vecPriority, s.vOrphan) h.queued
      h.waiting with ⟨hqueue, hwait⟩
    exact ⟨hqueue, hwait⟩
  intro dependers
  induction dependers with
  | nil =>
      intro found hqueue hwait
      exact ⟨hqueue, hwait⟩
  | cons i rest ih =>
      intro found hqueue hwait
      rcases releaseOrphan_ranks env.pq i hqueue hwait with ⟨hqueue', hwait'⟩
      exact ih _ hqueue' hwait'

end Release

/-!
# One round
-/

section Round

variable [CoinsState state] {env : MinerEnv} {pool : CTxMemPool} {nHeight : Int}
  {mapDependers : StdMap UInt256 (List Nat)} {s s' : Selection state}

/-- What is known of a transaction which is put into the block. -/
structure Taken (env : MinerEnv) (nHeight : Int) (before : Filling state)
    (tx : CTransaction) (after : Filling state) : Prop where
  fits : before.nBlockSize + tx.getSerializeSize < env.nBlockMaxSize
  inputs : haveInputs before.view tx = true
  checked : checkInputs env.checkNode {} before.view tx true
    { p2sh := true, dersig := false } = Except.ok ()
  coins : exists undo, updateCoins before.view tx nHeight = some (undo, after.view)
  nBlockSize : after.nBlockSize = before.nBlockSize + tx.getSerializeSize
  nBlockSigOps : after.nBlockSigOps =
    before.nBlockSigOps + (getLegacySigOpCount tx + getP2SHSigOpCount before.view tx)
  sigOps_lt : after.nBlockSigOps < MAX_BLOCK_SIGOPS
  nFees : exists nValueIn nValueOut, getValueIn before.view tx = some nValueIn ∧
    tx.getValueOut = some nValueOut ∧
    after.nFees = wrapInt64 (before.nFees + wrapInt64 (nValueIn - nValueOut))
  vtx : after.vtx = before.vtx ++ [tx]

/-- A round leaves the block alone, or puts the transaction into it. -/
structure RoundDone (env : MinerEnv) (nHeight : Int) (tx : CTransaction)
    (s s' : Selection state) : Prop where
  filling : s'.toFilling = s.toFilling ∨ Taken env nHeight s.toFilling tx s'.toFilling
  rounds : s'.rounds ≤ s.rounds
  offers : forall P, s.Offers P -> s'.Offers P

/-- A transaction is left out, or put into the block with what waits for it released. -/
theorem tryTx_cases {tx : CTransaction}
    (hfits : s.nBlockSize + tx.getSerializeSize < env.nBlockMaxSize)
    (h : tryTx env nHeight mapDependers s tx = some s') :
    s' = s ∨ exists filling, Taken env nHeight s.toFilling tx filling ∧
      s' = releaseAll env mapDependers s tx.hash filling := by
  unfold tryTx at h
  split_ifs at h with hinputs
  · cases h
    exact Or.inl rfl
  · split at h
    · rename_i nValueIn nValueOut hin hout
      simp only at h
      split_ifs at h with hsigops
      · cases h
        exact Or.inl rfl
      · split at h
        · cases h
        · cases h
          exact Or.inl rfl
        · rename_i hchecked
          rcases Option.map_eq_some_iff.mp h with ⟨⟨undo, view⟩, hupdate, rfl⟩
          refine Or.inr ⟨_, ?_, rfl⟩
          constructor
          · exact hfits
          · simpa using hinputs
          · exact hchecked
          · exact ⟨undo, hupdate⟩
          · rfl
          · rfl
          · exact Nat.lt_of_not_le hsigops
          · exact ⟨nValueIn, nValueOut, hin, hout, rfl⟩
          · rfl
    · cases h

omit [CoinsState state] in
theorem orderByFee_spec (s : Selection state) (p : TxPriority) :
    (orderByFee env s p).toFilling = s.toFilling ∧ (orderByFee env s p).rounds = s.rounds ∧
      forall P, s.Ranks P -> (orderByFee env s p).Ranks P := by
  unfold orderByFee
  split_ifs
  · refine ⟨rfl, ?_, ?_⟩
    · unfold Selection.rounds
      simp only
      rw [(env.pq.make_perm _ _).length_eq]
    · intro P hranks
      exact ⟨fun other hmem => hranks.queued other (PriorityQueue.mem_make.mp hmem),
        hranks.waiting⟩
  · exact ⟨rfl, rfl, fun P hranks => hranks⟩

/-- The transaction may also be left out after the queue has been ordered anew. -/
theorem considerTx_cases {p : TxPriority}
    (h : considerTx env pool nHeight mapDependers s p = some s') :
    s' = s ∨ s' = orderByFee env s p ∨
      exists filling, Taken env nHeight s.toFilling p.tx filling ∧
        s' = releaseAll env mapDependers (orderByFee env s p) p.tx.hash filling := by
  unfold considerTx at h
  simp only at h
  split_ifs at h with hsize hsigops hfree
  · cases h
    exact Or.inl rfl
  · cases h
    exact Or.inl rfl
  · cases h
    exact Or.inl rfl
  · have hfilling := (@orderByFee_spec _ env s p).1
    have hcases := tryTx_cases (by rw [hfilling]; exact Nat.lt_of_not_le hsize) h
    rw [hfilling] at hcases
    exact Or.inr hcases

theorem considerTx_ranks {P : TxPriority -> Prop} {p : TxPriority}
    (h : considerTx env pool nHeight mapDependers s p = some s') (hranks : s.Ranks P) :
    s'.Ranks P := by
  have hordered := (@orderByFee_spec _ env s p).2.2 P hranks
  rcases considerTx_cases h with rfl | rfl | ⟨filling, -, rfl⟩
  · exact hranks
  · exact hordered
  · exact releaseAll_ranks env mapDependers hordered filling

theorem roundDone_considerTx {p : TxPriority}
    (h : considerTx env pool nHeight mapDependers s p = some s') :
    RoundDone env nHeight p.tx s s' := by
  have hoffers : forall P, s.Offers P -> s'.Offers P := by
    intro P hoffers
    rw [Selection.offers_iff_ranks] at hoffers ⊢
    exact considerTx_ranks h hoffers
  rcases @orderByFee_spec _ env s p with ⟨hfilling, hrounds, -⟩
  rcases considerTx_cases h with rfl | rfl | ⟨filling, htaken, rfl⟩
  · exact ⟨Or.inl rfl, Nat.le_refl _, hoffers⟩
  · exact ⟨Or.inl hfilling, Nat.le_of_eq hrounds, hoffers⟩
  · refine ⟨Or.inr htaken, ?_, hoffers⟩
    exact (releaseAll_rounds env mapDependers _ filling).trans (Nat.le_of_eq hrounds)

/-!
# All rounds
-/

theorem selectRounds_invariant {I : Filling state -> Prop} {P : CTransaction -> Prop}
    (hstep : forall before tx after, P tx -> I before -> Taken env nHeight before tx after ->
      I after) :
    forall (rounds : Nat) {s s' : Selection state}, I s.toFilling -> s.Offers P ->
      selectRounds env pool nHeight mapDependers rounds s = some s' -> I s'.toFilling := by
  intro rounds
  induction rounds with
  | zero =>
      intro s s' hinv _ h
      cases h
      exact hinv
  | succ rounds ih =>
      intro s s' hinv hoffers h
      rw [selectRounds] at h
      split at h
      · cases h
        exact hinv
      · rename_i p rest hpop
        rcases Option.bind_eq_some_iff.mp h with ⟨s1, hone, hrest⟩
        have hperm := env.pq.perm_of_pop hpop
        have hdone := roundDone_considerTx hone
        refine ih ?_ (hdone.offers P ?_) hrest
        · rcases hdone.filling with heq | htaken
          · rw [heq]
            exact hinv
          · exact hstep _ _ _ (hoffers.queued p (hperm.mem_iff.mp List.mem_cons_self)) hinv
              htaken
        · refine ⟨fun other hmem => ?_, hoffers.waiting⟩
          exact hoffers.queued other (hperm.mem_iff.mp (List.mem_cons_of_mem p hmem))

/-- What holds of all the priorities at first holds of them in every round. -/
theorem selectRounds_ranks {P : TxPriority -> Prop} :
    forall (rounds : Nat) {s s' : Selection state}, s.Ranks P ->
      selectRounds env pool nHeight mapDependers rounds s = some s' -> s'.Ranks P := by
  intro rounds
  induction rounds with
  | zero =>
      intro s s' hranks h
      cases h
      exact hranks
  | succ rounds ih =>
      intro s s' hranks h
      rw [selectRounds] at h
      split at h
      · cases h
        exact hranks
      · rename_i p rest hpop
        rcases Option.bind_eq_some_iff.mp h with ⟨s1, hone, hrest⟩
        have hperm := env.pq.perm_of_pop hpop
        refine ih (considerTx_ranks hone ⟨fun other hmem => ?_, hranks.waiting⟩) hrest
        exact hranks.queued other (hperm.mem_iff.mp (List.mem_cons_of_mem p hmem))

/-- The rounds which are counted are enough to empty the queue. -/
theorem selectRounds_empty :
    forall (rounds : Nat) {s s' : Selection state}, s.rounds ≤ rounds ->
      selectRounds env pool nHeight mapDependers rounds s = some s' ->
      s'.vecPriority = [] := by
  intro rounds
  induction rounds with
  | zero =>
      intro s s' hrounds h
      cases h
      unfold Selection.rounds at hrounds
      exact List.length_eq_zero_iff.mp (by omega)
  | succ rounds ih =>
      intro s s' hrounds h
      rw [selectRounds] at h
      split at h
      · rename_i hpop
        cases h
        exact env.pq.eq_nil_of_pop hpop
      · rename_i p rest hpop
        rcases Option.bind_eq_some_iff.mp h with ⟨s1, hone, hrest⟩
        have hlength := (env.pq.perm_of_pop hpop).length_eq
        have hle := (roundDone_considerTx hone).rounds
        refine ih ?_ hrest
        unfold Selection.rounds at hle hrounds ⊢
        simp only [List.length_cons] at hlength hle hrounds
        omega

end Round

/-!
# What is offered first
-/

section Collect

variable [CoinsState state] {env : MinerEnv} {v : state} {pool : CTxMemPool} {nHeight : Int}

/-- The fee of a transaction of the pool, with what it has been prioritised by. -/
def modifiedFee (v : state) (pool : CTxMemPool) (nHeight : Int) (tx : CTransaction) : Int :=
  match tx.vin.foldlM (scanInput v pool nHeight) {}, tx.getValueOut with
  | some scan, some nValueOut => (pool.applyDeltas tx.hash (0, scan.nTotalIn)).2 - nValueOut
  | _, _ => 0

/-- A transaction of the pool which may be put into a block. -/
structure Selectable (env : MinerEnv) (pool : CTxMemPool) (nHeight : Int)
    (tx : CTransaction) : Prop where
  inPool : exists hash entry, pool.mapTx.lookup hash = some entry ∧ entry.tx = tx
  notCoinBase : tx.isCoinBase = false
  notCoinStake : tx.isCoinStake = false
  isFinal : isFinalTx env.node tx nHeight 0 = true

/-- What a transaction of the pool is offered with. -/
structure Offered (env : MinerEnv) (v : state) (pool : CTxMemPool) (nHeight : Int)
    (tx : CTransaction) (p : TxPriority) : Prop where
  tx_eq : p.tx = tx
  notCoinBase : tx.isCoinBase = false
  notCoinStake : tx.isCoinStake = false
  isFinal : isFinalTx env.node tx nHeight 0 = true
  feeRate : p.feeRate = satoshisPerK (modifiedFee v pool nHeight tx) tx.getSerializeSize

theorem modifiedFee_eq {tx : CTransaction} {scan : PriorityScan} {nValueOut : Int}
    (hscan : tx.vin.foldlM (scanInput v pool nHeight) {} = some scan)
    (hout : tx.getValueOut = some nValueOut) (dPriority : Rat) :
    (pool.applyDeltas tx.hash (dPriority, scan.nTotalIn)).2 - nValueOut =
      modifiedFee v pool nHeight tx := by
  unfold modifiedFee
  rw [hscan, hout]
  unfold CTxMemPool.applyDeltas
  cases pool.mapDeltas.lookup tx.hash <;> rfl

theorem collectTx_ranks {P : TxPriority -> Prop} {found found' : Collected} {tx : CTransaction}
    (hnew : forall p, Offered env v pool nHeight tx p -> P p) (hranks : found.Ranks P)
    (h : collectTx env v pool nHeight found tx = some found') : found'.Ranks P := by
  unfold collectTx at h
  split_ifs at h with hskip
  · cases h
    exact hranks
  · simp only [Bool.or_eq_true, Bool.not_eq_true', not_or, Bool.not_eq_true,
      Bool.not_eq_false] at hskip
    split at h
    · cases h
      exact hranks
    · rename_i scan hscan
      rcases Option.map_eq_some_iff.mp h with ⟨nValueOut, hout, rfl⟩
      have hfee := modifiedFee_eq hscan hout
        (tx.computePriority scan.dPriority tx.getSerializeSize)
      simp only
      split_ifs
      · refine ⟨?_, hranks.waiting⟩
        intro p hmem
        rcases List.mem_append.mp hmem with hold | hlast
        · exact hranks.queued p hold
        · rw [List.mem_singleton.mp hlast]
          exact hnew _ ⟨rfl, hskip.1.1, hskip.1.2, hskip.2, by rw [hfee]⟩
      · refine ⟨hranks.queued, ?_⟩
        intro orphan hmem
        rcases List.mem_append.mp hmem with hold | hlast
        · exact hranks.waiting orphan hold
        · rw [List.mem_singleton.mp hlast]
          exact hnew _ ⟨rfl, hskip.1.1, hskip.1.2, hskip.2, by rw [← hfee]; rfl⟩

theorem collect_ranks {P : TxPriority -> Prop} {found : Collected}
    (hnew : forall tx p, (exists hash entry, pool.mapTx.lookup hash = some entry ∧ entry.tx = tx) ->
      Offered env v pool nHeight tx p -> P p)
    (h : collect env v pool nHeight = some found) : found.Ranks P := by
  suffices hfold : forall (txs : List CTransaction) (found found' : Collected),
      (forall tx, tx ∈ txs ->
        exists hash entry, pool.mapTx.lookup hash = some entry ∧ entry.tx = tx) ->
      found.Ranks P -> txs.foldlM (collectTx env v pool nHeight) found = some found' ->
      found'.Ranks P by
    refine hfold _ {} found ?_ ⟨(fun _ hmem => nomatch hmem), fun _ hmem => nomatch hmem⟩ h
    intro tx hmem
    rcases List.mem_map.mp hmem with ⟨entry, hentry, rfl⟩
    exact ⟨entry.1, entry.2, AList.mem_lookup_iff.mpr hentry, rfl⟩
  intro txs
  induction txs with
  | nil =>
      intro found found' _ hranks h
      cases h
      exact hranks
  | cons tx rest ih =>
      intro found found' hpool hranks h
      rw [List.foldlM_cons] at h
      rcases Option.bind_eq_some_iff.mp h with ⟨found1, hone, hrest⟩
      have hfirst := hpool tx List.mem_cons_self
      exact ih found1 found' (fun t ht => hpool t (List.mem_cons_of_mem tx ht))
        (collectTx_ranks (fun p => hnew tx p hfirst) hranks hone) hrest

theorem collect_offers {found : Collected} (h : collect env v pool nHeight = some found) :
    found.Offers (Selectable env pool nHeight) := by
  have hranks : found.Ranks fun p => Selectable env pool nHeight p.tx := by
    refine collect_ranks ?_ h
    intro tx p hpool hoffered
    rw [hoffered.tx_eq]
    exact ⟨hpool, hoffered.notCoinBase, hoffered.notCoinStake, hoffered.isFinal⟩
  exact ⟨hranks.queued, hranks.waiting⟩

/-- An invariant of the block being filled, which every transaction taken keeps. -/
theorem fillBlock_invariant {I : Filling state -> Prop} (hstart : I { view := v })
    (hstep : forall before tx after, Selectable env pool nHeight tx -> I before ->
      Taken env nHeight before tx after -> I after)
    {filling : Filling state} (h : fillBlock env v pool nHeight = some filling) :
    I filling := by
  unfold fillBlock at h
  rcases Option.bind_eq_some_iff.mp h with ⟨found, hcollect, hmap⟩
  rcases Option.map_eq_some_iff.mp hmap with ⟨s, hrounds, rfl⟩
  have hoffers := collect_offers hcollect
  refine selectRounds_invariant hstep _ hstart ⟨?_, hoffers.waiting⟩ hrounds
  intro p hmem
  exact hoffers.queued p (PriorityQueue.mem_make.mp hmem)

end Collect

end Hbcur
