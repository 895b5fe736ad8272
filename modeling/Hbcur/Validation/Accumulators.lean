import Hbcur.Validation.Supply
import Hbcur.Validation.Unspent

/-!
# The range of the accumulators

The loop of `ConnectBlock` adds up fees, inputs and outputs in `int64_t`
variables.  The amounts of one transaction are checked against the money range,
their sums over a block are not.
-/

namespace Hbcur

open Foundation Serialize

variable {state : Type} [CoinsState state]

def InInt64 (n : Int) : Prop :=
  -9223372036854775808 ≤ n ∧ n < 9223372036854775808

instance (n : Int) : Decidable (InInt64 n) :=
  inferInstanceAs (Decidable (_ ∧ _))

/-- Every unspent output of a view is within the money range. -/
def ViewInRange (params : CChainParams) (v : state) : Prop :=
  forall out txout, unspentAt v out = some txout -> params.moneyRange txout.nValue = true

/-!
# How far the loop gets

A round first adds the inputs, and adds the outputs only after `CheckInputs`.
-/

namespace ConnectContext

/-- The state with the signature operations of a transaction counted. -/
def counted (s : ConnectState state) (tx : CTransaction) : ConnectState state :=
  { s with nSigOps := s.nSigOps + getLegacySigOpCount tx }

def inputsAdded (ctx : ConnectContext) (s : ConnectState state) (tx : CTransaction) : Bool :=
  !decide (s.nSigOps + getLegacySigOpCount tx > MAX_BLOCK_SIGOPS) &&
    (tx.isCoinBase || (ctx.addInputs (counted s tx) tx).toBool)

def outputsAdded (ctx : ConnectContext) (s : ConnectState state) (tx : CTransaction) : Bool :=
  !decide (s.nSigOps + getLegacySigOpCount tx > MAX_BLOCK_SIGOPS) &&
    (ctx.connectInputs (counted s tx) tx).toBool

/-- The flows of the transactions which pass a test, until a round fails. -/
def reached (ctx : ConnectContext) (added : ConnectState state -> CTransaction -> Bool) :
    ConnectState state -> List CTransaction -> List TxFlow
  | _, [] => []
  | s, tx :: rest =>
      if added s tx then
        { tx := tx, valueIn := spentValue s.view tx } ::
          match ctx.connectTx s tx with
          | Except.error _ => []
          | Except.ok s' => reached ctx added s' rest
      else []

/-- The flows whose inputs are added up before the loop ends. -/
def reachedInputs (ctx : ConnectContext) (v : state) (txs : List CTransaction) :
    List TxFlow :=
  ctx.reached ctx.inputsAdded (ConnectState.initial v) txs

/-- The flows whose outputs are added up before the loop ends. -/
def reachedOutputs (ctx : ConnectContext) (v : state) (txs : List CTransaction) :
    List TxFlow :=
  ctx.reached ctx.outputsAdded (ConnectState.initial v) txs

end ConnectContext

/-!
# The two conditions
-/

/-- No accumulator leaves its range at any time, and the recorded mint is exact. -/
structure AccumulatorsExact (ctx : ConnectContext) (v : state) (nMoneySupplyPrev : Int)
    (txs : List CTransaction) : Prop where
  fees : forall done, done <+: ctx.reachedInputs v txs -> InInt64 (totalFees done)
  valueIn : forall done, done <+: ctx.reachedInputs v txs -> InInt64 (totalIn done)
  valueOut : forall done, done <+: ctx.reachedOutputs v txs -> InInt64 (totalOut done)
  supply : forall s, accumulate ctx.connectTx (ConnectState.initial v) txs = Except.ok s ->
    InInt64 (nMoneySupplyPrev + totalOut (flows v ctx.nHeight txs)) ∧
      InInt64 (nMoneySupplyPrev + netIncrease (flows v ctx.nHeight txs)) ∧
      (recordedSupply nMoneySupplyPrev s.nValueOut s.nValueIn).2 =
        netIncrease (flows v ctx.nHeight txs)

/-- All transactions together spend and pay out less than `2^63`. -/
structure TotalsFit (ctx : ConnectContext) (v : state) (nMoneySupplyPrev : Int)
    (txs : List CTransaction) : Prop where
  valueIn : totalIn (ctx.reachedInputs v txs) < 9223372036854775808
  valueOut : totalOut (ctx.reachedOutputs v txs) < 9223372036854775808
  supply : (accumulate ctx.connectTx (ConnectState.initial v) txs).toBool = true ->
    nMoneySupplyPrev + totalOut (flows v ctx.nHeight txs) < 9223372036854775808 ∧
      -9223372036854775808 ≤ nMoneySupplyPrev + netIncrease (flows v ctx.nHeight txs)

/-!
# One round
-/

section Rounds

variable {ctx : ConnectContext} {s s' : ConnectState state} {tx : CTransaction}

namespace ConnectContext

theorem added_of_connectTx (h : ctx.connectTx s tx = Except.ok s') :
    ctx.inputsAdded s tx = true ∧ ctx.outputsAdded s tx = true := by
  simp only [connectTx, bind_eq_ok_iff, Unique.exists_iff, require_eq_ok_iff] at h
  rcases h with ⟨hsigops, s1, hinputs, _⟩
  have hcounted : ctx.connectInputs (counted s tx) tx = Except.ok s1 := hinputs
  unfold inputsAdded outputsAdded
  rw [hsigops, hcounted, Bool.true_and, Bool.true_and]
  refine ⟨?_, rfl⟩
  cases hcb : tx.isCoinBase with
  | true =>
      rfl
  | false =>
      unfold connectInputs at hcounted
      rw [if_neg (by rw [hcb]; exact Bool.false_ne_true), bind_eq_ok_iff] at hcounted
      rcases hcounted with ⟨s2, hadd, _⟩
      rw [hadd]
      rfl

/-- Once the inputs are added, all of them have been found. -/
theorem haveInputs_of_inputsAdded (h : ctx.inputsAdded s tx = true)
    (hcb : tx.isCoinBase = false) :
    forall txin, txin ∈ tx.vin -> exists out, getOutputFor s.view txin = some out := by
  unfold inputsAdded at h
  rw [hcb, Bool.false_or] at h
  rcases exists_ok_of_toBool (Bool.and_eq_true_iff.mp h).2 with ⟨s1, hadd⟩
  simp only [addInputs, bind_eq_ok_iff, Unique.exists_iff, require_eq_ok_iff] at hadd
  have hhave : haveInputs s.view tx = true := hadd.1
  unfold haveInputs at hhave
  rw [hcb, Bool.false_or, List.all_eq_true] at hhave
  intro txin hmem
  have havailable := hhave txin hmem
  rw [CCoins.isAvailable_eq, Option.isSome_iff_exists] at havailable
  exact havailable

end ConnectContext

theorem fee_le_valueIn (flow : TxFlow) (hin : 0 ≤ flow.valueIn)
    (hout : 0 ≤ flow.tx.valueOut) : flow.fee ≤ flow.valueIn := by
  unfold TxFlow.fee
  split_ifs <;> omega

/-- The amounts of a transaction whose inputs have been added but not checked. -/
theorem flow_of_inputsAdded (hview : ViewInRange ctx.node.params s.view)
    (htx : CheckedTransaction ctx.node.params tx) (h : ctx.inputsAdded s tx = true) :
    0 ≤ spentValue s.view tx ∧
      -ctx.node.params.nMaxMoneyOut ≤
        TxFlow.fee { tx := tx, valueIn := spentValue s.view tx } := by
  have hspent : 0 ≤ spentValue s.view tx := by
    unfold spentValue
    split_ifs with hcb
    · exact Int.le_refl 0
    · apply sum_inputValue_nonneg
      intro txin hmem
      rcases ConnectContext.haveInputs_of_inputsAdded h (Bool.eq_false_iff.mpr hcb) txin hmem
        with ⟨out, hout⟩
      exact ⟨out, hout, (CChainParams.moneyRange_iff.mp (hview _ _ hout)).1⟩
  have htotal := htx.total
  have hmax := ctx.node.params.maxMoneyOut_nonneg
  refine ⟨hspent, ?_⟩
  unfold TxFlow.fee
  split_ifs
  · omega
  · simp only
    omega

variable [LawfulCoinsState state]

theorem viewInRange_updateCoins {params : CChainParams} {v v' : state} {nHeight : Int}
    {undo : CTxUndo} (hview : ViewInRange params v) (htx : CheckedTransaction params tx)
    (h : updateCoins v tx nHeight = some (undo, v')) : ViewInRange params v' := by
  intro out txout hout
  rw [(unspentAt_updateCoins h).1 out] at hout
  split_ifs at hout with hhash hspent
  · exact CChainParams.moneyRange_iff.mpr
      (htx.values txout (mem_vout_of_output?_fromTx hout))
  · exact hview out txout hout

theorem viewInRange_connectTx (hview : ViewInRange ctx.node.params s.view)
    (htx : CheckedTransaction ctx.node.params tx)
    (h : ctx.connectTx s tx = Except.ok s') : ViewInRange ctx.node.params s'.view := by
  rcases ConnectContext.connectTx_coins h with ⟨undo, hupdate⟩
  exact viewInRange_updateCoins hview htx hupdate

end Rounds

/-!
# The whole loop
-/

section Loop

variable {ctx : ConnectContext}

namespace ConnectContext

/-- When the loop completes, it has reached everything. -/
theorem reached_eq_flows {added : ConnectState state -> CTransaction -> Bool}
    (hadded : forall s tx s', ctx.connectTx s tx = Except.ok s' -> added s tx = true) :
    forall (txs : List CTransaction) (s s' : ConnectState state),
      accumulate ctx.connectTx s txs = Except.ok s' ->
      ctx.reached added s txs = flows s.view ctx.nHeight txs := by
  intro txs
  induction txs with
  | nil =>
      intro s s' _
      rfl
  | cons tx rest ih =>
      intro s s' h
      rcases bind_eq_ok_iff.mp h with ⟨s1, hone, hrest⟩
      rw [reached, if_pos (hadded s tx s1 hone), hone, flows]
      rcases connectTx_coins hone with ⟨undo, hupdate⟩
      simp only [hupdate]
      rw [ih s1 s' hrest]

/-- Sums over a part of the transactions reached, whose amounts have a lower bound. -/
theorem sum_prefix_bounds {amount : TxFlow -> Int}
    {added : ConnectState state -> CTransaction -> Bool}
    (inv : ConnectState state -> Prop) {txOk : CTransaction -> Prop}
    (hflow : forall s tx, inv s -> txOk tx -> added s tx = true ->
      0 ≤ amount { tx := tx, valueIn := spentValue s.view tx })
    (hinv : forall s tx s', inv s -> txOk tx -> ctx.connectTx s tx = Except.ok s' -> inv s') :
    forall (txs : List CTransaction) (s : ConnectState state), inv s ->
      (forall tx, tx ∈ txs -> txOk tx) ->
      forall done, done <+: ctx.reached added s txs ->
        0 ≤ (done.map amount).sum ∧
          (done.map amount).sum ≤ ((ctx.reached added s txs).map amount).sum := by
  intro txs
  induction txs with
  | nil =>
      intro s _ _ done hdone
      rw [List.prefix_nil.mp hdone]
      exact ⟨Int.le_refl 0, Int.le_refl 0⟩
  | cons tx rest ih =>
      intro s hs htxs done hdone
      rw [reached] at hdone ⊢
      split_ifs at hdone ⊢ with hadd
      · have hone := hflow s tx hs (htxs tx List.mem_cons_self) hadd
        have htail : forall done', done' <+: (match ctx.connectTx s tx with
            | Except.error _ => []
            | Except.ok s' => reached ctx added s' rest) ->
            0 ≤ (done'.map amount).sum ∧ (done'.map amount).sum ≤
              ((match ctx.connectTx s tx with
                | Except.error _ => []
                | Except.ok s' => reached ctx added s' rest).map amount).sum := by
          intro done' hdone'
          cases hconnect : ctx.connectTx s tx with
          | error err =>
              rw [hconnect] at hdone'
              rw [List.prefix_nil.mp hdone']
              exact ⟨Int.le_refl 0, Int.le_refl 0⟩
          | ok s' =>
              rw [hconnect] at hdone'
              exact ih s' (hinv s tx s' hs (htxs tx List.mem_cons_self) hconnect)
                (fun t ht => htxs t (List.mem_cons_of_mem _ ht)) done' hdone'
        cases done with
        | nil =>
            have hwhole := htail _ (List.nil_prefix)
            simp only [List.map_nil, List.sum_nil, List.map_cons, List.sum_cons] at hwhole ⊢
            omega
        | cons flow done' =>
            rcases List.cons_prefix_cons.mp hdone with ⟨rfl, hdone'⟩
            have hrest := htail done' hdone'
            simp only [List.map_cons, List.sum_cons]
            omega
      · rw [List.prefix_nil.mp hdone]
        exact ⟨Int.le_refl 0, Int.le_refl 0⟩

end ConnectContext

variable [LawfulCoinsState state]

/-- The fees lie between minus one money range and the inputs. -/
theorem totalFees_prefix_bounds :
    forall (txs : List CTransaction) (s : ConnectState state),
      ViewInRange ctx.node.params s.view ->
      (forall tx, tx ∈ txs -> CheckedTransaction ctx.node.params tx) ->
      forall done, done <+: ctx.reached ctx.inputsAdded s txs ->
        -ctx.node.params.nMaxMoneyOut ≤ totalFees done ∧ totalFees done ≤ totalIn done := by
  have hmax := ctx.node.params.maxMoneyOut_nonneg
  intro txs
  induction txs with
  | nil =>
      intro s _ _ done hdone
      rw [List.prefix_nil.mp hdone]
      exact ⟨by simpa [totalFees] using hmax, Int.le_refl 0⟩
  | cons tx rest ih =>
      intro s hview htxs done hdone
      have htx := htxs tx List.mem_cons_self
      rw [ConnectContext.reached] at hdone
      split_ifs at hdone with hadd
      · cases done with
        | nil =>
            exact ⟨by simpa [totalFees] using hmax, Int.le_refl 0⟩
        | cons flow done' =>
            rcases List.cons_prefix_cons.mp hdone with ⟨rfl, hdone'⟩
            have hflow := flow_of_inputsAdded hview htx hadd
            have hle := fee_le_valueIn { tx := tx, valueIn := spentValue s.view tx }
              hflow.1 htx.valueOut_nonneg
            rw [totalFees_cons, totalIn_cons]
            cases hconnect : ctx.connectTx s tx with
            | error err =>
                rw [hconnect] at hdone'
                rw [List.prefix_nil.mp hdone']
                simp only [totalFees, totalIn, List.map_nil, List.sum_nil, Int.add_zero]
                exact ⟨hflow.2, hle⟩
            | ok s' =>
                rw [hconnect] at hdone'
                have hrest := ih s' (viewInRange_connectTx hview htx hconnect)
                  (fun t ht => htxs t (List.mem_cons_of_mem _ ht)) done' hdone'
                -- a transaction which is followed by another one has passed its checks
                have hinputs := ctx.connectTx_checked htx hconnect
                have hfee := (checkedFlow_of_inputs htx hinputs).fee_nonneg
                omega
      · rw [List.prefix_nil.mp hdone]
        exact ⟨by simpa [totalFees] using hmax, Int.le_refl 0⟩

end Loop

/-!
# When the accumulators are exact
-/

section Exact

variable [LawfulCoinsState state] {ctx : ConnectContext} {v : state} {txs : List CTransaction}

theorem totalIn_prefix_bounds (hview : ViewInRange ctx.node.params v)
    (htxs : forall tx, tx ∈ txs -> CheckedTransaction ctx.node.params tx)
    {done : List TxFlow} (hdone : done <+: ctx.reachedInputs v txs) :
    0 ≤ totalIn done ∧ totalIn done ≤ totalIn (ctx.reachedInputs v txs) :=
  ctx.sum_prefix_bounds (fun s => ViewInRange ctx.node.params s.view)
    (fun _ _ hs htx hadd => (flow_of_inputsAdded hs htx hadd).1)
    (fun _ _ _ hs htx h => viewInRange_connectTx hs htx h)
    txs (ConnectState.initial v) hview htxs done hdone

omit [LawfulCoinsState state] in
theorem totalOut_prefix_bounds
    (htxs : forall tx, tx ∈ txs -> CheckedTransaction ctx.node.params tx)
    {done : List TxFlow} (hdone : done <+: ctx.reachedOutputs v txs) :
    0 ≤ totalOut done ∧ totalOut done ≤ totalOut (ctx.reachedOutputs v txs) :=
  ctx.sum_prefix_bounds (fun _ => True)
    (fun _ _ _ htx _ => htx.valueOut_nonneg) (fun _ _ _ _ _ _ => trivial)
    txs (ConnectState.initial v) trivial htxs done hdone

omit [LawfulCoinsState state] in
theorem reachedInputs_eq_flows {s : ConnectState state}
    (h : accumulate ctx.connectTx (ConnectState.initial v) txs = Except.ok s) :
    ctx.reachedInputs v txs = flows v ctx.nHeight txs :=
  ctx.reached_eq_flows (fun _ _ _ h => (ctx.added_of_connectTx h).1) txs _ s h

omit [LawfulCoinsState state] in
theorem reachedOutputs_eq_flows {s : ConnectState state}
    (h : accumulate ctx.connectTx (ConnectState.initial v) txs = Except.ok s) :
    ctx.reachedOutputs v txs = flows v ctx.nHeight txs :=
  ctx.reached_eq_flows (fun _ _ _ h => (ctx.added_of_connectTx h).2) txs _ s h

omit [LawfulCoinsState state] in
/-- The recorded mint of a completed loop, up to wrapping. -/
theorem recordedSupply_of_loop
    (htxs : forall tx, tx ∈ txs -> CheckedTransaction ctx.node.params tx)
    {s : ConnectState state}
    (h : accumulate ctx.connectTx (ConnectState.initial v) txs = Except.ok s)
    (nMoneySupplyPrev : Int) :
    (recordedSupply nMoneySupplyPrev s.nValueOut s.nValueIn).2 =
      wrapInt64 (netIncrease (flows v ctx.nHeight txs)) := by
  have hspec := (connectLoop_spec ctx txs (ConnectState.initial v) s 0 0 0 htxs
    (tallies_initial v) h).2.2.1
  rw [hspec.valueOut, hspec.valueIn, recordedSupply_mint, Int.zero_add, Int.zero_add]
  rfl

theorem accumulatorsExact_of_totalsFit (hview : ViewInRange ctx.node.params v)
    (htxs : forall tx, tx ∈ txs -> CheckedTransaction ctx.node.params tx)
    {nMoneySupplyPrev : Int} (hprev : InInt64 nMoneySupplyPrev)
    (hfit : TotalsFit ctx v nMoneySupplyPrev txs) :
    AccumulatorsExact ctx v nMoneySupplyPrev txs := by
  have hin := hfit.valueIn
  have hout := hfit.valueOut
  have hlt := ctx.node.params.maxMoneyOut_lt
  constructor
  · intro done hdone
    have hfees := totalFees_prefix_bounds txs (ConnectState.initial v) hview htxs done hdone
    have hbounds := totalIn_prefix_bounds hview htxs hdone
    constructor <;> omega
  · intro done hdone
    have hbounds := totalIn_prefix_bounds hview htxs hdone
    constructor <;> omega
  · intro done hdone
    have hbounds := totalOut_prefix_bounds htxs hdone
    constructor <;> omega
  · intro s hs
    have hboundsIn := totalIn_prefix_bounds hview htxs (List.prefix_refl _)
    have hboundsOut := totalOut_prefix_bounds htxs (List.prefix_refl (ctx.reachedOutputs v txs))
    have hsupply := hfit.supply (by rw [hs]; rfl)
    rw [reachedInputs_eq_flows hs] at hboundsIn hin
    rw [reachedOutputs_eq_flows hs] at hboundsOut hout
    rw [recordedSupply_of_loop htxs hs]
    unfold netIncrease at hsupply ⊢
    unfold InInt64 at hprev ⊢
    refine ⟨⟨by omega, hsupply.1⟩, ⟨hsupply.2, by omega⟩, ?_⟩
    exact wrapInt64_of_range _ (by omega) (by omega)

omit [LawfulCoinsState state] in
theorem totalsFit_of_accumulatorsExact {nMoneySupplyPrev : Int}
    (h : AccumulatorsExact ctx v nMoneySupplyPrev txs) :
    TotalsFit ctx v nMoneySupplyPrev txs := by
  refine ⟨(h.valueIn _ (List.prefix_refl _)).2, (h.valueOut _ (List.prefix_refl _)).2, ?_⟩
  intro hok
  rcases exists_ok_of_toBool hok with ⟨s, hs⟩
  have hsupply := h.supply s hs
  exact ⟨hsupply.1.2, hsupply.2.1.1⟩

/-- For a block which passes `CheckBlock` and a view within the money range. -/
theorem accumulatorsExact_iff_totalsFit {node : NodeState} {vstate : CValidationState}
    {block : CBlock} {pindex : PIndex} {fCheckPOW fCheckMerkleRoot : Bool}
    {nMoneySupplyPrev : Int}
    (hcheck : checkBlock node vstate block fCheckPOW fCheckMerkleRoot = Except.ok ())
    (hview : ViewInRange node.params v) (hprev : InInt64 nMoneySupplyPrev) :
    AccumulatorsExact (connectContext node vstate pindex) v nMoneySupplyPrev block.vtx <->
      TotalsFit (connectContext node vstate pindex) v nMoneySupplyPrev block.vtx := by
  constructor
  · exact totalsFit_of_accumulatorsExact
  · exact accumulatorsExact_of_totalsFit hview (checkedBlock_of_ok hcheck).txs hprev

end Exact

namespace AccumulatorsExample

open SupplyExample

/-- A view with one entry, all of whose outputs are in range. -/
theorem viewInRange_single {params : CChainParams} {txid : UInt256} {coins : CCoins}
    {bestBlock : UInt256}
    (h : forall out, out ∈ coins.vout -> params.moneyRange out.nValue = true) :
    ViewInRange params
      ({ coins := Function.update (fun _ => CCoins.empty) txid coins
         bestBlock := bestBlock } : CoinsMap) := by
  intro out txout hout
  have hentry : (Function.update (fun _ => CCoins.empty) txid coins out.hash).output? out.n =
      some txout := hout
  by_cases hhash : out.hash = txid
  · rw [hhash, Function.update_self, CCoins.output?_eq_some_iff] at hentry
    exact h txout (List.mem_of_getElem? hentry.1)
  · rw [Function.update_of_ne hhash] at hentry
    cases hentry

/-- All the money there can be, in one output. -/
def fortune : CTxOut := CTxOut.make (1000000000 * COIN) anyoneCanSpend

def fortuneView : CoinsMap where
  coins := Function.update (fun _ => CCoins.empty) 999
    { vout := [fortune], nHeight := 1, nVersion := 1 }
  bestBlock := prevHash.val

/-- Transactions which hand the same output on, each to the next one. -/
def chain (count : Nat) : List CTransaction :=
  (List.range count).map fun i =>
    { hash := BitVec.ofNat 256 (1000 + i)
      nVersion := 1
      vin := [finalInput { hash := BitVec.ofNat 256 (999 + i), n := 0 } []]
      vout := [fortune]
      nLockTime := 0 }

def chained : CBlock := blockOf (coinBase [pay 1] :: chain 93)

end AccumulatorsExample

open SupplyExample AccumulatorsExample in
theorem accumulatorsExact_singleFees :
    AccumulatorsExact (connectContext node {} pindex) view prev.nMoneySupply
      singleFees.vtx := by
  rcases exists_ok_of_toBool
    (show (checkBlock node {} singleFees true true).toBool = true by decide +kernel) with
    ⟨_, hcheck⟩
  refine (accumulatorsExact_iff_totalsFit hcheck ?_ (by decide +kernel)).mpr
    ⟨by decide +kernel, by decide +kernel, fun _ => by decide +kernel⟩
  exact viewInRange_single (by decide +kernel)

open SupplyExample AccumulatorsExample in
theorem chained_overflows :
    checkBlock node {} chained true true = Except.ok () ∧
      ViewInRange node.params fortuneView ∧ InInt64 prev.nMoneySupply ∧
      (exists c, connectBlock node {} fortuneView chained pindex false = Except.ok c) ∧
      ¬ AccumulatorsExact (connectContext node {} pindex) fortuneView prev.nMoneySupply
        chained.vtx := by
  rcases exists_ok_of_toBool
    (show (checkBlock node {} chained true true).toBool = true by decide +kernel) with
    ⟨_, hcheck⟩
  refine ⟨hcheck, viewInRange_single (by decide +kernel), by decide +kernel, ?_, ?_⟩
  · exact exists_ok_of_toBool (by decide +kernel)
  · intro hexact
    have hrange := hexact.valueIn _ (List.prefix_refl _)
    have hsum : ¬ InInt64 (totalIn ((connectContext node {} pindex).reachedInputs
        fortuneView chained.vtx)) := by decide +kernel
    exact hsum hrange

end Hbcur
