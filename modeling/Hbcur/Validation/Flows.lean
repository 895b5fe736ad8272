import Hbcur.Validation.ConnectBlock

/-!
# Exact amounts

What the transactions of a block spend and pay out, as plain integers.  The loop
of `ConnectBlock` keeps the same amounts modulo `2^64`.
-/

namespace Hbcur

open Foundation Serialize

variable {state : Type} [CoinsState state]

/-!
# The flow of one transaction
-/

/-- The value of an output about to be spent. -/
def inputValue (v : state) (txin : CTxIn) : Int :=
  match getOutputFor v txin with
  | none => 0
  | some out => out.nValue

def spentValue (v : state) (tx : CTransaction) : Int :=
  if tx.isCoinBase then 0 else (tx.vin.map (inputValue v)).sum

structure TxFlow where
  tx : CTransaction
  valueIn : Int

namespace TxFlow

/-- A coinbase or a coinstake, which may pay out more than it spends. -/
def generates (flow : TxFlow) : Bool :=
  flow.tx.isCoinBase || flow.tx.isCoinStake

def fee (flow : TxFlow) : Int :=
  if flow.generates then 0 else flow.valueIn - flow.tx.valueOut

end TxFlow

/-- The flows of transactions which are connected one after another. -/
def flows (v : state) (nHeight : Int) : List CTransaction -> List TxFlow
  | [] => []
  | tx :: rest =>
      { tx := tx, valueIn := spentValue v tx } ::
        match updateCoins v tx nHeight with
        | none => []
        | some (_, v') => flows v' nHeight rest

def totalIn (fs : List TxFlow) : Int := (fs.map TxFlow.valueIn).sum

def totalOut (fs : List TxFlow) : Int := (fs.map fun flow => flow.tx.valueOut).sum

def totalFees (fs : List TxFlow) : Int := (fs.map TxFlow.fee).sum

/-- The net increase of the value of all unspent outputs. -/
def netIncrease (fs : List TxFlow) : Int := totalOut fs - totalIn fs

@[simp] theorem totalIn_cons (flow : TxFlow) (fs : List TxFlow) :
    totalIn (flow :: fs) = flow.valueIn + totalIn fs := rfl

@[simp] theorem totalOut_cons (flow : TxFlow) (fs : List TxFlow) :
    totalOut (flow :: fs) = flow.tx.valueOut + totalOut fs := rfl

@[simp] theorem totalFees_cons (flow : TxFlow) (fs : List TxFlow) :
    totalFees (flow :: fs) = flow.fee + totalFees fs := rfl

/-- What the first loop of `CheckInputs` has established about the inputs seen. -/
def InputsSeen (params : CChainParams) (v : state) (done : List CTxIn) (nValueIn : Int) :
    Prop :=
  nValueIn = (done.map (inputValue v)).sum ∧ params.moneyRange nValueIn = true ∧
    forall txin, txin ∈ done ->
      exists out, getOutputFor v txin = some out ∧ 0 ≤ out.nValue

theorem inputsSeen_nil (params : CChainParams) (v : state) : InputsSeen params v [] 0 := by
  refine ⟨rfl, CChainParams.moneyRange_iff.mpr ⟨Int.le_refl 0, ?_⟩, ?_⟩
  · exact params.maxMoneyOut_nonneg
  · intro txin hmem
    cases hmem

theorem inputsSeen_step (params : CChainParams) {vstate : CValidationState} {v : state}
    {nSpendHeight : Int} (done : List CTxIn) (acc : Int) (txin : CTxIn) (acc' : Int)
    (hseen : InputsSeen params v done acc)
    (h : checkInputValue params vstate v nSpendHeight acc txin = Except.ok acc') :
    InputsSeen params v (done ++ [txin]) acc' := by
  simp only [checkInputValue, bind_eq_ok_iff, Unique.exists_iff, require_eq_ok_iff,
    expect_eq_ok_iff, Except.ok.injEq, Bool.and_eq_true] at h
  rcases h with ⟨_, out, hout, ⟨hvalue, hrange⟩, hacc⟩
  rcases hseen with ⟨hsum, _, hvalues⟩
  have hinput : inputValue v txin = out.nValue := by
    unfold inputValue
    rw [hout]
  subst hacc
  refine ⟨?_, hrange, ?_⟩
  · rw [List.map_append, List.sum_append, hsum]
    simp [hinput]
  · intro other hmem
    rcases List.mem_append.mp hmem with hold | hnew
    · exact hvalues other hold
    · rw [List.mem_singleton.mp hnew]
      exact ⟨out, hout, (CChainParams.moneyRange_iff.mp hvalue).1⟩

theorem sum_inputValue_nonneg {v : state} {txins : List CTxIn}
    (h : forall txin, txin ∈ txins ->
      exists out, getOutputFor v txin = some out ∧ 0 ≤ out.nValue) :
    0 ≤ (txins.map (inputValue v)).sum := by
  apply List.sum_nonneg
  intro n hn
  rcases List.mem_map.mp hn with ⟨txin, hmem, rfl⟩
  rcases h txin hmem with ⟨out, hout, hnonneg⟩
  unfold inputValue
  rw [hout]
  exact hnonneg

/-- The total of inputs in range does not wrap. -/
theorem valueInFrom_eq (bound : Int) (hbound : bound < 9223372036854775808) (v : state) :
    forall (txins : List CTxIn) (acc : Int), 0 ≤ acc ->
      (forall txin, txin ∈ txins ->
        exists out, getOutputFor v txin = some out ∧ 0 ≤ out.nValue) ->
      acc + (txins.map (inputValue v)).sum ≤ bound ->
      valueInFrom v acc txins = some (acc + (txins.map (inputValue v)).sum) := by
  intro txins
  induction txins with
  | nil =>
      intro acc _ _ _
      simp [valueInFrom]
  | cons txin rest ih =>
      intro acc hacc hvalues htotal
      rcases hvalues txin List.mem_cons_self with ⟨out, hout, hnonneg⟩
      have hinput : inputValue v txin = out.nValue := by
        unfold inputValue
        rw [hout]
      have hothers : forall other, other ∈ rest ->
          exists out, getOutputFor v other = some out ∧ 0 ≤ out.nValue :=
        fun other hmem => hvalues other (List.mem_cons_of_mem _ hmem)
      have hrest := sum_inputValue_nonneg hothers
      rw [List.map_cons, List.sum_cons, hinput] at htotal ⊢
      have hwrap : wrapInt64 (acc + out.nValue) = acc + out.nValue :=
        wrapInt64_of_range _ (by omega) (by omega)
      rw [valueInFrom, hout]
      simp only [hwrap]
      rw [ih _ (by omega) hothers (by omega), Int.add_assoc]

/-- What `CheckInputs` establishes about the amounts of a transaction. -/
structure CheckedInputs (params : CChainParams) (v : state) (tx : CTransaction) : Prop where
  nonneg : 0 ≤ spentValue v tx
  le_max : spentValue v tx ≤ params.nMaxMoneyOut
  getValueIn_eq : getValueIn v tx = some (spentValue v tx)
  covers : tx.isCoinBase = false -> tx.isCoinStake = false ->
    tx.valueOut ≤ spentValue v tx

theorem checkedInputs_of_isCoinBase {params : CChainParams} (v : state) {tx : CTransaction}
    (h : tx.isCoinBase = true) : CheckedInputs params v tx := by
  have hzero : spentValue v tx = 0 := by
    unfold spentValue
    rw [if_pos h]
  refine ⟨by omega, ?_, ?_, ?_⟩
  · rw [hzero]
    exact params.maxMoneyOut_nonneg
  · unfold getValueIn
    rw [if_pos h, hzero]
  · intro hfalse
    rw [h] at hfalse
    cases hfalse

theorem checkedInputs_of_ok {node : NodeState} {vstate : CValidationState} {v : state}
    {tx : CTransaction} {fScriptChecks : Bool} {flags : ScriptFlags}
    (htx : CheckedTransaction node.params tx) (hcb : tx.isCoinBase = false)
    (h : checkInputs node vstate v tx fScriptChecks flags = Except.ok ()) :
    CheckedInputs node.params v tx := by
  unfold checkInputs at h
  have h := onlyIf_eq_ok_iff.mp h (by rw [hcb]; rfl)
  simp only [bind_eq_ok_iff, Unique.exists_iff, expect_eq_ok_iff, onlyIf_eq_ok_iff] at h
  rcases h with ⟨_, prev, _, nValueIn, hloop, hfee, _⟩
  have hseen := accumulate_invariant (inputsSeen_step node.params) tx.vin [] 0 nValueIn
    (inputsSeen_nil node.params v) hloop
  rw [List.nil_append] at hseen
  rcases hseen with ⟨hsum, hrange, hvalues⟩
  have hspent : spentValue v tx = nValueIn := by
    unfold spentValue
    rw [if_neg (by rw [hcb]; exact Bool.false_ne_true), hsum]
  have hmoney := CChainParams.moneyRange_iff.mp hrange
  have hlt := node.params.maxMoneyOut_lt
  rw [← hspent] at hmoney
  refine ⟨hmoney.1, hmoney.2, ?_, ?_⟩
  · have heq := valueInFrom_eq node.params.nMaxMoneyOut (by omega) v tx.vin 0
      (Int.le_refl 0) hvalues (by omega)
    unfold getValueIn
    rw [if_neg (by rw [hcb]; exact Bool.false_ne_true), heq, ← hsum, hspent, Int.zero_add]
  · intro _ hcs
    have hfee := hfee (by rw [hcs]; rfl)
    simp only [checkFee, bind_eq_ok_iff, Unique.exists_iff, expect_eq_ok_iff,
      require_eq_ok_iff] at hfee
    rcases hfee with ⟨nValueOut, hout, hbelow, _⟩
    rw [htx.getValueOut_eq, Option.some.injEq] at hout
    simp only [Bool.not_eq_eq_eq_not, Bool.not_true, decide_eq_false_iff_not] at hbelow
    omega

/-!
# The loop keeps the amounts modulo `2^64`
-/

theorem wrapInt64_wrapInt64_add (a b : Int) :
    wrapInt64 (wrapInt64 a + b) = wrapInt64 (a + b) := by
  unfold wrapInt64
  exact Int.bmod_add_bmod

theorem wrapInt64_add_wrapInt64 (a b : Int) :
    wrapInt64 (a + wrapInt64 b) = wrapInt64 (a + b) := by
  rw [Int.add_comm, wrapInt64_wrapInt64_add, Int.add_comm]

/-- The amounts which the loop has added up so far, up to wrapping. -/
structure Tallies (s : ConnectState state) (nFees nValueIn nValueOut : Int) : Prop where
  fees : s.nFees = wrapInt64 nFees
  valueIn : s.nValueIn = wrapInt64 nValueIn
  valueOut : s.nValueOut = wrapInt64 nValueOut

omit [CoinsState state] in
theorem tallies_initial (v : state) : Tallies (ConnectState.initial v) 0 0 0 :=
  ⟨rfl, rfl, rfl⟩

namespace ConnectContext

theorem addInputs_view {ctx : ConnectContext} {s s' : ConnectState state}
    {tx : CTransaction} (h : ctx.addInputs s tx = Except.ok s') : s'.view = s.view := by
  simp only [addInputs, bind_eq_ok_iff, Unique.exists_iff, Except.ok.injEq] at h
  rcases h with ⟨_, _, _, _, _, _, rfl⟩
  rfl

/-- Adding inputs leaves the coins alone. -/
theorem connectInputs_view {ctx : ConnectContext} {s s' : ConnectState state}
    {tx : CTransaction} (h : ctx.connectInputs s tx = Except.ok s') : s'.view = s.view := by
  unfold connectInputs at h
  split_ifs at h
  · cases h
    rfl
  · simp only [bind_eq_ok_iff, Unique.exists_iff, Except.ok.injEq] at h
    rcases h with ⟨s1, hadd, _, rfl⟩
    show s1.view = s.view
    exact addInputs_view hadd

theorem connectInputs_checked {ctx : ConnectContext} {s s' : ConnectState state}
    {tx : CTransaction} (htx : CheckedTransaction ctx.node.params tx)
    (h : ctx.connectInputs s tx = Except.ok s') :
    CheckedInputs ctx.node.params s.view tx := by
  unfold connectInputs at h
  split_ifs at h with hcb
  · exact checkedInputs_of_isCoinBase s.view hcb
  · simp only [bind_eq_ok_iff, Unique.exists_iff] at h
    rcases h with ⟨s1, hadd, hcheck, _⟩
    rw [addInputs_view hadd] at hcheck
    exact checkedInputs_of_ok htx (Bool.eq_false_iff.mpr hcb) hcheck

theorem connectTx_checked {ctx : ConnectContext} {s s' : ConnectState state}
    {tx : CTransaction} (htx : CheckedTransaction ctx.node.params tx)
    (h : ctx.connectTx s tx = Except.ok s') : CheckedInputs ctx.node.params s.view tx := by
  simp only [connectTx, bind_eq_ok_iff, Unique.exists_iff] at h
  rcases h with ⟨_, s1, hinputs, _⟩
  have hchecked := connectInputs_checked htx hinputs
  exact hchecked

/-- Each round connects the coins of its transaction. -/
theorem connectTx_coins {ctx : ConnectContext} {s s' : ConnectState state}
    {tx : CTransaction} (h : ctx.connectTx s tx = Except.ok s') :
    exists undo, updateCoins s.view tx ctx.nHeight = some (undo, s'.view) := by
  simp only [connectTx, bind_eq_ok_iff, Unique.exists_iff, expect_eq_ok_iff,
    Except.ok.injEq] at h
  rcases h with ⟨_, s1, hinputs, _, _, connected, hupdate, rfl⟩
  rw [connectInputs_view hinputs] at hupdate
  exact ⟨connected.1, hupdate⟩

/-- The amounts after the inputs of a transaction have been added. -/
theorem addInputs_tallies {ctx : ConnectContext} {s s' : ConnectState state}
    {tx : CTransaction} {nFees nValueIn nValueOut nTxIn : Int}
    (htx : CheckedTransaction ctx.node.params tx) (hcb : tx.isCoinBase = false)
    (hin : getValueIn s.view tx = some nTxIn)
    (htallies : Tallies s nFees nValueIn nValueOut)
    (h : ctx.addInputs s tx = Except.ok s') :
    Tallies s' (nFees + TxFlow.fee { tx := tx, valueIn := nTxIn }) (nValueIn + nTxIn)
      nValueOut ∧ s'.txundos = s.txundos := by
  simp only [addInputs, bind_eq_ok_iff, Unique.exists_iff, require_eq_ok_iff,
    expect_eq_ok_iff, Except.ok.injEq] at h
  rcases h with ⟨_, _, nTxIn', hin', nFees', hfee, rfl⟩
  rw [hin, Option.some.injEq] at hin'
  subst hin'
  refine ⟨⟨?_, ?_, htallies.valueOut⟩, rfl⟩
  · unfold addFee at hfee
    unfold TxFlow.fee TxFlow.generates
    simp only [hcb, Bool.false_or]
    cases hcs : tx.isCoinStake with
    | true =>
        rw [if_pos hcs, Except.ok.injEq] at hfee
        rw [← hfee, if_pos rfl, Int.add_zero]
        exact htallies.fees
    | false =>
        rw [if_neg (by rw [hcs]; exact Bool.false_ne_true)] at hfee
        simp only [bind_eq_ok_iff, expect_eq_ok_iff, Except.ok.injEq] at hfee
        rcases hfee with ⟨nTxOut, hout, rfl⟩
        rw [htx.getValueOut_eq, Option.some.injEq] at hout
        subst hout
        rw [htallies.fees, wrapInt64_add_wrapInt64, wrapInt64_wrapInt64_add]
        simp
  · show wrapInt64 (s.nValueIn + nTxIn) = wrapInt64 (nValueIn + nTxIn)
    rw [htallies.valueIn, wrapInt64_wrapInt64_add]

theorem connectInputs_tallies {ctx : ConnectContext} {s s' : ConnectState state}
    {tx : CTransaction} {nFees nValueIn nValueOut : Int}
    (htx : CheckedTransaction ctx.node.params tx)
    (htallies : Tallies s nFees nValueIn nValueOut)
    (h : ctx.connectInputs s tx = Except.ok s') :
    Tallies s' (nFees + TxFlow.fee { tx := tx, valueIn := spentValue s.view tx })
        (nValueIn + spentValue s.view tx) nValueOut ∧ s'.txundos = s.txundos := by
  have hinputs := connectInputs_checked htx h
  unfold connectInputs at h
  cases hcb : tx.isCoinBase with
  | true =>
      rw [if_pos hcb, Except.ok.injEq] at h
      subst h
      refine ⟨?_, rfl⟩
      have hzero : spentValue s.view tx = 0 := by
        unfold spentValue
        rw [if_pos hcb]
      unfold TxFlow.fee TxFlow.generates
      simp only [hcb, hzero, Bool.true_or, if_true, Int.add_zero]
      exact htallies
  | false =>
      rw [if_neg (by rw [hcb]; exact Bool.false_ne_true)] at h
      simp only [bind_eq_ok_iff, Unique.exists_iff, Except.ok.injEq] at h
      rcases h with ⟨s1, hadd, _, rfl⟩
      rcases addInputs_tallies htx hcb hinputs.getValueIn_eq htallies hadd with
        ⟨hsums, hundos⟩
      exact ⟨⟨hsums.fees, hsums.valueIn, hsums.valueOut⟩, hundos⟩

/-- One round of the loop. -/
theorem connectTx_tallies {ctx : ConnectContext} {s s' : ConnectState state}
    {tx : CTransaction} {nFees nValueIn nValueOut : Int}
    (htx : CheckedTransaction ctx.node.params tx)
    (htallies : Tallies s nFees nValueIn nValueOut)
    (h : ctx.connectTx s tx = Except.ok s') :
    Tallies s' (nFees + TxFlow.fee { tx := tx, valueIn := spentValue s.view tx })
        (nValueIn + spentValue s.view tx) (nValueOut + tx.valueOut) ∧
      exists undo, updateCoins s.view tx ctx.nHeight = some (undo, s'.view) ∧
        s'.txundos = s.txundos ++ [undo] := by
  simp only [connectTx, bind_eq_ok_iff, Unique.exists_iff, require_eq_ok_iff,
    expect_eq_ok_iff, Except.ok.injEq] at h
  rcases h with ⟨_, s1, hinputs, nTxOut, hout, connected, hupdate, rfl⟩
  have hstart : Tallies { s with nSigOps := s.nSigOps + getLegacySigOpCount tx }
      nFees nValueIn nValueOut := ⟨htallies.fees, htallies.valueIn, htallies.valueOut⟩
  rcases connectInputs_tallies htx hstart hinputs with ⟨hsums, hundos⟩
  rw [htx.getValueOut_eq, Option.some.injEq] at hout
  subst hout
  rw [connectInputs_view hinputs] at hupdate
  refine ⟨⟨hsums.fees, hsums.valueIn, ?_⟩, connected.1, hupdate, ?_⟩
  · show wrapInt64 (s1.nValueOut + tx.valueOut) = wrapInt64 (nValueOut + tx.valueOut)
    rw [hsums.valueOut, wrapInt64_wrapInt64_add]
  · show s1.txundos ++ [connected.1] = s.txundos ++ [connected.1]
    rw [hundos]

end ConnectContext

/-- What is known of the flow of a transaction that has been connected. -/
structure CheckedFlow (params : CChainParams) (flow : TxFlow) : Prop where
  valueIn_nonneg : 0 ≤ flow.valueIn
  valueIn_le : flow.valueIn ≤ params.nMaxMoneyOut
  valueOut_nonneg : 0 ≤ flow.tx.valueOut
  valueOut_le : flow.tx.valueOut ≤ params.nMaxMoneyOut
  coinBase : flow.tx.isCoinBase = true -> flow.valueIn = 0
  fee_nonneg : 0 ≤ flow.fee

theorem checkedFlow_of_inputs {params : CChainParams} {v : state} {tx : CTransaction}
    (htx : CheckedTransaction params tx) (hinputs : CheckedInputs params v tx) :
    CheckedFlow params { tx := tx, valueIn := spentValue v tx } := by
  refine ⟨hinputs.nonneg, hinputs.le_max, htx.valueOut_nonneg, htx.total, ?_, ?_⟩
  · intro hcb
    show spentValue v tx = 0
    unfold spentValue
    rw [if_pos hcb]
  · unfold TxFlow.fee TxFlow.generates
    split_ifs with hgen
    · exact Int.le_refl 0
    · rw [Bool.not_eq_true, Bool.or_eq_false_iff] at hgen
      have hcovers := hinputs.covers hgen.1 hgen.2
      simp only
      omega

theorem connectLoop_spec (ctx : ConnectContext) :
    forall (txs : List CTransaction) (s s' : ConnectState state)
      (nFees nValueIn nValueOut : Int),
      (forall tx, tx ∈ txs -> CheckedTransaction ctx.node.params tx) ->
      Tallies s nFees nValueIn nValueOut ->
      accumulate ctx.connectTx s txs = Except.ok s' ->
      (flows s.view ctx.nHeight txs).map TxFlow.tx = txs ∧
        (forall flow, flow ∈ flows s.view ctx.nHeight txs ->
          CheckedFlow ctx.node.params flow) ∧
        Tallies s' (nFees + totalFees (flows s.view ctx.nHeight txs))
          (nValueIn + totalIn (flows s.view ctx.nHeight txs))
          (nValueOut + totalOut (flows s.view ctx.nHeight txs)) ∧
        exists undos, updateCoinsAll s.view ctx.nHeight txs = some (undos, s'.view) ∧
          s'.txundos = s.txundos ++ undos := by
  intro txs
  induction txs with
  | nil =>
      intro s s' nFees nValueIn nValueOut _ htallies h
      cases h
      refine ⟨rfl, ?_, ?_, [], rfl, ?_⟩
      · intro flow hmem
        cases hmem
      · simpa [flows, totalFees, totalIn, totalOut] using htallies
      · rw [List.append_nil]
  | cons tx rest ih =>
      intro s s' nFees nValueIn nValueOut htxs htallies h
      rcases bind_eq_ok_iff.mp h with ⟨s1, hone, hrest⟩
      have htx := htxs tx List.mem_cons_self
      rcases ctx.connectTx_tallies htx htallies hone with ⟨hsums, undo, hupdate, hundo⟩
      have hinputs := ctx.connectTx_checked htx hone
      rcases ih s1 s' _ _ _ (fun t ht => htxs t (List.mem_cons_of_mem _ ht)) hsums hrest with
        ⟨hmap, hflows, hfinal, undos, hall, hundos⟩
      have hcons : flows s.view ctx.nHeight (tx :: rest) =
          { tx := tx, valueIn := spentValue s.view tx } ::
            flows s1.view ctx.nHeight rest := by
        rw [flows, hupdate]
      rw [hcons]
      refine ⟨?_, ?_, ?_, undo :: undos, ?_, ?_⟩
      · rw [List.map_cons, hmap]
      · exact List.forall_mem_cons.mpr ⟨checkedFlow_of_inputs htx hinputs, hflows⟩
      · rw [totalFees_cons, totalIn_cons, totalOut_cons, ← Int.add_assoc, ← Int.add_assoc,
          ← Int.add_assoc]
        exact hfinal
      · rw [updateCoinsAll, hupdate]
        simp only [hall]
      · rw [hundos, hundo, List.append_assoc, List.singleton_append]

end Hbcur
