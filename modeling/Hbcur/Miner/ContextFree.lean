import Hbcur.Mempool.Coherence
import Hbcur.Miner.CoinBase

/-!
# Templates and the context-free rules

Which templates `CheckBlock` could refuse without looking at the chain: one with a coinstake
always, since the script of its coinbase stays empty, and one with proof of work only for what
`FillBlockPayee` puts into the coinbase.
-/

namespace Hbcur

open Foundation Serialize

variable {state : Type} [CoinsState state]

/-- The rules of `CheckTransaction`, and the limits of `CheckBlock`. -/
structure ContextFree (params : CChainParams) (block : CBlock) : Prop where
  txs : forall tx, tx ∈ block.vtx -> checkTransaction params {} tx = Except.ok ()
  vtx_ne_nil : block.vtx ≠ []
  length_le : block.vtx.length ≤ MAX_BLOCK_SIZE
  size_le : block.getSerializeSize ≤ MAX_BLOCK_SIZE
  sigOps_le : (block.vtx.map getLegacySigOpCount).sum ≤ MAX_BLOCK_SIGOPS

/-!
# What the block is filled with
-/

section Filling

variable {env : MinerEnv} {v : state} {pool : CTxMemPool} {nHeight : Int}

/-- The allowances for the transactions which are not selected are part of the counters. -/
structure Filling.Measured (env : MinerEnv) (filling : Filling state) : Prop where
  nBlockSize : filling.nBlockSize = 1000 + (filling.vtx.map CTransaction.getSerializeSize).sum
  size_lt : filling.vtx = [] ∨ filling.nBlockSize < env.nBlockMaxSize
  nBlockSigOps : 100 + (filling.vtx.map getLegacySigOpCount).sum ≤ filling.nBlockSigOps
  sigOps_lt : filling.nBlockSigOps < MAX_BLOCK_SIGOPS

theorem measured_fillBlock {filling : Filling state}
    (h : fillBlock env v pool nHeight = some filling) : filling.Measured env := by
  have hstart : ({ view := v } : Filling state).Measured env :=
    ⟨rfl, Or.inl rfl, Nat.le_refl _, (by decide : 100 < MAX_BLOCK_SIGOPS)⟩
  refine fillBlock_invariant hstart ?_ h
  intro before tx after _ hinv htaken
  constructor
  · rw [htaken.nBlockSize, htaken.vtx, hinv.nBlockSize, List.map_append, List.sum_append,
      List.map_singleton, List.sum_singleton, Nat.add_assoc]
  · right
    rw [htaken.nBlockSize]
    exact htaken.fits
  · have hsigops := hinv.nBlockSigOps
    rw [htaken.nBlockSigOps, htaken.vtx, List.map_append, List.sum_append, List.map_singleton,
      List.sum_singleton]
    omega
  · exact htaken.sigOps_lt

theorem selectable_fillBlock {filling : Filling state}
    (h : fillBlock env v pool nHeight = some filling) :
    forall tx, tx ∈ filling.vtx -> Selectable env pool nHeight tx := by
  refine fillBlock_invariant (I := fun filling : Filling state =>
    forall tx, tx ∈ filling.vtx -> Selectable env pool nHeight tx)
    (fun _ hmem => nomatch hmem) ?_ h
  intro before tx after htx hinv htaken other hmem
  rw [htaken.vtx] at hmem
  rcases List.mem_append.mp hmem with hold | hnew
  · exact hinv other hold
  · rw [List.mem_singleton.mp hnew]
    exact htx

omit [CoinsState state] in
/-- The room which is left for the coinbase. -/
theorem Filling.Measured.size_le {filling : Filling state} (h : filling.Measured env) :
    (filling.vtx.map CTransaction.getSerializeSize).sum + 2000 ≤ MAX_BLOCK_SIZE := by
  have hmax : env.nBlockMaxSize ≤ MAX_BLOCK_SIZE - 1000 := by
    unfold MinerEnv.nBlockMaxSize MAX_BLOCK_SIZE
    omega
  have hsize := h.nBlockSize
  unfold MAX_BLOCK_SIZE at hmax ⊢
  rcases h.size_lt with hnil | hlt
  · rw [hnil]
    decide
  · omega

theorem length_le_sum_size (txs : List CTransaction) :
    txs.length ≤ (txs.map CTransaction.getSerializeSize).sum := by
  induction txs with
  | nil => exact Nat.le_refl 0
  | cons tx rest ih =>
      have hpos : 1 ≤ tx.getSerializeSize := by
        unfold CTransaction.getSerializeSize
        omega
      rw [List.length_cons, List.map_cons, List.sum_cons]
      omega

theorem Selectable.checked {tx : CTransaction} (h : Selectable env pool nHeight tx)
    {params : CChainParams} (hpool : pool.Checked params) :
    checkTransaction params {} tx = Except.ok () := by
  rcases h.inPool with ⟨hash, entry, hlookup, rfl⟩
  exact hpool hash entry hlookup

/-!
# Fees and the supply
-/

variable [LawfulCoinsState state]

/-- The fees so far have been taken out of the supply. -/
structure Filling.Funded (supply : Int) (filling : Filling state) : Prop where
  fees_nonneg : 0 ≤ filling.nFees
  supply : SupplyAtMost filling.view (supply - filling.nFees)

omit [LawfulCoinsState state] in
theorem Filling.Funded.fees_le {supply : Int} {filling : Filling state}
    (h : filling.Funded supply) : filling.nFees ≤ supply := by
  have hbound := TotalAtMost.bound_nonneg h.supply
  omega

theorem funded_fillBlock (hpool : pool.Checked env.node.params) {supply : Int}
    (hsupply : SupplyAtMost v supply) (hmax : supply ≤ env.node.params.nMaxMoneyOut)
    {filling : Filling state} (h : fillBlock env v pool nHeight = some filling) :
    filling.Funded supply := by
  have hstart : ({ view := v } : Filling state).Funded supply := by
    refine ⟨Int.le_refl 0, ?_⟩
    rw [Int.sub_zero]
    exact hsupply
  refine fillBlock_invariant hstart ?_ h
  · intro before tx after htx hinv htaken
    have hlt := env.node.params.maxMoneyOut_lt
    have hchecked := checkedTransaction_of_ok (htx.checked hpool)
    have hnode : CheckedTransaction env.checkNode.params tx := hchecked
    have hinputs := checkedInputs_of_ok hnode htx.notCoinBase htaken.checked
    change CheckedInputs env.node.params before.view tx at hinputs
    have hcovers := hinputs.covers htx.notCoinBase htx.notCoinStake
    have hout := hchecked.valueOut_nonneg
    rcases htaken.nFees with ⟨nValueIn, nValueOut, hvalueIn, hvalueOut, hfees⟩
    rw [hinputs.getValueIn_eq, Option.some.injEq] at hvalueIn
    rw [hchecked.getValueOut_eq, Option.some.injEq] at hvalueOut
    subst hvalueIn hvalueOut
    rcases htaken.coins with ⟨undo, hupdate⟩
    have hafter := supplyAtMost_updateCoins hinv.supply
      (fun out hmem => (hchecked.values out hmem).1) (spends_nodup hchecked) hupdate
    have hold := hinv.fees_nonneg
    have hle := TotalAtMost.bound_nonneg hafter
    have hmaxIn := hinputs.le_max
    have hexact : after.nFees = before.nFees + (spentValue before.view tx - tx.valueOut) := by
      rw [hfees, wrapInt64_of_range (spentValue before.view tx - tx.valueOut) (by omega)
        (by omega), wrapInt64_of_range _ (by omega) (by omega)]
    refine ⟨by omega, ?_⟩
    have hbound : supply - after.nFees =
        supply - before.nFees - spentValue before.view tx + tx.valueOut := by omega
    rw [hbound]
    exact hafter

end Filling

/-!
# The block
-/

/-- The two ways in which a template comes about. -/
theorem createNewBlock_cases {env : MinerEnv} {v : state} {pool : CTxMemPool}
    {scriptPubKeyIn : CScript} {fProofOfStake : Bool} {block : CBlock}
    (h : createNewBlock env v pool scriptPubKeyIn fProofOfStake = some block) :
    exists tip filling, env.node.tip = some tip ∧
      fillBlock env v pool (tip.2 + 1) = some filling ∧ block.vchBlockSig = [] ∧
      ((fProofOfStake = true ∧ exists coinStake nTime,
          env.findStake tip.2 (env.node.getNextWorkRequired
            (env.emptyHeader env.node.adjustedTime.toNat)) = some (coinStake, nTime) ∧
          block.vtx = emptyCoinBase env.getHash scriptPubKeyIn :: coinStake :: filling.vtx) ∨
        (fProofOfStake = false ∧
          block.vtx = env.coinBase scriptPubKeyIn tip.2 filling.nFees :: filling.vtx)) := by
  unfold createNewBlock at h
  cases htip : env.node.tip with
  | none =>
      rw [htip] at h
      cases h
  | some tip =>
      rw [htip] at h
      simp only at h
      cases fProofOfStake with
      | true =>
          rw [if_pos rfl] at h
          cases hstake : env.findStake tip.2 (env.node.getNextWorkRequired
              (env.emptyHeader env.node.adjustedTime.toNat)) with
          | none =>
              rw [hstake] at h
              cases h
          | some found =>
              rcases found with ⟨coinStake, nTime⟩
              rw [hstake] at h
              rcases Option.map_eq_some_iff.mp h with ⟨filling, hfill, rfl⟩
              exact ⟨tip, filling, rfl, hfill, rfl,
                Or.inl ⟨rfl, coinStake, nTime, hstake, rfl⟩⟩
      | false =>
          rw [if_neg Bool.false_ne_true] at h
          rcases Option.map_eq_some_iff.mp h with ⟨filling, hfill, rfl⟩
          exact ⟨tip, filling, rfl, hfill, rfl, Or.inr ⟨rfl, rfl⟩⟩

/-- The script of the coinbase is only put where the block has no coinstake. -/
theorem emptyCoinBase_fails (params : CChainParams) (getHash : CMutableTransaction -> UInt256)
    (scriptPubKeyIn : CScript) :
    checkTransaction params {} (emptyCoinBase getHash scriptPubKeyIn) ≠ Except.ok () := by
  intro h
  simp only [checkTransaction, bind_eq_ok_iff, require_eq_ok_iff, exists_const] at h
  rcases h with ⟨_, _, _, _, _, _, hform⟩
  cases hform

/-- What the limits leave to the coinbase of a block, whose other transactions pass. -/
structure CoinBaseFits (params : CChainParams) (block : CBlock) : Prop where
  passes : forall coinBase, block.vtx.head? = some coinBase ->
    checkTransaction params {} coinBase = Except.ok ()
  size_le : block.getSerializeSize ≤ MAX_BLOCK_SIZE
  sigOps_le : (block.vtx.map getLegacySigOpCount).sum ≤ MAX_BLOCK_SIGOPS

theorem length_le_size (block : CBlock) : block.vtx.length ≤ block.getSerializeSize := by
  have hsum := length_le_sum_size block.vtx
  unfold CBlock.getSerializeSize
  omega

theorem contextFree_iff_coinBaseFits {params : CChainParams} {block : CBlock}
    {coinBase : CTransaction} {rest : List CTransaction} (hvtx : block.vtx = coinBase :: rest)
    (hrest : forall tx, tx ∈ rest -> checkTransaction params {} tx = Except.ok ()) :
    ContextFree params block <-> CoinBaseFits params block := by
  constructor
  · intro h
    refine ⟨?_, h.size_le, h.sigOps_le⟩
    intro first hfirst
    exact h.txs first (List.mem_of_mem_head? hfirst)
  · intro h
    refine ⟨?_, ?_, (length_le_size block).trans h.size_le, h.size_le, h.sigOps_le⟩
    · intro tx hmem
      rw [hvtx] at hmem
      rcases List.mem_cons.mp hmem with rfl | hin
      · exact h.passes tx (by rw [hvtx]; rfl)
      · exact hrest tx hin
    · rw [hvtx]
      exact List.cons_ne_nil _ _

section Template

variable {env : MinerEnv} {v : state} {pool : CTxMemPool} {scriptPubKeyIn : CScript}
  {block : CBlock} {tip : BlockHash × Int} {filling : Filling state}

/-- Moderate payments fit into what is left. -/
theorem coinBaseFits_of_rewards {nHeight : Int}
    (hfill : fillBlock env v pool nHeight = some filling) (hsig : block.vchBlockSig = [])
    (hvtx : block.vtx = env.coinBase scriptPubKeyIn tip.2 filling.nFees :: filling.vtx)
    (hrewards : Rewards env scriptPubKeyIn tip.2
      (env.coinBase scriptPubKeyIn tip.2 filling.nFees).vout) {supply : Int}
    (hfit : PaymentsFit env scriptPubKeyIn tip.2 supply) :
    CoinBaseFits env.node.params block := by
  have hmeasured := measured_fillBlock hfill
  constructor
  · intro coinBase hfirst
    rw [hvtx, List.head?_cons, Option.some.injEq] at hfirst
    rw [← hfirst]
    exact hrewards.passes hfit.length_le {}
  · have hsize := hrewards.size_le hfit.length_le
    have hroom := hmeasured.size_le
    have hcount := length_writeCompactSize block.vtx.length
    have hsig' : (if block.isProofOfStake then sizeOfBytes block.vchBlockSig else 0) ≤ 1 := by
      rw [hsig]
      split_ifs <;> decide
    unfold CBlock.getSerializeSize
    rw [hvtx] at hcount ⊢
    rw [List.map_cons, List.sum_cons]
    omega
  · have hsigops := hrewards.sigOps_le hfit.sigOps_le
    have hcount := hmeasured.nBlockSigOps
    have hlt := hmeasured.sigOps_lt
    rw [hvtx, List.map_cons, List.sum_cons]
    omega

end Template

/--
A template with a coinstake always breaks the rules.  One with proof of work breaks them for
its coinbase only, and not where the payments are moderate and within the supply.
-/
theorem contextFree_iff_of_createNewBlock [LawfulCoinsState state] {env : MinerEnv} {v : state}
    {pool : CTxMemPool} {scriptPubKeyIn : CScript} {fProofOfStake : Bool} {block : CBlock}
    (hpool : pool.Checked env.node.params)
    (hcreate : createNewBlock env v pool scriptPubKeyIn fProofOfStake = some block) :
    (ContextFree env.node.params block <->
      fProofOfStake = false ∧ CoinBaseFits env.node.params block) ∧
      forall tip supply, env.node.tip = some tip -> SupplyAtMost v supply ->
        PaymentsFit env scriptPubKeyIn tip.2 supply ->
        (ContextFree env.node.params block <-> fProofOfStake = false) := by
  rcases createNewBlock_cases hcreate with
    ⟨tip, filling, htip, hfill, hsig, ⟨hpos, coinStake, nTime, _, hvtx⟩ | ⟨hpow, hvtx⟩⟩
  · -- The coinbase of a staked block has an empty script.
    have hnot : ¬ ContextFree env.node.params block := by
      intro h
      refine emptyCoinBase_fails env.node.params env.getHash scriptPubKeyIn (h.txs _ ?_)
      rw [hvtx]
      exact List.mem_cons_self
    have hfalse : fProofOfStake ≠ false := by
      rw [hpos]
      exact Bool.noConfusion
    exact ⟨iff_of_false hnot fun h => hfalse h.1, fun _ _ _ _ _ => iff_of_false hnot hfalse⟩
  · have hselected := selectable_fillBlock hfill
    have hiff := contextFree_iff_coinBaseFits hvtx
      fun tx hmem => (hselected tx hmem).checked hpool
    refine ⟨hiff.trans (and_iff_right hpow).symm, ?_⟩
    intro tip' supply htip' hsupply hfit
    rw [htip, Option.some.injEq] at htip'
    subst htip'
    have hvalue := (getBlockValue_bounds tip.2).1
    have hsum := hfit.supply_le
    have hfunded := funded_fillBlock hpool hsupply (by omega) hfill
    have hrewards := rewards_fillBlockPayee hfit hfunded.fees_nonneg hfunded.fees_le
    exact iff_of_true (hiff.mpr (coinBaseFits_of_rewards hfill hsig hvtx hrewards hfit)) hpow

namespace MinerExample

open SupplyExample

def noPayments : CMasternodePayments where
  getBlockPayee _ := none
  currentMasterNode := none
  getMasternodePayment _ _ := 0
  payment_bounds _ _ h := ⟨le_refl 0, h⟩

/-- The output of the view, which the wallet could stake. -/
def coin : StakeCoin where
  tx := { coinBase [pay 2] with hash := 100 }
  n := 0
  hashBlock := Stake.Fork.staked.hash
  n_lt := by decide

def wallet : CWallet where
  nBalance := 2 * COIN
  nReserveBalance := some 0
  setStakeCoins := some [coin]
  nHashDrift := 30
  nStakeSplitThreshold := 2000
  solver _ := some (TxnOutType.pubKey, [])
  getPubKey _ := none
  getMinimumFee _ := 0
  signSignature _ _ := some [0x51]

/-- Every kernel hits its target. -/
def stake : StakeContext where
  env := ⟨fun _ => 0, fun _ _ _ => true⟩
  chain := Stake.Fork.node [Stake.Fork.genesis, Stake.Fork.staked, Stake.Fork.parent]
  getBlockHeader hash :=
    if hash = Stake.Fork.staked.hash then some Stake.Fork.stakedBlock else none
  adjustedTime := 1619655394
  medianTimePast := 1619651480

theorem headerHash_ne_zero : (8 : UInt256) ≠ 0 := by
  decide

def env : MinerEnv where
  node := { node with getNextWorkRequired := fun _ => 0x1c00ffff }
  payments := noPayments
  wallet := wallet
  stake := stake
  fSearch := true
  pq := PriorityQueue.scan TxPriority
  getHash tx := if tx.vout.length = 1 then 301 else 302
  headerHash _ := ⟨8, headerHash_ne_zero⟩
  nVersion := 3
  medianTimePast := 1619651480
  blockMaxSize := 750000
  blockPrioritySize := 50000
  blockMinSize := 0
  minRelayTxFee := 10000

/-- The pool holds one transaction, which spends the output of the view. -/
def pool : CTxMemPool :=
  ({} : CTxMemPool).addUnchecked spender.hash (newEntry spender)

theorem checked_pool : pool.Checked env.node.params :=
  (CTxMemPool.checked_of_empty rfl).addUnchecked _ (by decide +kernel)

theorem supply_view : SupplyAtMost view (2 * COIN) := by
  have hposition : forall (out out' : COutPoint) (i : Nat),
      (if out = { hash := 100, n := 0 } then some 0 else none) = some i ->
      (if out' = { hash := 100, n := 0 } then some 0 else none) = some i -> out = out' := by
    intro out out' i hout hout'
    split_ifs at hout hout' with h h'
    rw [h, h']
  have hnonneg : forall n, n ∈ [2 * COIN] -> 0 ≤ n := by decide
  have hvalues : valueAt view = fun out =>
      ((if out = { hash := 100, n := 0 } then some 0 else none).bind fun i =>
        [2 * COIN][i]?).getD 0 := by
    funext out
    rcases out with ⟨hash, n⟩
    unfold valueAt unspentAt
    change ((view.coins hash).output? n |>.map CTxOut.nValue).getD 0 = _
    unfold view
    simp only
    by_cases hhash : hash = 100
    · subst hhash
      rw [Function.update_self]
      cases n with
      | zero => rfl
      | succ n => rfl
    · rw [Function.update_of_ne hhash, if_neg fun heq => hhash (congrArg COutPoint.hash heq)]
      rfl
  unfold SupplyAtMost
  rw [hvalues]
  exact totalAtMost_positions hnonneg _ hposition

theorem paymentsFit_env : PaymentsFit env anyoneCanSpend 1 (2 * COIN) := by
  refine ⟨by decide, ?_, by decide, by decide⟩
  intro payment hvoted
  cases hvoted

theorem createNewBlock_isSome (fProofOfStake : Bool) :
    (createNewBlock env view pool anyoneCanSpend fProofOfStake).isSome = true := by
  cases fProofOfStake <;> decide +kernel

def template (fProofOfStake : Bool) : CBlock :=
  (createNewBlock env view pool anyoneCanSpend fProofOfStake).get
    (createNewBlock_isSome fProofOfStake)

theorem createNewBlock_eq (fProofOfStake : Bool) :
    createNewBlock env view pool anyoneCanSpend fProofOfStake =
      some (template fProofOfStake) :=
  (Option.some_get (createNewBlock_isSome fProofOfStake)).symm

end MinerExample

open MinerExample in
theorem contextFree_mined : ContextFree env.node.params (template false) :=
  ((contextFree_iff_of_createNewBlock checked_pool (createNewBlock_eq false)).2 _ _ rfl
    supply_view paymentsFit_env).mpr rfl

open MinerExample SupplyExample in
/-- The same pool, with a coinstake. -/
theorem staked_not_contextFree : pool.Checked env.node.params ∧
    createNewBlock env view pool anyoneCanSpend true = some (template true) ∧
      ¬ ContextFree env.node.params (template true) := by
  refine ⟨checked_pool, createNewBlock_eq true, ?_⟩
  intro h
  have hfails : ((template true).vtx.all fun tx =>
      (checkTransaction env.node.params {} tx).toBool) = false := by
    decide +kernel
  rw [List.all_eq_false] at hfails
  rcases hfails with ⟨tx, hmem, hnot⟩
  rw [h.txs tx hmem] at hnot
  exact hnot rfl

end Hbcur
