import Hbcur.Miner.ContextFree
import Hbcur.Validation.MissingInputs

/-!
# Templates and the coins of the tip

Whether the inputs of a template are there when `ConnectBlock` reaches them.  The selection
decides on a scratch view of its own, into which the coinstake is never put; a transaction of
the pool which spends the staked output is selected all the same.
-/

namespace Hbcur

open Foundation

variable {state : Type} [CoinsState state]

/-!
# The selection on its own
-/

/-- What the miner may rely on: the invariants of the pool, and that it is unconfirmed. -/
structure PoolReady (params : CChainParams) (pool : CTxMemPool) (v : state) : Prop where
  consistent : pool.Consistent
  checked : pool.Checked params
  unconfirmed : forall out : COutPoint, pool.exists? out.hash = true -> unspentAt v out = none

section Selection

variable {env : MinerEnv} {v : state} {pool : CTxMemPool} {nHeight : Int}

namespace Selectable

variable {tx : CTransaction} (h : Selectable env pool nHeight tx)
include h

theorem lookup (hpool : pool.Consistent) :
    exists entry, pool.mapTx.lookup tx.hash = some entry ∧ entry.tx = tx := by
  rcases h.inPool with ⟨hash, entry, hlookup, rfl⟩
  rw [hpool.keyed hash entry hlookup]
  exact ⟨entry, hlookup, rfl⟩

theorem exists? (hpool : pool.Consistent) : pool.exists? tx.hash = true := by
  rcases h.lookup hpool with ⟨entry, hlookup, _⟩
  exact (CTxMemPool.exists?_iff pool tx.hash).mpr ⟨entry, hlookup⟩

theorem eq_of_hash (hpool : pool.Consistent) {other : CTransaction}
    (hother : Selectable env pool nHeight other) (hhash : tx.hash = other.hash) : tx = other := by
  rcases h.lookup hpool with ⟨entry, hlookup, rfl⟩
  rcases hother.lookup hpool with ⟨entry', hlookup', rfl⟩
  rw [hhash, hlookup', Option.some.injEq] at hlookup
  rw [hlookup]

theorem spends_eq : tx.spends = tx.prevouts := by
  unfold CTransaction.spends
  rw [if_neg (by rw [h.notCoinBase]; exact Bool.false_ne_true)]

theorem spends_ne_nil {params : CChainParams} (hchecked : pool.Checked params) :
    tx.spends ≠ [] := by
  rw [h.spends_eq]
  intro hnil
  exact (checkedTransaction_of_ok (h.checked hchecked)).vin_ne_nil (List.map_eq_nil_iff.mp hnil)

end Selectable

/-- The block so far can be connected on top of the tip, and spends nothing twice. -/
structure Filling.Sound (env : MinerEnv) (v : state) (pool : CTxMemPool) (nHeight : Int)
    (filling : Filling state) : Prop where
  txs : forall tx, tx ∈ filling.vtx -> Selectable env pool nHeight tx
  inTurn : InTurn nHeight filling.vtx v filling.view
  ids : (filling.vtx.map CTransaction.hash).Nodup
  spent : forall tx, tx ∈ filling.vtx -> forall out, out ∈ tx.spends ->
    unspentAt filling.view out = none
  parents : forall tx, tx ∈ filling.vtx -> forall out, out ∈ tx.spends ->
    pool.exists? out.hash = true -> out.hash ∈ filling.vtx.map CTransaction.hash
  waiting : forall out : COutPoint, pool.exists? out.hash = true ->
    out.hash ∉ filling.vtx.map CTransaction.hash -> unspentAt filling.view out = none

variable [LawfulCoinsState state]

theorem Filling.Sound.taken {params : CChainParams} (hpool : PoolReady params pool v)
    {before after : Filling state} (h : before.Sound env v pool nHeight) {tx : CTransaction}
    (htx : Selectable env pool nHeight tx) (htaken : Taken env nHeight before tx after) :
    after.Sound env v pool nHeight := by
  rcases htaken.coins with ⟨undo, hupdate⟩
  have hafter := (unspentAt_updateCoins hupdate).1
  have hunspent := (haveInputs_iff before.view tx).mp htaken.inputs
  have hgone : forall out, out ∈ tx.spends -> unspentAt before.view out ≠ none := by
    intro out hout hnone
    have hthere := hunspent out hout
    unfold IsUnspent at hthere
    rw [hnone] at hthere
    cases hthere
  -- A transaction which is in the block already has no inputs left.
  have hnew : tx.hash ∉ before.vtx.map CTransaction.hash := by
    intro hmem
    rcases List.mem_map.mp hmem with ⟨other, hother, hhash⟩
    have heq := (h.txs other hother).eq_of_hash hpool.consistent htx hhash
    subst heq
    rcases List.exists_mem_of_ne_nil _ (htx.spends_ne_nil hpool.checked) with ⟨out, hout⟩
    exact hgone out hout (h.spent other hother out hout)
  have hown := htx.exists? hpool.consistent
  have hinput : forall out, out ∈ tx.spends -> pool.exists? out.hash = true ->
      out.hash ∈ before.vtx.map CTransaction.hash := by
    intro out hout hin
    by_contra hnot
    exact hgone out hout (h.waiting out hin hnot)
  constructor
  · intro other hmem
    rw [htaken.vtx] at hmem
    rcases List.mem_append.mp hmem with hold | hlast
    · exact h.txs other hold
    · rw [List.mem_singleton.mp hlast]
      exact htx
  · rw [htaken.vtx]
    exact inTurn_append h.inTurn ⟨htaken.inputs, undo, after.view, hupdate, rfl⟩
  · rw [htaken.vtx, List.map_append, List.map_singleton]
    exact List.nodup_append.mpr ⟨h.ids, List.nodup_singleton _, fun hash hmem other hlast heq =>
      hnew (List.mem_singleton.mp hlast ▸ heq ▸ hmem)⟩
  · intro other hmem out hout
    rw [htaken.vtx] at hmem
    rw [hafter out]
    rcases List.mem_append.mp hmem with hold | hlast
    · -- The parents of what is in the block are there too, and this one is not.
      have hne : out.hash ≠ tx.hash := fun heq =>
        hnew (heq ▸ h.parents other hold out hout (heq ▸ hown))
      rw [if_neg hne, h.spent other hold out hout, ite_self]
    · rw [List.mem_singleton.mp hlast] at hout
      have hne : out.hash ≠ tx.hash := fun heq => hnew (heq ▸ hinput out hout (heq ▸ hown))
      rw [if_neg hne, if_pos hout]
  · intro other hmem out hout hin
    rw [htaken.vtx] at hmem ⊢
    rw [List.map_append, List.mem_append]
    rcases List.mem_append.mp hmem with hold | hlast
    · exact Or.inl (h.parents other hold out hout hin)
    · rw [List.mem_singleton.mp hlast] at hout
      exact Or.inl (hinput out hout hin)
  · intro out hin hnot
    rw [htaken.vtx, List.map_append, List.mem_append, not_or, List.map_singleton,
      List.mem_singleton] at hnot
    rw [hafter out, if_neg hnot.2, h.waiting out hin hnot.1, ite_self]

theorem sound_fillBlock {params : CChainParams} (hpool : PoolReady params pool v)
    {filling : Filling state} (h : fillBlock env v pool nHeight = some filling) :
    filling.Sound env v pool nHeight := by
  have hstart : ({ view := v } : Filling state).Sound env v pool nHeight :=
    ⟨(fun _ hmem => nomatch hmem), rfl, List.nodup_nil, (fun _ hmem => nomatch hmem),
      (fun _ hmem => nomatch hmem), fun out hin _ => hpool.unconfirmed out hin⟩
  exact fillBlock_invariant hstart (fun before tx after htx hinv htaken =>
    hinv.taken hpool htx htaken) h

end Selection

/-!
# The block
-/

/-- Every input of the block is there at its turn, and `ConnectBlock` agrees. -/
structure Connects (v : state) (nHeight : Int) (block : CBlock) : Prop where
  inTurn : exists v', InTurn nHeight block.vtx v v'
  once : (block.vtx.flatMap CTransaction.spends).Nodup
  parentsFirst : ParentsFirst block.vtx
  notRefused : forall (node : NodeState) (pindex : PIndex) (fJustCheck : Bool),
    pindex.nHeight = nHeight -> connectBlock node {} v block pindex fJustCheck ≠
      Except.error (Failure.dos {} 100 RejectCode.invalid "bad-txns-inputs-missingorspent")

/-- The transactions made for the block have identifiers which do not occur yet. -/
structure NewIds (pool : CTxMemPool) (own : List CTransaction) : Prop where
  ids : (own.map CTransaction.hash).Nodup
  notInPool : forall tx, tx ∈ own -> pool.exists? tx.hash = false
  notSpent : forall tx, tx ∈ own -> forall hash entry, pool.mapTx.lookup hash = some entry ->
    forall out, out ∈ entry.tx.prevouts -> out.hash ≠ tx.hash
  notStaked : forall tx, tx ∈ own -> forall other, other ∈ own ->
    forall out, out ∈ other.spends -> out.hash ≠ tx.hash

section Front

variable [LawfulCoinsState state] {env : MinerEnv} {v : state} {pool : CTxMemPool}
  {nHeight : Int} {filling : Filling state} {own : List CTransaction} {params : CChainParams}

theorem inFront_of_newIds (hpool : PoolReady params pool v)
    (hfill : fillBlock env v pool nHeight = some filling)
    (hids : NewIds pool own) (hspends : (own.flatMap CTransaction.spends).Nodup) :
    InFront own filling.vtx v := by
  have hsound := sound_fillBlock hpool hfill
  refine ⟨hspends, ?_, ?_, ?_⟩
  · intro tx htx other hother out hout
    rcases List.mem_append.mp hother with hmine | hselected
    · exact hids.notStaked tx htx other hmine out hout
    · have hsel := hsound.txs other hselected
      rcases hsel.lookup hpool.consistent with ⟨entry, hlookup, heq⟩
      rw [hsel.spends_eq, ← heq] at hout
      exact hids.notSpent tx htx _ entry hlookup out hout
  · intro tx htx
    exact spends_nodup (checkedTransaction_of_ok ((hsound.txs tx htx).checked hpool.checked))
  · intro tx htx out heq
    exact hpool.unconfirmed out (heq ▸ (hsound.txs tx htx).exists? hpool.consistent)

/-- A block which is made of new transactions and of those selected. -/
theorem connects_iff_of_front (hpool : PoolReady params pool v)
    (hfill : fillBlock env v pool nHeight = some filling) (hids : NewIds pool own)
    (hspends : (own.flatMap CTransaction.spends).Nodup) {block : CBlock}
    (hvtx : block.vtx = own ++ filling.vtx) :
    Connects v nHeight block <->
      forall out, out ∈ own.flatMap CTransaction.spends ->
        IsUnspent v out ∧ forall tx, tx ∈ filling.vtx -> out ∉ tx.spends := by
  have hsound := sound_fillBlock hpool hfill
  have hfront := inFront_of_newIds hpool hfill hids hspends
  have hiff := inTurn_inFront_iff hfront hsound.inTurn
  have hall : (block.vtx.map CTransaction.hash).Nodup := by
    rw [hvtx, List.map_append]
    refine List.nodup_append.mpr ⟨hids.ids, hsound.ids, ?_⟩
    intro hash hmine other hselected heq
    rcases List.mem_map.mp hmine with ⟨tx, htx, rfl⟩
    rcases List.mem_map.mp hselected with ⟨sel, hsel, rfl⟩
    have hin := (hsound.txs sel hsel).exists? hpool.consistent
    rw [← heq, hids.notInPool tx htx] at hin
    cases hin
  have hunnamed : Unnamed block.vtx v := by
    rw [hvtx]
    intro tx htx other hother out hout heq
    rcases List.mem_append.mp htx with hmine | hselected
    · exact absurd heq (hfront.ownIds tx hmine other hother out hout)
    · exact hfront.ids tx hselected out heq
  constructor
  · intro h
    rcases h.inTurn with ⟨v', hturn⟩
    rw [hvtx] at hturn
    exact hiff.mp ⟨v', hturn⟩
  · intro hfree
    rcases hiff.mpr hfree with ⟨v', hturn⟩
    rw [← hvtx] at hturn
    refine ⟨⟨v', hturn⟩, ?_, parentsFirst_of_inTurn _ hall hunnamed hturn, ?_⟩
    · refine spends_nodup_of_inTurn _ hall ?_ hunnamed hturn
      intro tx htx
      rw [hvtx] at htx
      rcases List.mem_append.mp htx with hmine | hselected
      · exact (List.nodup_flatMap.mp hspends).1 tx hmine
      · exact hfront.spends tx hselected
    · intro node pindex fJustCheck hheight
      rw [← hheight] at hturn
      exact connectBlock_inputsNotMissing hturn fJustCheck

end Front

/-!
# The coinstake
-/

/-- The coinstake which would be found spends one output of the wallet. -/
theorem prevouts_findStake {env : MinerEnv} {tipHeight : Int} {nBits : Nat}
    {coinStake : CTransaction} {nTime : Nat}
    (h : env.findStake tipHeight nBits = some (coinStake, nTime)) :
    exists setStakeCoins coin, env.wallet.setStakeCoins = some setStakeCoins ∧
      coin ∈ setStakeCoins ∧ coinStake.prevouts = [coin.prevout] := by
  unfold MinerEnv.findStake at h
  split_ifs at h
  rcases Option.map_eq_some_iff.mp h with ⟨⟨txNew, nTxNewTime⟩, hcreate, heq⟩
  cases heq
  exact prevouts_createCoinStake hcreate

/-- Whether what a coinstake spends is left alone by the chain and by the selection. -/
def StakeLeftAlone (env : MinerEnv) (v : state) (pool : CTxMemPool)
    (tip : BlockHash × Int) : Prop :=
  forall coinStake nTime, env.findStake tip.2 (env.node.getNextWorkRequired
      (env.emptyHeader env.node.adjustedTime.toNat)) = some (coinStake, nTime) ->
    forall out, out ∈ coinStake.spends -> IsUnspent v out ∧
      forall filling, fillBlock env v pool (tip.2 + 1) = some filling ->
        forall tx, tx ∈ filling.vtx -> out ∉ tx.spends

/-- The wallet only offers outputs which are unspent, in the chain and in the pool. -/
def WalletCurrent (env : MinerEnv) (v : state) (pool : CTxMemPool) : Prop :=
  forall setStakeCoins coin, env.wallet.setStakeCoins = some setStakeCoins ->
    coin ∈ setStakeCoins -> IsUnspent v coin.prevout ∧
      forall hash entry, pool.mapTx.lookup hash = some entry ->
        coin.prevout ∉ entry.tx.prevouts

theorem mem_spends {tx : CTransaction} {out : COutPoint} (h : out ∈ tx.spends) :
    out ∈ tx.prevouts := by
  unfold CTransaction.spends at h
  split_ifs at h
  · cases h
  · exact h

theorem stakeLeftAlone_of_walletCurrent {env : MinerEnv} {v : state} {pool : CTxMemPool}
    {tip : BlockHash × Int} (h : WalletCurrent env v pool) : StakeLeftAlone env v pool tip := by
  intro coinStake nTime hstake out hout
  rcases prevouts_findStake hstake with ⟨setStakeCoins, coin, hcoins, hmem, hprevouts⟩
  have hout := mem_spends hout
  rw [hprevouts, List.mem_singleton] at hout
  rcases h setStakeCoins coin hcoins hmem with ⟨hunspent, hpool⟩
  rw [hout]
  refine ⟨hunspent, ?_⟩
  intro filling hfill tx htx hspends
  rcases (selectable_fillBlock hfill tx htx).inPool with ⟨hash, entry, hlookup, rfl⟩
  exact hpool hash entry hlookup (mem_spends hspends)

theorem nodup_spends_of_prevouts {tx : CTransaction} {out : COutPoint}
    (h : tx.prevouts = [out]) : tx.spends.Nodup := by
  unfold CTransaction.spends
  split_ifs
  · exact List.nodup_nil
  · rw [h]
    exact List.nodup_singleton out

/-- A pool which is coherent with a chain whose coins are outputs of its transactions. -/
theorem poolReady_of_coherent {params : CChainParams} {s : PoolChain state}
    (hcoherent : s.Coherent) (hconsistent : s.pool.Consistent) (hchecked : s.pool.Checked params)
    (hledger : forall out, IsUnspent s.chain.coins out ->
      out.hash ∈ s.chain.ledger.map CTransaction.hash) :
    PoolReady params s.pool s.chain.coins := by
  refine ⟨hconsistent, hchecked, ?_⟩
  intro out hin
  by_contra hunspent
  exact hcoherent.unconfirmed out.hash hin (hledger out (Option.ne_none_iff_isSome.mp hunspent))

section Template

variable [LawfulCoinsState state] {env : MinerEnv} {v : state} {pool : CTxMemPool}
  {scriptPubKeyIn : CScript} {block : CBlock} {tip : BlockHash × Int} {filling : Filling state}
  {params : CChainParams} (hpool : PoolReady params pool v)
  (hfill : fillBlock env v pool (tip.2 + 1) = some filling)
include hpool hfill

theorem connects_staked_iff {coinBase coinStake : CTransaction} {out : COutPoint}
    (hcoinBase : coinBase.spends = []) (hprevouts : coinStake.prevouts = [out])
    (hvtx : block.vtx = coinBase :: coinStake :: filling.vtx)
    (hids : NewIds pool (block.vtx.take 2)) :
    Connects v (tip.2 + 1) block <->
      forall out, out ∈ coinStake.spends ->
        IsUnspent v out ∧ forall tx, tx ∈ filling.vtx -> out ∉ tx.spends := by
  have hspends : [coinBase, coinStake].flatMap CTransaction.spends = coinStake.spends := by
    rw [List.flatMap_cons, hcoinBase, List.nil_append, List.flatMap_singleton]
  have hnodup : ([coinBase, coinStake].flatMap CTransaction.spends).Nodup := by
    rw [hspends]
    exact nodup_spends_of_prevouts hprevouts
  have hown : block.vtx.take 2 = [coinBase, coinStake] := by
    rw [hvtx]
    rfl
  rw [hown] at hids
  rw [connects_iff_of_front hpool hfill hids hnodup hvtx, hspends]

theorem connects_mined {nFees : Int}
    (hvtx : block.vtx = env.coinBase scriptPubKeyIn tip.2 nFees :: filling.vtx)
    (hids : NewIds pool (block.vtx.take 1)) : Connects v (tip.2 + 1) block := by
  have hcb : (env.coinBase scriptPubKeyIn tip.2 nFees).isCoinBase = true := by
    unfold CTransaction.isCoinBase
    rw [vin_coinBase]
    rfl
  have hspends : [env.coinBase scriptPubKeyIn tip.2 nFees].flatMap CTransaction.spends = [] := by
    rw [List.flatMap_singleton]
    unfold CTransaction.spends
    rw [if_pos hcb]
  have hnodup : ([env.coinBase scriptPubKeyIn tip.2 nFees].flatMap
      CTransaction.spends).Nodup := by
    rw [hspends]
    exact List.nodup_nil
  have hown : block.vtx.take 1 = [env.coinBase scriptPubKeyIn tip.2 nFees] := by
    rw [hvtx]
    rfl
  rw [hown] at hids
  apply (connects_iff_of_front hpool hfill hids hnodup hvtx).mpr
  rw [hspends]
  exact fun out hmem => nomatch hmem

end Template

/-- There is only one coinstake and one selection to be asked about. -/
theorem stakeLeftAlone_iff {env : MinerEnv} {v : state} {pool : CTxMemPool}
    {tip : BlockHash × Int} {coinStake : CTransaction} {nTime : Nat} {filling : Filling state}
    (hstake : env.findStake tip.2 (env.node.getNextWorkRequired
      (env.emptyHeader env.node.adjustedTime.toNat)) = some (coinStake, nTime))
    (hfill : fillBlock env v pool (tip.2 + 1) = some filling) :
    StakeLeftAlone env v pool tip <->
      forall out, out ∈ coinStake.spends ->
        IsUnspent v out ∧ forall tx, tx ∈ filling.vtx -> out ∉ tx.spends := by
  constructor
  · intro h out hout
    rcases h coinStake nTime hstake out hout with ⟨hunspent, hselected⟩
    exact ⟨hunspent, hselected filling hfill⟩
  · intro h other nTime' hother out hout
    rw [hstake, Option.some.injEq, Prod.mk.injEq] at hother
    rcases hother with ⟨rfl, _⟩
    refine ⟨(h out hout).1, ?_⟩
    intro filling' hfill'
    rw [hfill, Option.some.injEq] at hfill'
    subst hfill'
    exact (h out hout).2

/--
A template connects unless its coinstake spends what is gone, or what the selection spends as
well.  Neither happens where the wallet is up to date.
-/
theorem connects_iff_of_createNewBlock [LawfulCoinsState state] {env : MinerEnv} {v : state}
    {pool : CTxMemPool} {scriptPubKeyIn : CScript} {fProofOfStake : Bool} {block : CBlock}
    {tip : BlockHash × Int} (hpool : PoolReady env.node.params pool v)
    (htip : env.node.tip = some tip)
    (hcreate : createNewBlock env v pool scriptPubKeyIn fProofOfStake = some block)
    (hids : NewIds pool (block.vtx.take (if fProofOfStake then 2 else 1))) :
    (Connects v (tip.2 + 1) block <->
      (fProofOfStake = true -> StakeLeftAlone env v pool tip)) ∧
      (WalletCurrent env v pool -> Connects v (tip.2 + 1) block) := by
  have hiff : Connects v (tip.2 + 1) block <->
      (fProofOfStake = true -> StakeLeftAlone env v pool tip) := by
    rcases createNewBlock_cases hcreate with
      ⟨tip', filling, htip', hfill, _, ⟨hpos, coinStake, nTime, hstake, hvtx⟩ | ⟨hpow, hvtx⟩⟩
    · rw [htip, Option.some.injEq] at htip'
      subst htip'
      rw [hpos, if_pos rfl] at hids
      rcases prevouts_findStake hstake with ⟨_, coin, _, _, hprevouts⟩
      rw [connects_staked_iff hpool hfill rfl hprevouts hvtx hids, stakeLeftAlone_iff hstake hfill]
      exact ⟨fun h _ => h, fun h => h hpos⟩
    · rw [htip, Option.some.injEq] at htip'
      subst htip'
      rw [hpow, if_neg Bool.false_ne_true] at hids
      apply iff_of_true (connects_mined hpool hfill hvtx hids)
      rw [hpow]
      exact fun h => nomatch h
  exact ⟨hiff, fun hcurrent => hiff.mpr fun _ => stakeLeftAlone_of_walletCurrent hcurrent⟩

namespace MinerExample

open SupplyExample

theorem exists?_pool {hash : UInt256} (h : pool.exists? hash = true) : hash = spender.hash := by
  unfold pool at h
  rw [CTxMemPool.exists?_addUnchecked, Bool.or_eq_true, decide_eq_true_iff] at h
  exact h.resolve_right (fun hempty => nomatch hempty)

theorem lookup_pool {hash : UInt256} {entry : CTxMemPoolEntry}
    (h : pool.mapTx.lookup hash = some entry) : entry = newEntry spender := by
  unfold pool at h
  rw [CTxMemPool.lookup_mapTx_addUnchecked] at h
  split_ifs at h
  · cases h
    rfl
  · cases h

theorem poolReady_pool : PoolReady env.node.params pool view := by
  refine ⟨?_, checked_pool, ?_⟩
  · apply (CTxMemPool.consistent_of_empty rfl rfl rfl).addUnchecked
    exact ⟨rfl, rfl, by decide, fun _ _ => rfl⟩
  · intro out hin
    have hhash := exists?_pool hin
    unfold unspentAt
    rw [hhash]
    rfl

theorem newIds_pool {own : List CTransaction}
    (h : (own.map CTransaction.hash).Nodup ∧
      (forall tx, tx ∈ own -> tx.hash ≠ spender.hash ∧ tx.hash ≠ 100) ∧
      forall tx, tx ∈ own -> forall other, other ∈ own -> forall out, out ∈ other.spends ->
        out.hash ≠ tx.hash) : NewIds pool own := by
  rcases h with ⟨hids, hnew, hstaked⟩
  refine ⟨hids, ?_, ?_, hstaked⟩
  · intro tx htx
    rw [Bool.eq_false_iff]
    exact fun hin => (hnew tx htx).1 (exists?_pool hin)
  · intro tx htx hash entry hlookup out hout heq
    rw [lookup_pool hlookup] at hout
    change out ∈ [({ hash := 100, n := 0 } : COutPoint)] at hout
    rw [List.mem_singleton] at hout
    rw [hout] at heq
    exact (hnew tx htx).2 heq.symm

end MinerExample

open MinerExample in
theorem connects_mined_template : Connects SupplyExample.view 2 (template false) := by
  refine (connects_iff_of_createNewBlock poolReady_pool rfl (createNewBlock_eq false)
    (newIds_pool ?_)).1.mpr (fun h => nomatch h)
  decide +kernel

open MinerExample in
/-- The staked output is spent by the pool as well. -/
theorem staked_template_spends_twice : PoolReady env.node.params pool SupplyExample.view ∧
    createNewBlock env SupplyExample.view pool SupplyExample.anyoneCanSpend true =
      some (template true) ∧
      NewIds pool ((template true).vtx.take 2) ∧
        ¬ Connects SupplyExample.view 2 (template true) := by
  refine ⟨poolReady_pool, createNewBlock_eq true, newIds_pool ?_, ?_⟩
  · decide +kernel
  · intro h
    have honce := h.once
    revert honce
    decide +kernel

/-!
# Templates along a run
-/

namespace PoolChain

/-- Steps by the rules of one chain, with nothing repeatable and every coinbase new. -/
def Orderly (params : CChainParams) (txOf : UInt256 -> CTransaction) (s : PoolChain state)
    (step : PoolStep) : Prop :=
  Admitted txOf s step ∧ UsesParams params step ∧
    forall node vstate block, step = PoolStep.connectTip node vstate block ->
      CoinBaseFresh s.chain block

structure Ordered (params : CChainParams) (txOf : UInt256 -> CTransaction)
    (s : PoolChain state) : Prop where
  invariant : Invariant txOf s
  checked : s.pool.Checked params
  bounds : ChainBounds s.chain

section Mining

variable {params : CChainParams} {txOf : UInt256 -> CTransaction} {s : PoolChain state}

theorem txIdsDistinguish_of_named (h : Invariant txOf s) {block : CBlock}
    (htxs : forall tx, tx ∈ block.vtx -> txOf tx.hash = tx) :
    TxIdsDistinguish s.chain.ledger block.vtx := by
  intro tx htx other hother heq
  have hnamed : txOf other.hash = other := by
    rcases List.mem_append.mp hother with hledger | hblock
    · rcases List.mem_flatMap.mp hledger with ⟨entry, hentry, hmem⟩
      exact h.chain.named entry (List.mem_reverse.mp hentry) other hmem
    · exact htxs other hblock
  rw [← htxs tx htx, heq, hnamed]

variable [LawfulCoinsState state]

theorem Ordered.next (h : Ordered params txOf s) (step : PoolStep)
    (horderly : Orderly params txOf s step) : Ordered params txOf (s.next step) := by
  rcases horderly with ⟨hadmitted, hparams, hfresh⟩
  refine ⟨h.invariant.next step hadmitted, checked_next h.checked step hparams, ?_⟩
  cases step with
  | accept env tx => exact h.bounds
  | connectTip node vstate block =>
      unfold PoolChain.next
      simp only
      split
      · exact h.bounds
      · rename_i chain hconnect
        have hsteps : freshSteps s.chain (ChainStep.connect node vstate block) :=
          ⟨hfresh node vstate block rfl, txIdsDistinguish_of_named h.invariant hadmitted⟩
        exact (chainBounds_connectTip h.bounds hsteps hconnect).1
  | disconnectTip env cached blockUndo =>
      unfold PoolChain.next
      simp only
      split
      · exact h.bounds
      · rename_i chain hdisconnect
        exact chainBounds_disconnectTip h.bounds hdisconnect

/-- Whatever is assembled on the tip connects to it. -/
def Mines (params : CChainParams) (s : PoolChain state) : Prop :=
  forall (env : MinerEnv) (scriptPubKeyIn : CScript) (fProofOfStake : Bool) (block : CBlock),
    env.node.params = params ->
    env.node.tip = some (s.chain.tip.hash, s.chain.tip.nHeight) ->
    createNewBlock env s.chain.coins s.pool scriptPubKeyIn fProofOfStake = some block ->
    NewIds s.pool (block.vtx.take (if fProofOfStake then 2 else 1)) ->
    (fProofOfStake = true -> WalletCurrent env s.chain.coins s.pool) ->
    Connects s.chain.coins (s.chain.tip.nHeight + 1) block

theorem Ordered.mines (h : Ordered params txOf s) : s.Mines params := by
  intro env scriptPubKeyIn fProofOfStake block hparams htip hcreate hids hwallet
  have hpool : PoolReady params s.pool s.chain.coins := by
    refine poolReady_of_coherent h.invariant.coherent h.invariant.pool.consistent h.checked ?_
    intro out hunspent
    rcases Option.isSome_iff_exists.mp hunspent with ⟨txout, hout⟩
    exact (h.bounds.coins.unspent out txout hout).1
  rcases createNewBlock_cases hcreate with
    ⟨tip, filling, htip', hfill, _, ⟨rfl, coinStake, nTime, hstake, hvtx⟩ | ⟨rfl, hvtx⟩⟩
  · rw [htip, Option.some.injEq] at htip'
    subst htip'
    rcases prevouts_findStake hstake with ⟨_, coin, _, _, hprevouts⟩
    apply (connects_staked_iff hpool hfill rfl hprevouts hvtx hids).mpr
    exact (stakeLeftAlone_iff hstake hfill).mp (stakeLeftAlone_of_walletCurrent (hwallet rfl))
  · rw [htip, Option.some.injEq] at htip'
    subst htip'
    exact connects_mined hpool hfill hvtx hids

/--
From the genesis block and an empty pool, in every order of transactions offered, blocks connected
and blocks disconnected: what the miner assembles on the tip connects, if it stakes what is there.
-/
theorem mines_along (params : CChainParams) (txOf : UInt256 -> CTransaction)
    {s : PoolChain state} (hstart : s.Starts) (steps : List PoolStep)
    (hsteps : StepsSatisfy next (Orderly params txOf) s steps) :
    StatesSatisfy next (Mines params) s steps := by
  have hfirst : Ordered params txOf s := by
    refine ⟨invariant_of_starts hstart, ?_, chainBounds_of_started hstart.1⟩
    rw [hstart.2]
    exact CTxMemPool.checked_of_empty rfl
  exact statesSatisfy_of_steps (Ordered params txOf) (fun _ h => h.mines)
    (fun _ step h horderly => h.next step horderly) steps s hfirst hsteps

end Mining

end PoolChain

open CoherenceExample OverwriteExample PoolChain in
theorem mines_along_short :
    StatesSatisfy next (Mines CChainParams.mainParams) poolStart shortSteps := by
  refine mines_along CChainParams.mainParams txOf poolStart_starts shortSteps
    ⟨⟨?_, trivial, ?_⟩, ⟨⟨rfl, ?_⟩, rfl, ?_⟩, ⟨?_, rfl, ?_⟩, trivial⟩
  · change forall tx, tx ∈ (blockAt 1).vtx -> CoherenceExample.txOf tx.hash = tx
    decide +kernel
  · intro node vstate block heq tx htx hcb hmem
    cases hmem
  · rintro ⟨hconfirmed, _⟩
    revert hconfirmed
    decide +kernel
  · intro node vstate block heq
    cases heq
  · unfold Admitted
    decide +kernel
  · intro node vstate block heq
    cases heq

end Hbcur
