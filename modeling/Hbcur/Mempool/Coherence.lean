import Hbcur.Mempool.Resurrection

/-!
# The pool and the chain

The pool beside the active chain under `AcceptToMemoryPool`, `ConnectTip` and
`DisconnectTip`.  Every input of the pool stays available; a transaction which is confirmed
can only come in where all its outputs are spent and all its inputs are there once more.
-/

namespace Hbcur

open Foundation CCoins

variable {state : Type} [CoinsState state]

structure PoolChain (state : Type) where
  chain : ActiveChain state
  pool : CTxMemPool := {}

inductive PoolStep where
  | accept (env : AcceptEnv) (tx : CTransaction)
  | connectTip (node : NodeState) (vstate : CValidationState) (block : CBlock)
  | disconnectTip (env : AcceptEnv) (cached : UInt256 -> Bool) (blockUndo : CBlockUndo)

namespace ActiveChain

/-- The transactions of the last block. -/
def tipTxs (s : ActiveChain state) : List CTransaction :=
  match s.blocks with
  | [] => []
  | (block, _) :: _ => block.vtx

/-- The transactions of the blocks below it. -/
def ledgerBelow (s : ActiveChain state) : List CTransaction :=
  { s with blocks := s.blocks.tail }.ledger

end ActiveChain

namespace PoolChain

/-- A block which cannot be connected or disconnected leaves everything as it was. -/
def next (s : PoolChain state) : PoolStep -> PoolChain state
  | PoolStep.accept env tx =>
      { s with pool := (acceptToMemoryPool env s.chain.coins s.pool tx).2 }
  | PoolStep.connectTip node vstate block =>
      match s.chain.connectTip node vstate block with
      | none => s
      | some chain =>
          { chain := chain
            pool := (s.pool.removeForBlock block.vtx []).1 }
  | PoolStep.disconnectTip env cached blockUndo =>
      match s.chain.disconnectTip blockUndo with
      | none => s
      | some chain =>
          let pool := s.chain.tipTxs.foldl (resurrectTx env chain.coins) s.pool
          { chain := chain
            pool := pool.removeCoinbaseSpends (accessCoins chain.coins cached)
              (toUInt32 s.chain.tip.nHeight) (toUInt32 env.node.params.nMaturity) }

/-- The genesis block alone and an empty pool. -/
def Starts (s : PoolChain state) : Prop :=
  Started s.chain ∧ s.pool = {}

/-!
# Coherence
-/

structure Coherent (s : PoolChain state) : Prop where
  available : forall hash entry out, s.pool.mapTx.lookup hash = some entry ->
    out ∈ entry.tx.prevouts ->
    (exists parent, s.pool.mapTx.lookup out.hash = some parent ∧ out.hash ≠ hash ∧
      out.n < parent.tx.vout.length) ∨
      (coinsAt s.chain.coins out.hash).isAvailable out.n = true
  unconfirmed : forall hash, s.pool.exists? hash = true ->
    hash ∉ s.chain.ledger.map CTransaction.hash

/--
A transaction of the chain which `AcceptToMemoryPool` does not recognize: its outputs are
spent, and its inputs are there to be spent a second time.
-/
def Repeatable (s : PoolChain state) (tx : CTransaction) : Prop :=
  tx.hash ∈ s.chain.ledger.map CTransaction.hash ∧
    haveCoins (s.pool.view s.chain.coins) tx.hash = false ∧
    haveInputs (s.pool.view s.chain.coins) tx = true

/-- The identifiers which come up are those of one transaction each. -/
def Admitted (txOf : UInt256 -> CTransaction) (s : PoolChain state) : PoolStep -> Prop
  | PoolStep.accept _ tx => txOf tx.hash = tx ∧ ¬ Repeatable s tx
  | PoolStep.connectTip _ _ block => forall tx, tx ∈ block.vtx -> txOf tx.hash = tx
  | PoolStep.disconnectTip _ _ _ => forall tx, tx ∈ s.chain.tipTxs ->
      tx.isCoinBase = false -> tx.isCoinStake = false ->
      tx.hash ∉ s.chain.ledgerBelow.map CTransaction.hash

/-- What the blocks of the chain leave behind. -/
structure ChainNamed (txOf : UInt256 -> CTransaction) (s : ActiveChain state) : Prop where
  coins : CoinsNamed txOf s.coins
  named : forall entry, entry ∈ s.blocks -> forall tx, tx ∈ entry.1.vtx -> txOf tx.hash = tx
  spends : forall entry, entry ∈ s.blocks -> forall tx, tx ∈ entry.1.vtx ->
    forall out, out ∈ tx.spends -> IsOutput txOf out
  coinBaseFirst : forall entry, entry ∈ s.blocks -> entry.1.CoinBaseFirst

structure Invariant (txOf : UInt256 -> CTransaction) (s : PoolChain state) : Prop where
  chain : ChainNamed txOf s.chain
  pool : s.pool.Named txOf
  supported : s.pool.Supported (IsUnspent s.chain.coins)
  unconfirmed : forall hash, s.pool.exists? hash = true ->
    hash ∉ s.chain.ledger.map CTransaction.hash

variable {txOf : UInt256 -> CTransaction}

theorem Invariant.coherent {s : PoolChain state} (h : Invariant txOf s) : Coherent s := by
  refine ⟨?_, h.unconfirmed⟩
  intro hash entry out hlookup hmem
  rcases h.supported hash entry out hlookup hmem with hin | hunspent | hnil
  · rcases (CTxMemPool.exists?_iff _ _).mp hin with ⟨parent, hparent⟩
    rcases h.pool.outputs hash entry out hlookup hmem with ⟨houtput, hne⟩
    refine Or.inl ⟨parent, hparent, hne, ?_⟩
    rw [← h.pool.named out.hash parent hparent]
    exact houtput.lt_length
  · right
    rw [isAvailable_eq]
    exact hunspent
  · cases hnil

theorem invariant_of_starts {s : PoolChain state} (h : s.Starts) : Invariant txOf s := by
  rcases h with ⟨⟨hblocks, hcoins⟩, hpool⟩
  refine ⟨⟨?_, ?_, ?_, ?_⟩, ?_, ?_, ?_⟩
  · intro out hout
    unfold IsUnspent at hout
    rw [hcoins out] at hout
    cases hout
  · rw [hblocks]
    exact fun _ hmem => nomatch hmem
  · rw [hblocks]
    exact fun _ hmem => nomatch hmem
  · rw [hblocks]
    exact fun _ hmem => nomatch hmem
  · rw [hpool]
    exact CTxMemPool.named_of_empty rfl rfl rfl
  · intro hash entry out hlookup
    rw [hpool] at hlookup
    cases hlookup
  · intro hash hin
    rw [hpool] at hin
    cases hin

/-!
# The steps
-/

section Steps

variable [LawfulCoinsState state] {s : PoolChain state}

omit [LawfulCoinsState state] in
theorem Invariant.accept (h : Invariant txOf s) {env : AcceptEnv} {tx : CTransaction}
    (htx : txOf tx.hash = tx) (hnew : ¬ Repeatable s tx) :
    Invariant txOf (s.next (PoolStep.accept env tx)) := by
  change Invariant txOf
    { s with pool := (acceptToMemoryPool env s.chain.coins s.pool tx).2 }
  cases hadd : (acceptToMemoryPool env s.chain.coins s.pool tx).1.toBool with
  | false =>
      rcases CTxMemPool.resurrected_refused env s.chain.coins tx hadd with ⟨deltas, heq⟩
      rw [heq]
      exact ⟨h.chain, h.pool.withDeltas deltas, h.supported, h.unconfirmed⟩
  | true =>
      have haccept := CTxMemPool.resurrected_accept h.pool h.chain.coins htx
        (fun _ hunspent => hunspent) (h.supported.mono fun _ hunspent => Or.inl hunspent) hadd
      refine ⟨h.chain, haccept.named, haccept.supported, ?_⟩
      intro hash hin
      rcases haccept.only hash hin with hold | ⟨rfl, haccepted⟩
      · exact h.unconfirmed hash hold
      · exact fun hconfirmed => hnew ⟨hconfirmed, haccepted.unknown, haccepted.inputs⟩

/-- What connecting a block does to the chain. -/
theorem connectTip_spec {c c' : ActiveChain state} {node : NodeState}
    {vstate : CValidationState} {block : CBlock}
    (h : c.connectTip node vstate block = some c') :
    c'.ledger = c.ledger ++ block.vtx ∧
      (exists index, c'.blocks = (block, index) :: c.blocks) ∧ block.CoinBaseFirst ∧
      exists undos v', updateCoinsAll c.coins (c.tip.nHeight + 1) block.vtx = some (undos, v') ∧
        forall out, unspentAt c'.coins out = unspentAt v' out := by
  unfold ActiveChain.connectTip at h
  split_ifs at h with hgenesis
  cases hblock : connectBlock node vstate c.coins block (c.nextIndex block) false with
  | error err =>
      rw [hblock] at h
      cases h
  | ok connected =>
      simp only [hblock, Option.some.injEq] at h
      rcases connectBlock_accepted hgenesis rfl hblock with
        ⟨haccepted, _, undos, v', hall, _, hview⟩
      rcases hview rfl with ⟨hash, _, hview⟩
      subst h
      refine ⟨ledger_cons rfl, ⟨_, rfl⟩, haccepted.checked.coinBaseFirst, undos, v', hall, ?_⟩
      intro out
      change unspentAt connected.view out = _
      rw [hview, unspentAt_setBestBlock]

theorem ChainNamed.connectTip {c c' : ActiveChain state} (h : ChainNamed txOf c)
    {node : NodeState} {vstate : CValidationState} {block : CBlock}
    (htxs : forall tx, tx ∈ block.vtx -> txOf tx.hash = tx)
    (hconnect : c.connectTip node vstate block = some c') : ChainNamed txOf c' := by
  rcases connectTip_spec hconnect with ⟨_, ⟨index, hblocks⟩, hcb, undos, v', hall, hcoins⟩
  rcases coinsNamed_updateCoinsAll block.vtx h.coins htxs hall with ⟨hnamed, hspends⟩
  constructor
  · intro out hout
    refine hnamed out ?_
    unfold IsUnspent at hout ⊢
    rw [← hcoins out]
    exact hout
  · rw [hblocks]
    exact List.forall_mem_cons.mpr ⟨htxs, h.named⟩
  · rw [hblocks]
    exact List.forall_mem_cons.mpr ⟨hspends, h.spends⟩
  · rw [hblocks]
    exact List.forall_mem_cons.mpr ⟨hcb, h.coinBaseFirst⟩

theorem Invariant.connectTip (h : Invariant txOf s) {node : NodeState}
    {vstate : CValidationState} {block : CBlock}
    (htxs : forall tx, tx ∈ block.vtx -> txOf tx.hash = tx) :
    Invariant txOf (s.next (PoolStep.connectTip node vstate block)) := by
  unfold next
  simp only
  cases hconnect : s.chain.connectTip node vstate block with
  | none => exact h
  | some chain =>
      rcases connectTip_spec hconnect with ⟨hledger, _, _, undos, v', hall, hcoins⟩
      have hremoved := CTxMemPool.blockRemoved_removeForBlock block.vtx s.pool [] h.pool
        h.supported
      refine ⟨h.chain.connectTip htxs hconnect, hremoved.named, ?_, ?_⟩
      · intro hash entry out hlookup hmem
        have houtput := (hremoved.named.outputs hash entry out hlookup hmem).1
        -- What the pool still spends is not spent by the block.
        have hunspent : forall tx, tx ∈ block.vtx -> out ∉ tx.spends := by
          intro tx htx hspends
          refine hremoved.unspends tx htx out ?_ hash entry hlookup hmem
          unfold CTransaction.spends at hspends
          split_ifs at hspends
          · cases hspends
          · exact hspends
        refine (hremoved.supported hash entry out hlookup hmem).imp_right fun hor => ?_
        rcases hor with hor | hnil
        · left
          have hafter := isUnspent_updateCoinsAll houtput block.vtx htxs hunspent hall hor
          unfold IsUnspent at hafter ⊢
          rw [hcoins out]
          exact hafter
        · cases hnil
      · intro hash hin
        rcases (CTxMemPool.exists?_iff _ _).mp hin with ⟨entry, hlookup⟩
        have hold := CTxMemPool.exists?_of_shrinks hremoved.shrinks hin
        change hash ∉ chain.ledger.map CTransaction.hash
        rw [hledger, List.map_append, List.mem_append, not_or]
        refine ⟨h.unconfirmed hash hold, ?_⟩
        intro hmem
        rcases List.mem_map.mp hmem with ⟨tx, htx, rfl⟩
        rw [hremoved.gone tx htx] at hlookup
        cases hlookup

/-- What disconnecting a block does to the chain. -/
theorem disconnectTip_spec {c c' : ActiveChain state} {blockUndo : CBlockUndo}
    (h : c.disconnectTip blockUndo = some c') :
    exists block index, c.blocks = (block, index) :: c'.blocks ∧
      exists v', disconnectTxs c.coins index.nHeight
          (block.vtx.zip (none :: blockUndo.vtxundo.map some)) = some (true, v') ∧
        forall out, unspentAt c'.coins out = unspentAt v' out := by
  unfold ActiveChain.disconnectTip at h
  cases hblocks : c.blocks with
  | nil =>
      rw [hblocks] at h
      cases h
  | cons entry rest =>
      rcases entry with ⟨block, index⟩
      rw [hblocks] at h
      simp only at h
      split at h
      · rename_i v hblock
        cases h
        refine ⟨block, index, rfl, ?_⟩
        unfold disconnectBlock at hblock
        split_ifs at hblock with hbest hlen
        cases htxs : disconnectTxs c.coins index.nHeight
            (block.vtx.zip (none :: blockUndo.vtxundo.map some)) with
        | none =>
            rw [htxs] at hblock
            cases hblock
        | some result =>
            rcases result with ⟨fClean, v1⟩
            simp only [htxs, Option.some.injEq, Prod.mk.injEq] at hblock
            rcases hblock with ⟨rfl, rfl⟩
            exact ⟨v1, rfl, fun out => unspentAt_setBestBlock v1 _ out⟩
      · cases h

omit [CoinsState state] [LawfulCoinsState state] in
theorem ledger_of_disconnectTip {c c' : ActiveChain state} {block : CBlock}
    {index : PrevIndex} (hblocks : c.blocks = (block, index) :: c'.blocks) :
    c.tipTxs = block.vtx ∧ c.ledgerBelow = c'.ledger ∧ c.ledger = c'.ledger ++ block.vtx := by
  refine ⟨?_, ?_, ledger_cons hblocks⟩
  · unfold ActiveChain.tipTxs
    rw [hblocks]
  · unfold ActiveChain.ledgerBelow ActiveChain.ledger
    rw [hblocks]
    rfl

theorem ChainNamed.disconnectTip {c c' : ActiveChain state} (h : ChainNamed txOf c)
    {blockUndo : CBlockUndo} (hdisconnect : c.disconnectTip blockUndo = some c') :
    ChainNamed txOf c' := by
  rcases disconnectTip_spec hdisconnect with ⟨block, index, hblocks, v', htxs, hcoins⟩
  have htip : (block, index) ∈ c.blocks := by
    rw [hblocks]
    exact List.mem_cons_self
  have hbelow : forall entry, entry ∈ c'.blocks -> entry ∈ c.blocks := by
    rw [hblocks]
    exact fun entry hmem => List.mem_cons_of_mem _ hmem
  have hnamed := coinsNamed_disconnectTxs _ h.coins
    (fun _ hmem => coinBase_of_mem_zip (h.coinBaseFirst _ htip) _ hmem)
    (fun pair hmem => h.spends _ htip pair.1 (List.of_mem_zip hmem).1) htxs
  refine ⟨?_, fun entry hmem => h.named entry (hbelow entry hmem),
    fun entry hmem => h.spends entry (hbelow entry hmem),
    fun entry hmem => h.coinBaseFirst entry (hbelow entry hmem)⟩
  intro out hout
  refine hnamed out ?_
  unfold IsUnspent at hout ⊢
  rw [← hcoins out]
  exact hout

theorem Invariant.disconnectTip (h : Invariant txOf s) {env : AcceptEnv}
    {cached : UInt256 -> Bool} {blockUndo : CBlockUndo}
    (honce : Admitted txOf s (PoolStep.disconnectTip env cached blockUndo)) :
    Invariant txOf (s.next (PoolStep.disconnectTip env cached blockUndo)) := by
  unfold next
  simp only
  cases hdisconnect : s.chain.disconnectTip blockUndo with
  | none => exact h
  | some chain =>
      rcases disconnectTip_spec hdisconnect with ⟨block, index, hblocks, v', htxs, hcoins⟩
      rcases ledger_of_disconnectTip hblocks with ⟨htip, hbelow, hledger⟩
      have hchain := h.chain.disconnectTip hdisconnect
      have hsup : s.pool.Supported (fun out => IsUnspent chain.coins out ∨
          out.hash ∈ block.vtx.map CTransaction.hash) := by
        refine h.supported.mono ?_
        intro out hunspent
        by_cases hhash : out.hash ∈ block.vtx.map CTransaction.hash
        · exact Or.inr hhash
        · left
          have hafter : IsUnspent v' out := by
            refine isUnspent_disconnectTxs _ htxs ?_ hunspent
            intro pair hmem heq
            exact hhash (heq ▸ List.mem_map_of_mem (List.of_mem_zip hmem).1)
          unfold IsUnspent at hafter ⊢
          rw [hcoins out]
          exact hafter
      have hput := CTxMemPool.resurrected_block hchain.coins env block.vtx s.pool h.pool
        (h.chain.named (block, index) (by rw [hblocks]; exact List.mem_cons_self)) hsup
      have hfinal := CTxMemPool.resurrected_removeCoinbaseSpends
        (accessCoins chain.coins cached) (toUInt32 s.chain.tip.nHeight)
        (toUInt32 env.node.params.nMaturity) hput.named hput.supported
      rw [htip]
      refine ⟨hchain, hfinal.named, hfinal.supported, ?_⟩
      intro hash hin
      change hash ∉ chain.ledger.map CTransaction.hash
      rcases hput.only hash ((hfinal.only hash hin).resolve_right id) with
        hold | ⟨tx, htx, rfl, hcb, hstake⟩
      · intro hmem
        apply h.unconfirmed hash hold
        rw [hledger, List.map_append]
        exact List.mem_append_left _ hmem
      · rw [← hbelow]
        exact honce tx (by rw [htip]; exact htx) hcb hstake

theorem Invariant.next (h : Invariant txOf s) (step : PoolStep)
    (hadmitted : Admitted txOf s step) : Invariant txOf (s.next step) := by
  cases step with
  | accept env tx => exact h.accept hadmitted.1 hadmitted.2
  | connectTip node vstate block => exact h.connectTip hadmitted
  | disconnectTip env cached blockUndo => exact h.disconnectTip hadmitted

/-- Coherence along every run in which nothing repeatable is offered. -/
theorem coherent_along (txOf : UInt256 -> CTransaction) {s : PoolChain state}
    (hstart : s.Starts) (steps : List PoolStep)
    (hsteps : StepsSatisfy next (Admitted txOf) s steps) :
    StatesSatisfy next Coherent s steps :=
  statesSatisfy_of_steps (Invariant txOf) (fun _ h => h.coherent)
    (fun _ step h hadmitted => h.next step hadmitted) steps s (invariant_of_starts hstart) hsteps

end Steps

/-!
# Blocks without a pool
-/

/-- Connect blocks one after another. -/
def connectAll (c : ActiveChain state) : List (NodeState × CBlock) -> Option (ActiveChain state)
  | [] => some c
  | (node, block) :: rest =>
      match c.connectTip node {} block with
      | none => none
      | some c' => connectAll c' rest

theorem foldl_connectTip {c c' : ActiveChain state} {blocks : List (NodeState × CBlock)}
    (h : connectAll c blocks = some c') :
    (blocks.map fun entry => PoolStep.connectTip entry.1 {} entry.2).foldl next
      { chain := c } = { chain := c' } := by
  induction blocks generalizing c with
  | nil =>
      cases h
      rfl
  | cons entry rest ih =>
      unfold connectAll at h
      cases hconnect : c.connectTip entry.1 {} entry.2 with
      | none =>
          rw [hconnect] at h
          cases h
      | some c1 =>
          rw [hconnect] at h
          rw [List.map_cons, List.foldl_cons, next, hconnect]
          simp only [CTxMemPool.removeForBlock_empty]
          exact ih h

end PoolChain

namespace CoherenceExample

open SupplyExample OverwriteExample PoolChain

/-- Every transaction that pays enough is standard, and all scripts verify. -/
def env (node : NodeState) : AcceptEnv where
  node := node
  isStandardTx _ := Except.ok ()
  areInputsStandard _ := true
  isObfuscation _ := false
  feeRules _ _ _ _ := Except.ok ()
  getMinRelayFee _ := 0
  verifyStandard _ _ _ _ := none

def hashAt (n : Nat) : BlockHash :=
  if h : BitVec.ofNat 256 (300 + n) ≠ 0 ∧ n ≠ 0 then ⟨_, h.1⟩ else genesisHash

/-- Spends the first coinbase. -/
def first : CTransaction where
  hash := 201
  nVersion := 1
  vin := [finalInput { hash := 200, n := 0 } []]
  vout := [pay 1]
  nLockTime := 0

/-- Spends what that transaction leaves. -/
def second : CTransaction :=
  { first with
    hash := 202
    vin := [finalInput { hash := 201, n := 0 } []] }

/-- The twelfth block repeats the coinbase of the first one. -/
def txsAt (n : Nat) : List CTransaction :=
  if n = 1 ∨ n = 12 then [coinBase [pay 1]]
  else { coinBase [pay 1] with hash := BitVec.ofNat 256 (1000 + n) } ::
    if n = 11 then [first, second] else []

def blockAt (n : Nat) : CBlock :=
  { blockOf (txsAt n) with
    hash := hashAt n
    hashPrevBlock := (hashAt (n - 1)).val }

def blocks : List (NodeState × CBlock) :=
  (List.range 21).map fun n => (nodeAt (hashAt n) n, blockAt (n + 1))

def steps : List PoolStep :=
  (blocks.map fun entry => PoolStep.connectTip entry.1 {} entry.2) ++
    [PoolStep.accept (env (nodeAt (hashAt 21) 21)) first]

def poolStart : PoolChain CoinsMap where
  chain := start

theorem connectAll_blocks : (connectAll start blocks).isSome = true := by
  decide +kernel

def chainAt21 : ActiveChain CoinsMap := (connectAll start blocks).get connectAll_blocks

/-- A short run: one block, a transaction which comes too early, and the block taken back. -/
def shortSteps : List PoolStep :=
  [PoolStep.connectTip (nodeAt (hashAt 0) 0) {} (blockAt 1),
    PoolStep.accept (env (nodeAt (hashAt 1) 1)) first,
    PoolStep.disconnectTip (env (nodeAt (hashAt 0) 0)) (fun _ => false) { vtxundo := [] }]

def txOf (hash : UInt256) : CTransaction :=
  if hash = 201 then first else coinBase [pay 1]

theorem poolStart_starts : poolStart.Starts := ⟨started, rfl⟩

end CoherenceExample

open CoherenceExample PoolChain in
theorem coherent_along_short : StatesSatisfy next Coherent poolStart shortSteps := by
  refine coherent_along txOf poolStart_starts shortSteps ⟨?_, ⟨rfl, ?_⟩, ?_, trivial⟩
  · change forall tx, tx ∈ (blockAt 1).vtx -> CoherenceExample.txOf tx.hash = tx
    decide +kernel
  · rintro ⟨hconfirmed, _⟩
    revert hconfirmed
    decide +kernel
  · unfold Admitted
    decide +kernel

open CoherenceExample OverwriteExample PoolChain in
/-- After the repeated coinbase the spent transaction is accepted while it is confirmed. -/
theorem first_repeated : poolStart.Starts ∧ ¬ StatesSatisfy next Coherent poolStart steps := by
  refine ⟨poolStart_starts, ?_⟩
  intro h
  have hend := h.foldl
  have hconnect : connectAll start blocks = some chainAt21 :=
    (Option.some_get connectAll_blocks).symm
  unfold CoherenceExample.steps at hend
  rw [List.foldl_append, show poolStart = { chain := start } from rfl,
    foldl_connectTip hconnect] at hend
  exact hend.unconfirmed 201 (by decide +kernel) (by decide +kernel)

end Hbcur

/-!
# Checked transactions

Whatever is in the pool has passed `CheckTransaction`, since `AcceptToMemoryPool` begins with
it and nothing else puts a transaction there.
-/

namespace Hbcur

open Foundation

variable {state : Type} [CoinsState state]

namespace CTxMemPool

/-- Every transaction of the pool has passed `CheckTransaction`. -/
def Checked (params : CChainParams) (pool : CTxMemPool) : Prop :=
  forall hash entry, pool.mapTx.lookup hash = some entry ->
    checkTransaction params {} entry.tx = Except.ok ()

section Checked

variable {params : CChainParams} {pool : CTxMemPool}

theorem checked_of_empty (htx : pool.mapTx = ∅) : pool.Checked params := by
  intro hash entry hlookup
  rw [htx] at hlookup
  cases hlookup

theorem Checked.withDeltas (h : pool.Checked params) (deltas : StdMap UInt256 (Rat × Int)) :
    Checked params { pool with mapDeltas := deltas } := h

theorem Checked.eraseTx (h : pool.Checked params) (hash : UInt256) (entry : CTxMemPoolEntry) :
    (pool.eraseTx hash entry).Checked params :=
  fun other entry' hlookup => h other entry' (lookup_of_eraseTx hlookup).2

theorem Checked.addUnchecked (h : pool.Checked params) (hash : UInt256) {tx : CTransaction}
    (htx : checkTransaction params {} tx = Except.ok ()) :
    (pool.addUnchecked hash (newEntry tx)).Checked params := by
  intro other entry hlookup
  rw [lookup_mapTx_addUnchecked] at hlookup
  split_ifs at hlookup
  · cases hlookup
    exact htx
  · exact h other entry hlookup

/-- The first of all checks. -/
theorem checkTransaction_of_accept {env : AcceptEnv} {v : state} {tx : CTransaction}
    (h : (acceptToMemoryPool env v pool tx).1.toBool = true) :
    checkTransaction env.node.params {} tx = Except.ok () := by
  unfold acceptToMemoryPool at h
  simp only at h
  split at h
  · cases h
  · rename_i nFees hchecks
    have hloose := (then_eq_ok_iff.mp hchecks).1
    unfold AcceptEnv.checkLoose at hloose
    exact checkTransaction_report {} (then_eq_ok_iff.mp hloose).1

theorem Checked.accept (h : pool.Checked params) {env : AcceptEnv} {v : state}
    {tx : CTransaction} (hparams : env.node.params = params) :
    (acceptToMemoryPool env v pool tx).2.Checked params := by
  rcases acceptToMemoryPool_cases env v pool tx with ⟨deltas, ⟨_, heq⟩ | ⟨hadd, _, heq⟩⟩
  · rw [heq]
    exact h.withDeltas deltas
  · rw [heq]
    apply (h.withDeltas deltas).addUnchecked tx.hash
    rw [← hparams]
    exact checkTransaction_of_accept hadd

theorem Checked.resurrectTx (h : pool.Checked params) {env : AcceptEnv} {v : state}
    {tx : CTransaction} (hparams : env.node.params = params) :
    (resurrectTx env v pool tx).Checked params := by
  have herase := fun (pool : CTxMemPool) hash entry (h : pool.Checked params)
    (_ : pool.mapTx.lookup hash = some entry) => h.eraseTx hash entry
  unfold Hbcur.resurrectTx
  simp only
  split_ifs
  · exact remove_preserves herase pool tx [] true h
  · exact h.accept hparams
  · exact remove_preserves herase _ tx [] true (h.accept hparams)

end Checked

end CTxMemPool

namespace PoolChain

/-- A step which checks by the rules of one chain. -/
def UsesParams (params : CChainParams) : PoolStep -> Prop
  | PoolStep.accept env _ => env.node.params = params
  | PoolStep.connectTip _ _ _ => True
  | PoolStep.disconnectTip env _ _ => env.node.params = params

theorem checked_next {params : CChainParams} {s : PoolChain state}
    (h : s.pool.Checked params) (step : PoolStep) (hparams : UsesParams params step) :
    (s.next step).pool.Checked params := by
  have herase := fun (pool : CTxMemPool) hash entry (h : pool.Checked params)
    (_ : pool.mapTx.lookup hash = some entry) => h.eraseTx hash entry
  cases step with
  | accept env tx => exact h.accept hparams
  | connectTip node vstate block =>
      unfold next
      simp only
      split
      · exact h
      · exact CTxMemPool.removeForBlock_preserves herase (fun _ _ h => h) s.pool block.vtx [] h
  | disconnectTip env cached blockUndo =>
      unfold next
      simp only
      split
      · exact h
      · rename_i chain _
        apply CTxMemPool.removeEach_preserves herase _ _
        generalize s.chain.tipTxs = txs
        generalize s.pool = pool at h
        induction txs generalizing pool with
        | nil => exact h
        | cons tx rest ih => exact ih _ (h.resurrectTx hparams)

/-- Along every run from an empty pool. -/
theorem checked_along {params : CChainParams} {s : PoolChain state} (hstart : s.Starts)
    (steps : List PoolStep)
    (hsteps : StepsSatisfy next (fun _ step => UsesParams params step) s steps) :
    StatesSatisfy next (fun s => s.pool.Checked params) s steps :=
  statesSatisfy_of_steps (fun s : PoolChain state => s.pool.Checked params) (fun _ h => h)
    (fun _ step h hparams => checked_next h step hparams) steps s
    (CTxMemPool.checked_of_empty (by rw [hstart.2])) hsteps

end PoolChain

open CoherenceExample PoolChain in
theorem checked_along_short :
    StatesSatisfy next (fun s => s.pool.Checked CChainParams.mainParams) poolStart shortSteps :=
  checked_along poolStart_starts shortSteps ⟨trivial, rfl, rfl, trivial⟩

end Hbcur
