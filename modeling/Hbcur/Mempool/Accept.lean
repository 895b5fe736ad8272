import Hbcur.Foundation.Double
import Hbcur.Mempool.Consistency
import Hbcur.Validation.ConnectBlock

/-!
# Accepting a transaction

`AcceptToMemoryPool` of `main.cpp`.  The rules on standard transactions and on fees are
given by what they answer.
-/

namespace Hbcur

open Foundation Serialize

variable {state : Type} [CoinsState state]

def MAX_TX_SIGOPS : Nat := MAX_BLOCK_SIGOPS / 5

def MEMPOOL_HEIGHT : Int := 0x7FFFFFFF

/-- `HaveCoins` of a cache. -/
def haveCoins (v : state) (txid : UInt256) : Bool :=
  !(coinsAt v txid).vout.isEmpty

namespace CTxMemPool

/-- `CCoinsViewMemPool`, with the cache which `AcceptToMemoryPool` puts on top. -/
def view (pool : CTxMemPool) (pcoinsTip : state) : CoinsMap where
  coins txid :=
    match pool.mapTx.lookup txid with
    | some entry => CCoins.fromTx entry.tx MEMPOOL_HEIGHT
    | none => coinsAt pcoinsTip txid
  bestBlock := CoinsState.getBestBlock pcoinsTip

def prioritiseTransaction (pool : CTxMemPool) (hash : UInt256) (dPriorityDelta : Rat)
    (nFeeDelta : Int) : CTxMemPool :=
  let deltas := (pool.mapDeltas.lookup hash).getD (0, 0)
  { pool with
    mapDeltas := pool.mapDeltas.insert hash
      (roundDouble (deltas.1 + dPriorityDelta), deltas.2 + nFeeDelta) }

end CTxMemPool

/-- The node and the arguments of one call. -/
structure AcceptEnv where
  node : NodeState
  vstate : CValidationState := {}
  /-- `IsStandardTx`, where standard transactions are required. -/
  isStandardTx : CTransaction -> Except Failure Unit
  /-- `AreInputsStandard`, where standard transactions are required. -/
  areInputsStandard : CTransaction -> Bool
  /-- `mapObfuscationBroadcastTxes`. -/
  isObfuscation : UInt256 -> Bool
  ignoreFees : Bool := false
  /-- The rules on the fee, the priority and the rate of free transactions. -/
  feeRules : CTxMemPool -> CTransaction -> Int -> Nat -> Except Failure Unit
  fRejectInsaneFee : Bool := false
  /-- `minRelayTxFee.GetFee` of a size. -/
  getMinRelayFee : Nat -> Int
  /-- `VerifyScript` where `dersig` stands for all flags that are standard only. -/
  verifyStandard : CScript -> CTransaction -> Nat -> ScriptFlags -> Option String

namespace AcceptEnv

def refused (env : AcceptEnv) : Failure := Failure.refused env.vstate

/-- The checks which look at the transaction and at the pool. -/
def checkLoose (env : AcceptEnv) (pool : CTxMemPool) (tx : CTransaction) :
    Except Failure Unit := do
  checkTransaction env.node.params env.vstate tx
  require (!tx.isCoinBase) (Failure.dos env.vstate 100 RejectCode.invalid "coinbase")
  require (!tx.isCoinStake) (Failure.dos env.vstate 100 RejectCode.invalid "coinstake")
  env.isStandardTx tx
  require (!pool.exists? tx.hash) env.refused
  require (tx.prevouts.all fun out => (env.node.mapLockedInputs out).all (· == tx.hash))
    (Failure.dos env.vstate 0 RejectCode.invalid "tx-lock-conflict")
  require (tx.prevouts.all fun out => !StdMap.contains pool.mapNextTx out) env.refused

/-- The checks which look at the coins; the result is the fee. -/
def checkCoins (env : AcceptEnv) (v : CoinsMap) (tx : CTransaction) :
    Except Failure Int := do
  require (!haveCoins v tx.hash) env.refused
  require (tx.prevouts.all fun out => haveCoins v out.hash) env.refused
  require (haveInputs v tx)
    (Failure.invalid env.vstate RejectCode.duplicate "bad-txns-inputs-spent")
  let nValueIn ← expect (getValueIn v tx) Failure.aborted
  require (env.areInputsStandard tx) env.refused
  require (!decide (getLegacySigOpCount tx + getP2SHSigOpCount v tx > MAX_TX_SIGOPS))
    (Failure.dos env.vstate 0 RejectCode.nonstandard "bad-txns-too-many-sigops")
  let nValueOut ← expect tx.getValueOut Failure.aborted
  Except.ok (wrapInt64 (nValueIn - nValueOut))

/-- The scripts are checked at once, and with both sets of flags. -/
def checkScripts (env : AcceptEnv) (v : CoinsMap) (tx : CTransaction) :
    Except Failure Unit := do
  let node := { env.node with scriptCheckThreads := false }
  checkInputs { node with verifyScript := env.verifyStandard } env.vstate v tx true
    { p2sh := true, dersig := true }
  checkInputs node env.vstate v tx true { p2sh := true, dersig := false }

/-- The checks from the fee on. -/
def checkFeeAndScripts (env : AcceptEnv) (pool : CTxMemPool) (v : CoinsMap)
    (tx : CTransaction) (nFees : Int) : Except Failure Unit := do
  let nSize := tx.getSerializeSize
  onlyIf (!env.isObfuscation tx.hash && !env.ignoreFees)
    (env.feeRules pool tx nFees nSize)
  require (!(env.fRejectInsaneFee && decide (nFees > env.getMinRelayFee nSize * 10000)))
    env.refused
  env.checkScripts v tx

/-- An obfuscation transaction gets its priority before it has passed all checks. -/
def prioritised (env : AcceptEnv) (pool : CTxMemPool) (tx : CTransaction) : CTxMemPool :=
  if env.isObfuscation tx.hash then
    pool.prioritiseTransaction tx.hash 1000 (COIN / 10)
  else pool

end AcceptEnv

def newEntry (tx : CTransaction) : CTxMemPoolEntry :=
  { tx := tx
    nTxSize := tx.getSerializeSize }

/-- The pool is changed in place, so it is returned also when the call fails. -/
def acceptToMemoryPool (env : AcceptEnv) (pcoinsTip : state) (pool : CTxMemPool)
    (tx : CTransaction) : Except Failure Unit × CTxMemPool :=
  let v := pool.view pcoinsTip
  match do
    env.checkLoose pool tx
    env.checkCoins v tx with
  | Except.error err => (Except.error err, pool)
  | Except.ok nFees =>
      let pool := env.prioritised pool tx
      match env.checkFeeAndScripts pool v tx nFees with
      | Except.error err => (Except.error err, pool)
      | Except.ok () => (Except.ok (), pool.addUnchecked tx.hash (newEntry tx))

/-!
# What acceptance means
-/

structure AcceptedTx (env : AcceptEnv) (pcoinsTip : state) (pool : CTxMemPool)
    (tx : CTransaction) : Prop where
  checked : CheckedTransaction env.node.params tx
  notCoinBase : tx.isCoinBase = false
  isNew : pool.exists? tx.hash = false
  unspent : forall out, out ∈ tx.prevouts -> pool.mapNextTx.lookup out = none
  unknown : haveCoins (pool.view pcoinsTip) tx.hash = false
  inputs : haveInputs (pool.view pcoinsTip) tx = true

theorem acceptedTx_of_checks {env : AcceptEnv} {pcoinsTip : state} {pool : CTxMemPool}
    {tx : CTransaction} {nFees : Int} (hloose : env.checkLoose pool tx = Except.ok ())
    (hcoins : env.checkCoins (pool.view pcoinsTip) tx = Except.ok nFees) :
    AcceptedTx env pcoinsTip pool tx := by
  simp only [AcceptEnv.checkLoose, then_eq_ok_iff, require_eq_ok_iff, Bool.not_eq_true',
    List.all_eq_true] at hloose
  simp only [AcceptEnv.checkCoins, then_eq_ok_iff, require_eq_ok_iff,
    Bool.not_eq_true'] at hcoins
  rcases hloose with ⟨hchecked, hcb, _, _, hnew, _, hunspent⟩
  refine ⟨checkedTransaction_of_ok hchecked, hcb, hnew, ?_, hcoins.1, hcoins.2.2.1⟩
  intro out hmem
  exact (StdMap.contains_eq_false_iff _ _).mp (hunspent out hmem)

/-- The priorities apart, a call adds the transaction or changes nothing. -/
theorem acceptToMemoryPool_cases (env : AcceptEnv) (pcoinsTip : state) (pool : CTxMemPool)
    (tx : CTransaction) :
    exists deltas, (((acceptToMemoryPool env pcoinsTip pool tx).1.toBool = false ∧
        (acceptToMemoryPool env pcoinsTip pool tx).2 = { pool with mapDeltas := deltas }) ∨
      ((acceptToMemoryPool env pcoinsTip pool tx).1.toBool = true ∧
        AcceptedTx env pcoinsTip pool tx ∧
        (acceptToMemoryPool env pcoinsTip pool tx).2 =
          { pool with mapDeltas := deltas }.addUnchecked tx.hash (newEntry tx))) := by
  have hdeltas : exists deltas, env.prioritised pool tx = { pool with mapDeltas := deltas } := by
    unfold AcceptEnv.prioritised CTxMemPool.prioritiseTransaction
    split_ifs
    · exact ⟨_, rfl⟩
    · exact ⟨pool.mapDeltas, rfl⟩
  rcases hdeltas with ⟨deltas, hdeltas⟩
  unfold acceptToMemoryPool
  simp only
  split
  · exact ⟨pool.mapDeltas, Or.inl ⟨rfl, rfl⟩⟩
  · rename_i nFees hchecks
    rcases then_eq_ok_iff.mp hchecks with ⟨hloose, hcoins⟩
    rw [hdeltas]
    refine ⟨deltas, ?_⟩
    split
    · exact Or.inl ⟨rfl, rfl⟩
    · exact Or.inr ⟨rfl, acceptedTx_of_checks hloose hcoins, rfl⟩

theorem AcceptedTx.mayAdd {env : AcceptEnv} {pcoinsTip : state} {pool : CTxMemPool}
    {tx : CTransaction} (h : AcceptedTx env pcoinsTip pool tx)
    (deltas : StdMap UInt256 (Rat × Int)) :
    CTxMemPool.MayAdd { pool with mapDeltas := deltas } tx.hash (newEntry tx) :=
  ⟨rfl, h.isNew, h.checked.nodup, h.unspent⟩

end Hbcur
