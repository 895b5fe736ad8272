import Hbcur.Mempool.Coherence

/-!
# Calls that fail

`AcceptToMemoryPool` and its sibling `AcceptableInputs`, which makes most of the same checks
and stores nothing: when a call leaves the pool as it was.
-/

namespace Hbcur

open Foundation Serialize

variable {state : Type} [CoinsState state]

namespace AcceptEnv

/-- The checks of `AcceptableInputs` before the fee; the result is the fee. -/
def checkAcceptable (env : AcceptEnv) (pool : CTxMemPool) (v : CoinsMap) (tx : CTransaction) :
    Except Failure Int := do
  checkTransaction env.node.params env.vstate tx
  require (!tx.isCoinBase) (Failure.dos env.vstate 100 RejectCode.invalid "coinbase")
  require (!pool.exists? tx.hash) env.refused
  require (tx.prevouts.all fun out => (env.node.mapLockedInputs out).all (· == tx.hash))
    (Failure.dos env.vstate 0 RejectCode.invalid "tx-lock-conflict")
  require (tx.prevouts.all fun out => !StdMap.contains pool.mapNextTx out) env.refused
  require (!haveCoins v tx.hash) env.refused
  require (tx.prevouts.all fun out => haveCoins v out.hash) env.refused
  require (haveInputs v tx)
    (Failure.invalid env.vstate RejectCode.duplicate "bad-txns-inputs-spent")
  let nValueIn ← expect (getValueIn v tx) Failure.aborted
  require (!decide (getLegacySigOpCount tx + getP2SHSigOpCount v tx > MAX_TX_SIGOPS))
    (Failure.dos env.vstate 0 RejectCode.nonstandard "bad-txns-too-many-sigops")
  let nValueOut ← expect tx.getValueOut Failure.aborted
  Except.ok (wrapInt64 (nValueIn - nValueOut))

/-- The fee is thought to be a mistake. -/
def insaneFee (env : AcceptEnv) (tx : CTransaction) (nFees : Int) : Bool :=
  env.fRejectInsaneFee && decide (nFees > env.getMinRelayFee tx.getSerializeSize * 10000)

/-- The inputs are checked without their scripts. -/
def checkAmounts (env : AcceptEnv) (v : CoinsMap) (tx : CTransaction) : Except Failure Unit :=
  checkInputs env.node env.vstate v tx false { p2sh := true, dersig := true }

/-- The checks of `AcceptableInputs` from the fee on. -/
def checkFeeAndAmounts (env : AcceptEnv) (pool : CTxMemPool) (v : CoinsMap)
    (tx : CTransaction) (isDSTX : Bool) (nFees : Int) : Except Failure Unit := do
  onlyIf (!isDSTX) (env.feeRules pool tx nFees tx.getSerializeSize)
  require (!env.insaneFee tx nFees) env.refused
  env.checkAmounts v tx

end AcceptEnv

/-- The pool is changed in place, so it is returned also when the call fails. -/
def acceptableInputs (env : AcceptEnv) (pcoinsTip : state) (pool : CTxMemPool)
    (tx : CTransaction) (isDSTX : Bool) : Except Failure Unit × CTxMemPool :=
  let v := pool.view pcoinsTip
  match env.checkAcceptable pool v tx with
  | Except.error err => (Except.error err, pool)
  | Except.ok nFees =>
      let pool :=
        if isDSTX then pool.prioritiseTransaction tx.hash 1000 (COIN / 10) else pool
      (env.checkFeeAndAmounts pool v tx isDSTX nFees, pool)

/-!
# What a call leaves behind
-/

def ReturnsFalse (result : Except Failure Unit) : Prop :=
  exists s, result = Except.error (Failure.refused s)

def Returns (result : Except Failure Unit) : Prop :=
  result ≠ Except.error Failure.aborted

theorem CTxMemPool.prioritiseTransaction_ne (pool : CTxMemPool) (hash : UInt256) (d : Rat)
    {nFeeDelta : Int} (h : nFeeDelta ≠ 0) :
    pool.prioritiseTransaction hash d nFeeDelta ≠ pool := by
  intro heq
  have hdeltas := congrArg (fun pool => pool.mapDeltas.lookup hash) heq
  unfold prioritiseTransaction at hdeltas
  simp only [AList.lookup_insert] at hdeltas
  rw [← hdeltas, Option.getD_some] at hdeltas
  have hfee := congrArg Prod.snd (Option.some.inj hdeltas)
  simp only at hfee
  omega

section Calls

variable (env : AcceptEnv) (pcoinsTip : state) (pool : CTxMemPool) (tx : CTransaction)

/--
An obfuscation transaction has passed the checks which come before its priority is raised, and
one of those which come after it refuses the transaction.
-/
def RefusedLate : Prop :=
  env.isObfuscation tx.hash = true ∧ env.checkLoose pool tx = Except.ok () ∧
    exists nFees, env.checkCoins (pool.view pcoinsTip) tx = Except.ok nFees ∧
      (env.insaneFee tx nFees = true ∨
        ReturnsFalse (env.checkScripts (pool.view pcoinsTip) tx))

/-- The same for `AcceptableInputs`, whether or not the later checks refuse. -/
def RaisedForCheck (isDSTX : Bool) : Prop :=
  isDSTX = true ∧
    exists nFees, env.checkAcceptable pool (pool.view pcoinsTip) tx = Except.ok nFees ∧
      (env.insaneFee tx nFees = true ∨ Returns (env.checkAmounts (pool.view pcoinsTip) tx))

/-- The later checks for an obfuscation transaction. -/
theorem checkFeeAndScripts_of_isObfuscation {env : AcceptEnv} {tx : CTransaction}
    (h : env.isObfuscation tx.hash = true) (v : CoinsMap) (nFees : Int) :
    env.checkFeeAndScripts pool v tx nFees =
      if env.insaneFee tx nFees then Except.error env.refused else env.checkScripts v tx := by
  unfold AcceptEnv.checkFeeAndScripts
  rw [h]
  change (do
    require (!env.insaneFee tx nFees) env.refused
    env.checkScripts v tx) = _
  cases env.insaneFee tx nFees <;> rfl

theorem checkFeeAndAmounts_of_isDSTX (v : CoinsMap) (nFees : Int) :
    env.checkFeeAndAmounts pool v tx true nFees =
      if env.insaneFee tx nFees then Except.error env.refused else env.checkAmounts v tx := by
  change (do
    require (!env.insaneFee tx nFees) env.refused
    env.checkAmounts v tx) = _
  cases env.insaneFee tx nFees <;> rfl

theorem returnsFalse_insane_iff (insane : Bool) (x : Except Failure Unit) :
    ReturnsFalse (if insane then Except.error env.refused else x) <->
      insane = true ∨ ReturnsFalse x := by
  cases insane with
  | false => simp
  | true => simp [ReturnsFalse, AcceptEnv.refused]

theorem returns_insane_iff (insane : Bool) (x : Except Failure Unit) :
    Returns (if insane then Except.error env.refused else x) <->
      insane = true ∨ Returns x := by
  cases insane with
  | false => simp
  | true => simp [Returns, AcceptEnv.refused]

theorem acceptToMemoryPool_leaves_iff :
    (ReturnsFalse (acceptToMemoryPool env pcoinsTip pool tx).1 ->
        (acceptToMemoryPool env pcoinsTip pool tx).2 = pool) <->
      ¬ RefusedLate env pcoinsTip pool tx := by
  unfold acceptToMemoryPool RefusedLate
  simp only
  split
  · rename_i err hchecks
    constructor
    · rintro _ ⟨_, hloose, nFees, hcoins, _⟩
      rw [then_eq_ok_iff.mpr ⟨hloose, hcoins⟩] at hchecks
      cases hchecks
    · exact fun _ _ => rfl
  · rename_i nFees hchecks
    rcases then_eq_ok_iff.mp hchecks with ⟨hloose, hcoins⟩
    have honly : forall nFees', env.checkCoins (pool.view pcoinsTip) tx = Except.ok nFees' ->
        nFees' = nFees :=
      fun nFees' h => Except.ok.inj (h.symm.trans hcoins)
    cases hobf : env.isObfuscation tx.hash with
    | false =>
        have hpool : env.prioritised pool tx = pool := by
          unfold AcceptEnv.prioritised
          rw [hobf]
          rfl
        rw [hpool]
        constructor
        · intro _ h
          cases h.1
        · intro _ hfalse
          split
          · rfl
          · rename_i hok
            rw [hok] at hfalse
            rcases hfalse with ⟨s, hs⟩
            cases hs
    | true =>
        have hpool : env.prioritised pool tx =
            pool.prioritiseTransaction tx.hash 1000 (COIN / 10) := by
          unfold AcceptEnv.prioritised
          rw [hobf]
          rfl
        have hlate := returnsFalse_insane_iff env (env.insaneFee tx nFees)
          (env.checkScripts (pool.view pcoinsTip) tx)
        rw [hpool, checkFeeAndScripts_of_isObfuscation _ hobf]
        constructor
        · rintro hleaves ⟨_, _, nFees', hcoins', hrefused⟩
          rw [honly nFees' hcoins'] at hrefused
          rcases hlate.mpr hrefused with ⟨s, hs⟩
          rw [hs] at hleaves
          exact pool.prioritiseTransaction_ne tx.hash 1000 (by decide) (hleaves ⟨s, rfl⟩)
        · intro hnot hfalse
          exfalso
          apply hnot
          refine ⟨rfl, hloose, nFees, hcoins, hlate.mp ?_⟩
          split at hfalse
          · rename_i err herr
            rcases hfalse with ⟨s, hs⟩
            exact ⟨s, herr.trans hs⟩
          · rcases hfalse with ⟨s, hs⟩
            cases hs

theorem acceptableInputs_leaves_iff (isDSTX : Bool) :
    (Returns (acceptableInputs env pcoinsTip pool tx isDSTX).1 ->
        (acceptableInputs env pcoinsTip pool tx isDSTX).2 = pool) <->
      ¬ RaisedForCheck env pcoinsTip pool tx isDSTX := by
  unfold acceptableInputs RaisedForCheck
  simp only
  cases hchecks : env.checkAcceptable pool (pool.view pcoinsTip) tx with
  | error err =>
      constructor
      · rintro _ ⟨_, nFees, hok, _⟩
        cases hok
      · exact fun _ _ => rfl
  | ok nFees =>
      cases isDSTX with
      | false => simp
      | true =>
          have hlate := returns_insane_iff env (env.insaneFee tx nFees)
            (env.checkAmounts (pool.view pcoinsTip) tx)
          simp only [if_true, true_and, checkFeeAndAmounts_of_isDSTX]
          rw [hlate]
          constructor
          · rintro hleaves ⟨nFees', hsame, hreturns⟩
            cases hsame
            exact pool.prioritiseTransaction_ne tx.hash 1000 (by decide) (hleaves hreturns)
          · intro hnot hreturns
            exact absurd ⟨nFees, rfl, hreturns⟩ hnot

/-- When the two calls leave the pool alone. -/
theorem failed_calls_leave_pool_iff :
    ((ReturnsFalse (acceptToMemoryPool env pcoinsTip pool tx).1 ->
        (acceptToMemoryPool env pcoinsTip pool tx).2 = pool) <->
      ¬ RefusedLate env pcoinsTip pool tx) ∧
    forall isDSTX, (Returns (acceptableInputs env pcoinsTip pool tx isDSTX).1 ->
        (acceptableInputs env pcoinsTip pool tx isDSTX).2 = pool) <->
      ¬ RaisedForCheck env pcoinsTip pool tx isDSTX := by
  constructor
  · exact acceptToMemoryPool_leaves_iff env pcoinsTip pool tx
  · exact acceptableInputs_leaves_iff env pcoinsTip pool tx

end Calls

namespace AtomicExample

open SupplyExample

/-- A masternode has announced the spender, whose signature is bad. -/
def badScripts : AcceptEnv :=
  { CoherenceExample.env { node with verifyScript := fun _ _ _ _ => some "bad signature" } with
    isObfuscation := fun hash => hash == 201
    verifyStandard := fun _ _ _ _ => some "bad signature" }

end AtomicExample

open AtomicExample SupplyExample in
/-- The refused transaction keeps its priority, and so does one which is only looked at. -/
theorem refused_keeps_delta :
    ReturnsFalse (acceptToMemoryPool badScripts view {} spender).1 ∧
      (acceptToMemoryPool badScripts view {} spender).2.mapDeltas.lookup 201 ≠
        ({} : CTxMemPool).mapDeltas.lookup 201 ∧
      (acceptableInputs badScripts view {} spender true).1 = Except.ok () ∧
      (acceptableInputs badScripts view {} spender true).2.mapDeltas.lookup 201 ≠
        ({} : CTxMemPool).mapDeltas.lookup 201 := by
  have hrefused : (acceptToMemoryPool badScripts view {} spender).1 =
      Except.error (Failure.dos {} 100 RejectCode.invalid
        "mandatory-script-verify-flag-failed (bad signature)") := by
    decide +kernel
  have hnone : ({} : CTxMemPool).mapDeltas.lookup 201 = none := rfl
  rw [hnone, Option.ne_none_iff_isSome, Option.ne_none_iff_isSome]
  refine ⟨⟨_, hrefused⟩, ?_, ?_, ?_⟩
  · decide +kernel
  · decide +kernel
  · decide +kernel

end Hbcur
