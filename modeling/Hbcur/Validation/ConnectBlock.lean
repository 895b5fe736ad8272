import Hbcur.Validation.CheckBlock
import Hbcur.Validation.UpdateCoins
import Hbcur.Script.Monotone

/-!
# Connecting a block

`ConnectBlock` of `main.cpp` with `CheckInputs` and `IsBlockValueValid`.  The
amounts it adds up are `int64_t` and wrap; the amounts of a single transaction
are checked on the way.
-/

namespace Hbcur

open Foundation Serialize

variable {state : Type} [CoinsState state]

/-!
# Inputs
-/

/-- `GetOutputFor`; nothing when its assertion fails. -/
def getOutputFor (v : state) (txin : CTxIn) : Option CTxOut :=
  (coinsAt v txin.prevout.hash).output? txin.prevout.n

def haveInputs (v : state) (tx : CTransaction) : Bool :=
  tx.isCoinBase || tx.vin.all fun txin =>
    (coinsAt v txin.prevout.hash).isAvailable txin.prevout.n

def valueInFrom (v : state) : Int -> List CTxIn -> Option Int
  | nResult, [] => some nResult
  | nResult, txin :: rest =>
      match getOutputFor v txin with
      | none => none
      | some out => valueInFrom v (wrapInt64 (nResult + out.nValue)) rest

def getValueIn (v : state) (tx : CTransaction) : Option Int :=
  if tx.isCoinBase then some 0 else valueInFrom v 0 tx.vin

def p2shSigOps (v : state) (txin : CTxIn) : Nat :=
  match getOutputFor v txin with
  | none => 0
  | some prevout =>
      if CScript.isPayToScriptHash prevout.scriptPubKey then
        CScript.getSigOpCountWith prevout.scriptPubKey txin.scriptSig
      else 0

def getP2SHSigOpCount (v : state) (tx : CTransaction) : Nat :=
  if tx.isCoinBase then 0 else (tx.vin.map (p2shSigOps v)).sum

/-- One round of the first loop of `CheckInputs`. -/
def checkInputValue (params : CChainParams) (vstate : CValidationState) (v : state)
    (nSpendHeight : Int) (nValueIn : Int) (txin : CTxIn) : Except Failure Int := do
  let coins := coinsAt v txin.prevout.hash
  require (!((coins.fCoinBase || coins.fCoinStake) &&
      decide (nSpendHeight - coins.nHeight < params.nMaturity)))
    (Failure.invalid vstate RejectCode.invalid "bad-txns-premature-spend-of-coinbase")
  let out ← expect (getOutputFor v txin) Failure.aborted
  require (params.moneyRange out.nValue && params.moneyRange (nValueIn + out.nValue))
    (Failure.dos vstate 100 RejectCode.invalid "bad-txns-inputvalues-outofrange")
  Except.ok (nValueIn + out.nValue)

def checkFee (params : CChainParams) (vstate : CValidationState) (tx : CTransaction)
    (nValueIn : Int) : Except Failure Unit := do
  let nValueOut ← expect tx.getValueOut Failure.aborted
  require (!decide (nValueIn < nValueOut))
    (Failure.dos vstate 100 RejectCode.invalid "bad-txns-in-belowout")
  require (!decide (nValueIn - nValueOut < 0))
    (Failure.dos vstate 100 RejectCode.invalid "bad-txns-fee-negative")
  require (params.moneyRange (nValueIn - nValueOut))
    (Failure.dos vstate 100 RejectCode.invalid "bad-txns-fee-outofrange")

/-- The script of one input; the strict encoding rule is not mandatory. -/
def checkScript (node : NodeState) (vstate : CValidationState) (v : state)
    (tx : CTransaction) (flags : ScriptFlags) (i : Nat) (txin : CTxIn) :
    Except Failure Unit := do
  let out ← expect (getOutputFor v txin) Failure.aborted
  match node.verifyScript out.scriptPubKey tx i flags with
  | none => Except.ok ()
  | some err =>
      match node.verifyScript out.scriptPubKey tx i { flags with dersig := false } with
      -- the text is that of the second try here, and of the first one below
      | none => Except.error (Failure.invalid vstate RejectCode.nonstandard
          "non-mandatory-script-verify-flag (No error)")
      | some _ => Except.error (Failure.dos vstate 100 RejectCode.invalid
          ("mandatory-script-verify-flag-failed (" ++ err ++ ")"))

/-- Whether the scripts of all inputs verify, for checks that are queued. -/
def scriptsVerify (node : NodeState) (v : state) (tx : CTransaction)
    (flags : ScriptFlags) : Bool :=
  tx.vin.zipIdx.all fun pair =>
    match getOutputFor v pair.1 with
    | none => false
    | some out => (node.verifyScript out.scriptPubKey tx pair.2 flags).isNone

def checkInputs (node : NodeState) (vstate : CValidationState) (v : state)
    (tx : CTransaction) (fScriptChecks : Bool) (flags : ScriptFlags) :
    Except Failure Unit :=
  onlyIf (!tx.isCoinBase) do
    require (haveInputs v tx) (Failure.invalid vstate)
    let pindexPrev ← expect (node.mapBlockIndex (CoinsState.getBestBlock v)) Failure.aborted
    let nValueIn ← accumulate
      (checkInputValue node.params vstate v (pindexPrev.nHeight + 1)) 0 tx.vin
    onlyIf (!tx.isCoinStake) (checkFee node.params vstate tx nValueIn)
    onlyIf (fScriptChecks && !node.scriptCheckThreads)
      (forEach (fun pair => checkScript node vstate v tx flags pair.2 pair.1) tx.vin.zipIdx)

/-!
# The loop over the transactions
-/

structure ConnectState (state : Type) where
  view : state
  nFees : Int
  nValueIn : Int
  nValueOut : Int
  nSigOps : Nat
  /-- Whether every queued script check passes. -/
  queued : Bool
  txundos : List CTxUndo

/-- What stays the same during the loop. -/
structure ConnectContext where
  node : NodeState
  vstate : CValidationState
  nHeight : Int
  fScriptChecks : Bool
  fStrictPayToScriptHash : Bool

namespace ConnectContext

def flags (ctx : ConnectContext) : ScriptFlags :=
  { p2sh := ctx.fStrictPayToScriptHash, dersig := true }

def sigOpsFailure (ctx : ConnectContext) : Failure :=
  Failure.dos ctx.vstate 100 RejectCode.invalid "bad-blk-sigops"

/-- The fee of a transaction is added unless it is a coinstake. -/
def addFee (nFees nTxIn : Int) (tx : CTransaction) : Except Failure Int :=
  if tx.isCoinStake then Except.ok nFees
  else do
    let nTxOut ← expect tx.getValueOut Failure.aborted
    Except.ok (wrapInt64 (nFees + wrapInt64 (nTxIn - nTxOut)))

/-- The part for a transaction with inputs, up to `CheckInputs`. -/
def addInputs (ctx : ConnectContext) (s : ConnectState state) (tx : CTransaction) :
    Except Failure (ConnectState state) := do
  require (haveInputs s.view tx)
    (Failure.dos ctx.vstate 100 RejectCode.invalid "bad-txns-inputs-missingorspent")
  let nSigOps := s.nSigOps +
    if ctx.fStrictPayToScriptHash then getP2SHSigOpCount s.view tx else 0
  require (!(ctx.fStrictPayToScriptHash && decide (nSigOps > MAX_BLOCK_SIGOPS)))
    ctx.sigOpsFailure
  let nTxIn ← expect (getValueIn s.view tx) Failure.aborted
  let nFees ← addFee s.nFees nTxIn tx
  Except.ok
    { s with
      nSigOps := nSigOps
      nFees := nFees
      nValueIn := wrapInt64 (s.nValueIn + nTxIn) }

def connectInputs (ctx : ConnectContext) (s : ConnectState state) (tx : CTransaction) :
    Except Failure (ConnectState state) :=
  if tx.isCoinBase then Except.ok s
  else do
    let s' ← ctx.addInputs s tx
    checkInputs ctx.node ctx.vstate s'.view tx ctx.fScriptChecks ctx.flags
    Except.ok
      { s' with
        queued := s'.queued && (!(ctx.fScriptChecks && ctx.node.scriptCheckThreads) ||
          scriptsVerify ctx.node s'.view tx ctx.flags) }

def connectTx (ctx : ConnectContext) (s : ConnectState state) (tx : CTransaction) :
    Except Failure (ConnectState state) := do
  require (!decide (s.nSigOps + getLegacySigOpCount tx > MAX_BLOCK_SIGOPS)) ctx.sigOpsFailure
  let s' ← ctx.connectInputs { s with nSigOps := s.nSigOps + getLegacySigOpCount tx } tx
  let nTxOut ← expect tx.getValueOut Failure.aborted
  let connected ← expect (updateCoins s'.view tx ctx.nHeight) Failure.aborted
  Except.ok
    { s' with
      nValueOut := wrapInt64 (s'.nValueOut + nTxOut)
      view := connected.2
      txundos := s'.txundos ++ [connected.1] }

end ConnectContext

def ConnectState.initial (v : state) : ConnectState state :=
  { view := v, nFees := 0, nValueIn := 0, nValueOut := 0, nSigOps := 0
    queued := true, txundos := [] }

/-!
# The value check
-/

def isBlockValueValid (node : NodeState) (block : CBlock)
    (nExpectedValue nMinted : Int) : Bool :=
  match node.tip with
  | none => true
  | some tip =>
      let nHeight := heightByPrevBlock node tip block
      if !node.isSynced then
        decide (Int.tmod nHeight node.params.budgetPaymentCycleBlocks < 100) ||
          decide (nMinted ≤ nExpectedValue)
      else if !node.sporkActive Spork.enableSuperblocks then
        decide (nMinted ≤ nExpectedValue)
      else node.budget.isBudgetPaymentBlock nHeight || decide (nMinted ≤ nExpectedValue)

/-!
# The whole block
-/

structure Connected (state : Type) where
  view : state
  blockundo : CBlockUndo
  nMoneySupply : Int
  nMint : Int

/-- Refuse to overwrite unspent transactions, for a block without a hash only. -/
def checkOverwrite (vstate : CValidationState) (v : state) (block : CBlock)
    (pindex : PIndex) : Except Failure Unit :=
  onlyIf pindex.phashBlock.isNone
    (forEach (fun tx => require (coinsAt v tx.hash).isPruned
      (Failure.dos vstate 100 RejectCode.invalid "bad-txns-BIP30")) block.vtx)

def connectContext (node : NodeState) (vstate : CValidationState) (pindex : PIndex) :
    ConnectContext :=
  { node := node
    vstate := vstate
    nHeight := pindex.nHeight
    fScriptChecks := decide (pindex.nHeight ≥ node.params.totalBlocksEstimate)
    fStrictPayToScriptHash := decide ((pindex.nTime : Int) ≥ 1333238400) }

/-- The money supply and the mint recorded in the index entry. -/
def recordedSupply (nMoneySupplyPrev nValueOut nValueIn : Int) : Int × Int :=
  let nMoneySupply := wrapInt64 (wrapInt64 (nMoneySupplyPrev + nValueOut) - nValueIn)
  (nMoneySupply, wrapInt64 (nMoneySupply - nMoneySupplyPrev))

def nExpectedMint (block : CBlock) (prev : PrevIndex) (nFees : Int) : Int :=
  if block.isProofOfWork then wrapInt64 (getBlockValue prev.nHeight + nFees)
  else getBlockValue prev.nHeight

/-- The part after the genesis block has been set aside. -/
def connectTxs (node : NodeState) (vstate : CValidationState) (v : state)
    (block : CBlock) (pindex : PIndex) : Except Failure (Connected state) := do
  require (!(decide (pindex.nHeight ≤ node.params.nLastPOWBlock) && block.isProofOfStake))
    (Failure.dos vstate 100 RejectCode.invalid "PoS-early")
  require (!(decide (pindex.nHeight > node.params.nLastPOWBlock) && block.isProofOfWork))
    (Failure.dos vstate 100 RejectCode.invalid "PoW-ended")
  checkOverwrite vstate v block pindex
  let s ← accumulate (connectContext node vstate pindex).connectTx
    (ConnectState.initial v) block.vtx
  require node.writeBlockIndex (Failure.refused vstate)
  let prev ← expect pindex.pprev Failure.aborted
  let supply := recordedSupply prev.nMoneySupply s.nValueOut s.nValueIn
  require (isBlockValueValid node block (nExpectedMint block prev s.nFees) supply.2)
    (Failure.dos vstate 100 RejectCode.invalid "bad-cb-amount")
  require s.queued (Failure.dos vstate 100)
  Except.ok
    { view := s.view
      blockundo := { vtxundo := s.txundos.tail }
      nMoneySupply := supply.1
      nMint := supply.2 }

def connectBlock (node : NodeState) (vstate : CValidationState) (v : state)
    (block : CBlock) (pindex : PIndex) (fJustCheck : Bool) :
    Except Failure (Connected state) := do
  checkBlock node vstate block (!fJustCheck) (!fJustCheck)
  require (((pindex.pprev.map fun prev => prev.hash.val).getD 0) ==
    CoinsState.getBestBlock v) Failure.aborted
  if block.hash = node.params.hashGenesisBlock then do
    let hash ← expect pindex.phashBlock Failure.aborted
    Except.ok
      { view := CoinsState.setBestBlock v hash.val
        blockundo := { vtxundo := [] }
        nMoneySupply := 0
        nMint := 0 }
  else do
    let connected ← connectTxs node vstate v block pindex
    if fJustCheck then Except.ok connected
    else do
      require node.writeUndo (Failure.refused (vstate.error "Failed to write undo data"))
      require node.writeTxIndex
        (Failure.refused (vstate.error "Failed to write transaction index"))
      let hash ← expect pindex.phashBlock Failure.aborted
      Except.ok { connected with view := CoinsState.setBestBlock connected.view hash.val }

end Hbcur

/-!
# The scripts of the inputs

The last loop of `CheckInputs` under arbitrary flags, with the interpreter in the place of
the function which the checks of a block are given.  A transaction whose scripts pass under
the flags of the memory pool passes under those of a block.
-/

namespace Hbcur

open Foundation Script

variable {state : Type} [CoinsState state]

/-!
# Errors and flags
-/

def scriptErrorString : ScriptError -> String
  | ScriptError.evalFalse =>
      "Script evaluated without error but finished with a false/empty top stack element"
  | ScriptError.verify => "Script failed an OP_VERIFY operation"
  | ScriptError.equalVerify => "Script failed an OP_EQUALVERIFY operation"
  | ScriptError.checkMultiSigVerify => "Script failed an OP_CHECKMULTISIGVERIFY operation"
  | ScriptError.checkSigVerify => "Script failed an OP_CHECKSIGVERIFY operation"
  | ScriptError.numEqualVerify => "Script failed an OP_NUMEQUALVERIFY operation"
  | ScriptError.scriptSize => "Script is too big"
  | ScriptError.pushSize => "Push value size limit exceeded"
  | ScriptError.opCount => "Operation limit exceeded"
  | ScriptError.stackSize => "Stack size limit exceeded"
  | ScriptError.sigCount => "Signature count negative or greater than pubkey count"
  | ScriptError.pubKeyCount => "Pubkey count negative or limit exceeded"
  | ScriptError.badOpcode => "Opcode missing or not understood"
  | ScriptError.disabledOpcode => "Attempted to use a disabled opcode"
  | ScriptError.invalidStackOperation => "Operation not valid with the current stack size"
  | ScriptError.invalidAltStackOperation =>
      "Operation not valid with the current altstack size"
  | ScriptError.opReturn => "OP_RETURN was encountered"
  | ScriptError.unbalancedConditional => "Invalid OP_IF construction"
  | ScriptError.sigHashType => "Signature hash type missing or not understood"
  | ScriptError.sigDer => "Non-canonical DER signature"
  | ScriptError.minimalData => "Data push larger than necessary"
  | ScriptError.sigPushOnly => "Only non-push operators allowed in signatures"
  | ScriptError.sigHighS => "Non-canonical signature: S value is unnecessarily high"
  | ScriptError.sigNullDummy => "Dummy CHECKMULTISIG argument must be zero"
  | ScriptError.discourageUpgradableNops => "NOPx reserved for soft-fork upgrades"
  | ScriptError.pubKeyType => "Public key is neither compressed or uncompressed"
  | ScriptError.unknownError => "unknown error"

/-- The text of a failure; `VerifyScript` only stops for its own errors. -/
def stopString : Stop -> String
  | Stop.error serror => scriptErrorString serror
  | _ => scriptErrorString ScriptError.unknownError

/-- The two flags which the rules for blocks may set. -/
def ScriptFlags.toBits (flags : ScriptFlags) : ScriptVerifyFlags :=
  (if flags.p2sh then SCRIPT_VERIFY_P2SH else SCRIPT_VERIFY_NONE) |||
    (if flags.dersig then SCRIPT_VERIFY_DERSIG else SCRIPT_VERIFY_NONE)

/-!
# The loop
-/

/-- `CScriptCheck`: the checker is made for the transaction and the input. -/
def scriptCheck (checker : CTransaction -> Nat -> ScriptEnv) (scriptPubKey : CScript)
    (tx : CTransaction) (nIn : Nat) (nFlags : ScriptVerifyFlags) : Except Stop Unit :=
  match tx.vin[nIn]? with
  | none => Except.error Stop.outOfRange
  | some txin => verifyScript (checker tx nIn) nFlags txin.scriptSig scriptPubKey

/-- The rejection of an input, after a second try under the mandatory flags. -/
def rejectScript (vstate : CValidationState) (flags : ScriptVerifyFlags)
    (again : Except Stop Unit) (stop : Stop) : Failure :=
  -- the second check hides the first one, so that its own error is reported
  if hasAny flags STANDARD_NOT_MANDATORY_VERIFY_FLAGS && again.isOk then
    Failure.invalid vstate RejectCode.nonstandard "non-mandatory-script-verify-flag (No error)"
  else Failure.dos vstate 100 RejectCode.invalid
    ("mandatory-script-verify-flag-failed (" ++ stopString stop ++ ")")

def checkInputScript (checker : CTransaction -> Nat -> ScriptEnv) (vstate : CValidationState)
    (v : state) (tx : CTransaction) (flags : ScriptVerifyFlags) (i : Nat) (txin : CTxIn) :
    Except Failure Unit := do
  let out ← expect (getOutputFor v txin) Failure.aborted
  match scriptCheck checker out.scriptPubKey tx i flags with
  | Except.ok _ => Except.ok ()
  | Except.error stop => Except.error (rejectScript vstate flags
      (scriptCheck checker out.scriptPubKey tx i
        (flags &&& ~~~ STANDARD_NOT_MANDATORY_VERIFY_FLAGS)) stop)

def checkInputScripts (checker : CTransaction -> Nat -> ScriptEnv) (vstate : CValidationState)
    (v : state) (tx : CTransaction) (flags : ScriptVerifyFlags) : Except Failure Unit :=
  forEach (fun pair => checkInputScript checker vstate v tx flags pair.2 pair.1) tx.vin.zipIdx

/-- The interpreter as the function which the checks of a block are given. -/
def interpretScript (checker : CTransaction -> Nat -> ScriptEnv) (scriptPubKey : CScript)
    (tx : CTransaction) (nIn : Nat) (flags : ScriptFlags) : Option String :=
  match scriptCheck checker scriptPubKey tx nIn flags.toBits with
  | Except.ok _ => none
  | Except.error stop => some (stopString stop)

section Checks

variable {checker : CTransaction -> Nat -> ScriptEnv} {vstate : CValidationState} {v : state}
  {tx : CTransaction}

theorem interpretScript_eq_none_iff {scriptPubKey : CScript} {nIn : Nat} {flags : ScriptFlags} :
    interpretScript checker scriptPubKey tx nIn flags = none <->
      scriptCheck checker scriptPubKey tx nIn flags.toBits = Except.ok () := by
  unfold interpretScript
  cases scriptCheck checker scriptPubKey tx nIn flags.toBits with
  | ok _ => exact ⟨fun _ => rfl, fun _ => rfl⟩
  | error _ => exact ⟨nofun, nofun⟩

/-- The second try is made under the flags of a block without the strict encoding. -/
theorem toBits_mandatory (fStrictPayToScriptHash : Bool) :
    ({ p2sh := fStrictPayToScriptHash, dersig := true } : ScriptFlags).toBits &&&
        ~~~ STANDARD_NOT_MANDATORY_VERIFY_FLAGS =
      ({ p2sh := fStrictPayToScriptHash, dersig := false } : ScriptFlags).toBits := by
  cases fStrictPayToScriptHash <;> decide

theorem hasAny_toBits (fStrictPayToScriptHash : Bool) :
    hasAny ({ p2sh := fStrictPayToScriptHash, dersig := true } : ScriptFlags).toBits
      STANDARD_NOT_MANDATORY_VERIFY_FLAGS = true := by
  cases fStrictPayToScriptHash <;> decide

/-- A block checks its scripts as `CheckInputs` does under its flags. -/
theorem checkScript_eq_checkInputScript {node : NodeState}
    (hnode : node.verifyScript = interpretScript checker) (fStrictPayToScriptHash : Bool)
    (i : Nat) (txin : CTxIn) :
    checkScript node vstate v tx { p2sh := fStrictPayToScriptHash, dersig := true } i txin =
      checkInputScript checker vstate v tx
        ({ p2sh := fStrictPayToScriptHash, dersig := true } : ScriptFlags).toBits i txin := by
  unfold checkScript checkInputScript
  refine congrArg _ (funext fun out => ?_)
  rw [hnode, toBits_mandatory]
  unfold interpretScript rejectScript
  rw [hasAny_toBits, Bool.true_and]
  cases scriptCheck checker out.scriptPubKey tx i
      ({ p2sh := fStrictPayToScriptHash, dersig := true } : ScriptFlags).toBits with
  | ok _ => rfl
  | error stop =>
      cases scriptCheck checker out.scriptPubKey tx i
          ({ p2sh := fStrictPayToScriptHash, dersig := false } : ScriptFlags).toBits with
      | ok _ => rfl
      | error _ => rfl

/-!
# Passing under fewer flags
-/

variable {f g : ScriptVerifyFlags}

theorem scriptCheck_fewer_flags (h : FlagSubset f g) (scriptPubKey : CScript) (nIn : Nat) :
    SucceedsWith (scriptCheck checker scriptPubKey tx nIn g)
      (scriptCheck checker scriptPubKey tx nIn f) := by
  unfold scriptCheck
  cases tx.vin[nIn]? with
  | none => exact SucceedsWith.refl _
  | some txin => exact h.verifyScript (checker tx nIn) txin.scriptSig scriptPubKey

theorem checkInputScript_eq_ok_iff {i : Nat} {txin : CTxIn} :
    checkInputScript checker vstate v tx f i txin = Except.ok () <->
      exists out, getOutputFor v txin = some out ∧
        scriptCheck checker out.scriptPubKey tx i f = Except.ok () := by
  unfold checkInputScript
  rw [bind_eq_ok_iff]
  refine exists_congr (fun out => and_congr expect_eq_ok_iff ?_)
  cases scriptCheck checker out.scriptPubKey tx i f with
  | ok _ => exact ⟨fun _ => rfl, fun _ => rfl⟩
  | error _ => exact ⟨nofun, nofun⟩

theorem checkInputScripts_fewer_flags (h : FlagSubset f g) (vstate' : CValidationState)
    (hscripts : checkInputScripts checker vstate v tx g = Except.ok ()) :
    checkInputScripts checker vstate' v tx f = Except.ok () := by
  unfold checkInputScripts at hscripts ⊢
  rw [forEach_eq_ok_iff] at hscripts ⊢
  intro pair hpair
  rcases checkInputScript_eq_ok_iff.mp (hscripts pair hpair) with ⟨out, hout, hcheck⟩
  exact checkInputScript_eq_ok_iff.mpr
    ⟨out, hout, scriptCheck_fewer_flags h out.scriptPubKey pair.2 () hcheck⟩

/-- The checks of a block, whether they are made at once or are queued. -/
theorem checkScripts_of_checkInputScripts {node : NodeState} (fStrictPayToScriptHash : Bool)
    (hnode : node.verifyScript = interpretScript checker)
    (hscripts : checkInputScripts checker vstate v tx
      ({ p2sh := fStrictPayToScriptHash, dersig := true } : ScriptFlags).toBits =
        Except.ok ()) :
    forEach (fun pair => checkScript node vstate v tx
        { p2sh := fStrictPayToScriptHash, dersig := true } pair.2 pair.1) tx.vin.zipIdx =
      Except.ok () ∧
    scriptsVerify node v tx { p2sh := fStrictPayToScriptHash, dersig := true } = true := by
  constructor
  · rw [← hscripts]
    unfold checkInputScripts
    refine congrFun (congrArg forEach (funext fun pair => ?_)) _
    exact checkScript_eq_checkInputScript hnode fStrictPayToScriptHash pair.2 pair.1
  · unfold checkInputScripts at hscripts
    rw [forEach_eq_ok_iff] at hscripts
    unfold scriptsVerify
    rw [List.all_eq_true]
    intro pair hpair
    rcases checkInputScript_eq_ok_iff.mp (hscripts pair hpair) with ⟨out, hout, hcheck⟩
    rw [hout]
    simp only
    rw [hnode, interpretScript_eq_none_iff.mpr hcheck]
    rfl

theorem flagSubset_standard (fStrictPayToScriptHash : Bool) :
    FlagSubset ({ p2sh := fStrictPayToScriptHash, dersig := true } : ScriptFlags).toBits
      STANDARD_SCRIPT_VERIFY_FLAGS := by
  cases fStrictPayToScriptHash <;> decide

end Checks

/--
A script pair which verifies under some flags verifies under every part of them.  Hence what
passes under the standard flags passes under the mandatory ones, and under those of a block
whether its scripts are checked at once or queued.
-/
theorem verifyScript_fewer_flags (f g : ScriptVerifyFlags) (hsubset : FlagSubset f g) :
    (forall (env : ScriptEnv) (scriptSig scriptPubKey : CScript),
      verifyScript env g scriptSig scriptPubKey = Except.ok () ->
        verifyScript env f scriptSig scriptPubKey = Except.ok ()) ∧
    forall (checker : CTransaction -> Nat -> ScriptEnv) (vstate : CValidationState) (v : state)
        (tx : CTransaction),
      checkInputScripts checker vstate v tx STANDARD_SCRIPT_VERIFY_FLAGS = Except.ok () ->
        checkInputScripts checker vstate v tx MANDATORY_SCRIPT_VERIFY_FLAGS = Except.ok () ∧
        forall ctx : ConnectContext, ctx.node.verifyScript = interpretScript checker ->
          forEach (fun pair => checkScript ctx.node ctx.vstate v tx ctx.flags pair.2 pair.1)
              tx.vin.zipIdx = Except.ok () ∧
            scriptsVerify ctx.node v tx ctx.flags = true := by
  refine ⟨fun env scriptSig scriptPubKey => hsubset.verifyScript env scriptSig scriptPubKey (), ?_⟩
  intro checker vstate v tx hstandard
  refine ⟨checkInputScripts_fewer_flags (by decide) vstate hstandard, ?_⟩
  intro ctx hnode
  refine checkScripts_of_checkInputScripts ctx.fStrictPayToScriptHash hnode ?_
  exact checkInputScripts_fewer_flags (flagSubset_standard _) ctx.vstate hstandard

/-- A script hash whose script is a signature check, under all flags and under none. -/
theorem verifyScript_fewer_flags_scriptHash :
    verifyScript zeroEnv SCRIPT_VERIFY_NONE [0x00, 0x51, 0x02, 0x52, 0xac]
      ([0xa9, 0x14] ++ List.replicate 20 0 ++ [0x87]) = Except.ok () :=
  (@verifyScript_fewer_flags CoinsMap _ SCRIPT_VERIFY_NONE SCRIPT_VERIFY_P2SH
    (by decide)).1 zeroEnv _ _ (by decide +kernel)

end Hbcur
