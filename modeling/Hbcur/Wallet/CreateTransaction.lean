import Hbcur.Wallet.ObfuscationRounds

/-!
# Creating transactions

`CWallet::CreateTransaction` of `wallet.cpp` with the functions it chooses coins and fees by.  The
fee is raised, and everything done again, until it suffices for the size that comes out.
-/

namespace Hbcur
namespace CreateTransaction

open Foundation Serialize CoinSelection ObfuscationRounds

def MAX_STANDARD_TX_SIZE : Nat := 100000

def MAX_FREE_TRANSACTION_CREATE_SIZE : Nat := 1000

def ISMINE_NO : Nat := 0
def ISMINE_WATCH_ONLY : Nat := 1
def ISMINE_MULTISIG : Nat := 2
def ISMINE_SPENDABLE : Nat := 4

inductive AvailableCoinsType where
  | ALL_COINS
  | ONLY_DENOMINATED
  | ONLY_NOT10000IFMN
  | ONLY_NONDENOMINATED_NOT10000IFMN
  | ONLY_10000
  deriving DecidableEq

open AvailableCoinsType

structure CCoinControl where
  /-- `GetScriptForDestination` of `destChange`, unless that is no destination. -/
  scriptChange : Option CScript
  fSplitBlock : Bool
  nSplitBlock : Int
  fAllowOtherInputs : Bool
  setSelected : List COutPoint

def CCoinControl.hasSelected (coinControl : CCoinControl) : Bool :=
  decide (0 < coinControl.setSelected.length)

def CCoinControl.isSelected (coinControl : CCoinControl) (hash : UInt256) (n : Nat) : Bool :=
  coinControl.setSelected.contains ⟨hash, n⟩

/-- A transaction of the wallet, with what the chain, the pool and the keys say about it. -/
structure WalletTx extends CoinSelection.CWalletTx where
  hash : UInt256
  fCheckFinal : Bool
  fTrusted : Bool
  fGenerated : Bool
  nBlocksToMaturity : Int
  nDepth : Int
  fInMempool : Bool
  isMine : Nat -> Nat
  isSpent : Nat -> Bool
  isLockedCoin : Nat -> Bool

/-- The wallet, its settings and what is left to chance, where it matters in each pass. -/
structure SendEnv where
  /-- `mapWallet`; a pointer to a transaction is its position. -/
  wallet : List WalletTx
  fMasterNode : Bool
  inputObfuscationRounds : Nat × Nat -> Int
  nObfuscationRounds : Int
  bSpendZeroConfChange : Bool
  /-- The comparison with the target, in `double`, of what denominated coins add up to. -/
  fBelowRounded : Int -> Int -> Bool
  draws : Nat -> Nat -> Draws
  payTxFee : Int
  minTxFee : Int
  minRelayTxFee : Int
  estimateFee : Nat -> Int
  maxTxFee : Int
  fPayAtLeastCustomFee : Bool
  fSendFreeTransactions : Bool
  /-- The comparison of the priorities, in `double`. -/
  fEnoughPriority : Nat -> Bool
  /-- The script for the reserved key, if there is one. -/
  reservedScript : Nat -> Option CScript
  changePosition : Nat -> Nat
  signSignature : Nat -> Nat × Nat -> CMutableTransaction -> Nat -> Option CScript

/-!
# Fees
-/

/-- `CFeeRate::GetFee`, which multiplies and divides without signs. -/
def getFee (nSatoshisPerK : Int) (nSize : Nat) : Int :=
  let nFee := wrapInt64 (wrapUInt64 (nSatoshisPerK * nSize) / 1000)
  if nFee = 0 ∧ nSatoshisPerK > 0 then nSatoshisPerK else nFee

def getFeePerK (nSatoshisPerK : Int) : Int := getFee nSatoshisPerK 1000

def isDust (minRelayTxFee : Int) (txout : CTxOut) : Bool :=
  decide (txout.nValue < wrapInt64 (3 * getFee minRelayTxFee (txout.getSerializeSize + 148)))

def getMinimumFee (env : SendEnv) (pass nTxBytes : Nat) : Int :=
  let nFeeNeeded := getFee env.payTxFee nTxBytes
  let nFeeNeeded :=
    if env.fPayAtLeastCustomFee && decide (nFeeNeeded > 0) &&
        decide (nFeeNeeded < getFeePerK env.payTxFee) then getFeePerK env.payTxFee
    else nFeeNeeded
  let nFeeNeeded := if nFeeNeeded = 0 then getFee (env.estimateFee pass) nTxBytes else nFeeNeeded
  let nFeeNeeded := if nFeeNeeded = 0 then getFee env.minTxFee nTxBytes else nFeeNeeded
  let nFeeNeeded :=
    if nFeeNeeded < getFee env.minRelayTxFee nTxBytes then getFee env.minRelayTxFee nTxBytes
    else nFeeNeeded
  if nFeeNeeded > env.maxTxFee then env.maxTxFee else nFeeNeeded

theorem getMinimumFee_le (env : SendEnv) (pass nTxBytes : Nat) :
    getMinimumFee env pass nTxBytes ≤ env.maxTxFee := by
  have hcap : forall nFeeNeeded : Int,
      (if nFeeNeeded > env.maxTxFee then env.maxTxFee else nFeeNeeded) ≤ env.maxTxFee := by
    intro nFeeNeeded
    split
    · exact le_refl env.maxTxFee
    · case isFalse hle => exact Int.not_lt.mp hle
  exact hcap _

/-!
# Coins
-/

def mapWallet (env : SendEnv) (tx : Nat) : CoinSelection.CWalletTx :=
  match env.wallet[tx]? with
  | none => { vout := [], isFromMe := false }
  | some pcoin => pcoin.toCWalletTx

/-- The type of coins which an amount is of. -/
def isFound (env : SendEnv) (nCoinType : AvailableCoinsType) (nValue : Int) : Bool :=
  match nCoinType with
  | ONLY_DENOMINATED => isDenominatedAmount nValue
  | ONLY_NOT10000IFMN => !(env.fMasterNode && nValue == 5000 * COIN)
  | ONLY_NONDENOMINATED_NOT10000IFMN =>
      if isCollateralAmount nValue then false
      else if !isDenominatedAmount nValue && env.fMasterNode then nValue != 5000 * COIN
      else !isDenominatedAmount nValue
  | ONLY_10000 => nValue == 5000 * COIN
  | ALL_COINS => true

/-- Whether an output is passed over. -/
def isPassedOver (env : SendEnv) (coinControl : Option CCoinControl) (fIncludeZeroValue : Bool)
    (nCoinType : AvailableCoinsType) (pcoin : WalletTx) (i : Nat) (txout : CTxOut) : Bool :=
  if !isFound env nCoinType txout.nValue then true
  else if pcoin.isSpent i then true
  else if pcoin.isMine i = ISMINE_NO then true
  else if pcoin.isMine i = ISMINE_WATCH_ONLY then true
  else if pcoin.isLockedCoin i && decide (nCoinType ≠ ONLY_10000) then true
  else if decide (txout.nValue ≤ 0) && !fIncludeZeroValue then true
  else
    match coinControl with
    | none => false
    | some control =>
        control.hasSelected && !control.fAllowOtherInputs && !control.isSelected pcoin.hash i

def availableCoins (env : SendEnv) (fOnlyConfirmed : Bool) (coinControl : Option CCoinControl)
    (fIncludeZeroValue : Bool) (nCoinType : AvailableCoinsType) (fUseIX : Bool) : List COutput :=
  env.wallet.zipIdx.flatMap fun entry =>
    let pcoin := entry.1
    if !pcoin.fCheckFinal then []
    else if fOnlyConfirmed && !pcoin.fTrusted then []
    else if pcoin.fGenerated && decide (pcoin.nBlocksToMaturity > 0) then []
    else if fUseIX && decide (pcoin.nDepth < 6) then []
    else if decide (pcoin.nDepth = 0) && !pcoin.fInMempool then []
    else
      (pcoin.vout.zipIdx.filter fun out =>
        !isPassedOver env coinControl fIncludeZeroValue nCoinType pcoin out.2 out.1).map fun out =>
          { tx := entry.2
            i := out.2
            nDepth := pcoin.nDepth
            fSpendable := pcoin.isMine out.2 &&& ISMINE_SPENDABLE != ISMINE_NO ||
              pcoin.isMine out.2 &&& ISMINE_MULTISIG != ISMINE_NO }

/-- The coin is inserted, and its value added, if the condition holds of what was before. -/
def insertIf (env : SendEnv) (p : CoinSelection.Selection -> COutput -> Bool)
    (s : CoinSelection.Selection) (out : COutput) : CoinSelection.Selection :=
  if p s out then s.insert (out.toCoin (mapWallet env)) else s

def isAnonymized (env : SendEnv) (out : COutput) : Bool :=
  !decide (env.inputObfuscationRounds out.outpoint < env.nObfuscationRounds)

/-- All the coins, where some are selected by hand. -/
def selectSelected (env : SendEnv) (coinType : AvailableCoinsType) (vCoins : List COutput) :
    CoinSelection.Selection :=
  vCoins.foldl
    (insertIf env fun _ out =>
      out.fSpendable && (decide (coinType ≠ ONLY_DENOMINATED) || isAnonymized env out))
    Selection.cleared

/-- Denominated coins, from large to small. -/
def selectDenominated (env : SendEnv) (nTargetValue : Int) (vCoins : List COutput) :
    CoinSelection.Selection :=
  obfuScationDenominations.foldl
    (fun s v => vCoins.foldl
      (insertIf env fun s out =>
        outputValue (mapWallet env) out.outpoint == v &&
          env.fBelowRounded (wrapInt64 (s.nValueRet + outputValue (mapWallet env) out.outpoint))
            nTargetValue &&
          isAnonymized env out) s)
    Selection.cleared

def selectCoins (env : SendEnv) (pass : Nat) (nTargetValue : Int)
    (coinControl : Option CCoinControl) (coinType : AvailableCoinsType) (useIX : Bool) :
    CoinSelection.Selection :=
  let vCoins := availableCoins env true coinControl false coinType useIX
  if coinControl.any CCoinControl.hasSelected then
    let s := selectSelected env coinType vCoins
    { s with fOk := decide (nTargetValue ≤ s.nValueRet) }
  else if coinType = ONLY_DENOMINATED then
    let s := selectDenominated env nTargetValue vCoins
    { s with fOk := decide (nTargetValue ≤ s.nValueRet) }
  else
    let minConf := fun call nConfMine nConfTheirs =>
      selectCoinsMinConf (mapWallet env) nTargetValue nConfMine nConfTheirs (env.draws pass call)
        vCoins
    if (minConf 0 1 6).fOk then minConf 0 1 6
    else if (minConf 1 1 1).fOk then minConf 1 1 1
    else if env.bSpendZeroConfChange then minConf 2 0 1
    else minConf 1 1 1

/-!
# Outputs
-/

/-- The quotient with the remainder, which is added without signs. -/
def lastAmount (nSplitBlock nAmount : Int) : Int :=
  wrapInt64 (nAmount.tdiv nSplitBlock + wrapUInt64 (nAmount.tmod nSplitBlock))

/-- The outputs for one payee of a transaction which splits. -/
def splitOutputs (nSplitBlock : Int) (s : CScript × Int) : List CTxOut :=
  (List.range nSplitBlock.toNat).map fun i : Nat =>
    if (i : Int) = nSplitBlock - 1 then CTxOut.make (lastAmount nSplitBlock s.2) s.1
    else CTxOut.make (s.2.tdiv nSplitBlock) s.1

/-- The outputs for the payees; `none` if the amount of one is too small. -/
def payeeOutputs (minRelayTxFee : Int) (coinControl : Option CCoinControl)
    (vecSend : List (CScript × Int)) : Option (List CTxOut) :=
  match coinControl with
  | none => some (vecSend.flatMap (splitOutputs 1))
  | some control =>
      if !control.fSplitBlock then
        if vecSend.any fun s => isDust minRelayTxFee (CTxOut.make s.2 s.1) then none
        else some (vecSend.map fun s => CTxOut.make s.2 s.1)
      else some (vecSend.flatMap (splitOutputs control.nSplitBlock))

/-- The fee and the change; a transaction with denominated coins overpays. -/
def overpay (coinType : AvailableCoinsType) (nFeeRet nChange : Int) : Int × Int :=
  if coinType = ONLY_DENOMINATED then (wrapInt64 (nFeeRet + nChange), 0) else (nFeeRet, nChange)

/-- The script of the change; `none` if the assertion that a key can be reserved fails. -/
def scriptChange (env : SendEnv) (pass : Nat) (coinControl : Option CCoinControl) :
    Option CScript :=
  match coinControl.bind CCoinControl.scriptChange with
  | some script => some script
  | none => env.reservedScript pass

/-- The fee and the outputs once there is an output for the change, or it has become fee. -/
def addChange (env : SendEnv) (pass : Nat) (coinControl : Option CCoinControl)
    (nFeeRet nChange : Int) (vout : List CTxOut) : Option (Int × List CTxOut) :=
  if nChange > 0 then
    (scriptChange env pass coinControl).map fun script =>
      let newTxOut := CTxOut.make nChange script
      if isDust env.minRelayTxFee newTxOut then (wrapInt64 (nFeeRet + nChange), vout)
      else (nFeeRet, vout.insertIdx (env.changePosition pass % (vout.length + 1)) newTxOut)
  else some (nFeeRet, vout)

/-!
# Inputs
-/

/-- All the outputs of the wallet. -/
def allCoins (env : SendEnv) : List (Nat × Nat) :=
  env.wallet.zipIdx.flatMap fun entry =>
    (List.range entry.1.vout.length).map fun i => (entry.2, i)

/-- The coins in the order of the set. -/
def coinsInOrder (env : SendEnv) (setCoins : Finset (Nat × Nat)) : List (Nat × Nat) :=
  (allCoins env).filter fun coin => coin ∈ setCoins

def prevoutOf (env : SendEnv) (coin : Nat × Nat) : COutPoint :=
  ⟨((env.wallet[coin.1]?).map WalletTx.hash).getD 0, coin.2⟩

def signInputs (env : SendEnv) (pass : Nat) :
    List (Nat × Nat) -> Nat -> CMutableTransaction -> Option CMutableTransaction
  | [], _, txNew => some txNew
  | coin :: coins, nIn, txNew =>
      match env.signSignature pass coin txNew nIn with
      | none => none
      | some scriptSig =>
          signInputs env pass coins (nIn + 1)
            { txNew with
              vin := txNew.vin.modify nIn fun txin => { txin with scriptSig := scriptSig } }

/-!
# The loop
-/

/-- What is left in `wtxNew` and `nFeeRet`, and the coins whose outpoints are the inputs. -/
structure Created where
  txNew : CMutableTransaction
  nFeeRet : Int
  setCoins : Finset (Nat × Nat)
  deriving DecidableEq

inductive Outcome where
  | created (c : Created)
  | failed (strFailReason : String)
  | aborted
  deriving DecidableEq

inductive Pass where
  | done (outcome : Outcome)
  | again (nFeeRet : Int)

def insufficientFunds (coinType : AvailableCoinsType) (useIX : Bool) : String :=
  (match coinType with
    | ALL_COINS => "Insufficient funds."
    | ONLY_NOT10000IFMN =>
        "Unable to locate enough funds for this transaction that are not equal 10000 HBCUR."
    | ONLY_NONDENOMINATED_NOT10000IFMN =>
        "Unable to locate enough Obfuscation non-denominated funds for this transaction that are " ++
          "not equal 10000 HBCUR."
    | _ =>
        "Unable to locate enough Obfuscation denominated funds for this transaction." ++ " " ++
          "Obfuscation uses exact denominated amounts to send funds, you might simply need to " ++
          "anonymize some more coins.") ++
    if useIX then
      " " ++ "SwiftTX requires inputs with at least 6 confirmations, you might need to wait a few " ++
        "minutes and try again."
    else ""

/-- What is done with the signed transaction. -/
def checkFee (env : SendEnv) (pass : Nat) (nFeePay nFeeRet : Int)
    (setCoins : Finset (Nat × Nat)) (txNew : CMutableTransaction) : Pass :=
  let nBytes := txNew.getSerializeSize
  if nBytes ≥ MAX_STANDARD_TX_SIZE then Pass.done (Outcome.failed "Transaction too large")
  else if env.fSendFreeTransactions && decide (nBytes ≤ MAX_FREE_TRANSACTION_CREATE_SIZE) &&
      env.fEnoughPriority pass then
    Pass.done (Outcome.created ⟨txNew, nFeeRet, setCoins⟩)
  else
    let nFeeNeeded := max nFeePay (getMinimumFee env pass nBytes)
    if nFeeNeeded < getFee env.minRelayTxFee nBytes then
      Pass.done (Outcome.failed "Transaction too large for fee policy")
    else if nFeeRet ≥ nFeeNeeded then Pass.done (Outcome.created ⟨txNew, nFeeRet, setCoins⟩)
    else Pass.again nFeeNeeded

/-- One turn of the loop. -/
def createPass (env : SendEnv) (vecSend : List (CScript × Int)) (coinControl : Option CCoinControl)
    (coinType : AvailableCoinsType) (useIX : Bool) (nFeePay nValue : Int) (pass : Nat)
    (nFeeRet : Int) : Pass :=
  let nTotalValue := wrapInt64 (nValue + nFeeRet)
  match payeeOutputs env.minRelayTxFee coinControl vecSend with
  | none => Pass.done (Outcome.failed "Transaction amount too small")
  | some payees =>
      let s := selectCoins env pass nTotalValue coinControl coinType useIX
      if !s.fOk then Pass.done (Outcome.failed (insufficientFunds coinType useIX))
      else
        let nChange := wrapInt64 (wrapInt64 (s.nValueRet - nValue) - nFeeRet)
        let paid := overpay coinType nFeeRet nChange
        match addChange env pass coinControl paid.1 paid.2 payees with
        | none => Pass.done Outcome.aborted
        | some (nFeeRet, vout) =>
            let coins := coinsInOrder env s.setCoinsRet
            let txNew : CMutableTransaction :=
              { vin := coins.map fun coin => ⟨prevoutOf env coin, [], COutPoint.maxUInt32⟩
                vout := vout }
            match signInputs env pass coins 0 txNew with
            | none => Pass.done (Outcome.failed "Signing transaction failed")
            | some txNew => checkFee env pass nFeePay nFeeRet s.setCoinsRet txNew

/-- The loop, with a bound on the number of turns. -/
def createLoop (env : SendEnv) (vecSend : List (CScript × Int)) (coinControl : Option CCoinControl)
    (coinType : AvailableCoinsType) (useIX : Bool) (nFeePay nValue : Int) :
    Nat -> Nat -> Int -> Option Outcome
  | 0, _, _ => none
  | fuel + 1, pass, nFeeRet =>
      match createPass env vecSend coinControl coinType useIX nFeePay nValue pass nFeeRet with
      | Pass.done outcome => some outcome
      | Pass.again nFeeRet =>
          createLoop env vecSend coinControl coinType useIX nFeePay nValue fuel (pass + 1) nFeeRet

/-- The sum of the amounts; `none` if it is negative before an amount is added. -/
def sumAmounts : List (CScript × Int) -> Int -> Option Int
  | [], nValue => some nValue
  | s :: vecSend, nValue =>
      if nValue < 0 then none else sumAmounts vecSend (wrapInt64 (nValue + s.2))

/-- The fee of a transaction with SwiftTX is at least a cent. -/
def feeToPay (useIX : Bool) (nFeePay : Int) : Int :=
  if useIX && decide (nFeePay < CENT) then CENT else nFeePay

def createTransaction (env : SendEnv) (vecSend : List (CScript × Int))
    (coinControl : Option CCoinControl) (coinType : AvailableCoinsType) (useIX : Bool)
    (nFeePay : Int) (fuel : Nat) : Option Outcome :=
  let nFeePay := feeToPay useIX nFeePay
  match sumAmounts vecSend 0 with
  | none => some (Outcome.failed "Transaction amounts must be positive")
  | some nValue =>
      if vecSend.isEmpty || decide (nValue < 0) then
        some (Outcome.failed "Transaction amounts must be positive")
      else
        createLoop env vecSend coinControl coinType useIX nFeePay nValue fuel 0
          (if nFeePay > 0 then nFeePay else 0)

/-!
# Splitting an amount
-/

section Split

variable {nSplitBlock nAmount : Int}

theorem lastAmount_eq (hn : 1 ≤ nSplitBlock) (hnonneg : 0 ≤ nAmount)
    (hmax : nAmount < 9223372036854775808) :
    lastAmount nSplitBlock nAmount = nAmount.tdiv nSplitBlock + nAmount.tmod nSplitBlock := by
  have heq := Int.mul_tdiv_add_tmod nAmount nSplitBlock
  have hquotient : 0 ≤ nAmount.tdiv nSplitBlock := Int.tdiv_nonneg hnonneg (by omega)
  have hremainder : 0 ≤ nAmount.tmod nSplitBlock := Int.tmod_nonneg nSplitBlock hnonneg
  have hle : nAmount.tdiv nSplitBlock ≤ nSplitBlock * nAmount.tdiv nSplitBlock :=
    le_mul_of_one_le_left hquotient hn
  unfold lastAmount
  rw [wrapUInt64_of_range _ hremainder (by omega)]
  exact wrapInt64_of_range _ (by omega) (by omega)

theorem lastAmount_one (hmin : -9223372036854775808 ≤ nAmount)
    (hmax : nAmount < 9223372036854775808) : lastAmount 1 nAmount = nAmount := by
  have hremainder : wrapUInt64 (nAmount.tmod 1) = 0 := by
    rw [Int.tmod_one]
    rfl
  unfold lastAmount
  rw [Int.tdiv_one, hremainder, Int.add_zero]
  exact wrapInt64_of_range _ hmin hmax

/-- All outputs but the last have the quotient. -/
theorem splitOutputs_eq {m : Nat} (hm : nSplitBlock = (m : Int) + 1) (s : CScript × Int) :
    splitOutputs nSplitBlock s =
      List.replicate m (CTxOut.make (s.2.tdiv nSplitBlock) s.1) ++
        [CTxOut.make (lastAmount nSplitBlock s.2) s.1] := by
  have hnat : nSplitBlock.toNat = m + 1 := by omega
  unfold splitOutputs
  rw [hnat, List.range_succ, List.map_append, List.map_singleton, if_pos (by omega)]
  congr 1
  rw [List.map_congr_left (g := fun _ => CTxOut.make (s.2.tdiv nSplitBlock) s.1),
    List.map_const', List.length_range]
  intro i hi
  have hlt := List.mem_range.mp hi
  exact if_neg (by omega)

theorem splitOutputs_nil (hn : ¬ 1 ≤ nSplitBlock) (s : CScript × Int) :
    splitOutputs nSplitBlock s = [] := by
  have hnat : nSplitBlock.toNat = 0 := by omega
  unfold splitOutputs
  rw [hnat]
  rfl

end Split

/-!
# Amounts that are worth an output
-/

/-- Positive and not dust. -/
def IsWorth (minRelayTxFee : Int) (txout : CTxOut) : Prop :=
  0 < txout.nValue ∧ isDust minRelayTxFee txout = false

/-- The quotient is positive, and an output of that much for the payee is not dust. -/
def QuotientSuffices (minRelayTxFee nSplitBlock : Int) (s : CScript × Int) : Prop :=
  IsWorth minRelayTxFee (CTxOut.make (s.2.tdiv nSplitBlock) s.1)

/--
Where amounts are split, by one if there is no coin control, there are no outputs or all quotients
suffice.  Where they are not, all are positive.
-/
def AmountsSuffice (minRelayTxFee : Int) (coinControl : Option CCoinControl)
    (vecSend : List (CScript × Int)) : Prop :=
  match coinControl with
  | none => forall s, s ∈ vecSend -> QuotientSuffices minRelayTxFee 1 s
  | some control =>
      if control.fSplitBlock then
        1 ≤ control.nSplitBlock ->
          forall s, s ∈ vecSend -> QuotientSuffices minRelayTxFee control.nSplitBlock s
      else forall s, s ∈ vecSend -> 0 < s.2

section Worth

variable {minRelayTxFee nSplitBlock : Int}

/-- What is worth an output is so all the more with a larger amount. -/
theorem IsWorth.mono {nValue nValue' : Int} {script : CScript}
    (h : IsWorth minRelayTxFee (CTxOut.make nValue script)) (hle : nValue ≤ nValue') :
    IsWorth minRelayTxFee (CTxOut.make nValue' script) := by
  refine ⟨lt_of_lt_of_le h.1 hle, ?_⟩
  have hdust := of_decide_eq_false h.2
  exact decide_eq_false (fun hlt => hdust (lt_of_le_of_lt hle hlt))

theorem split_isWorth_iff {s : CScript × Int} (hn : 1 ≤ nSplitBlock)
    (hmin : -9223372036854775808 ≤ s.2) (hmax : s.2 < 9223372036854775808) :
    (forall txout, txout ∈ splitOutputs nSplitBlock s -> IsWorth minRelayTxFee txout) <->
      QuotientSuffices minRelayTxFee nSplitBlock s := by
  obtain ⟨m, hm⟩ : exists m : Nat, nSplitBlock = (m : Int) + 1 :=
    ⟨(nSplitBlock - 1).toNat, by omega⟩
  rw [splitOutputs_eq hm]
  constructor
  · intro h
    cases m with
    | zero =>
        have hone : nSplitBlock = 1 := by omega
        subst hone
        have hlast := h _ (List.mem_append_right _ List.mem_cons_self)
        rw [lastAmount_one hmin hmax] at hlast
        unfold QuotientSuffices
        rw [Int.tdiv_one]
        exact hlast
    | succ m =>
        rw [List.replicate_succ] at h
        exact h _ List.mem_cons_self
  · intro h txout htxout
    have hpos : 0 < s.2.tdiv nSplitBlock := h.1
    have hnonneg : 0 ≤ s.2 := by
      by_contra hneg
      have hopposite : 0 ≤ (-s.2).tdiv nSplitBlock := Int.tdiv_nonneg (by omega) (by omega)
      rw [Int.neg_tdiv] at hopposite
      omega
    rcases List.mem_append.mp htxout with hsame | hlast
    · rw [List.eq_of_mem_replicate hsame]
      exact h
    · rw [List.mem_singleton.mp hlast, lastAmount_eq hn hnonneg hmax]
      have hremainder : 0 ≤ s.2.tmod nSplitBlock := Int.tmod_nonneg nSplitBlock hnonneg
      exact h.mono (by omega)

theorem splits_isWorth_iff {vecSend : List (CScript × Int)} (hn : 1 ≤ nSplitBlock)
    (hint64 : forall s, s ∈ vecSend ->
      -9223372036854775808 ≤ s.2 ∧ s.2 < 9223372036854775808) :
    (forall txout, txout ∈ vecSend.flatMap (splitOutputs nSplitBlock) ->
        IsWorth minRelayTxFee txout) <->
      forall s, s ∈ vecSend -> QuotientSuffices minRelayTxFee nSplitBlock s := by
  constructor
  · intro h s hs
    exact (split_isWorth_iff hn (hint64 s hs).1 (hint64 s hs).2).mp fun txout htxout =>
      h txout (List.mem_flatMap.mpr ⟨s, hs, htxout⟩)
  · intro h txout htxout
    rcases List.mem_flatMap.mp htxout with ⟨s, hs, hout⟩
    exact (split_isWorth_iff hn (hint64 s hs).1 (hint64 s hs).2).mpr (h s hs) txout hout

/-- All the outputs for the payees. -/
theorem payees_isWorth_iff {coinControl : Option CCoinControl} {vecSend : List (CScript × Int)}
    {payees : List CTxOut}
    (hint64 : forall s, s ∈ vecSend ->
      -9223372036854775808 ≤ s.2 ∧ s.2 < 9223372036854775808)
    (hpayees : payeeOutputs minRelayTxFee coinControl vecSend = some payees) :
    (forall txout, txout ∈ payees -> IsWorth minRelayTxFee txout) <->
      AmountsSuffice minRelayTxFee coinControl vecSend := by
  unfold payeeOutputs at hpayees
  unfold AmountsSuffice
  cases coinControl with
  | none =>
      cases hpayees
      exact splits_isWorth_iff (le_refl 1) hint64
  | some control =>
      dsimp only at hpayees ⊢
      cases hflag : control.fSplitBlock with
      | true =>
          rw [hflag] at hpayees
          cases hpayees
          rw [if_pos rfl]
          by_cases hn : 1 ≤ control.nSplitBlock
          · exact (splits_isWorth_iff hn hint64).trans ⟨fun h _ => h, fun h => h hn⟩
          · refine iff_of_true (fun txout htxout => ?_) (fun h => absurd h hn)
            rcases List.mem_flatMap.mp htxout with ⟨s, _, hout⟩
            rw [splitOutputs_nil hn] at hout
            cases hout
      | false =>
          rw [hflag] at hpayees
          rw [if_neg Bool.false_ne_true]
          change (if _ then none else some _) = some payees at hpayees
          split at hpayees
          · cases hpayees
          · case isFalse hdust =>
              cases hpayees
              rw [Bool.not_eq_true, List.any_eq_false] at hdust
              constructor
              · intro h s hs
                exact (h _ (List.mem_map_of_mem hs)).1
              · intro h txout htxout
                rcases List.mem_map.mp htxout with ⟨s, hs, rfl⟩
                exact ⟨h s hs, Bool.eq_false_iff.mpr (hdust s hs)⟩

end Worth

/-!
# A pass that gets to the fee
-/

section Pass

variable {env : SendEnv} {vecSend : List (CScript × Int)} {coinControl : Option CCoinControl}
  {coinType : AvailableCoinsType} {useIX : Bool} {nFeePay nValue : Int} {pass : Nat}
  {nFeeRet : Int}

variable (env coinControl coinType useIX nValue pass nFeeRet) in
/-- The coins which a pass selects. -/
def selection : CoinSelection.Selection :=
  selectCoins env pass (wrapInt64 (nValue + nFeeRet)) coinControl coinType useIX

variable (env coinControl coinType useIX nValue pass nFeeRet) in
/-- The fee and the change of a pass. -/
def paidOf : Int × Int :=
  overpay coinType nFeeRet (wrapInt64 (wrapInt64
    ((selection env coinControl coinType useIX nValue pass nFeeRet).nValueRet - nValue) - nFeeRet))

variable (env vecSend coinControl coinType useIX nValue pass nFeeRet) in
/-- What a pass has built when it looks at the fee. -/
structure Builds (payees : List CTxOut) (nFee : Int) (txNew : CMutableTransaction) : Prop where
  payees_eq : payeeOutputs env.minRelayTxFee coinControl vecSend = some payees
  selected : (selection env coinControl coinType useIX nValue pass nFeeRet).fOk = true
  change : addChange env pass coinControl
    (paidOf env coinControl coinType useIX nValue pass nFeeRet).1
    (paidOf env coinControl coinType useIX nValue pass nFeeRet).2 payees = some (nFee, txNew.vout)
  inputs : txNew.vin.map CTxIn.prevout =
    (coinsInOrder env
      (selection env coinControl coinType useIX nValue pass nFeeRet).setCoinsRet).map
        (prevoutOf env)

theorem signInputs_spec {coins : List (Nat × Nat)} {nIn : Nat}
    {txNew txNew' : CMutableTransaction}
    (h : signInputs env pass coins nIn txNew = some txNew') :
    txNew'.vout = txNew.vout ∧ txNew'.vin.map CTxIn.prevout = txNew.vin.map CTxIn.prevout := by
  induction coins generalizing nIn txNew with
  | nil =>
      cases h
      exact ⟨rfl, rfl⟩
  | cons coin coins ih =>
      rw [signInputs] at h
      split at h
      · cases h
      · rcases ih h with ⟨hvout, hvin⟩
        refine ⟨hvout, hvin.trans ?_⟩
        apply map_modify_of_same
        intro txin
        rfl

/-- A pass that does not fail comes to the check of the fee. -/
theorem createPass_cases :
    (exists outcome, (forall c, outcome ≠ Outcome.created c) ∧
      createPass env vecSend coinControl coinType useIX nFeePay nValue pass nFeeRet =
        Pass.done outcome) ∨
    exists payees nFee txNew,
      Builds env vecSend coinControl coinType useIX nValue pass nFeeRet payees nFee txNew ∧
        createPass env vecSend coinControl coinType useIX nFeePay nValue pass nFeeRet =
          checkFee env pass nFeePay nFee
            (selection env coinControl coinType useIX nValue pass nFeeRet).setCoinsRet txNew := by
  have hfailed : forall strFailReason c,
      Outcome.failed strFailReason ≠ Outcome.created c := fun _ _ h => by cases h
  have haborted : forall c, Outcome.aborted ≠ Outcome.created c := fun _ h => by cases h
  generalize hpass : createPass env vecSend coinControl coinType useIX nFeePay nValue pass
    nFeeRet = p
  unfold createPass at hpass
  dsimp only at hpass
  cases hpayees : payeeOutputs env.minRelayTxFee coinControl vecSend with
  | none =>
      rw [hpayees] at hpass
      exact Or.inl ⟨_, hfailed _, hpass.symm⟩
  | some payees =>
      rw [hpayees] at hpass
      change (if !(selection env coinControl coinType useIX nValue pass nFeeRet).fOk then _
        else match addChange env pass coinControl
          (paidOf env coinControl coinType useIX nValue pass nFeeRet).1
          (paidOf env coinControl coinType useIX nValue pass nFeeRet).2 payees with
          | none => _
          | some (nFeeRet, vout) => _) = p at hpass
      split at hpass
      · exact Or.inl ⟨_, hfailed _, hpass.symm⟩
      · case isFalse hselected =>
          rw [Bool.not_eq_true', Bool.not_eq_false] at hselected
          split at hpass
          · exact Or.inl ⟨_, haborted, hpass.symm⟩
          · case h_2 nFee vout hchange =>
              split at hpass
              · exact Or.inl ⟨_, hfailed _, hpass.symm⟩
              · case h_2 txNew hsigned =>
                  rcases signInputs_spec hsigned with ⟨hvout, hvin⟩
                  refine Or.inr ⟨payees, nFee, txNew, ⟨hpayees, hselected, ?_, ?_⟩, hpass.symm⟩
                  · rw [hvout]
                    exact hchange
                  · rw [hvin, List.map_map]
                    rfl

/-- The fee suffices, the transaction is free, or the next fee is larger, but within its bound. -/
theorem checkFee_cases {nFee : Int} {setCoins : Finset (Nat × Nat)} {txNew : CMutableTransaction} :
    (exists outcome, checkFee env pass nFeePay nFee setCoins txNew = Pass.done outcome ∧
      forall c, outcome = Outcome.created c -> c = ⟨txNew, nFee, setCoins⟩) ∨
    exists nFeeNeeded, checkFee env pass nFeePay nFee setCoins txNew = Pass.again nFeeNeeded ∧
      nFee < nFeeNeeded ∧ nFeeNeeded ≤ max nFeePay env.maxTxFee := by
  have hfailed : forall strFailReason c, Outcome.failed strFailReason = Outcome.created c ->
      c = ⟨txNew, nFee, setCoins⟩ := fun _ _ h => by cases h
  have hcreated : forall c, Outcome.created ⟨txNew, nFee, setCoins⟩ = Outcome.created c ->
      c = ⟨txNew, nFee, setCoins⟩ := fun _ h => by cases h; rfl
  generalize hcheck : checkFee env pass nFeePay nFee setCoins txNew = p
  unfold checkFee at hcheck
  dsimp only at hcheck
  split at hcheck
  · exact Or.inl ⟨_, hcheck.symm, hfailed _⟩
  · split at hcheck
    · exact Or.inl ⟨_, hcheck.symm, hcreated⟩
    · split at hcheck
      · exact Or.inl ⟨_, hcheck.symm, hfailed _⟩
      · split at hcheck
        · exact Or.inl ⟨_, hcheck.symm, hcreated⟩
        · case isFalse hless =>
            refine Or.inr ⟨_, hcheck.symm, Int.not_le.mp hless, ?_⟩
            exact max_le_max_left nFeePay (getMinimumFee_le env pass _)

/-- What is created was built in one of the passes. -/
theorem createLoop_created {fuel : Nat} {c : Created}
    (h : createLoop env vecSend coinControl coinType useIX nFeePay nValue fuel pass nFeeRet =
      some (Outcome.created c)) :
    exists pass nFeeRet payees,
      Builds env vecSend coinControl coinType useIX nValue pass nFeeRet payees c.nFeeRet
        c.txNew := by
  induction fuel generalizing pass nFeeRet with
  | zero => cases h
  | succ fuel ih =>
      rw [createLoop] at h
      rcases @createPass_cases env vecSend coinControl coinType useIX nFeePay nValue pass nFeeRet
        with ⟨outcome, hnot, hpass⟩ | ⟨payees, nFee, txNew, hbuilds, hpass⟩
      · rw [hpass] at h
        exact absurd (Option.some.inj h) (hnot c)
      · rw [hpass] at h
        rcases @checkFee_cases env nFeePay pass nFee
            (selection env coinControl coinType useIX nValue pass nFeeRet).setCoinsRet txNew
          with ⟨outcome, hcheck, hcreated⟩ | ⟨nFeeNeeded, hcheck, _, _⟩
        · rw [hcheck] at h
          have heq := hcreated c (Option.some.inj h)
          subst heq
          exact ⟨pass, nFeeRet, payees, hbuilds⟩
        · rw [hcheck] at h
          exact ih h

end Pass

/-!
# Created payments
-/

/-- The outputs, with at most one more for the change. -/
def WithChange (payees vout : List CTxOut) : Prop :=
  vout = payees ∨ exists i change, i ≤ payees.length ∧ vout = payees.insertIdx i change

theorem withChange_addChange {env : SendEnv} {pass : Nat} {coinControl : Option CCoinControl}
    {nFeeRet nChange nFee : Int} {payees vout : List CTxOut}
    (h : addChange env pass coinControl nFeeRet nChange payees = some (nFee, vout)) :
    WithChange payees vout := by
  unfold addChange at h
  split at h
  · rcases Option.map_eq_some_iff.mp h with ⟨script, _, heq⟩
    dsimp only at heq
    split at heq
    · cases heq
      exact Or.inl rfl
    · cases heq
      exact Or.inr ⟨_, _, Nat.le_of_lt_succ (Nat.mod_lt _ (Nat.succ_pos _)), rfl⟩
  · cases h
    exact Or.inl rfl

/-- All the outputs are worth it, apart from the change. -/
def PaymentsAreWorth (env : SendEnv) (vecSend : List (CScript × Int))
    (coinControl : Option CCoinControl) (c : Created) : Prop :=
  exists payees, payeeOutputs env.minRelayTxFee coinControl vecSend = some payees ∧
    WithChange payees c.txNew.vout ∧
    forall txout, txout ∈ payees -> IsWorth env.minRelayTxFee txout

/-- The payments are worth an output exactly where the amounts suffice for that. -/
theorem paymentsAreWorth_iff {env : SendEnv} {vecSend : List (CScript × Int)}
    {coinControl : Option CCoinControl} {coinType : AvailableCoinsType} {useIX : Bool}
    {nFeePay : Int} {fuel : Nat} {c : Created}
    (hint64 : forall s, s ∈ vecSend ->
      -9223372036854775808 ≤ s.2 ∧ s.2 < 9223372036854775808)
    (h : createTransaction env vecSend coinControl coinType useIX nFeePay fuel =
      some (Outcome.created c)) :
    PaymentsAreWorth env vecSend coinControl c <->
      AmountsSuffice env.minRelayTxFee coinControl vecSend := by
  have hbuilt : exists nValue pass nFeeRet payees,
      Builds env vecSend coinControl coinType useIX nValue pass nFeeRet payees c.nFeeRet
        c.txNew := by
    unfold createTransaction at h
    dsimp only at h
    split at h
    · cases h
    · case h_2 nValue _ =>
        split at h
        · cases h
        · exact ⟨nValue, createLoop_created h⟩
  rcases hbuilt with ⟨nValue, pass, nFeeRet, payees, hbuilds⟩
  rw [← payees_isWorth_iff hint64 hbuilds.payees_eq]
  constructor
  · rintro ⟨other, hother, _, hworth⟩
    rw [hbuilds.payees_eq] at hother
    cases hother
    exact hworth
  · intro hworth
    exact ⟨payees, hbuilds.payees_eq, withChange_addChange hbuilds.change, hworth⟩

namespace SendExample

/-- A confirmed output of a coin. -/
def oneCoin : WalletTx where
  vout := [CTxOut.make COIN [1]]
  isFromMe := false
  hash := 1
  fCheckFinal := true
  fTrusted := true
  fGenerated := false
  nBlocksToMaturity := 0
  nDepth := 6
  fInMempool := false
  isMine _ := ISMINE_SPENDABLE
  isSpent _ := false
  isLockedCoin _ := false

/-- Relaying takes a fee, and no transaction is free. -/
def env : SendEnv where
  wallet := [oneCoin]
  fMasterNode := false
  inputObfuscationRounds _ := 0
  nObfuscationRounds := 2
  bSpendZeroConfChange := true
  fBelowRounded v nTargetValue := decide (v < nTargetValue + COIN / 10 + 100)
  draws _ _ := plainDraws true
  payTxFee := 0
  minTxFee := 10000
  minRelayTxFee := 10000
  estimateFee _ := 0
  maxTxFee := COIN
  fPayAtLeastCustomFee := true
  fSendFreeTransactions := false
  fEnoughPriority _ := false
  reservedScript _ := some [2]
  changePosition _ := 0
  signSignature _ _ _ _ := some [3]

/-- The outputs of the transaction which is created, after the fee has been raised. -/
def sent (nValue : Int) : Created where
  txNew :=
    { vin := [⟨⟨1, 0⟩, [3], COutPoint.maxUInt32⟩]
      vout := [CTxOut.make (COIN - nValue - 720) [2], CTxOut.make nValue [4]] }
  nFeeRet := 720
  setCoins := {(0, 0)}

theorem paymentsAreWorth_cent :
    PaymentsAreWorth env [([4], CENT)] none (sent CENT) <->
      AmountsSuffice env.minRelayTxFee none [([4], CENT)] :=
  @paymentsAreWorth_iff env [([4], CENT)] none ALL_COINS false 0 2 (sent CENT) (by decide)
    (by decide +kernel)

/-- Without coin control a payment of one satoshi is created, which is dust. -/
theorem dust_paid :
    createTransaction env [([4], 1)] none ALL_COINS false 0 2 = some (Outcome.created (sent 1)) ∧
      ¬ PaymentsAreWorth env [([4], 1)] none (sent 1) := by
  refine ⟨by decide +kernel, ?_⟩
  rintro ⟨payees, hpayees, _, hworth⟩
  cases hpayees
  have hdust := (hworth (CTxOut.make 1 [4]) (by decide)).2
  exact absurd hdust (by decide)

end SendExample

end CreateTransaction
end Hbcur
