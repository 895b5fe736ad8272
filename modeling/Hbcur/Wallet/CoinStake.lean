import Hbcur.Masternode.Payments
import Hbcur.Script.Encoding
import Hbcur.Stake.Kernel

/-!
# Coinstakes

`CWallet::CreateCoinStake` of `wallet.cpp`.  The set of coins which it goes through is kept
between calls and may be out of date; the fee policy, the classification of scripts and
signing are functions of the wallet.
-/

namespace Hbcur

open Serialize

def CENT : Int := 1000000

def DEFAULT_BLOCK_MAX_SIZE : Nat := 750000

/-- `GetSerializeSize` of a transaction which has no identifier yet. -/
def CMutableTransaction.getSerializeSize (tx : CMutableTransaction) : Nat :=
  (tx.toTransaction fun _ => 0).getSerializeSize

/-!
# The wallet
-/

/-- The types of scripts which `Solver` tells apart, as far as staking is concerned. -/
inductive TxnOutType where
  | pubKey
  | pubKeyHash
  | other
  deriving DecidableEq, Repr

/-- An output of a transaction of the wallet. -/
structure StakeCoin where
  tx : CTransaction
  n : Nat
  hashBlock : UInt256
  n_lt : n < tx.vout.length

namespace StakeCoin

def prevout (coin : StakeCoin) : COutPoint :=
  { hash := coin.tx.hash, n := coin.n }

def txout (coin : StakeCoin) : CTxOut :=
  coin.tx.vout.get ⟨coin.n, coin.n_lt⟩

end StakeCoin

structure CWallet where
  nBalance : Int
  /-- Nothing if the argument for it cannot be parsed. -/
  nReserveBalance : Option Int
  /-- Nothing if the set is renewed and `SelectStakeCoins` fails. -/
  setStakeCoins : Option (List StakeCoin)
  nHashDrift : BitVec 32
  nStakeSplitThreshold : Nat
  solver : CScript -> Option (TxnOutType × List UInt8)
  getPubKey : List UInt8 -> Option (List UInt8)
  getMinimumFee : Nat -> Int
  /-- The script which `SignSignature` puts into the input. -/
  signSignature : StakeCoin -> CMutableTransaction -> Option CScript

/-- What the search for a kernel reads besides the wallet. -/
structure StakeContext where
  env : Stake.KernelEnv
  chain : Stake.StakeNode
  getBlockHeader : UInt256 -> Option CBlock
  adjustedTime : BitVec 32
  medianTimePast : Int

/-!
# The search for a kernel
-/

structure StakeKernel where
  coin : StakeCoin
  scriptPubKeyOut : CScript
  nTxNewTime : BitVec 32

/-- The script which the coinstake pays to; only two types of kernels are supported. -/
def CWallet.scriptPubKeyOut (wallet : CWallet) (scriptPubKeyKernel : CScript) :
    Option CScript :=
  match wallet.solver scriptPubKeyKernel with
  | none => none
  | some (TxnOutType.other, _) => none
  | some (TxnOutType.pubKey, _) => some scriptPubKeyKernel
  | some (TxnOutType.pubKeyHash, keyId) =>
      (wallet.getPubKey keyId).map fun pubKey =>
        Script.pushBytes pubKey ++ [UInt8.ofNat CScript.OP_CHECKSIG]

/-- The verdict on a coin whose block is in the index. -/
def StakeContext.checkCoin (ctx : StakeContext) (wallet : CWallet) (nBits : Nat)
    (coin : StakeCoin) : Option Stake.KernelVerdict :=
  (ctx.getBlockHeader coin.hashBlock).map fun block =>
    Stake.checkStakeKernelHash ctx.env ctx.chain nBits block coin.txout.nValue coin.prevout
      ctx.adjustedTime wallet.nHashDrift false 0

/-- The loop over the coins; it stops at the first kernel which is recent enough. -/
def CWallet.findKernel (wallet : CWallet) (ctx : StakeContext) (nBits : Nat) :
    List StakeCoin -> Option StakeKernel
  | [] => none
  | coin :: rest =>
      match ctx.checkCoin wallet nBits coin with
      | none => wallet.findKernel ctx nBits rest
      | some verdict =>
          if verdict.ok && !decide ((verdict.nTimeTx.toNat : Int) ≤ ctx.medianTimePast) then
            (wallet.scriptPubKeyOut coin.txout.scriptPubKey).map fun scriptPubKeyOut =>
              { coin := coin
                scriptPubKeyOut := scriptPubKeyOut
                nTxNewTime := verdict.nTimeTx }
          else wallet.findKernel ctx nBits rest

/-!
# The transaction
-/

namespace StakeKernel

/-- Large stakes are split into two outputs. -/
def splits (kernel : StakeKernel) (wallet : CWallet) (nHeight : Int) : Bool :=
  decide (wrapUInt64 (kernel.coin.txout.nValue + getBlockValue nHeight) / 2 >
    wrapUInt64 (wallet.nStakeSplitThreshold * COIN))

/-- The marker and the outputs without their values. -/
def outline (kernel : StakeKernel) (wallet : CWallet) (nHeight : Int) : CMutableTransaction :=
  { vin :=
      [{ prevout := kernel.coin.prevout, scriptSig := [], nSequence := COutPoint.maxUInt32 }]
    vout := CTxOut.make 0 [] :: CTxOut.make 0 kernel.scriptPubKeyOut ::
      if kernel.splits wallet nHeight then [CTxOut.make 0 kernel.scriptPubKeyOut] else [] }

end StakeKernel

/-- Distribute the credit left after the fee. -/
def setStakeAmounts (txNew : CMutableTransaction) (nCredit nMinFee : Int) :
    CMutableTransaction :=
  if txNew.vout.length = 3 then
    let half := (((nCredit - nMinFee).tdiv 2).tdiv CENT) * CENT
    (txNew.setValue 1 half).setValue 2 (nCredit - nMinFee - half)
  else txNew.setValue 1 (nCredit - nMinFee)

namespace CWallet

/-- Amounts and payments; nothing when the transaction is too large. -/
def completeStake (wallet : CWallet) (node : NodeState) (payments : CMasternodePayments)
    (nHeight nCredit : Int) (txNew : CMutableTransaction) : Option CMutableTransaction :=
  let nBytes := txNew.getSerializeSize
  if nBytes ≥ DEFAULT_BLOCK_MAX_SIZE / 5 then none
  else
    -- amounts take up the same space in the second round, so that it asks for the same fee
    let nMinFee := max 0 (wallet.getMinimumFee nBytes)
    some (fillBlockPayee node payments nHeight (setStakeAmounts txNew nCredit nMinFee)
      nMinFee true)

def sign (wallet : CWallet) (coin : StakeCoin) (txNew : CMutableTransaction) :
    Option CMutableTransaction :=
  (wallet.signSignature coin txNew).map fun scriptSig =>
    { txNew with vin := txNew.vin.modify 0 fun txin => { txin with scriptSig := scriptSig } }

/-- The coinstake for a kernel. -/
def stakeWith (wallet : CWallet) (node : NodeState) (payments : CMasternodePayments)
    (nHeight nReserveBalance : Int) (kernel : StakeKernel) : Option CMutableTransaction :=
  let nCredit := kernel.coin.txout.nValue
  if nCredit = 0 ∨ nCredit > wallet.nBalance - nReserveBalance then none
  else
    (wallet.completeStake node payments nHeight (wrapInt64 (nCredit + getBlockValue nHeight))
      (kernel.outline wallet nHeight)).bind (wallet.sign kernel.coin)

/-- The coinstake and its time. -/
def createCoinStake (wallet : CWallet) (ctx : StakeContext) (node : NodeState)
    (payments : CMasternodePayments) (nHeight : Int) (nBits : Nat) :
    Option (CMutableTransaction × BitVec 32) :=
  match wallet.nReserveBalance, wallet.setStakeCoins with
  | some nReserveBalance, some setStakeCoins =>
      if wallet.nBalance ≤ nReserveBalance then none
      else
        match wallet.findKernel ctx nBits setStakeCoins with
        | none => none
        | some kernel =>
            (wallet.stakeWith node payments nHeight nReserveBalance kernel).map fun txNew =>
              (txNew, kernel.nTxNewTime)
  | _, _ => none

end CWallet

/-!
# What a coinstake spends
-/

theorem coin_mem_of_findKernel {wallet : CWallet} {ctx : StakeContext} {nBits : Nat}
    {kernel : StakeKernel} :
    forall {setStakeCoins : List StakeCoin},
      wallet.findKernel ctx nBits setStakeCoins = some kernel ->
      kernel.coin ∈ setStakeCoins := by
  intro setStakeCoins
  induction setStakeCoins with
  | nil => nofun
  | cons coin rest ih =>
      intro h
      rw [CWallet.findKernel] at h
      split at h
      · exact List.mem_cons_of_mem coin (ih h)
      · split_ifs at h
        · rcases Option.map_eq_some_iff.mp h with ⟨scriptPubKeyOut, _, rfl⟩
          exact List.mem_cons_self
        · exact List.mem_cons_of_mem coin (ih h)

theorem vin_setStakeAmounts (txNew : CMutableTransaction) (nCredit nMinFee : Int) :
    (setStakeAmounts txNew nCredit nMinFee).vin = txNew.vin := by
  unfold setStakeAmounts
  split_ifs <;> rfl

/-- The input is the coin of the kernel. -/
theorem vin_stakeWith {wallet : CWallet} {node : NodeState} {payments : CMasternodePayments}
    {nHeight nReserveBalance : Int} {kernel : StakeKernel} {txNew : CMutableTransaction}
    (h : wallet.stakeWith node payments nHeight nReserveBalance kernel = some txNew) :
    txNew.vin.map CTxIn.prevout = [kernel.coin.prevout] := by
  unfold CWallet.stakeWith at h
  simp only at h
  split_ifs at h
  rcases Option.bind_eq_some_iff.mp h with ⟨completed, hcomplete, hsign⟩
  unfold CWallet.completeStake at hcomplete
  simp only at hcomplete
  split_ifs at hcomplete
  rw [Option.some.injEq] at hcomplete
  subst hcomplete
  rcases Option.map_eq_some_iff.mp hsign with ⟨scriptSig, _, rfl⟩
  simp only [vin_fillBlockPayee, vin_setStakeAmounts]
  rfl

theorem prevouts_createCoinStake {wallet : CWallet} {ctx : StakeContext} {node : NodeState}
    {payments : CMasternodePayments} {nHeight : Int} {nBits : Nat}
    {txNew : CMutableTransaction} {nTxNewTime : BitVec 32}
    (h : wallet.createCoinStake ctx node payments nHeight nBits = some (txNew, nTxNewTime)) :
    exists setStakeCoins coin, wallet.setStakeCoins = some setStakeCoins ∧
      coin ∈ setStakeCoins ∧ txNew.vin.map CTxIn.prevout = [coin.prevout] := by
  unfold CWallet.createCoinStake at h
  split at h
  · rename_i nReserveBalance setStakeCoins _ hcoins
    split_ifs at h
    split at h
    · cases h
    · rename_i kernel hkernel
      rcases Option.map_eq_some_iff.mp h with ⟨found, hstake, heq⟩
      cases heq
      exact ⟨setStakeCoins, kernel.coin, hcoins, coin_mem_of_findKernel hkernel,
        vin_stakeWith hstake⟩
  · cases h

end Hbcur
