import Hbcur.Foundation.Double
import Hbcur.Masternode.Votes

/-!
# The queue for payments

`GetNextMasternodeInQueueForPayment` of `masternodeman.cpp`: of the masternodes which have
waited longest for a payment, the one with the highest score.  How long one has waited is read
from the blocks of the chain and from the votes for their payees.
-/

namespace Hbcur

open Foundation

namespace CMasternodeBlockPayees

def hasPayeeWithVotes (payees : CMasternodeBlockPayees) (payee : CScript) (nVotesReq : Int) :
    Bool :=
  payees.vecPayments.any fun p => decide (p.nVotes ≥ nVotesReq) && decide (p.scriptPubKey = payee)

end CMasternodeBlockPayees

/-- A block of the active chain. -/
structure ChainBlock where
  nHeight : Int
  nTime : Nat
  deriving DecidableEq, Repr

/-- What the queue is read from besides the masternodes. -/
structure QueueEnv where
  /-- The active chain from its tip down. -/
  chain : List ChainBlock
  /-- Whether `cs_main` is free. -/
  locked : Bool
  votes : PaymentVotes
  minMasternodePaymentsProto : Int
  getMasternodeInputAge : CMasternode -> Int
  /-- The hash of an input and a time. -/
  hashPayment : CTxIn -> Int -> UInt256

namespace QueueEnv

variable (env : QueueEnv)

/-- Whether a masternode is the payee of one of the blocks which come next. -/
def isScheduled (mn : CMasternode) (nNotBlockHeight : Int) : Bool :=
  match env.chain with
  | [] => false
  | tip :: _ =>
      env.locked && (List.range 9).any fun i =>
        decide (tip.nHeight + i ≠ nNotBlockHeight) &&
          decide (env.votes.getBlockPayee (tip.nHeight + i) = some mn.pubKeyCollateralAddress)

/-- Whether a masternode has been voted for as the payee of a block, with at least two votes. -/
def paidBy (mn : CMasternode) (block : ChainBlock) : Bool :=
  match env.votes.mapMasternodeBlocks.lookup block.nHeight with
  | none => false
  | some payees => payees.hasPayeeWithVotes mn.pubKeyCollateralAddress 2

/-- The walk of `GetLastPaid` down the chain. -/
def lastPaidFrom (nMnCount : Nat) (nOffset : Int) (mn : CMasternode) :
    Nat -> List ChainBlock -> Int
  | _, [] => 0
  | n, block :: rest =>
      if block.nHeight > 0 then
        if n ≥ nMnCount then 0
        else if env.paidBy mn block then block.nTime + nOffset
        else lastPaidFrom nMnCount nOffset mn (n + 1) rest
      else 0

end QueueEnv

namespace ScoredMan

variable (mnodeman : ScoredMan) (env : QueueEnv)

/-- The number of masternodes which may be paid. -/
def nMnCount : Nat :=
  mnodeman.countEnabled env.minMasternodePaymentsProto

def getLastPaid (mn : CMasternode) : Int :=
  env.lastPaidFrom (5 * mnodeman.nMnCount env / 4)
    (Pow.compactOf (env.hashPayment mn.vin mn.sigTime).toNat % 150 : Nat) mn 0 env.chain

def secondsSincePayment (mn : CMasternode) : Int :=
  let sec := mnodeman.adjustedTime - mnodeman.getLastPaid env mn
  let month := 60 * 60 * 24 * 30
  if sec < month then sec
  else month + Pow.compactOf (env.hashPayment mn.vin mn.sigTime).toNat

/-- Whether a masternode is newer than a cycle of payments, reckoned in doubles. -/
def newerThanCycle (mn : CMasternode) : Bool :=
  decide (roundDouble (roundDouble mn.sigTime +
      mulDouble (mulDouble (mnodeman.nMnCount env) (roundDouble (26 / 10))) 60) >
    roundDouble mnodeman.adjustedTime)

/-- Whether a masternode is put into the queue. -/
def isQueued (nBlockHeight : Int) (fFilterSigTime : Bool) (mn : CMasternode) : Bool :=
  mn.isEnabled && !decide (mn.protocolVersion < env.minMasternodePaymentsProto) &&
    !env.isScheduled mn nBlockHeight && !(fFilterSigTime && mnodeman.newerThanCycle env mn) &&
    !decide (env.getMasternodeInputAge mn < mnodeman.nMnCount env)

def vecMasternodeLastPaid (nBlockHeight : Int) (fFilterSigTime : Bool) : List (Int × CTxIn) :=
  (mnodeman.vMasternodes.filter (mnodeman.isQueued env nBlockHeight fFilterSigTime)).map fun mn =>
    (mnodeman.secondsSincePayment env mn, mn.vin)

/-- The loop over the sorted queue, which stops at a tenth of the network. -/
def bestOfTenth (nTenthNetwork : Nat) (nBlockHeight : Int) :
    Nat -> UInt256 -> Option CMasternode -> List (Int × CTxIn) -> Option CMasternode
  | _, _, pBestMasternode, [] => pBestMasternode
  | nCountTenth, nHigh, pBestMasternode, s :: rest =>
      match mnodeman.find s.2 with
      | none => pBestMasternode
      | some pmn =>
          let n := pmn.calculateScore mnodeman.hashes (mnodeman.getBlockHash (nBlockHeight - 100))
          let nHigh' := if n > nHigh then n else nHigh
          let pBestMasternode' := if n > nHigh then some pmn else pBestMasternode
          if nCountTenth + 1 ≥ nTenthNetwork then pBestMasternode'
          else bestOfTenth nTenthNetwork nBlockHeight (nCountTenth + 1) nHigh' pBestMasternode' rest

/-- Who is paid out of a queue, and how many are in it. -/
def payFrom (nBlockHeight : Int) (vec : List (Int × CTxIn)) :
    Option CMasternode × Nat :=
  (mnodeman.bestOfTenth (mnodeman.nMnCount env / 10) nBlockHeight 0 0 none
      (mnodeman.sortScores vec),
    vec.length)

def getNextMasternodeInQueueForPayment (nBlockHeight : Int) (fFilterSigTime : Bool) :
    Option CMasternode × Nat :=
  let vec := mnodeman.vecMasternodeLastPaid env nBlockHeight fFilterSigTime
  -- new masternodes are not left out when that leaves too few
  if fFilterSigTime && decide (vec.length < mnodeman.nMnCount env / 3) then
    mnodeman.payFrom env nBlockHeight (mnodeman.vecMasternodeLastPaid env nBlockHeight false)
  else mnodeman.payFrom env nBlockHeight vec

end ScoredMan

end Hbcur
