import Hbcur.Foundation.Containers
import Hbcur.Mempool.Accept
import Hbcur.Script.Building
import Hbcur.Validation.AcceptBlock
import Hbcur.Wallet.CoinStake

/-!
# Block templates

`CreateNewBlock` of `miner.cpp` up to the block which it hands to `TestBlockValidity`.
Transactions of the pool wait for their parents and are then taken from a priority queue,
whose order changes from priority to fee on the way.
-/

namespace Hbcur

open Foundation Serialize

variable {state : Type} [CoinsState state]

/-!
# Priorities
-/

structure TxPriority where
  dPriority : Rat
  feeRate : Int
  tx : CTransaction

/-- `TxPriorityCompare`. -/
def TxPriority.less (byFee : Bool) (a b : TxPriority) : Bool :=
  if byFee then
    if a.feeRate = b.feeRate then decide (a.dPriority < b.dPriority)
    else decide (a.feeRate < b.feeRate)
  else
    if a.dPriority = b.dPriority then decide (a.feeRate < b.feeRate)
    else decide (a.dPriority < b.dPriority)

/-- A transaction with parents in the pool which are not in the block yet. -/
structure COrphan where
  ptx : CTransaction
  setDependsOn : List UInt256
  feeRate : Int
  dPriority : Rat

namespace COrphan

def waits (orphan : COrphan) : Bool :=
  !orphan.setDependsOn.isEmpty

def priority (orphan : COrphan) : TxPriority :=
  { dPriority := orphan.dPriority, feeRate := orphan.feeRate, tx := orphan.ptx }

/-- Without one of the parents. -/
def release (orphan : COrphan) (hash : UInt256) : COrphan :=
  { orphan with setDependsOn := orphan.setDependsOn.filter fun other => decide (other ≠ hash) }

end COrphan

/-- The constructor of `CFeeRate`, which divides without signs. -/
def satoshisPerK (nFeePaid : Int) (nSize : Nat) : Int :=
  if nSize > 0 then wrapInt64 (wrapUInt64 (nFeePaid * 1000) / nSize) else 0

def AllowFree (dPriority : Rat) : Bool :=
  decide (dPriority > 57600000)

namespace CTransaction

def calculateModifiedSize (tx : CTransaction) (nTxSize : Nat) : Nat :=
  tx.vin.foldl (fun nTxSize txin =>
    let offset := 41 + min 110 txin.scriptSig.length
    if nTxSize > offset then nTxSize - offset else nTxSize) nTxSize

def computePriority (tx : CTransaction) (dPriorityInputs : Rat) (nTxSize : Nat) : Rat :=
  if tx.calculateModifiedSize nTxSize = 0 then 0
  else roundDouble (dPriorityInputs / tx.calculateModifiedSize nTxSize)

end CTransaction

def CTxMemPool.applyDeltas (pool : CTxMemPool) (hash : UInt256) (deltas : Rat × Int) :
    Rat × Int :=
  match pool.mapDeltas.lookup hash with
  | none => deltas
  | some found => (roundDouble (deltas.1 + found.1), deltas.2 + found.2)

/-!
# What the miner depends on
-/

structure MinerEnv where
  node : NodeState
  payments : CMasternodePayments
  wallet : CWallet
  stake : StakeContext
  /-- Whether the time has advanced since the last search for a coinstake. -/
  fSearch : Bool
  pq : PriorityQueue TxPriority
  getHash : CMutableTransaction -> UInt256
  headerHash : CBlock -> BlockHash
  nVersion : Int
  medianTimePast : Nat
  /-- The arguments for the sizes of a block. -/
  blockMaxSize : Nat
  blockPrioritySize : Nat
  blockMinSize : Nat
  minRelayTxFee : Int

namespace MinerEnv

/-- Scripts are checked at once. -/
def checkNode (env : MinerEnv) : NodeState :=
  { env.node with scriptCheckThreads := false }

def nBlockMaxSize (env : MinerEnv) : Nat :=
  max 1000 (min (MAX_BLOCK_SIZE - 1000) env.blockMaxSize)

def nBlockPrioritySize (env : MinerEnv) : Nat :=
  min env.nBlockMaxSize env.blockPrioritySize

def nBlockMinSize (env : MinerEnv) : Nat :=
  min env.nBlockMaxSize env.blockMinSize

end MinerEnv

/-!
# Collecting the transactions of the pool
-/

structure PriorityScan where
  dependsOn : List UInt256 := []
  nTotalIn : Int := 0
  dPriority : Rat := 0

/-- One input; nothing when what it spends is not there, which the pool rules out. -/
def scanInput (v : state) (pool : CTxMemPool) (nHeight : Int) (scan : PriorityScan)
    (txin : CTxIn) : Option PriorityScan :=
  if haveCoins v txin.prevout.hash then
    let coins := coinsAt v txin.prevout.hash
    coins.vout[txin.prevout.n]?.map fun out =>
      { scan with
        nTotalIn := scan.nTotalIn + out.nValue
        dPriority := roundDouble (scan.dPriority +
          mulDouble (roundDouble out.nValue) (nHeight - coins.nHeight : Int)) }
  else
    (pool.mapTx.lookup txin.prevout.hash).bind fun parent =>
      parent.tx.vout[txin.prevout.n]?.map fun out =>
        { scan with
          dependsOn := scan.dependsOn ++ [txin.prevout.hash]
          nTotalIn := scan.nTotalIn + out.nValue }

/-- Orphans are named by their position in the list. -/
structure Collected where
  vOrphan : List COrphan := []
  mapDependers : StdMap UInt256 (List Nat) := ∅
  vecPriority : List TxPriority := []

def addDepender (i : Nat) (mapDependers : StdMap UInt256 (List Nat)) (hash : UInt256) :
    StdMap UInt256 (List Nat) :=
  mapDependers.insert hash ((mapDependers.lookup hash).getD [] ++ [i])

/-- One transaction of the pool; nothing when its outputs cannot be added up. -/
def collectTx (env : MinerEnv) (v : state) (pool : CTxMemPool) (nHeight : Int)
    (found : Collected) (tx : CTransaction) : Option Collected :=
  if tx.isCoinBase || tx.isCoinStake || !isFinalTx env.node tx nHeight 0 then some found
  else
    match tx.vin.foldlM (scanInput v pool nHeight) {} with
    | none => some found
    | some scan =>
        tx.getValueOut.map fun nValueOut =>
          let nTxSize := tx.getSerializeSize
          let deltas := pool.applyDeltas tx.hash
            (tx.computePriority scan.dPriority nTxSize, scan.nTotalIn)
          let feeRate := satoshisPerK (deltas.2 - nValueOut) nTxSize
          if scan.dependsOn.isEmpty then
            { found with
              vecPriority := found.vecPriority ++
                [{ dPriority := deltas.1, feeRate := feeRate, tx := tx }] }
          else
            { found with
              vOrphan := found.vOrphan ++
                [{ ptx := tx
                   setDependsOn := scan.dependsOn
                   feeRate := feeRate
                   dPriority := deltas.1 }]
              mapDependers := scan.dependsOn.foldl (addDepender found.vOrphan.length)
                found.mapDependers }

def collect (env : MinerEnv) (v : state) (pool : CTxMemPool) (nHeight : Int) :
    Option Collected :=
  (pool.mapTx.entries.map fun e => e.2.tx).foldlM (collectTx env v pool nHeight) {}

/-!
# Selecting
-/

/-- What the block has been filled with so far. -/
structure Filling (state : Type) where
  view : state
  nBlockSize : Nat := 1000
  nBlockSigOps : Nat := 100
  nFees : Int := 0
  vtx : List CTransaction := []

structure Selection (state : Type) extends Filling state where
  vecPriority : List TxPriority
  vOrphan : List COrphan
  fSortedByFee : Bool

/-- A parent is in the block; an orphan which waits for nothing else joins the queue. -/
def releaseOrphan (pq : PriorityQueue TxPriority) (byFee : Bool) (hash : UInt256)
    (found : List TxPriority × List COrphan) (i : Nat) : List TxPriority × List COrphan :=
  match found.2[i]? with
  | none => found
  | some orphan =>
      if orphan.waits then
        let orphan := orphan.release hash
        (if orphan.waits then found.1
          else pq.push (TxPriority.less byFee) found.1 orphan.priority,
          found.2.set i orphan)
      else found

/-- Once the block is past its part for priorities, the queue is ordered by fee. -/
def orderByFee (env : MinerEnv) (s : Selection state) (p : TxPriority) : Selection state :=
  if !s.fSortedByFee && (decide (s.nBlockSize + p.tx.getSerializeSize ≥ env.nBlockPrioritySize)
      || !AllowFree p.dPriority) then
    { s with
      fSortedByFee := true
      vecPriority := env.pq.make (TxPriority.less true) s.vecPriority }
  else s

/-- Put a transaction into the block. -/
def Filling.addTx (filling : Filling state) (tx : CTransaction) (nTxFees : Int)
    (nTxSigOps : Nat) (view : state) : Filling state :=
  { view := view
    nBlockSize := filling.nBlockSize + tx.getSerializeSize
    nBlockSigOps := filling.nBlockSigOps + nTxSigOps
    nFees := wrapInt64 (filling.nFees + nTxFees)
    vtx := filling.vtx ++ [tx] }

/-- The filling after a transaction, and what waits for it in the queue. -/
def releaseAll (env : MinerEnv) (mapDependers : StdMap UInt256 (List Nat))
    (s : Selection state) (hash : UInt256) (filling : Filling state) : Selection state :=
  let released := ((mapDependers.lookup hash).getD []).foldl
    (releaseOrphan env.pq s.fSortedByFee hash) (s.vecPriority, s.vOrphan)
  { toFilling := filling
    vecPriority := released.1
    vOrphan := released.2
    fSortedByFee := s.fSortedByFee }

/-- The part from the inputs on; nothing when an assertion of the source fails. -/
def tryTx (env : MinerEnv) (nHeight : Int) (mapDependers : StdMap UInt256 (List Nat))
    (s : Selection state) (tx : CTransaction) : Option (Selection state) :=
  if !haveInputs s.view tx then some s
  else
    match getValueIn s.view tx, tx.getValueOut with
    | some nValueIn, some nValueOut =>
        let nTxSigOps := getLegacySigOpCount tx + getP2SHSigOpCount s.view tx
        if s.nBlockSigOps + nTxSigOps ≥ MAX_BLOCK_SIGOPS then some s
        else
          match checkInputs env.checkNode {} s.view tx true
              { p2sh := true, dersig := false } with
          | Except.error Failure.aborted => none
          | Except.error (Failure.refused _) => some s
          | Except.ok () =>
              (updateCoins s.view tx nHeight).map fun connected =>
                releaseAll env mapDependers s tx.hash
                  (s.toFilling.addTx tx (wrapInt64 (nValueIn - nValueOut)) nTxSigOps connected.2)
    | _, _ => none

/-- What becomes of the transaction at the front of the queue. -/
def considerTx (env : MinerEnv) (pool : CTxMemPool) (nHeight : Int)
    (mapDependers : StdMap UInt256 (List Nat)) (s : Selection state) (p : TxPriority) :
    Option (Selection state) :=
  let nTxSize := p.tx.getSerializeSize
  if s.nBlockSize + nTxSize ≥ env.nBlockMaxSize then some s
  else if s.nBlockSigOps + getLegacySigOpCount p.tx ≥ MAX_BLOCK_SIGOPS then some s
  else
    let deltas := pool.applyDeltas p.tx.hash (0, 0)
    if s.fSortedByFee && decide (deltas.1 ≤ 0) && decide (deltas.2 ≤ 0) &&
        decide (p.feeRate < env.minRelayTxFee) &&
        decide (s.nBlockSize + nTxSize ≥ env.nBlockMinSize) then some s
    else tryTx env nHeight mapDependers (orderByFee env s p) p.tx

/-- The loop, for a number of rounds. -/
def selectRounds (env : MinerEnv) (pool : CTxMemPool) (nHeight : Int)
    (mapDependers : StdMap UInt256 (List Nat)) :
    Nat -> Selection state -> Option (Selection state)
  | 0, s => some s
  | rounds + 1, s =>
      match env.pq.pop (TxPriority.less s.fSortedByFee) s.vecPriority with
      | none => some s
      | some (p, rest) =>
          (considerTx env pool nHeight mapDependers { s with vecPriority := rest } p).bind
            (selectRounds env pool nHeight mapDependers rounds)

/-- How many rounds are left at most: what is in the queue, and the orphans which wait. -/
def Selection.rounds (s : Selection state) : Nat :=
  s.vecPriority.length + s.vOrphan.countP COrphan.waits

def Collected.selection (found : Collected) (env : MinerEnv) (v : state) : Selection state :=
  { view := v
    vecPriority := env.pq.make (TxPriority.less (env.nBlockPrioritySize == 0)) found.vecPriority
    vOrphan := found.vOrphan
    fSortedByFee := env.nBlockPrioritySize == 0 }

/-- What the transactions of the pool fill the block with. -/
def fillBlock (env : MinerEnv) (v : state) (pool : CTxMemPool) (nHeight : Int) :
    Option (Filling state) :=
  (collect env v pool nHeight).bind fun found =>
    (selectRounds env pool nHeight found.mapDependers (found.selection env v).rounds
      (found.selection env v)).map Selection.toFilling

/-!
# The block
-/

/-- The coinbase as it is pushed first. -/
def coinBaseOutline (scriptPubKeyIn : CScript) : CMutableTransaction :=
  { vin :=
      [{ prevout := { hash := 0, n := COutPoint.maxUInt32 }
         scriptSig := []
         nSequence := COutPoint.maxUInt32 }]
    vout := [{ CTxOut.null with scriptPubKey := scriptPubKeyIn }] }

/-- The output is emptied in place, which does not compute the identifier anew. -/
def emptyCoinBase (getHash : CMutableTransaction -> UInt256) (scriptPubKeyIn : CScript) :
    CTransaction :=
  { (coinBaseOutline scriptPubKeyIn).toTransaction getHash with
    vout := [{ CTxOut.null with nValue := 0 }] }

namespace MinerEnv

/-- The coinstake and the time of the block. -/
def findStake (env : MinerEnv) (tipHeight : Int) (nBits : Nat) :
    Option (CTransaction × Nat) :=
  if env.fSearch then
    (env.wallet.createCoinStake env.stake env.node env.payments tipHeight nBits).map
      fun found => (found.1.toTransaction env.getHash, found.2.toNat)
  else none

/-- The final coinbase of a block with proof of work. -/
def coinBase (env : MinerEnv) (scriptPubKeyIn : CScript) (tipHeight nFees : Int) :
    CTransaction :=
  let txNew := fillBlockPayee env.node env.payments tipHeight (coinBaseOutline scriptPubKeyIn)
    nFees false
  CMutableTransaction.toTransaction env.getHash
    { txNew with
      vin := txNew.vin.map fun txin =>
        { txin with scriptSig := pushInt64 (tipHeight + 1) ++ [UInt8.ofNat Script.OP_0] } }

/-- A header which is not filled in yet; its hash does not matter. -/
def emptyHeader (env : MinerEnv) (nTime : Nat) : CBlock :=
  { hash := env.node.params.hashGenesisBlock
    nVersion := env.nVersion
    hashPrevBlock := 0
    hashMerkleRoot := 0
    nTime := nTime
    nBits := 0
    nNonce := 0
    vtx := []
    vchBlockSig := [] }

/-- The header is filled in last. -/
def fillHeader (env : MinerEnv) (hashPrevBlock : BlockHash) (nTime : Nat)
    (vtx : List CTransaction) : CBlock :=
  let block := { env.emptyHeader nTime with
    hashPrevBlock := hashPrevBlock.val
    vtx := vtx }
  let block := { block with nBits := env.node.getNextWorkRequired block }
  { block with hash := env.headerHash block }

end MinerEnv

/--
The block which is handed to `TestBlockValidity`; nothing when there is no tip, when no stake
is found, or when an assertion of the source fails.
-/
def createNewBlock (env : MinerEnv) (v : state) (pool : CTxMemPool) (scriptPubKeyIn : CScript)
    (fProofOfStake : Bool) : Option CBlock :=
  match env.node.tip with
  | none => none
  | some tip =>
      if fProofOfStake then
        match env.findStake tip.2 (env.node.getNextWorkRequired
            (env.emptyHeader env.node.adjustedTime.toNat)) with
        | none => none
        | some (coinStake, nTime) =>
            (fillBlock env v pool (tip.2 + 1)).map fun filling =>
              env.fillHeader tip.1 nTime
                (emptyCoinBase env.getHash scriptPubKeyIn :: coinStake :: filling.vtx)
      else
        (fillBlock env v pool (tip.2 + 1)).map fun filling =>
          env.fillHeader tip.1
            (max (env.medianTimePast + 1 : Int) env.node.adjustedTime).toNat
            (env.coinBase scriptPubKeyIn tip.2 filling.nFees :: filling.vtx)

end Hbcur
