import Hbcur.BlockIndex.Tree
import Hbcur.Stake.Modifier

/-!
# Stake kernels

`GetKernelStakeModifier`, `CheckStakeKernelHash` and `CheckProofOfStake` of `kernel.cpp`,
with `GetTransaction` of `main.cpp`.  The position of an entry in the active chain is its
height, so that the entries above one are the rest of the list.
-/

namespace Hbcur
namespace Stake

open Serialize

/-!
# What a node knows
-/

structure StakeNode where
  mapBlockIndex : UInt256 -> Option StakeIndex
  chainActive : List StakeIndex
  mempool : UInt256 -> Option CTransaction
  fTxIndex : Bool
  -- a record of the transaction index, and what the block file holds at its position
  readTxIndex : UInt256 -> Option (Option (UInt256 × CTransaction))
  -- the height of the coins of a transaction
  accessCoins : UInt256 -> Option Int
  readBlockFromDisk : UInt256 -> Option CBlock

/-- The hash function and the verification of the coinstake's first input. -/
structure KernelEnv where
  Hash : List UInt8 -> UInt256
  verifyScript : CScript -> CScript -> CTransaction -> Bool

/-- A transaction and the block it was found in, null when it is in the pool. -/
def getTransaction (node : StakeNode) (hash : UInt256) : Option (CTransaction × UInt256) :=
  match node.mempool hash with
  | some tx => some (tx, 0)
  | none =>
      match (if node.fTxIndex then node.readTxIndex hash else none) with
      | some none => none
      | some (some (hashBlock, tx)) => if tx.hash = hash then some (tx, hashBlock) else none
      | none =>
          match node.accessCoins hash with
          | none => none
          | some nHeight =>
              if 0 < nHeight then
                match node.chainActive[nHeight.toNat]? with
                | none => none
                | some pindexSlow =>
                    match node.readBlockFromDisk pindexSlow.hash with
                    | none => none
                    | some block =>
                        match block.vtx.find? (fun tx => decide (tx.hash = hash)) with
                        | none => none
                        | some tx => some (tx, pindexSlow.hash)
              else none

/-!
# The modifier of a kernel
-/

structure KernelModifier where
  nStakeModifier : BitVec 64
  nStakeModifierHeight : Nat
  nStakeModifierTime : Int
  deriving DecidableEq

/-- The loop, along the entries which follow in the active chain. -/
def kernelLoop (nTimeStop : Int) :
    StakeIndex -> Nat -> Int -> List StakeIndex -> Option KernelModifier
  | pindex, nStakeModifierHeight, nStakeModifierTime, [] =>
      if nStakeModifierTime < nTimeStop then none
      else some ⟨pindex.nStakeModifier, nStakeModifierHeight, nStakeModifierTime⟩
  | pindex, nStakeModifierHeight, nStakeModifierTime, pindexNext :: rest =>
      if nStakeModifierTime < nTimeStop then
        if pindexNext.fGeneratedStakeModifier then
          kernelLoop nTimeStop pindexNext pindexNext.nHeight pindexNext.getBlockTime rest
        else kernelLoop nTimeStop pindexNext nStakeModifierHeight nStakeModifierTime rest
      else some ⟨pindex.nStakeModifier, nStakeModifierHeight, nStakeModifierTime⟩

def getKernelStakeModifier (node : StakeNode) (hashBlockFrom : UInt256) :
    Option KernelModifier :=
  match node.mapBlockIndex hashBlockFrom with
  | none => none
  | some pindexFrom =>
      kernelLoop (pindexFrom.getBlockTime + selectionInterval) pindexFrom pindexFrom.nHeight
        pindexFrom.getBlockTime (node.chainActive.drop (pindexFrom.nHeight + 1))

/-!
# The hash of a kernel
-/

/-- The bytes of the stream which `stakeHash` hashes. -/
def stakeBytes (nTimeTx : BitVec 32) (nStakeModifier : BitVec 64) (prevout : COutPoint)
    (nTimeBlockFrom : BitVec 32) : List UInt8 :=
  writeLE 8 nStakeModifier.toNat ++ (writeLE 4 nTimeBlockFrom.toNat ++ writeLE 4 prevout.n ++
    writeLE 32 prevout.hash.toNat ++ writeLE 4 nTimeTx.toNat)

def stakeHash (env : KernelEnv) (nTimeTx : BitVec 32) (nStakeModifier : BitVec 64)
    (prevout : COutPoint) (nTimeBlockFrom : BitVec 32) : UInt256 :=
  env.Hash (stakeBytes nTimeTx nStakeModifier prevout nTimeBlockFrom)

/-- The weight of a coin times the target, cut off at 256 bits. -/
def stakeTarget (nValueIn : Int) (bnTargetPerCoinDay : Nat) : Nat :=
  ((nValueIn % 2 ^ 64).toNat / 100 * bnTargetPerCoinDay) % 2 ^ 256

def stakeTargetHit (hashProofOfStake : UInt256) (nValueIn : Int) (bnTargetPerCoinDay : Nat) :
    Bool :=
  decide (hashProofOfStake.toNat < stakeTarget nValueIn bnTargetPerCoinDay)

def nStakeMinAge : BitVec 32 := 60 * 60

/-- Whether one of the two tests of the times fails. -/
def timeViolation (nTimeBlockFrom nTimeTx : BitVec 32) : Bool :=
  decide (nTimeTx < nTimeBlockFrom) || decide (nTimeTx < nTimeBlockFrom + nStakeMinAge)

/-- What `CheckStakeKernelHash` returns and leaves in its reference arguments. -/
structure KernelVerdict where
  ok : Bool
  nTimeTx : BitVec 32
  hashProofOfStake : UInt256
  deriving DecidableEq

section Kernel

variable (env : KernelEnv)

/-- The search of the wallet, from the latest time down. -/
def kernelSearch (nStakeModifier : BitVec 64) (prevout : COutPoint)
    (nTimeBlockFrom : BitVec 32) (nValueIn : Int) (bnTargetPerCoinDay : Nat)
    (nTimeTx : BitVec 32) : Nat -> UInt256 -> KernelVerdict
  | 0, hashProofOfStake => ⟨false, nTimeTx, hashProofOfStake⟩
  | left + 1, _ =>
      let nTryTime := nTimeTx + BitVec.ofNat 32 (left + 1)
      let hash := stakeHash env nTryTime nStakeModifier prevout nTimeBlockFrom
      if stakeTargetHit hash nValueIn bnTargetPerCoinDay then ⟨true, nTryTime, hash⟩
      else kernelSearch nStakeModifier prevout nTimeBlockFrom nValueIn bnTargetPerCoinDay
        nTimeTx left hash

/-- The argument `txPrev` enters by the value of the output which is spent. -/
def checkStakeKernelHash (node : StakeNode) (nBits : Nat) (blockFrom : CBlock) (nValueIn : Int)
    (prevout : COutPoint) (nTimeTx : BitVec 32) (nHashDrift : BitVec 32) (fCheck : Bool)
    (hashProofOfStake : UInt256) : KernelVerdict :=
  let nTimeBlockFrom := BitVec.ofNat 32 blockFrom.nTime
  if timeViolation nTimeBlockFrom nTimeTx then ⟨false, nTimeTx, hashProofOfStake⟩
  else
    let bnTargetPerCoinDay := (BlockIndex.setCompact nBits).bnTarget
    match getKernelStakeModifier node blockFrom.hash.val with
    | none => ⟨false, nTimeTx, hashProofOfStake⟩
    | some modifier =>
        if fCheck then
          let hash := stakeHash env nTimeTx modifier.nStakeModifier prevout nTimeBlockFrom
          ⟨stakeTargetHit hash nValueIn bnTargetPerCoinDay, nTimeTx, hash⟩
        else
          kernelSearch env modifier.nStakeModifier prevout nTimeBlockFrom nValueIn
            bnTargetPerCoinDay nTimeTx nHashDrift.toNat hashProofOfStake

/-- The source indexes `vtx` and `vout` without a test; there is no verdict outside them. -/
def checkProofOfStake (node : StakeNode) (block : CBlock) : Bool :=
  match block.vtx[1]? with
  | none => false
  | some tx =>
      if tx.isCoinStake then
        match tx.vin.head? with
        | none => false
        | some txin =>
            match getTransaction node txin.prevout.hash with
            | none => false
            | some (txPrev, hashBlock) =>
                match txPrev.vout[txin.prevout.n]? with
                | none => false
                | some out =>
                    if env.verifyScript txin.scriptSig out.scriptPubKey tx then
                      match node.mapBlockIndex hashBlock with
                      | none => false
                      | some pindex =>
                          match node.readBlockFromDisk pindex.hash with
                          | none => false
                          | some blockprev =>
                              (checkStakeKernelHash env node block.nBits blockprev out.nValue
                                txin.prevout (BitVec.ofNat 32 block.nTime) 0 true 0).ok
                    else false
      else false

end Kernel

/-!
# The entry at which the walk ends
-/

/-- The data which a node finds before it tests a kernel. -/
structure KernelSource where
  tx : CTransaction
  txin : CTxIn
  out : CTxOut
  blockprev : CBlock
  pindexFrom : StakeIndex
  deriving DecidableEq

def kernelInput (block : CBlock) : Option (CTransaction × CTxIn) :=
  match block.vtx[1]? with
  | none => none
  | some tx =>
      if tx.isCoinStake then
        match tx.vin.head? with
        | none => none
        | some txin => some (tx, txin)
      else none

def kernelSource (node : StakeNode) (block : CBlock) : Option KernelSource := do
  let (tx, txin) <- kernelInput block
  let (txPrev, hashBlock) <- getTransaction node txin.prevout.hash
  let out <- txPrev.vout[txin.prevout.n]?
  let pindex <- node.mapBlockIndex hashBlock
  let blockprev <- node.readBlockFromDisk pindex.hash
  let pindexFrom <- node.mapBlockIndex blockprev.hash.val
  return { tx := tx, txin := txin, out := out, blockprev := blockprev, pindexFrom := pindexFrom }

namespace KernelSource

def target (src : KernelSource) (block : CBlock) : Nat :=
  stakeTarget src.out.nValue (BlockIndex.setCompact block.nBits).bnTarget

def bytes (src : KernelSource) (block : CBlock) (nStakeModifier : BitVec 64) : List UInt8 :=
  stakeBytes (BitVec.ofNat 32 block.nTime) nStakeModifier src.txin.prevout
    (BitVec.ofNat 32 src.blockprev.nTime)

end KernelSource

section Verdict

variable {env : KernelEnv} {node node' : StakeNode} {block : CBlock} {src : KernelSource}

theorem checkStakeKernelHash_of_none {nBits : Nat} {blockFrom : CBlock} {nValueIn : Int}
    {prevout : COutPoint} {nTimeTx nHashDrift : BitVec 32} {fCheck : Bool} {hash : UInt256}
    (h : node.mapBlockIndex blockFrom.hash.val = none) :
    (checkStakeKernelHash env node nBits blockFrom nValueIn prevout nTimeTx nHashDrift fCheck
      hash).ok = false := by
  have hnone : getKernelStakeModifier node blockFrom.hash.val = none := by
    unfold getKernelStakeModifier
    rw [h]
  unfold checkStakeKernelHash
  simp only [hnone]
  split_ifs <;> rfl

/-- The verdict from the data which is found. -/
theorem checkProofOfStake_eq :
    checkProofOfStake env node block =
      match kernelSource node block with
      | none => false
      | some src =>
          env.verifyScript src.txin.scriptSig src.out.scriptPubKey src.tx &&
            (checkStakeKernelHash env node block.nBits src.blockprev src.out.nValue
              src.txin.prevout (BitVec.ofNat 32 block.nTime) 0 true 0).ok := by
  unfold kernelSource kernelInput checkProofOfStake
  cases block.vtx[1]? with
  | none => rfl
  | some tx =>
      simp only
      split_ifs with hstake
      · cases tx.vin.head? with
        | none => rfl
        | some txin =>
            simp only [Option.bind_eq_bind, Option.bind_some]
            cases getTransaction node txin.prevout.hash with
            | none => rfl
            | some found =>
                rcases found with ⟨txPrev, hashBlock⟩
                simp only [Option.bind_some]
                cases txPrev.vout[txin.prevout.n]? with
                | none => rfl
                | some out =>
                    simp only [Option.bind_some]
                    cases node.mapBlockIndex hashBlock with
                    | none => simp
                    | some pindex =>
                        simp only [Option.bind_some]
                        cases node.readBlockFromDisk pindex.hash with
                        | none => simp
                        | some blockprev =>
                            simp only [Option.bind_some]
                            cases hfrom : node.mapBlockIndex blockprev.hash.val with
                            | none => simp [checkStakeKernelHash_of_none hfrom]
                            | some pindexFrom => simp
      · rfl

end Verdict

/-!
# Two nodes
-/

section Nodes

variable {verifyScript : CScript -> CScript -> CTransaction -> Bool} {node node' : StakeNode}
  {block : CBlock} {src : KernelSource}

end Nodes

/-!
# A fork

The staked block has two children.  The block to be tested is above the first of them; the
node is first on its chain and then on the fork.
-/

namespace Fork

def tx : CTransaction :=
  { hash := 0x4be10f3c97a26d588f03bce7126d95a1407f2bd6c83e591a07f4d2b8635ca91e
    nVersion := 1
    vin := [⟨⟨0x77c20f5be11a96d84302fb7c1d9958ae64b31f02c8d7e5a90b46f381d25ac7e9, 0⟩, [], 0⟩]
    vout := [CTxOut.make 100000000 [0x51], CTxOut.make 1000000000000 [0x51]]
    nLockTime := 0 }

def coinStake : CTransaction :=
  { hash := 0x2fd80356b7ae41c99d1e0f6c73b2485ad516e9027f3c8ba4610d95e3c248b7fa
    nVersion := 1
    vin := [⟨⟨tx.hash, 1⟩, [], 0xffffffff⟩]
    vout := [CTxOut.make 0 [], CTxOut.make 1000200000000 [0x51]]
    nLockTime := 0 }

def coinBase (hash : UInt256) : CTransaction :=
  { hash := hash
    nVersion := 1
    vin := [⟨⟨0, 0xffffffff⟩, [0x51, 0x00], 0xffffffff⟩]
    vout := [CTxOut.make 0 []]
    nLockTime := 0 }

def genesis : StakeIndex :=
  { hash := 0x000007e7caecfe89ceb3a614982155aca5018c2c4a1634083f5cdea8b7a85379
    hashPrevBlock := 0
    nTime := 1619651480
    fProofOfStake := false
    nHeight := 0
    nStakeModifier := 0
    fGeneratedStakeModifier := false }

def staked : StakeIndex :=
  { hash := 0x0000052b1c8f3d7ae06f94be47c1a2d0935e6f8820b47dd1369ac5e0f17b284c
    hashPrevBlock := genesis.hash
    nTime := 1619651540
    fProofOfStake := false
    nHeight := 1
    nStakeModifier := 0x55d0c0de1000
    fGeneratedStakeModifier := true }

def parent : StakeIndex :=
  { hash := 0x000003c7d05ab81e6ff2934c17e08d5ba2604fcb9973ee12d84a05b6721fc9d3
    hashPrevBlock := staked.hash
    nTime := 1619655240
    fProofOfStake := false
    nHeight := 2
    nStakeModifier := 0x9d3b57c1a2e4f806
    fGeneratedStakeModifier := true }

def other : StakeIndex :=
  { hash := 0x0000061a94e7cb0f53d82ea6417cf9b05d38e27240a1cb9f6634d0be587a12ef
    hashPrevBlock := staked.hash
    nTime := 1619651600
    fProofOfStake := false
    nHeight := 2
    nStakeModifier := 0x1
    fGeneratedStakeModifier := true }

def stakedBlock : CBlock :=
  { hash := ⟨staked.hash, by decide⟩
    nVersion := 3
    hashPrevBlock := genesis.hash
    hashMerkleRoot := 0x1
    nTime := 1619651540
    nBits := 0x1e0fffff
    nNonce := 1
    vtx := [coinBase 0x11, tx]
    vchBlockSig := [] }

def block : CBlock :=
  { hash := ⟨0x3d91c4e27f058ab6132ee7f98c04d5b1a96f3210c8de47b5902f6bd81e7ac354, by decide⟩
    nVersion := 3
    hashPrevBlock := parent.hash
    hashMerkleRoot := 0x2
    nTime := 1619655394
    nBits := 0x1c00ffff
    nNonce := 0
    vtx := [coinBase 0x12, coinStake]
    vchBlockSig := [0x30] }

/-- All four entries are indexed, whatever chain is active. -/
def node (chainActive : List StakeIndex) : StakeNode :=
  { mapBlockIndex := fun hash =>
      [genesis, staked, parent, other].find? (fun p => decide (p.hash = hash))
    chainActive := chainActive
    mempool := fun _ => none
    fTxIndex := true
    readTxIndex := fun hash => if hash = tx.hash then some (some (staked.hash, tx)) else none
    accessCoins := fun _ => none
    readBlockFromDisk := fun hash => if hash = staked.hash then some stakedBlock else none }

/-- The double SHA-256 of the kernel's bytes. -/
def hash (bytes : List UInt8) : UInt256 :=
  if bytes = stakeBytes 1619655394 0x9d3b57c1a2e4f806 ⟨tx.hash, 1⟩ 1619651540 then
    0x017d219845c7a5f3d550d2cda128590e7e7bbc5f55fdb523b73ebfe31aef6c0d
  else BitVec.allOnes 256

def source : KernelSource :=
  { tx := coinStake
    txin := ⟨⟨tx.hash, 1⟩, [], 0xffffffff⟩
    out := CTxOut.make 1000000000000 [0x51]
    blockprev := stakedBlock
    pindexFrom := staked }

end Fork

end Stake
end Hbcur

/-!
# Searching and checking

The wallet searches for a time at which a kernel hits the target, and the network checks the
kernel at the time which was found.
-/

namespace Hbcur
namespace Stake

/-- `CheckStakeKernelHash`; nothing where the previous transaction lacks the output. -/
def kernelVerdict (env : KernelEnv) (node : StakeNode) (nBits : Nat) (blockFrom : CBlock)
    (txPrev : CTransaction) (prevout : COutPoint) (nTimeTx nHashDrift : BitVec 32)
    (fCheck : Bool) (hashProofOfStake : UInt256) : Option KernelVerdict :=
  (txPrev.vout[prevout.n]?).map fun out =>
    checkStakeKernelHash env node nBits blockFrom out.nValue prevout nTimeTx nHashDrift fCheck
      hashProofOfStake

section Search

variable {env : KernelEnv} {node : StakeNode} {nBits : Nat} {blockFrom : CBlock}
  {nValueIn : Int} {prevout : COutPoint} {nTimeTx nHashDrift : BitVec 32} {hash : UInt256}

/-- A search which succeeds has found a time at which the hash hits the target. -/
theorem exists_of_kernelSearch {nStakeModifier : BitVec 64} {nTimeBlockFrom : BitVec 32}
    {bnTarget left : Nat}
    (h : (kernelSearch env nStakeModifier prevout nTimeBlockFrom nValueIn bnTarget nTimeTx left
      hash).ok = true) :
    exists i nTryTime, i < left ∧ nTryTime = nTimeTx + BitVec.ofNat 32 (i + 1) ∧
      stakeTargetHit (stakeHash env nTryTime nStakeModifier prevout nTimeBlockFrom) nValueIn
        bnTarget = true ∧
      kernelSearch env nStakeModifier prevout nTimeBlockFrom nValueIn bnTarget nTimeTx left
          hash =
        ⟨true, nTryTime, stakeHash env nTryTime nStakeModifier prevout nTimeBlockFrom⟩ := by
  induction left generalizing hash with
  | zero => cases h
  | succ left ih =>
      unfold kernelSearch at h ⊢
      simp only at h ⊢
      split_ifs at h ⊢ with hhit
      · exact ⟨left, _, Nat.lt_succ_self left, rfl, hhit, rfl⟩
      · rcases ih h with ⟨i, nTryTime, hi, htime, hfound⟩
        exact ⟨i, nTryTime, Nat.lt_succ_of_lt hi, htime, hfound⟩

/-- Times after one which respects the rules on times respect them too. -/
theorem timeViolation_of_le {nTimeBlockFrom nTryTime : BitVec 32}
    (h : timeViolation nTimeBlockFrom nTimeTx = false) (hle : nTimeTx ≤ nTryTime) :
    timeViolation nTimeBlockFrom nTryTime = false := by
  have hnat : nTimeTx.toNat ≤ nTryTime.toNat := BitVec.le_def.mp hle
  unfold timeViolation at h ⊢
  rw [Bool.or_eq_false_iff, decide_eq_false_iff_not, decide_eq_false_iff_not, BitVec.lt_def,
    BitVec.lt_def] at h ⊢
  constructor
  · exact fun hlt => h.1 (Nat.lt_of_le_of_lt hnat hlt)
  · exact fun hlt => h.2 (Nat.lt_of_le_of_lt hnat hlt)

/-- No time of the search wraps around. -/
theorem toNat_tryTime (hrange : nTimeTx.toNat + nHashDrift.toNat < 2 ^ 32) {i : Nat}
    (hi : i < nHashDrift.toNat) :
    (nTimeTx + BitVec.ofNat 32 (i + 1)).toNat = nTimeTx.toNat + (i + 1) := by
  rw [BitVec.toNat_add, BitVec.toNat_ofNat]
  omega

theorem checkStakeKernelHash_of_search
    (hrange : nTimeTx.toNat + nHashDrift.toNat < 2 ^ 32) {verdict : KernelVerdict}
    (hsearch : checkStakeKernelHash env node nBits blockFrom nValueIn prevout nTimeTx
      nHashDrift false hash = verdict) (hok : verdict.ok = true) (hash' : UInt256) :
    (nTimeTx.toNat < verdict.nTimeTx.toNat ∧
        verdict.nTimeTx.toNat ≤ nTimeTx.toNat + nHashDrift.toNat) ∧
      checkStakeKernelHash env node nBits blockFrom nValueIn prevout verdict.nTimeTx nHashDrift
        true hash' = verdict := by
  unfold checkStakeKernelHash at hsearch ⊢
  simp only at hsearch ⊢
  cases htime : timeViolation (BitVec.ofNat 32 blockFrom.nTime) nTimeTx with
  | true =>
      rw [htime, if_pos rfl] at hsearch
      rw [← hsearch] at hok
      cases hok
  | false =>
      rw [htime, if_neg Bool.false_ne_true] at hsearch
      cases hmodifier : getKernelStakeModifier node blockFrom.hash.val with
      | none =>
          rw [hmodifier] at hsearch
          simp only at hsearch
          rw [← hsearch] at hok
          cases hok
      | some modifier =>
          rw [hmodifier] at hsearch
          simp only [Bool.false_eq_true, if_false] at hsearch
          rw [← hsearch] at hok
          rcases exists_of_kernelSearch hok with ⟨i, nTryTime, hi, htry, hhit, hfound⟩
          have hverdict := hsearch.symm.trans hfound
          have hnat : nTryTime.toNat = nTimeTx.toNat + (i + 1) := by
            rw [htry]
            exact toNat_tryTime hrange hi
          have hle : nTimeTx ≤ nTryTime := by
            rw [BitVec.le_def]
            omega
          rw [hverdict]
          simp only [timeViolation_of_le htime hle, Bool.false_eq_true, if_false, if_true, hhit,
            and_true]
          omega

end Search

/-- A time which is found is in the range of the search and passes the check. -/
theorem kernelVerdict_check_of_search {env : KernelEnv} {node : StakeNode} {nBits : Nat}
    {blockFrom : CBlock} {txPrev : CTransaction} {prevout : COutPoint}
    {nTimeTx nHashDrift : BitVec 32} {hash : UInt256} {verdict : KernelVerdict}
    (hrange : nTimeTx.toNat + nHashDrift.toNat < 2 ^ 32)
    (hsearch : kernelVerdict env node nBits blockFrom txPrev prevout nTimeTx nHashDrift false
      hash = some verdict) (hok : verdict.ok = true) (hash' : UInt256) :
    (nTimeTx.toNat < verdict.nTimeTx.toNat ∧
        verdict.nTimeTx.toNat ≤ nTimeTx.toNat + nHashDrift.toNat) ∧
      kernelVerdict env node nBits blockFrom txPrev prevout verdict.nTimeTx nHashDrift true
        hash' = some verdict := by
  unfold kernelVerdict at hsearch ⊢
  rcases Option.map_eq_some_iff.mp hsearch with ⟨out, hout, hverdict⟩
  rcases checkStakeKernelHash_of_search hrange hverdict hok hash' with ⟨htime, hcheck⟩
  refine ⟨htime, ?_⟩
  rw [hout, Option.map_some, hcheck]

/-- The search finds the one time which hits. -/
theorem kernelVerdict_check_of_search_fork :
    exists verdict, verdict.ok = true ∧
      kernelVerdict ⟨Fork.hash, fun _ _ _ => true⟩
        (Fork.node [Fork.genesis, Fork.staked, Fork.parent]) 0x1c00ffff Fork.stakedBlock Fork.tx
        ⟨Fork.tx.hash, 1⟩ 1619655390 10 false 0 = some verdict ∧
      ((1619655390 : BitVec 32).toNat < verdict.nTimeTx.toNat ∧
          verdict.nTimeTx.toNat ≤ (1619655390 : BitVec 32).toNat + (10 : BitVec 32).toNat) ∧
        kernelVerdict ⟨Fork.hash, fun _ _ _ => true⟩
          (Fork.node [Fork.genesis, Fork.staked, Fork.parent]) 0x1c00ffff Fork.stakedBlock
          Fork.tx ⟨Fork.tx.hash, 1⟩ verdict.nTimeTx 10 true 0 = some verdict := by
  have hsearch : kernelVerdict ⟨Fork.hash, fun _ _ _ => true⟩
      (Fork.node [Fork.genesis, Fork.staked, Fork.parent]) 0x1c00ffff Fork.stakedBlock Fork.tx
      ⟨Fork.tx.hash, 1⟩ 1619655390 10 false 0 =
      some ⟨true, 1619655394,
        0x017d219845c7a5f3d550d2cda128590e7e7bbc5f55fdb523b73ebfe31aef6c0d⟩ := by
    decide +kernel
  exact ⟨_, rfl, hsearch, kernelVerdict_check_of_search (by decide) hsearch rfl 0⟩

end Stake
end Hbcur
