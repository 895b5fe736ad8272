import Hbcur.Stake.Kernel
import Hbcur.Validation.AcceptBlock
import Hbcur.Wallet.BlockSignature

/-!
# Accesses by index

What `IsBlockPayeeValid`, `CheckProofOfStake` and `CheckStakeKernelHash` take from a block and
from the transaction it stakes, on the way of a block through `ProcessNewBlock`.  The indices
come from the height and from the block itself.
-/

namespace Hbcur

open Foundation

/-- An element which is taken from a container of a given size. -/
structure Access where
  index : Nat
  size : Nat
  deriving DecidableEq

def Access.InBounds (a : Access) : Prop := a.index < a.size

instance (a : Access) : Decidable a.InBounds := inferInstanceAs (Decidable (a.index < a.size))

def AllInBounds (accesses : List Access) : Prop := forall a, a ∈ accesses -> a.InBounds

theorem allInBounds_nil : AllInBounds [] := by
  intro a h
  cases h

theorem allInBounds_cons {a : Access} {rest : List Access} :
    AllInBounds (a :: rest) <-> a.InBounds ∧ AllInBounds rest :=
  List.forall_mem_cons

theorem allInBounds_append {accesses accesses' : List Access} :
    AllInBounds (accesses ++ accesses') <-> AllInBounds accesses ∧ AllInBounds accesses' :=
  List.forall_mem_append

/-- What is accessed when a computation has succeeded. -/
def afterOk {result : Type} (x : Except Failure result) (accesses : result -> List Access) :
    List Access :=
  match x with
  | Except.error _ => []
  | Except.ok r => accesses r

theorem allInBounds_afterOk {result : Type} {x : Except Failure result}
    {accesses : result -> List Access} :
    AllInBounds (afterOk x accesses) <-> forall r, x = Except.ok r -> AllInBounds (accesses r) := by
  cases x with
  | error err =>
      refine ⟨fun _ r h => ?_, fun _ => allInBounds_nil⟩
      cases h
  | ok r =>
      refine ⟨fun hall r' h => ?_, fun hall => hall r rfl⟩
      cases h
      exact hall

theorem allInBounds_if {cond : Prop} [Decidable cond] {accesses : List Access} :
    AllInBounds (if cond then accesses else []) <-> (cond -> AllInBounds accesses) := by
  split_ifs with hcond
  · exact ⟨fun hall _ => hall, fun hall => hall hcond⟩
  · exact ⟨fun _ h => absurd h hcond, fun _ => allInBounds_nil⟩

theorem allInBounds_flatMap {item : Type} {items : List item} {accesses : item -> List Access} :
    AllInBounds (items.flatMap accesses) <->
      forall x, x ∈ items -> AllInBounds (accesses x) := by
  constructor
  · intro hall x hx a ha
    exact hall a (List.mem_flatMap.mpr ⟨x, hx, ha⟩)
  · intro hall a ha
    rcases List.mem_flatMap.mp ha with ⟨x, hx, hmem⟩
    exact hall x hx a hmem

/-!
# Payees
-/

/-- The transaction `IsBlockPayeeValid` looks at, by the height. -/
def payeeAccesses (node : NodeState) (block : CBlock) (nBlockHeight : Int) : List Access :=
  if !node.isSynced then []
  else
    [{ index := if nBlockHeight > node.params.nLastPOWBlock then 1 else 0
       size := block.vtx.length }]

/-- The checks of `CheckBlock` before the one of the payee. -/
def checkBeforePayee (node : NodeState) (state : CValidationState) (block : CBlock)
    (fCheckPOW fCheckMerkleRoot : Bool) : Except Failure Unit := do
  checkProofOfWorkHeader node state block fCheckPOW
  require (!decide (block.getBlockTime >
      node.adjustedTime + if block.isProofOfStake then 180 else 7200))
    (Failure.invalid state RejectCode.invalid "time-too-new")
  onlyIf fCheckMerkleRoot (checkMerkleRoot node state block)
  require (!(block.vtx.isEmpty || decide (block.vtx.length > MAX_BLOCK_SIZE) ||
      decide (block.getSerializeSize > MAX_BLOCK_SIZE)))
    (Failure.dos state 100 RejectCode.invalid "bad-blk-length")
  require (match block.vtx.head? with
      | some first => first.isCoinBase
      | none => false)
    (Failure.dos state 100 RejectCode.invalid "bad-cb-missing")
  forEach (fun tx => require (!tx.isCoinBase)
    (Failure.dos state 100 RejectCode.invalid "bad-cb-multiple")) block.vtx.tail
  onlyIf block.isProofOfStake (checkStakeForm state block)
  onlyIf (node.sporkActive Spork.swiftTxBlockFiltering) (checkLockedInputs node state block)

/-- The height for which `CheckBlock` asks for the payee, if it does. -/
def payeeHeight (node : NodeState) (block : CBlock) : Option Int :=
  match node.tip with
  | none => none
  | some tip =>
      if heightByPrevBlock node tip block ≠ 0 ∧ node.isInitialBlockDownload = false then
        some (heightByPrevBlock node tip block)
      else none

def checkBlockAccesses (node : NodeState) (block : CBlock) : List Access :=
  afterOk (checkBeforePayee node {} block true true) fun _ =>
    match payeeHeight node block with
    | none => []
    | some nHeight => payeeAccesses node block nHeight

/-- A coinbase alone which is asked for the payee of its second transaction. -/
structure LoneCoinBase (node : NodeState) (block : CBlock) : Prop where
  before : checkBeforePayee node {} block true true = Except.ok ()
  synced : node.isSynced = true
  late : exists nHeight, payeeHeight node block = some nHeight ∧
    nHeight > node.params.nLastPOWBlock
  alone : block.vtx.length = 1

theorem vtx_pos_of_before {node : NodeState} {block : CBlock}
    (h : checkBeforePayee node {} block true true = Except.ok ()) : 0 < block.vtx.length := by
  simp only [checkBeforePayee, then_eq_ok_iff, require_eq_ok_iff] at h
  rcases h with ⟨_, _, _, hsize, _⟩
  apply List.length_pos_of_ne_nil
  intro hnil
  rw [hnil] at hsize
  cases hsize

theorem payeeAccesses_iff {node : NodeState} {block : CBlock} (hpos : 0 < block.vtx.length)
    (nBlockHeight : Int) :
    AllInBounds (payeeAccesses node block nBlockHeight) <->
      ¬ (node.isSynced = true ∧ nBlockHeight > node.params.nLastPOWBlock ∧
        block.vtx.length = 1) := by
  unfold payeeAccesses
  by_cases hsynced : node.isSynced = true
  · have hasked : ¬ (!node.isSynced) = true := by simp [hsynced]
    rw [if_neg hasked, allInBounds_cons]
    simp only [allInBounds_nil, and_true, Access.InBounds, hsynced, true_and]
    by_cases hlate : nBlockHeight > node.params.nLastPOWBlock
    · rw [if_pos hlate]
      simp only [hlate, true_and]
      omega
    · rw [if_neg hlate]
      simp only [hpos, hlate, false_and, not_false_eq_true]
  · have hskipped : (!node.isSynced) = true := by simpa using hsynced
    rw [if_pos hskipped]
    simp only [allInBounds_nil, hsynced, Bool.false_eq_true, false_and, not_false_eq_true]

theorem checkBlockAccesses_iff (node : NodeState) (block : CBlock) :
    AllInBounds (checkBlockAccesses node block) <-> ¬ LoneCoinBase node block := by
  unfold checkBlockAccesses
  rw [allInBounds_afterOk]
  constructor
  · intro hall hlone
    rcases hlone.late with ⟨nHeight, hheight, hlate⟩
    have haccesses := hall () hlone.before
    rw [hheight] at haccesses
    exact (payeeAccesses_iff (vtx_pos_of_before hlone.before) nHeight).mp haccesses
      ⟨hlone.synced, hlate, hlone.alone⟩
  · intro hnone _ hbefore
    cases hheight : payeeHeight node block with
    | none => exact allInBounds_nil
    | some nHeight =>
        apply (payeeAccesses_iff (vtx_pos_of_before hbefore) nHeight).mpr
        rintro ⟨hsynced, hlate, halone⟩
        exact hnone ⟨hbefore, hsynced, ⟨nHeight, hheight, hlate⟩, halone⟩

/-!
# Stakes
-/

section Stakes

open Stake

variable (env : KernelEnv) (stake : StakeNode)

/-- The value of the output which is staked. -/
def kernelHashAccesses (txPrev : CTransaction) (prevout : COutPoint) : List Access :=
  [{ index := prevout.n, size := txPrev.vout.length }]

/-- The accesses of `CheckProofOfStake`, up to the first one outside of its container. -/
def proofOfStakeAccesses (block : CBlock) : List Access :=
  { index := 1, size := block.vtx.length } ::
    match block.vtx[1]? with
    | none => []
    | some tx =>
        if tx.isCoinStake then
          { index := 0, size := tx.vin.length } ::
            match tx.vin.head? with
            | none => []
            | some txin =>
                match getTransaction stake txin.prevout.hash with
                | none => []
                | some (txPrev, hashBlock) =>
                    { index := txin.prevout.n, size := txPrev.vout.length } ::
                      match txPrev.vout[txin.prevout.n]? with
                      | none => []
                      | some out =>
                          if env.verifyScript txin.scriptSig out.scriptPubKey tx then
                            match stake.mapBlockIndex hashBlock with
                            | none => []
                            | some pindex =>
                                match stake.readBlockFromDisk pindex.hash with
                                | none => []
                                | some _ => kernelHashAccesses txPrev txin.prevout
                          else []
        else []

/-- The kernel names an output which its transaction does not have. -/
def MissingOutput (block : CBlock) : Prop :=
  exists tx txin txPrev hashBlock, kernelInput block = some (tx, txin) ∧
    getTransaction stake txin.prevout.hash = some (txPrev, hashBlock) ∧
    txPrev.vout.length ≤ txin.prevout.n

/-- The first input of the coinstake of a block. -/
theorem exists_kernelInput {block : CBlock} (h : block.isProofOfStake = true) :
    exists first tx rest txin inputs, block.vtx = first :: tx :: rest ∧
      tx.isCoinStake = true ∧ tx.vin = txin :: inputs := by
  unfold CBlock.isProofOfStake at h
  split at h
  · rename_i first tx rest hvtx
    have hstake := h
    unfold CTransaction.isCoinStake at h
    split at h
    · rename_i txin inputs _ _ _ hvin _
      exact ⟨first, tx, rest, txin, inputs, hvtx, hstake, hvin⟩
    · cases h
  · cases h

theorem proofOfStakeAccesses_iff {block : CBlock} (h : block.isProofOfStake = true) :
    AllInBounds (proofOfStakeAccesses env stake block) <-> ¬ MissingOutput stake block := by
  rcases exists_kernelInput h with ⟨first, tx, rest, txin, inputs, hvtx, hstake, hvin⟩
  have hinput : kernelInput block = some (tx, txin) := by
    unfold kernelInput
    rw [hvtx]
    simp only [List.getElem?_cons_succ, List.getElem?_cons_zero, hstake, if_true, hvin,
      List.head?_cons]
  unfold proofOfStakeAccesses MissingOutput
  rw [hinput, hvtx]
  simp only [List.getElem?_cons_succ, List.getElem?_cons_zero, hstake, if_true, hvin,
    List.head?_cons, allInBounds_cons]
  have hsecond : Access.InBounds { index := 1, size := (first :: tx :: rest).length } :=
    Nat.succ_lt_succ (Nat.zero_lt_succ _)
  have hfirst : Access.InBounds { index := 0, size := (txin :: inputs).length } :=
    Nat.zero_lt_succ _
  cases hprev : getTransaction stake txin.prevout.hash with
  | none =>
      refine ⟨?_, fun _ => ⟨hsecond, hfirst, allInBounds_nil⟩⟩
      rintro _ ⟨tx', txin', txPrev, hashBlock, hsame, hsome, _⟩
      cases hsame
      rw [hprev] at hsome
      cases hsome
  | some found =>
      rcases found with ⟨txPrev, hashBlock⟩
      simp only [allInBounds_cons]
      constructor
      · rintro ⟨_, _, hin, _⟩ ⟨tx', txin', txPrev', hashBlock', hsame, hsome, hout⟩
        cases hsame
        rw [hprev] at hsome
        cases hsome
        exact absurd hin (Nat.not_lt.mpr hout)
      · intro hnone
        have hin : Access.InBounds { index := txin.prevout.n, size := txPrev.vout.length } := by
          by_contra hout
          exact hnone ⟨tx, txin, txPrev, hashBlock, rfl, hprev, Nat.not_lt.mp hout⟩
        refine ⟨hsecond, hfirst, hin, ?_⟩
        -- The second access to the output is the first one over again.
        split
        · exact allInBounds_nil
        · split_ifs
          · split
            · exact allInBounds_nil
            · split
              · exact allInBounds_nil
              · exact allInBounds_cons.mpr ⟨hin, allInBounds_nil⟩
          · exact allInBounds_nil

end Stakes

/-!
# Deliveries
-/

/-- A node together with what it knows about stakes. -/
structure StakingNode where
  node : NodeState
  stake : Stake.StakeNode
  env : Stake.KernelEnv
  checkProofOfStake_eq : node.checkProofOfStake = Stake.checkProofOfStake env stake

def checkWorkAccesses (staking : StakingNode) (block : CBlock) : List Access :=
  if block.nBits == staking.node.getNextWorkRequired block then
    if block.isProofOfStake then proofOfStakeAccesses staking.env staking.stake block else []
  else []

def acceptBlockAccesses (staking : StakingNode) (block : CBlock) : List Access :=
  afterOk (findPrevBlock staking.node {} block) fun _ =>
    (if block.hash ≠ staking.node.params.hashGenesisBlock then checkWorkAccesses staking block
      else []) ++
    afterOk (onlyIf (decide (block.hash ≠ staking.node.params.hashGenesisBlock))
        (checkWork staking.node {} block)) fun _ =>
      afterOk (acceptBlockHeader staking.node {} block) fun header =>
        if header.fHaveData = false then checkBlockAccesses staking.node block else []

variable {secret : Type}

/-- A block which is handed to `ProcessNewBlock`, with the states of the node on its way. -/
structure Delivery (secret : Type) where
  block : CBlock
  curve : Curve secret
  /-- Whether the block comes from a peer. -/
  fPeer : Bool
  /-- Before the lock is taken. -/
  checking : NodeState
  accepting : StakingNode
  /-- Each time the block is connected. -/
  connecting : List NodeState

namespace Delivery

/-- Whether `ProcessNewBlock` gives up because the previous block is not known. -/
def prevUnknown (d : Delivery secret) : Bool :=
  decide (d.block.hash ≠ d.checking.params.hashGenesisBlock) && d.fPeer &&
    (d.checking.mapBlockIndex d.block.hashPrevBlock).isNone

/-- All accesses of the three functions to a block which is delivered. -/
def accesses (d : Delivery secret) : List Access :=
  checkBlockAccesses d.checking d.block ++
    if d.block.checkBlockSignature d.curve = some true ∧ d.prevUnknown = false then
      afterOk (checkBlock d.checking {} d.block true true) fun _ =>
        acceptBlockAccesses d.accepting d.block ++
          afterOk (acceptBlock d.accepting.node {} d.block) fun _ =>
            d.connecting.flatMap fun node => checkBlockAccesses node d.block
    else []

/-- The block gets to `AcceptBlock`. -/
structure Accepts (d : Delivery secret) : Prop where
  signature : d.block.checkBlockSignature d.curve = some true
  prevKnown : d.prevUnknown = false
  checked : checkBlock d.checking {} d.block true true = Except.ok ()

/-- The block gets to `CheckProofOfStake`. -/
structure ChecksStake (staking : StakingNode) (block : CBlock) : Prop where
  prev : exists pindexPrev, findPrevBlock staking.node {} block = Except.ok pindexPrev
  notGenesis : block.hash ≠ staking.node.params.hashGenesisBlock
  work : block.nBits = staking.node.getNextWorkRequired block
  stake : block.isProofOfStake = true

/-- The block gets to the second `CheckBlock`. -/
structure ChecksAgain (staking : StakingNode) (block : CBlock) : Prop where
  prev : exists pindexPrev, findPrevBlock staking.node {} block = Except.ok pindexPrev
  work : block.hash ≠ staking.node.params.hashGenesisBlock ->
    checkWork staking.node {} block = Except.ok ()
  header : exists header, acceptBlockHeader staking.node {} block = Except.ok header ∧
    header.fHaveData = false

theorem checkWorkAccesses_iff (staking : StakingNode) (block : CBlock) :
    AllInBounds (checkWorkAccesses staking block) <->
      ¬ (block.nBits = staking.node.getNextWorkRequired block ∧ block.isProofOfStake = true ∧
        MissingOutput staking.stake block) := by
  unfold checkWorkAccesses
  by_cases hwork : block.nBits = staking.node.getNextWorkRequired block
  · rw [if_pos (beq_iff_eq.mpr hwork)]
    by_cases hstake : block.isProofOfStake = true
    · rw [if_pos hstake, proofOfStakeAccesses_iff staking.env staking.stake hstake]
      simp only [hwork, hstake, true_and]
    · rw [if_neg hstake]
      simp only [allInBounds_nil, hstake, Bool.false_eq_true, false_and, and_false,
        not_false_eq_true]
  · rw [if_neg (fun h => hwork (beq_iff_eq.mp h))]
    simp only [allInBounds_nil, hwork, false_and, not_false_eq_true]

theorem acceptBlockAccesses_iff (staking : StakingNode) (block : CBlock) :
    AllInBounds (acceptBlockAccesses staking block) <->
      ¬ (ChecksStake staking block ∧ MissingOutput staking.stake block) ∧
      ¬ (ChecksAgain staking block ∧ LoneCoinBase staking.node block) := by
  simp only [acceptBlockAccesses, allInBounds_afterOk, allInBounds_append, allInBounds_if,
    checkWorkAccesses_iff, checkBlockAccesses_iff, onlyIf_eq_ok_iff, decide_eq_true_eq]
  constructor
  · intro hall
    constructor
    · rintro ⟨hstake, hmissing⟩
      rcases hstake.prev with ⟨prev, hprev⟩
      exact (hall prev hprev).1 hstake.notGenesis ⟨hstake.work, hstake.stake, hmissing⟩
    · rintro ⟨hagain, hlone⟩
      rcases hagain.prev with ⟨prev, hprev⟩
      rcases hagain.header with ⟨header, hheader, hdata⟩
      exact (hall prev hprev).2 () hagain.work header hheader hdata hlone
  · rintro ⟨hstake, hagain⟩ prev hprev
    constructor
    · rintro hgenesis ⟨hwork, hproof, hmissing⟩
      exact hstake ⟨⟨⟨prev, hprev⟩, hgenesis, hwork, hproof⟩, hmissing⟩
    · intro _ hwork header hheader hdata hlone
      exact hagain ⟨⟨⟨prev, hprev⟩, hwork, ⟨header, hheader, hdata⟩⟩, hlone⟩

/-- Neither of the two accesses outside of a container is reached. -/
structure StaysInside (d : Delivery secret) : Prop where
  checking : ¬ LoneCoinBase d.checking d.block
  kernel : d.Accepts -> ChecksStake d.accepting d.block ->
    ¬ MissingOutput d.accepting.stake d.block
  again : d.Accepts -> ChecksAgain d.accepting d.block ->
    ¬ LoneCoinBase d.accepting.node d.block
  connecting : d.Accepts ->
    (exists nHeight, acceptBlock d.accepting.node {} d.block = Except.ok nHeight) ->
    forall node, node ∈ d.connecting -> ¬ LoneCoinBase node d.block

/-- The accesses stay in bounds unless one of two defects is reached. -/
theorem accesses_inBounds_iff (d : Delivery secret) :
    AllInBounds d.accesses <-> d.StaysInside := by
  simp only [accesses, allInBounds_append, allInBounds_if, allInBounds_afterOk,
    allInBounds_flatMap, checkBlockAccesses_iff, acceptBlockAccesses_iff]
  constructor
  · rintro ⟨hchecking, hrest⟩
    have haccepted := fun haccepts : d.Accepts =>
      hrest ⟨haccepts.signature, haccepts.prevKnown⟩ () haccepts.checked
    constructor
    · exact hchecking
    · intro haccepts hstake hmissing
      exact (haccepted haccepts).1.1 ⟨hstake, hmissing⟩
    · intro haccepts hagain hlone
      exact (haccepted haccepts).1.2 ⟨hagain, hlone⟩
    · rintro haccepts ⟨nHeight, haccept⟩
      exact (haccepted haccepts).2 nHeight haccept
  · intro hinside
    refine ⟨hinside.checking, ?_⟩
    rintro ⟨hsignature, hknown⟩ _ hchecked
    have haccepts : d.Accepts := ⟨hsignature, hknown, hchecked⟩
    refine ⟨⟨?_, ?_⟩, ?_⟩
    · rintro ⟨hstake, hmissing⟩
      exact hinside.kernel haccepts hstake hmissing
    · rintro ⟨hagain, hlone⟩
      exact hinside.again haccepts hagain hlone
    · intro nHeight haccept
      exact hinside.connecting haccepts ⟨nHeight, haccept⟩

end Delivery

namespace BoundsExample

open SupplyExample

/-- The last height of the proof of work is the tip. -/
def lateNode : NodeState := { node with tip := some (prevHash, 26280000) }

def stakeParent : CTransaction := { spender with hash := 100 }

def stake : Stake.StakeNode where
  mapBlockIndex _ := none
  chainActive := []
  mempool hash := if hash = 100 then some stakeParent else none
  fTxIndex := false
  readTxIndex _ := none
  accessCoins _ := none
  readBlockFromDisk _ := none

def env : Stake.KernelEnv where
  Hash _ := 0
  verifyScript _ _ _ := true

def accepting : StakingNode where
  node := { node with checkProofOfStake := Stake.checkProofOfStake env stake }
  stake := stake
  env := env
  checkProofOfStake_eq := rfl

/-- Nothing but a coinbase, above the last height of the proof of work. -/
def loneDelivery : Delivery Unit where
  block := blockOf [coinBase [pay 1]]
  curve := SigningExample.curve
  fPeer := true
  checking := lateNode
  accepting := accepting
  connecting := []

/-- Stakes the sixth output of a transaction which has one. -/
def missingStake : CTransaction where
  hash := 201
  nVersion := 1
  vin := [finalInput { hash := 100, n := 5 } []]
  vout := [CTxOut.make 0 [], CTxOut.make COIN SigningExample.payToPubKey]
  nLockTime := 0

def missingDelivery : Delivery Unit where
  block :=
    { blockOf [coinBase [CTxOut.make 0 []], missingStake] with vchBlockSig := [1] }
  curve := SigningExample.curve
  fPeer := true
  checking := node
  accepting := accepting
  connecting := []

end BoundsExample

open BoundsExample in
/-- A block takes its second transaction without having one, or an output which is not there. -/
theorem accesses_out_of_bounds :
    (exists a, a ∈ loneDelivery.accesses ∧ ¬ a.InBounds) ∧
      exists a, a ∈ missingDelivery.accesses ∧ ¬ a.InBounds := by
  constructor
  · exact ⟨{ index := 1, size := 1 }, by decide +kernel, by decide⟩
  · exact ⟨{ index := 5, size := 1 }, by decide +kernel, by decide⟩

end Hbcur
