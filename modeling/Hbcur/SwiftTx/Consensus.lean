import Hbcur.SwiftTx.Votes

/-!
# Locked inputs and the votes behind them

An input is locked after enough votes, or because the memory pool has refused the request for
its transaction.
-/

namespace Hbcur

open Foundation

namespace SwiftTx

/-- Whether a transaction's hash bars further `ix` messages for it. -/
def known (s : SwiftTx) (txid : UInt256) : Bool :=
  StdMap.contains s.mapTxLockReq txid || StdMap.contains s.mapTxLockReqRejected txid

theorem known_of_req {s : SwiftTx} {txid : UInt256} {tx : CTransaction}
    (h : s.mapTxLockReq.lookup txid = some tx) : s.known txid = true := by
  unfold known
  rw [(StdMap.contains_iff _ _).mpr ⟨tx, h⟩, Bool.true_or]

theorem not_known_of_isRequest {env : SwiftEnv} {s : SwiftTx} {tx : CTransaction}
    (h : s.isRequest env tx = true) : s.known tx.hash = false := by
  rcases unknown_of_isRequest env s tx h with ⟨hreq, hrejected⟩
  unfold known
  rw [(StdMap.contains_eq_false_iff _ _).mpr hreq,
    (StdMap.contains_eq_false_iff _ _).mpr hrejected]
  rfl

theorem known_processIx {env : SwiftEnv} {s : SwiftTx} {tx : CTransaction} {txid : UInt256}
    (h : s.known txid = true) : (s.processIx env tx).known txid = true := by
  unfold known at h ⊢
  rw [mapTxLockReq_processIx, mapTxLockReqRejected_processIx]
  rw [Bool.or_eq_true] at h ⊢
  rcases h with h | h
  · left
    split_ifs
    · simp [h]
    · exact h
  · right
    split_ifs
    · simp [h]
    · exact h

theorem known_of_request {env : SwiftEnv} {s : SwiftTx} {tx : CTransaction}
    (h : s.isRequest env tx = true) : (s.processIx env tx).known tx.hash = true := by
  unfold known
  rw [mapTxLockReq_processIx, mapTxLockReqRejected_processIx]
  cases haccept : env.acceptToMemoryPool tx with
  | true => simp [h]
  | false => simp [h]

theorem contains_reqWith {env : SwiftEnv} {s : SwiftTx} {vote : CConsensusVote}
    {txid : UInt256} (h : StdMap.contains s.mapTxLockReq txid = true) :
    StdMap.contains (s.reqWith env vote) txid = true := by
  unfold reqWith
  split_ifs
  · simp [h]
  · exact h

theorem known_processTxlvote {env : SwiftEnv} {s : SwiftTx} {vote : CConsensusVote}
    {txid : UInt256} (h : s.known txid = true) :
    (s.processTxlvote env vote).known txid = true := by
  unfold known at h ⊢
  rw [mapTxLockReq_processTxlvote, mapTxLockReqRejected_processTxlvote]
  rw [Bool.or_eq_true] at h ⊢
  refine h.imp_left fun hreq => ?_
  split_ifs
  · exact contains_reqWith hreq
  · exact hreq

/-- Every input that is locked, and every lock with a height, is of a known transaction. -/
structure LocksKnown (s : SwiftTx) : Prop where
  locked : forall out txid, s.mapLockedInputs.lookup out = some txid -> s.known txid = true
  height : forall txid lock, s.lockAt txid = some lock -> lock.nBlockHeight ≠ 0 ->
    s.known txid = true

/-- The inputs that are locked are locked for transactions with complete locks. -/
def LocksComplete (s : SwiftTx) : Prop :=
  forall out txid, s.mapLockedInputs.lookup out = some txid ->
    exists lock, s.lockAt txid = some lock ∧ lock.isComplete = true

theorem lookup_insertAllNew_cases {locked : StdMap COutPoint UInt256} {outs : List COutPoint}
    {txid txid' : UInt256} {out : COutPoint}
    (h : (StdMap.insertAllNew locked outs txid').lookup out = some txid) :
    locked.lookup out = some txid ∨
      StdMap.contains locked out = false ∧ out ∈ outs ∧ txid = txid' := by
  rw [StdMap.lookup_insertAllNew] at h
  cases hold : locked.lookup out with
  | some w =>
      rw [hold] at h
      exact Or.inl h
  | none =>
      rw [hold] at h
      simp only at h
      split_ifs at h with hmem
      cases h
      exact Or.inr ⟨(StdMap.contains_eq_false_iff _ _).mpr hold, hmem, rfl⟩

/-!
# Requests
-/

/-- Whether the votes that came before a request are enough at its height. -/
def votedBefore (env : SwiftEnv) (s : SwiftTx) (tx : CTransaction) : Bool :=
  !decide (lockHeight env tx = 0) &&
    decide (SWIFTTX_SIGNATURES_REQUIRED ≤
      ((s.votesAt tx.hash).filter fun vote => vote.nBlockHeight == lockHeight env tx).length)

/-- The lock which a request leaves is complete exactly if it was voted for. -/
theorem isComplete_processIx {env : SwiftEnv} {s : SwiftTx} {tx : CTransaction}
    (hknown : s.LocksKnown) (h : s.isRequest env tx = true) :
    (exists lock, (s.processIx env tx).lockAt tx.hash = some lock ∧ lock.isComplete = true) <->
      s.votedBefore env tx = true := by
  have hvotes := votesAt_processIx env s tx tx.hash
  have hlock := lockAt_processIx env s tx.hash tx
  unfold votedBefore
  cases hage : env.lockAge tx with
  | none =>
      have hheight : lockHeight env tx = 0 := by
        unfold lockHeight
        rw [hage]
      rw [hheight]
      simp only [decide_true, Bool.not_true, Bool.false_and, Bool.false_eq_true, iff_false]
      rintro ⟨lock, hat, hcomplete⟩
      rw [hlock, hage, if_neg (fun hcase => hcase.2.2 rfl)] at hat
      have hnot := not_known_of_isRequest h
      by_cases hzero : lock.nBlockHeight = 0
      · unfold CTransactionLock.isComplete CTransactionLock.countSignatures at hcomplete
        rw [if_pos hzero] at hcomplete
        exact absurd (of_decide_eq_true hcomplete) (by decide)
      · rw [hknown.height tx.hash lock hat hzero] at hnot
        cases hnot
  | some nTxAge =>
      rw [if_pos ⟨h, rfl, by rw [hage]; exact Option.some_ne_none _⟩] at hlock
      rw [votesAt_of_lockAt hlock] at hvotes
      rw [hlock, ← hvotes]
      unfold CTransactionLock.isComplete CTransactionLock.countSignatures
        CTransactionLock.countedVotes
      simp only [Option.some.injEq, exists_eq_left', ge_iff_le]
      by_cases hzero : lockHeight env tx = 0
      · rw [if_pos hzero, hzero]
        simp [SWIFTTX_SIGNATURES_REQUIRED]
      · rw [if_neg hzero]
        simp [hzero]

/-- A refused request locks nothing, or its lock has been voted for. -/
def RefusedRequestVoted (s : SwiftTx) (env : SwiftEnv) : SwiftMessage -> Prop
  | SwiftMessage.ix tx =>
      s.isRequest env tx = true -> env.acceptToMemoryPool tx = false ->
        (forall out, out ∈ tx.prevouts -> StdMap.contains s.mapLockedInputs out = true) ∨
          s.votedBefore env tx = true
  | _ => True

/-- The lock of a known transaction is not changed by a request. -/
theorem lockAt_processIx_of_known {env : SwiftEnv} {s : SwiftTx} {tx : CTransaction}
    {txid : UInt256} (h : s.known txid = true) :
    (s.processIx env tx).lockAt txid = s.lockAt txid := by
  rw [lockAt_processIx]
  apply if_neg
  rintro ⟨hreq, rfl, _⟩
  rw [not_known_of_isRequest hreq] at h
  cases h

section Step

variable {env : SwiftEnv} {s : SwiftTx} (hknown : s.LocksKnown)

include hknown

theorem LocksKnown.processIx (tx : CTransaction) : LocksKnown (s.processIx env tx) := by
  constructor
  · intro out txid hout
    rw [mapLockedInputs_processIx] at hout
    split_ifs at hout with hcase
    · rcases lookup_insertAllNew_cases hout with hold | ⟨_, _, rfl⟩
      · exact known_processIx (hknown.locked out txid hold)
      · exact known_of_request hcase.1
    · exact known_processIx (hknown.locked out txid hout)
  · intro txid lock hlock hheight
    rw [lockAt_processIx] at hlock
    split_ifs at hlock with hcase
    · rw [hcase.2.1]
      exact known_of_request hcase.1
    · exact known_processIx (hknown.height txid lock hlock hheight)

theorem LocksKnown.processTxlvote (vote : CConsensusVote) :
    LocksKnown (s.processTxlvote env vote) := by
  constructor
  · intro out txid hout
    rw [mapLockedInputs_processTxlvote] at hout
    split_ifs at hout with hcase
    · rcases lookup_insertAllNew_cases hout with hold | ⟨_, hin, rfl⟩
      · exact known_processTxlvote (hknown.locked out txid hold)
      · unfold votedInputs at hin
        cases hreq : s.mapTxLockReq.lookup vote.txHash with
        | none =>
            rw [hreq] at hin
            cases hin
        | some tx => exact known_processTxlvote (known_of_req hreq)
    · exact known_processTxlvote (hknown.locked out txid hout)
  · intro txid lock hlock hheight
    rw [lockAt_processTxlvote] at hlock
    split_ifs at hlock with hcase
    · cases hlock
      rw [lockWith_untimed] at hheight
      cases hold : s.lockAt vote.txHash with
      | none =>
          rw [hold] at hheight
          exact absurd rfl hheight
      | some old =>
          rw [hold] at hheight
          rw [hcase.2.2]
          exact known_processTxlvote (hknown.height vote.txHash old hold hheight)
    · exact known_processTxlvote (hknown.height txid lock hlock hheight)

theorem LocksComplete.processIx {tx : CTransaction} (hcomplete : s.LocksComplete)
    (hvoted : s.RefusedRequestVoted env (SwiftMessage.ix tx)) :
    LocksComplete (s.processIx env tx) := by
  intro out txid hout
  have hkeep : s.mapLockedInputs.lookup out = some txid ->
      exists lock, (s.processIx env tx).lockAt txid = some lock ∧ lock.isComplete = true := by
    intro hold
    rw [lockAt_processIx_of_known (hknown.locked out txid hold)]
    exact hcomplete out txid hold
  rw [mapLockedInputs_processIx] at hout
  split_ifs at hout with hcase
  · rcases lookup_insertAllNew_cases hout with hold | ⟨hfree, hin, rfl⟩
    · exact hkeep hold
    · rcases hvoted hcase.1 hcase.2 with hlocked | hbefore
      · rw [hlocked out hin] at hfree
        cases hfree
      · exact (isComplete_processIx hknown hcase.1).mpr hbefore
  · exact hkeep hout

end Step

/-- Votes only add to what a lock counts. -/
theorem isComplete_addSignature {lock : CTransactionLock} (vote : CConsensusVote)
    (h : lock.isComplete = true) : (lock.addSignature vote).isComplete = true := by
  unfold CTransactionLock.isComplete CTransactionLock.countSignatures
    CTransactionLock.countedVotes CTransactionLock.addSignature at *
  simp only [decide_eq_true_eq, List.filter_append, List.length_append] at *
  split_ifs at * with hzero
  · exact h
  · omega

theorem LocksComplete.processTxlvote {env : SwiftEnv} {s : SwiftTx} (vote : CConsensusVote)
    (hcomplete : s.LocksComplete) : LocksComplete (s.processTxlvote env vote) := by
  intro out txid hout
  have hkeep : s.mapLockedInputs.lookup out = some txid ->
      exists lock, (s.processTxlvote env vote).lockAt txid = some lock ∧
        lock.isComplete = true := by
    intro hold
    rcases hcomplete out txid hold with ⟨lock, hlock, hdone⟩
    rw [lockAt_processTxlvote]
    split_ifs with hcase
    · refine ⟨_, rfl, ?_⟩
      rw [lockWith_untimed, ← hcase.2.2, hlock]
      exact isComplete_addSignature vote hdone
    · exact ⟨lock, hlock, hdone⟩
  rw [mapLockedInputs_processTxlvote] at hout
  split_ifs at hout with hcase
  · rcases lookup_insertAllNew_cases hout with hold | ⟨_, hin, rfl⟩
    · exact hkeep hold
    · refine ⟨(s.lockWith env vote).untimed, ?_, ?_⟩
      · rw [lockAt_processTxlvote, if_pos ⟨hcase.1, hcase.2, rfl⟩]
      · unfold votedInputs at hin
        cases hreq : s.mapTxLockReq.lookup vote.txHash with
        | none =>
            rw [hreq] at hin
            cases hin
        | some tx =>
            rw [hreq] at hin
            simp only at hin
            split_ifs at hin with hdone
            · exact (Bool.and_eq_true_iff.mp hdone).1
            · cases hin
  · exact hkeep hout

end SwiftTx

/-!
# Consensus
-/

namespace SwiftHistory

end SwiftHistory

end Hbcur
