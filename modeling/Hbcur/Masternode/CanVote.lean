import Hbcur.Masternode.Tallies

/-!
# What is noted about a voter

`CanVote` keeps one height for each masternode, the one it voted for last, and writes it down
before the signature of the vote is checked.
-/

namespace Hbcur

open Foundation

namespace PaymentVotes

/-- The key under which the last vote of a masternode is noted. -/
def voterKey (outMasternode : COutPoint) : UInt256 :=
  outMasternode.hash + BitVec.ofNat 256 outMasternode.n

/-- The height of the last vote that was noted for a masternode. -/
def lastVote (votes : PaymentVotes) (outMasternode : COutPoint) : Option Int :=
  votes.mapMasternodesLastVote.lookup (voterKey outMasternode)

/-- Note that a masternode votes for a block. -/
def noteVote (votes : PaymentVotes) (outMasternode : COutPoint) (nBlockHeight : Int) :
    PaymentVotes :=
  { votes with
    mapMasternodesLastVote :=
      votes.mapMasternodesLastVote.insert (voterKey outMasternode) nBlockHeight }

theorem canVote_refuses {votes : PaymentVotes} {outMasternode : COutPoint} {nBlockHeight : Int}
    (h : votes.lastVote outMasternode = some nBlockHeight) :
    votes.canVote outMasternode nBlockHeight = (false, votes) :=
  if_pos h

theorem canVote_notes {votes : PaymentVotes} {outMasternode : COutPoint} {nBlockHeight : Int}
    (h : votes.lastVote outMasternode ≠ some nBlockHeight) :
    votes.canVote outMasternode nBlockHeight =
      (true, votes.noteVote outMasternode nBlockHeight) :=
  if_neg h

theorem lastVote_noteVote (votes : PaymentVotes) (outMasternode : COutPoint)
    (nBlockHeight : Int) :
    (votes.noteVote outMasternode nBlockHeight).lastVote outMasternode = some nBlockHeight :=
  AList.lookup_insert _

/-!
# One message
-/

/-- A message passes the tests which come before `CanVote`. -/
def Reaches (env : PaymentEnv) (votes : PaymentVotes) (winner : CMasternodePaymentWinner) :
    Prop :=
  (!env.isBlockchainSynced || env.fLiteMode || decide (env.nVersion < env.activeProtocol)) =
      false ∧
    exists nHeight, env.tipHeight = some nHeight ∧ votes.considers env nHeight winner = true

section Message

variable (env : PaymentEnv) (votes : PaymentVotes) (winner : CMasternodePaymentWinner)

theorem processMnw_of_not_reaches (h : ¬ Reaches env votes winner) :
    votes.processMnw env winner = (false, votes) := by
  unfold Reaches at h
  unfold processMnw
  cases hready : (!env.isBlockchainSynced || env.fLiteMode ||
    decide (env.nVersion < env.activeProtocol)) with
  | true => rfl
  | false =>
      simp only [Bool.false_eq_true, if_false]
      cases htip : env.tipHeight with
      | none => rfl
      | some nHeight =>
          simp only
          cases hconsiders : votes.considers env nHeight winner with
          | false => rfl
          | true => exact absurd ⟨hready, nHeight, htip, hconsiders⟩ h

theorem processMnw_of_reaches (h : Reaches env votes winner) :
    votes.processMnw env winner =
      if votes.lastVote winner.vinMasternode.prevout = some winner.nBlockHeight then
        (false, votes)
      else if env.signatureValid winner then
        (votes.noteVote winner.vinMasternode.prevout winner.nBlockHeight).addWinningMasternode
          env winner
      else (false, votes.noteVote winner.vinMasternode.prevout winner.nBlockHeight) := by
  rcases h with ⟨hready, nHeight, htip, hconsiders⟩
  unfold processMnw
  rw [hready, htip]
  simp only [Bool.false_eq_true, if_false, hconsiders, if_true]
  by_cases hlast : votes.lastVote winner.vinMasternode.prevout = some winner.nBlockHeight
  · rw [if_pos hlast, canVote_refuses hlast]
  · rw [if_neg hlast, canVote_notes hlast]

end Message

/-!
# Votes with a wrong signature
-/

/-- A message changes nothing, and nothing about a later vote for the same block. -/
def LeavesNoTrace (env : PaymentEnv) (votes : PaymentVotes) (winner : CMasternodePaymentWinner) :
    Prop :=
  (votes.processMnw env winner).2 = votes ∧
    forall (env' : PaymentEnv) (genuine : CMasternodePaymentWinner),
      genuine.vinMasternode = winner.vinMasternode ->
        genuine.nBlockHeight = winner.nBlockHeight -> env'.signatureValid genuine = true ->
          (votes.processMnw env winner).2.processMnw env' genuine =
            votes.processMnw env' genuine

theorem noteVote_ne {votes : PaymentVotes} {outMasternode : COutPoint} {nBlockHeight : Int}
    (h : votes.lastVote outMasternode ≠ some nBlockHeight) :
    votes.noteVote outMasternode nBlockHeight ≠ votes := by
  intro heq
  apply h
  rw [← lastVote_noteVote votes outMasternode nBlockHeight, heq]

theorem rejected_vote_leaves_no_trace_iff (env : PaymentEnv) (votes : PaymentVotes)
    (winner : CMasternodePaymentWinner) (hsig : env.signatureValid winner = false) :
    LeavesNoTrace env votes winner <->
      (Reaches env votes winner ->
        votes.lastVote winner.vinMasternode.prevout = some winner.nBlockHeight) := by
  have hunchanged : LeavesNoTrace env votes winner <-> (votes.processMnw env winner).2 = votes := by
    constructor
    · exact fun h => h.1
    · intro h
      exact ⟨h, fun env' genuine _ _ _ => by rw [h]⟩
  rw [hunchanged]
  constructor
  · intro h hreaches
    by_contra hlast
    rw [processMnw_of_reaches env votes winner hreaches, if_neg hlast, hsig,
      if_neg Bool.false_ne_true] at h
    exact noteVote_ne hlast h
  · intro h
    by_cases hreaches : Reaches env votes winner
    · rw [processMnw_of_reaches env votes winner hreaches, if_pos (h hreaches)]
    · rw [processMnw_of_not_reaches env votes winner hreaches]

/-!
# Votes for the same block
-/

/-- The votes of a masternode for a block among those kept. -/
def votesOf (votes : PaymentVotes) (outMasternode : COutPoint) (nHeight : Int) : Nat :=
  StdMap.countValues votes.mapMasternodePayeeVotes fun winner =>
    winner.vinMasternode.prevout == outMasternode && winner.nBlockHeight == nHeight

/-- The tallies are made of the votes kept, at most one of each masternode for each block. -/
structure CountsOnce (votes : PaymentVotes) : Prop where
  tallies : votes.TalliesMatch
  once : forall outMasternode nHeight, votes.votesOf outMasternode nHeight ≤ 1

/-- A message passes all the tests but `CanVote`. -/
def Acceptable (env : PaymentEnv) (votes : PaymentVotes) (winner : CMasternodePaymentWinner) :
    Prop :=
  Reaches env votes winner ∧ env.signatureValid winner = true ∧
    (env.mnodeman.getBlockHash (winner.nBlockHeight - 100)).isSome = true

/-- The block for which a masternode has voted before is still the last one noted for it. -/
def Remembered (votes : PaymentVotes) (o : PaymentEnv × CMasternodePaymentWinner) : Prop :=
  Acceptable o.1 votes o.2 ->
    0 < votes.votesOf o.2.vinMasternode.prevout o.2.nBlockHeight ->
      votes.lastVote o.2.vinMasternode.prevout = some o.2.nBlockHeight

theorem Reaches.unseen {env : PaymentEnv} {votes : PaymentVotes}
    {winner : CMasternodePaymentWinner} (h : Reaches env votes winner) :
    StdMap.contains votes.mapMasternodePayeeVotes (env.getHash winner) = false := by
  rcases h with ⟨_, nHeight, _, hconsiders⟩
  unfold considers at hconsiders
  simp only [Bool.and_eq_true, Bool.not_eq_true'] at hconsiders
  exact hconsiders.1.1

/-- A message leaves the kept votes alone, or it is acceptable, not the last, and kept. -/
theorem receiveMnw_cases (votes : PaymentVotes) (env : PaymentEnv)
    (winner : CMasternodePaymentWinner) :
    ((receiveMnw votes (env, winner)).mapMasternodePayeeVotes = votes.mapMasternodePayeeVotes ∧
        ¬ (Acceptable env votes winner ∧
          votes.lastVote winner.vinMasternode.prevout ≠ some winner.nBlockHeight)) ∨
      (Acceptable env votes winner ∧
          votes.lastVote winner.vinMasternode.prevout ≠ some winner.nBlockHeight) ∧
        (receiveMnw votes (env, winner)).mapMasternodePayeeVotes =
          votes.mapMasternodePayeeVotes.insert (env.getHash winner) winner := by
  unfold receiveMnw
  by_cases hreaches : Reaches env votes winner
  · rw [processMnw_of_reaches env votes winner hreaches]
    split_ifs with hlast hsig
    · exact Or.inl ⟨rfl, fun h => h.2 hlast⟩
    · -- Whether the block is known decides about the rest.
      have hcounts := addWinningMasternode_counts env
        (votes.noteVote winner.vinMasternode.prevout winner.nBlockHeight) winner
      rcases addWinningMasternode_cases env
        (votes.noteVote winner.vinMasternode.prevout winner.nBlockHeight) winner with
        heq | ⟨_, votes', heq, hkept, _⟩
      · rw [heq] at hcounts ⊢
        refine Or.inl ⟨rfl, fun h => ?_⟩
        exact Bool.false_ne_true (hcounts.mpr ⟨h.1.2.2, hreaches.unseen⟩)
      · rw [heq] at hcounts ⊢
        exact Or.inr ⟨⟨⟨hreaches, hsig, (hcounts.mp rfl).1⟩, hlast⟩, hkept⟩
    · exact Or.inl ⟨rfl, fun h => hsig h.1.2.1⟩
  · rw [processMnw_of_not_reaches env votes winner hreaches]
    exact Or.inl ⟨rfl, fun h => hreaches h.1.1⟩

theorem TalliesMatch.noteVote {votes : PaymentVotes} (h : votes.TalliesMatch)
    (outMasternode : COutPoint) (nBlockHeight : Int) :
    (votes.noteVote outMasternode nBlockHeight).TalliesMatch := h

theorem TalliesMatch.receiveMnw {votes : PaymentVotes} (h : votes.TalliesMatch)
    (o : PaymentEnv × CMasternodePaymentWinner) : (receiveMnw votes o).TalliesMatch := by
  rcases o with ⟨env, winner⟩
  unfold PaymentVotes.receiveMnw
  by_cases hreaches : Reaches env votes winner
  · rw [processMnw_of_reaches env votes winner hreaches]
    split_ifs
    · exact h
    · exact (h.noteVote _ _).addWinningMasternode env winner
    · exact h.noteVote _ _
  · rw [processMnw_of_not_reaches env votes winner hreaches]
    exact h

/-- The votes of a masternode after a message that is kept. -/
theorem votesOf_kept {env : PaymentEnv} {votes votes' : PaymentVotes}
    {winner : CMasternodePaymentWinner} (hreaches : Reaches env votes winner)
    (hkept : votes'.mapMasternodePayeeVotes =
      votes.mapMasternodePayeeVotes.insert (env.getHash winner) winner)
    (outMasternode : COutPoint) (nHeight : Int) :
    votes'.votesOf outMasternode nHeight = votes.votesOf outMasternode nHeight +
      if winner.vinMasternode.prevout = outMasternode ∧ winner.nBlockHeight = nHeight then 1
      else 0 := by
  unfold votesOf
  rw [hkept, StdMap.countValues_insert_new _ _ _ _ hreaches.unseen]
  simp only [Bool.and_eq_true, beq_iff_eq]

theorem votesOf_congr {votes votes' : PaymentVotes}
    (h : votes'.mapMasternodePayeeVotes = votes.mapMasternodePayeeVotes)
    (outMasternode : COutPoint) (nHeight : Int) :
    votes'.votesOf outMasternode nHeight = votes.votesOf outMasternode nHeight := by
  unfold votesOf
  rw [h]

theorem CountsOnce.receiveMnw {votes : PaymentVotes} (h : votes.CountsOnce)
    {o : PaymentEnv × CMasternodePaymentWinner} (hremembered : Remembered votes o) :
    (receiveMnw votes o).CountsOnce := by
  rcases o with ⟨env, winner⟩
  constructor
  · exact h.tallies.receiveMnw (env, winner)
  · intro outMasternode nHeight
    rcases receiveMnw_cases votes env winner with ⟨hsame, _⟩ | ⟨⟨hacceptable, hlast⟩, hkept⟩
    · rw [votesOf_congr hsame]
      exact h.once outMasternode nHeight
    · rw [votesOf_kept hacceptable.1 hkept]
      split_ifs with hvoter
      · rcases hvoter with ⟨rfl, rfl⟩
        have hnone : ¬ 0 < votes.votesOf winner.vinMasternode.prevout winner.nBlockHeight :=
          fun hvoted => hlast (hremembered hacceptable hvoted)
        omega
      · exact h.once outMasternode nHeight

/-- A second vote shows at once. -/
theorem remembered_of_countsOnce {votes : PaymentVotes}
    {o : PaymentEnv × CMasternodePaymentWinner} (h : (receiveMnw votes o).CountsOnce) :
    Remembered votes o := by
  rcases o with ⟨env, winner⟩
  intro hacceptable hvoted
  by_contra hlast
  rcases receiveMnw_cases votes env winner with ⟨_, hnot⟩ | ⟨_, hkept⟩
  · exact hnot ⟨hacceptable, hlast⟩
  · have honce := h.once winner.vinMasternode.prevout winner.nBlockHeight
    rw [votesOf_kept hacceptable.1 hkept, if_pos ⟨rfl, rfl⟩] at honce
    change 0 < votes.votesOf winner.vinMasternode.prevout winner.nBlockHeight at hvoted
    omega

theorem countsOnce_init : CountsOnce {} :=
  ⟨talliesMatch_init, fun _ _ => Nat.zero_le 1⟩

theorem counts_once_iff_remembered (os : List (PaymentEnv × CMasternodePaymentWinner)) :
    StatesSatisfy receiveMnw CountsOnce {} os <-> StepsSatisfy receiveMnw Remembered {} os :=
  statesSatisfy_iff_steps CountsOnce (fun _ h => h) (fun _ _ h hq => h.receiveMnw hq)
    (fun _ _ _ h => remembered_of_countsOnce h) os {} countsOnce_init

/-!
# A node and its messages
-/

/-- A masternode whose signatures consist of a single one. -/
def votingMasternode : CMasternode :=
  { youngMasternode with sigTime := -8000 }

def votedNode : PaymentEnv :=
  { enforcingNode with
    mnodeman := CMasternodeMan.ofMasternodes [votingMasternode] 200
    hashWinner := fun payee nBlockHeight _ =>
      BitVec.ofInt 256 (1000 * payee.length + nBlockHeight)
    verifyWinner := fun _ winner => winner.vchSig == [1] }

def voteFor (nBlockHeight : Int) (payee : CScript) (vchSig : List UInt8) :
    CMasternodePaymentWinner :=
  { vinMasternode := votingMasternode.vin, nBlockHeight, payee, vchSig }

theorem second_vote_counted :
    ¬ forall os : List (PaymentEnv × CMasternodePaymentWinner),
      StatesSatisfy receiveMnw CountsOnce {} os := by
  intro h
  have hrun := h [(votedNode, voteFor 205 [] [1]), (votedNode, voteFor 206 [] [1]),
    (votedNode, voteFor 205 [0] [1])]
  have honce := hrun.foldl.once votingMasternode.vin.prevout 205
  exact absurd honce (by decide +kernel)

theorem forged_vote_noted :
    ¬ forall (env : PaymentEnv) (votes : PaymentVotes) (winner : CMasternodePaymentWinner),
      env.signatureValid winner = false -> LeavesNoTrace env votes winner := by
  intro h
  have htrace := h votedNode {} (voteFor 205 [] []) (by decide +kernel)
  have hlater := htrace.2 votedNode (voteFor 205 [] [1]) rfl rfl (by decide +kernel)
  have hcounted := congrArg Prod.fst hlater
  exact absurd hcounted (by decide +kernel)

/-- A forged vote for a block which the masternode has voted for already. -/
theorem forged_vote_after_genuine :
    LeavesNoTrace votedNode (receiveMnw {} (votedNode, voteFor 205 [] [1])) (voteFor 205 [0] []) :=
  (rejected_vote_leaves_no_trace_iff votedNode _ _ (by decide +kernel)).mpr fun _ => by
    decide +kernel

end PaymentVotes

end Hbcur
