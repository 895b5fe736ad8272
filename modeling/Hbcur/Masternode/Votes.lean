import Hbcur.Foundation.Run
import Hbcur.Foundation.StdMap
import Hbcur.Masternode.Rank

/-!
# Votes on payees

The part of `masternode-payments.cpp` which keeps the masternodes' votes: under the hash of
each vote, and summed up for each block and payee.
-/

namespace Hbcur

open Foundation

def MNPAYMENTS_SIGNATURES_REQUIRED : Int := 6
def MNPAYMENTS_SIGNATURES_TOTAL : Int := 10

structure CMasternodePayee where
  scriptPubKey : CScript
  nVotes : Int
  deriving DecidableEq, Repr

structure CMasternodeBlockPayees where
  nBlockHeight : Int
  vecPayments : List CMasternodePayee := []
  deriving DecidableEq, Repr

namespace CMasternodeBlockPayees

/-- The loop of `AddPayee`, and the new entry if it finds none. -/
def addTo (payeeIn : CScript) (nIncrement : Int) :
    List CMasternodePayee -> List CMasternodePayee
  | [] => [{ scriptPubKey := payeeIn, nVotes := nIncrement }]
  | payee :: rest =>
      if payee.scriptPubKey = payeeIn then
        { payee with nVotes := payee.nVotes + nIncrement } :: rest
      else payee :: addTo payeeIn nIncrement rest

def addPayee (payees : CMasternodeBlockPayees) (payeeIn : CScript) (nIncrement : Int) :
    CMasternodeBlockPayees :=
  { payees with vecPayments := addTo payeeIn nIncrement payees.vecPayments }

/-- The loop of `GetPayee`: the payee found so far and its votes. -/
def bestPayee (best : Option CScript × Int) (p : CMasternodePayee) : Option CScript × Int :=
  if p.nVotes > best.2 then (some p.scriptPubKey, p.nVotes) else best

def getPayee (payees : CMasternodeBlockPayees) : Option CScript :=
  (payees.vecPayments.foldl bestPayee (none, -1)).1

end CMasternodeBlockPayees

structure CMasternodePaymentWinner where
  vinMasternode : CTxIn
  nBlockHeight : Int
  payee : CScript
  vchSig : List UInt8
  deriving DecidableEq, Repr

/-- The votes in `CMasternodePayments`. -/
structure PaymentVotes where
  mapMasternodePayeeVotes : StdMap UInt256 CMasternodePaymentWinner := ∅
  mapMasternodeBlocks : StdMap Int CMasternodeBlockPayees := ∅
  mapMasternodesLastVote : StdMap UInt256 Int := ∅

/-- What a node knows when a vote comes in. -/
structure PaymentEnv where
  isBlockchainSynced : Bool
  fLiteMode : Bool
  /-- The version of the peer which sends the vote. -/
  nVersion : Int
  activeProtocol : Int
  minMasternodePaymentsProto : Int
  /-- The height of the tip, if there is one and `cs_main` is free. -/
  tipHeight : Option Int
  mnodeman : CMasternodeMan
  /-- The hash of a payee, a height and an outpoint. -/
  hashWinner : CScript -> Int -> COutPoint -> UInt256
  verifyWinner : List UInt8 -> CMasternodePaymentWinner -> Bool

namespace PaymentEnv

def getHash (env : PaymentEnv) (winner : CMasternodePaymentWinner) : UInt256 :=
  env.hashWinner winner.payee winner.nBlockHeight winner.vinMasternode.prevout

def rank (env : PaymentEnv) (winner : CMasternodePaymentWinner) : Int :=
  env.mnodeman.getMasternodeRank winner.vinMasternode (winner.nBlockHeight - 100)
    env.activeProtocol

/-- `CMasternodePaymentWinner::IsValid` -/
def isValid (env : PaymentEnv) (winner : CMasternodePaymentWinner) : Bool :=
  match env.mnodeman.find winner.vinMasternode with
  | none => false
  | some mn =>
      !decide (mn.protocolVersion < env.activeProtocol) &&
        !decide (env.rank winner > MNPAYMENTS_SIGNATURES_TOTAL)

/-- `CMasternodePaymentWinner::SignatureValid` -/
def signatureValid (env : PaymentEnv) (winner : CMasternodePaymentWinner) : Bool :=
  match env.mnodeman.find winner.vinMasternode with
  | none => false
  | some mn => env.verifyWinner mn.pubKeyMasternode winner

/-- The first block for which votes are taken; the cast cuts towards zero. -/
def nFirstBlock (env : PaymentEnv) (nHeight : Int) : Int :=
  (4 * nHeight - 5 * env.mnodeman.countEnabled env.minMasternodePaymentsProto).tdiv 4

/-- Whether a vote is for a block around the tip. -/
def inRange (env : PaymentEnv) (nHeight : Int) (winner : CMasternodePaymentWinner) : Bool :=
  !(decide (winner.nBlockHeight < env.nFirstBlock nHeight) ||
    decide (winner.nBlockHeight > nHeight + 20))

end PaymentEnv

namespace PaymentVotes

def addWinningMasternode (env : PaymentEnv) (votes : PaymentVotes)
    (winnerIn : CMasternodePaymentWinner) : Bool × PaymentVotes :=
  match env.mnodeman.getBlockHash (winnerIn.nBlockHeight - 100) with
  | none => (false, votes)
  | some _ =>
      if StdMap.contains votes.mapMasternodePayeeVotes (env.getHash winnerIn) then
        (false, votes)
      else
        let payees := (votes.mapMasternodeBlocks.lookup winnerIn.nBlockHeight).getD
          { nBlockHeight := winnerIn.nBlockHeight }
        (true,
          { votes with
            mapMasternodePayeeVotes :=
              votes.mapMasternodePayeeVotes.insert (env.getHash winnerIn) winnerIn
            mapMasternodeBlocks := votes.mapMasternodeBlocks.insert winnerIn.nBlockHeight
              (payees.addPayee winnerIn.payee 1) })

/-- Whether a masternode may vote for a block, which is written down at once. -/
def canVote (votes : PaymentVotes) (outMasternode : COutPoint) (nBlockHeight : Int) :
    Bool × PaymentVotes :=
  let key := outMasternode.hash + BitVec.ofNat 256 outMasternode.n
  if votes.mapMasternodesLastVote.lookup key = some nBlockHeight then (false, votes)
  else
    (true,
      { votes with
        mapMasternodesLastVote := votes.mapMasternodesLastVote.insert key nBlockHeight })

/-- The tests of a vote before `CanVote`. -/
def considers (env : PaymentEnv) (votes : PaymentVotes) (nHeight : Int)
    (winner : CMasternodePaymentWinner) : Bool :=
  !StdMap.contains votes.mapMasternodePayeeVotes (env.getHash winner) &&
    env.inRange nHeight winner && env.isValid winner

/-- A `mnw` message: whether the vote is counted, and the votes after it. -/
def processMnw (env : PaymentEnv) (votes : PaymentVotes) (winner : CMasternodePaymentWinner) :
    Bool × PaymentVotes :=
  if !env.isBlockchainSynced || env.fLiteMode ||
      decide (env.nVersion < env.activeProtocol) then (false, votes)
  else
    match env.tipHeight with
    | none => (false, votes)
    | some nHeight =>
        if votes.considers env nHeight winner then
          match votes.canVote winner.vinMasternode.prevout winner.nBlockHeight with
          | (false, votes') => (false, votes')
          | (true, votes') =>
              if env.signatureValid winner then votes'.addWinningMasternode env winner
              else (false, votes')
        else (false, votes)

/-!
# Cleaning
-/

/-- How many blocks back votes are kept. -/
def nLimit (mnodeman : CMasternodeMan) : Int :=
  max ((5 * mnodeman.size / 4 : Nat) : Int) 1000

def cleanWinner (limit nHeight : Int) (votes : PaymentVotes) (hash : UInt256)
    (winner : CMasternodePaymentWinner) : PaymentVotes :=
  if nHeight - winner.nBlockHeight > limit then
    { votes with
      mapMasternodePayeeVotes := votes.mapMasternodePayeeVotes.erase hash
      mapMasternodeBlocks := votes.mapMasternodeBlocks.erase winner.nBlockHeight }
  else votes

def cleanPaymentList (env : PaymentEnv) (votes : PaymentVotes) : PaymentVotes :=
  match env.tipHeight with
  | none => votes
  | some nHeight =>
      votes.mapMasternodePayeeVotes.entries.foldl
        (fun votes entry => votes.cleanWinner (nLimit env.mnodeman) nHeight entry.1 entry.2) votes

/-!
# Reading
-/

def getBlockPayee (votes : PaymentVotes) (nBlockHeight : Int) : Option CScript :=
  (votes.mapMasternodeBlocks.lookup nBlockHeight).bind CMasternodeBlockPayees.getPayee

end PaymentVotes

end Hbcur

/-!
# Who votes on payees

A vote is refused if its masternode has a high rank, but a masternode without a rank passes
the same test.
-/

namespace Hbcur

open Foundation

namespace PaymentVotes

/-- The tests of a `mnw` message, one after another, up to the one for a known block. -/
def Passes (env : PaymentEnv) (votes : PaymentVotes) (winner : CMasternodePaymentWinner) :
    Prop :=
  (!env.isBlockchainSynced || env.fLiteMode || decide (env.nVersion < env.activeProtocol)) =
      false ∧
    (exists nHeight, env.tipHeight = some nHeight ∧ votes.considers env nHeight winner = true) ∧
    (votes.canVote winner.vinMasternode.prevout winner.nBlockHeight).1 = true ∧
    env.signatureValid winner = true ∧
    (env.mnodeman.getBlockHash (winner.nBlockHeight - 100)).isSome = true

/-- `CanVote` leaves the counted votes alone. -/
theorem canVote_votes (votes : PaymentVotes) (outMasternode : COutPoint) (nBlockHeight : Int) :
    (votes.canVote outMasternode nBlockHeight).2.mapMasternodePayeeVotes =
      votes.mapMasternodePayeeVotes := by
  unfold canVote
  simp only
  split_ifs <;> rfl

theorem addWinningMasternode_counts (env : PaymentEnv) (votes : PaymentVotes)
    (winner : CMasternodePaymentWinner) :
    (votes.addWinningMasternode env winner).1 = true <->
      (env.mnodeman.getBlockHash (winner.nBlockHeight - 100)).isSome = true ∧
        StdMap.contains votes.mapMasternodePayeeVotes (env.getHash winner) = false := by
  unfold addWinningMasternode
  cases env.mnodeman.getBlockHash (winner.nBlockHeight - 100) with
  | none => simp
  | some hash => cases StdMap.contains votes.mapMasternodePayeeVotes (env.getHash winner) <;> simp

/-- A vote is counted exactly if it passes all the tests. -/
theorem processMnw_counts (env : PaymentEnv) (votes : PaymentVotes)
    (winner : CMasternodePaymentWinner) :
    (votes.processMnw env winner).1 = true <-> votes.Passes env winner := by
  unfold processMnw Passes
  cases hready : (!env.isBlockchainSynced || env.fLiteMode ||
    decide (env.nVersion < env.activeProtocol)) with
  | true => simp
  | false =>
      simp only [Bool.false_eq_true, if_false, true_and]
      cases htip : env.tipHeight with
      | none => simp
      | some nHeight =>
          simp only [Option.some.injEq, exists_eq_left']
          cases hconsiders : votes.considers env nHeight winner with
          | false => simp
          | true =>
              have hvotes := canVote_votes votes winner.vinMasternode.prevout winner.nBlockHeight
              simp only [if_true, true_and]
              cases hcan : votes.canVote winner.vinMasternode.prevout winner.nBlockHeight with
              | mk can votes' =>
                  rw [hcan] at hvotes
                  cases can with
                  | false => simp
                  | true =>
                      cases hsig : env.signatureValid winner with
                      | false => simp
                      | true =>
                          unfold considers at hconsiders
                          simp only [Bool.and_eq_true, Bool.not_eq_true'] at hconsiders
                          simp only [if_true, true_and]
                          rw [addWinningMasternode_counts, hvotes]
                          exact and_iff_left hconsiders.1.1

/-- Among the first masternodes for the block a hundred before. -/
def Ranked (env : PaymentEnv) (winner : CMasternodePaymentWinner) : Prop :=
  1 ≤ env.rank winner ∧ env.rank winner ≤ MNPAYMENTS_SIGNATURES_TOTAL

/-- A masternode in the list is of the right version, not too young, and enabled. -/
def InRanking (env : PaymentEnv) (winner : CMasternodePaymentWinner) : Prop :=
  exists mn, mn ∈ env.mnodeman.vMasternodes ∧
    mn.vin.prevout = winner.vinMasternode.prevout ∧
    env.activeProtocol ≤ mn.protocolVersion ∧ env.mnodeman.tooYoung mn = false ∧
    mn.isEnabled = true

theorem ranked_iff {env : PaymentEnv} {votes : PaymentVotes} {winner : CMasternodePaymentWinner}
    (h : votes.Passes env winner) : Ranked env winner <-> InRanking env winner := by
  rcases h with ⟨_, ⟨nHeight, _, hconsiders⟩, _, _, hhash⟩
  have htop : env.rank winner ≤ MNPAYMENTS_SIGNATURES_TOTAL := by
    unfold considers PaymentEnv.isValid at hconsiders
    cases hfind : env.mnodeman.find winner.vinMasternode with
    | none =>
        rw [hfind] at hconsiders
        simp at hconsiders
    | some mn =>
        rw [hfind] at hconsiders
        simp only [Bool.and_eq_true, Bool.not_eq_true', decide_eq_false_iff_not,
          not_lt] at hconsiders
        exact hconsiders.2.2
  unfold Ranked InRanking
  rw [and_iff_left htop]
  unfold PaymentEnv.rank
  rw [CMasternodeMan.one_le_rank_iff, and_iff_right hhash]
  unfold CMasternodeMan.takesPart
  simp only [Bool.and_eq_true, Bool.not_eq_true', decide_eq_false_iff_not, not_lt, Bool.true_and,
    Bool.not_eq_false', and_assoc]

/-- What is asked whenever a vote is counted. -/
def CountsRanked (votes : PaymentVotes) (o : PaymentEnv × CMasternodePaymentWinner) : Prop :=
  (votes.processMnw o.1 o.2).1 = true -> Ranked o.1 o.2

/-- A message's condition in the state before it. -/
def VoterInRanking (votes : PaymentVotes) (o : PaymentEnv × CMasternodePaymentWinner) : Prop :=
  votes.Passes o.1 o.2 -> InRanking o.1 o.2

def receiveMnw (votes : PaymentVotes) (o : PaymentEnv × CMasternodePaymentWinner) :
    PaymentVotes :=
  (votes.processMnw o.1 o.2).2

theorem counted_votes_ranked_iff (os : List (PaymentEnv × CMasternodePaymentWinner)) :
    StepsSatisfy receiveMnw CountsRanked {} os <->
      StepsSatisfy receiveMnw VoterInRanking {} os := by
  refine stepsSatisfy_congr ?_ os _
  rintro votes ⟨env, winner⟩
  unfold CountsRanked VoterInRanking
  rw [processMnw_counts]
  exact forall_congr' ranked_iff

/-- A masternode which has just been activated. -/
def youngMasternode : CMasternode :=
  { vin := { prevout := { hash := 5, n := 0 }, scriptSig := [], nSequence := 0 }
    protocolVersion := 70914
    sigTime := 0
    isEnabled := true
    pubKeyCollateralAddress := []
    pubKeyMasternode := [] }

/-- A node which asks for masternodes of a certain age. -/
def enforcingNode : PaymentEnv where
  isBlockchainSynced := true
  fLiteMode := false
  nVersion := 70914
  activeProtocol := 70914
  minMasternodePaymentsProto := 70914
  tipHeight := some 200
  mnodeman :=
    { CMasternodeMan.ofMasternodes [youngMasternode] 200 with
      paymentEnforcement := true
      nMasternodeMinAge := 8000 }
  hashWinner := fun _ nBlockHeight _ => BitVec.ofInt 256 nBlockHeight
  verifyWinner := fun _ _ => true

theorem young_masternode_counted :
    ¬ forall os : List (PaymentEnv × CMasternodePaymentWinner),
      StepsSatisfy receiveMnw CountsRanked {} os := by
  intro h
  have hrun := h [(enforcingNode,
    { vinMasternode := youngMasternode.vin, nBlockHeight := 205, payee := [], vchSig := [] })]
  have hranked := hrun.1 (by decide +kernel)
  exact absurd hranked.1 (by decide +kernel)

end PaymentVotes

end Hbcur
