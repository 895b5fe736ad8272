import Hbcur.Masternode.Votes

/-!
# Tallies of the payees

The sums kept for each block against the votes kept under their hashes.
-/

namespace Hbcur

open Foundation

namespace CMasternodeBlockPayees

/-- The votes recorded for a script. -/
def votesIn (payments : List CMasternodePayee) (payee : CScript) : Int :=
  match payments.find? fun p => p.scriptPubKey == payee with
  | none => 0
  | some p => p.nVotes

theorem votesIn_cons (p : CMasternodePayee) (rest : List CMasternodePayee) (payee : CScript) :
    votesIn (p :: rest) payee =
      if p.scriptPubKey = payee then p.nVotes else votesIn rest payee := by
  unfold votesIn
  rw [List.find?_cons]
  by_cases h : p.scriptPubKey = payee
  · simp [h]
  · have hne : (p.scriptPubKey == payee) = false := beq_eq_false_iff_ne.mpr h
    rw [hne, if_neg h]

theorem votesIn_addTo (payeeIn payee : CScript) (nIncrement : Int)
    (payments : List CMasternodePayee) :
    votesIn (addTo payeeIn nIncrement payments) payee =
      votesIn payments payee + if payeeIn = payee then nIncrement else 0 := by
  induction payments with
  | nil =>
      unfold addTo
      rw [votesIn_cons]
      simp [votesIn]
  | cons p rest ih =>
      unfold addTo
      by_cases hin : p.scriptPubKey = payeeIn
      · rw [if_pos hin, votesIn_cons, votesIn_cons]
        simp only [hin]
        by_cases h : payeeIn = payee
        · simp [h]
        · simp [h]
      · rw [if_neg hin, votesIn_cons, votesIn_cons, ih]
        by_cases h : p.scriptPubKey = payee
        · have hne : payeeIn ≠ payee := fun heq => hin (h.trans heq.symm)
          simp [h, hne]
        · simp [h]

theorem scripts_addTo (payeeIn : CScript) (nIncrement : Int) (payments : List CMasternodePayee) :
    (addTo payeeIn nIncrement payments).map CMasternodePayee.scriptPubKey =
      if payeeIn ∈ payments.map CMasternodePayee.scriptPubKey then
        payments.map CMasternodePayee.scriptPubKey
      else payments.map CMasternodePayee.scriptPubKey ++ [payeeIn] := by
  induction payments with
  | nil => rfl
  | cons p rest ih =>
      unfold addTo
      by_cases hin : p.scriptPubKey = payeeIn
      · simp [hin]
      · rw [if_neg hin, List.map_cons, ih, List.map_cons]
        have hne : payeeIn ≠ p.scriptPubKey := Ne.symm hin
        by_cases hmem : payeeIn ∈ rest.map CMasternodePayee.scriptPubKey
        · rw [if_pos hmem, if_pos (List.mem_cons_of_mem _ hmem)]
        · rw [if_neg hmem, if_neg (by rw [List.mem_cons, not_or]; exact ⟨hne, hmem⟩)]
          rfl

theorem nodup_scripts_addTo {payeeIn : CScript} {nIncrement : Int}
    {payments : List CMasternodePayee}
    (h : (payments.map CMasternodePayee.scriptPubKey).Nodup) :
    ((addTo payeeIn nIncrement payments).map CMasternodePayee.scriptPubKey).Nodup := by
  rw [scripts_addTo]
  split_ifs with hmem
  · exact h
  · rw [List.nodup_append]
    refine ⟨h, List.nodup_singleton _, ?_⟩
    intro script hin script' hin' heq
    rw [List.mem_singleton] at hin'
    rw [heq, hin'] at hin
    exact hmem hin

end CMasternodeBlockPayees

namespace PaymentVotes

/-- The payees recorded for a block. -/
def payeesAt (votes : PaymentVotes) (nHeight : Int) : List CMasternodePayee :=
  match votes.mapMasternodeBlocks.lookup nHeight with
  | none => []
  | some payees => payees.vecPayments

/-- The votes for a block and a payee among those kept. -/
def votesFor (votes : PaymentVotes) (nHeight : Int) (payee : CScript) : Nat :=
  StdMap.countValues votes.mapMasternodePayeeVotes fun winner =>
    winner.nBlockHeight == nHeight && winner.payee == payee

/-- Each payee of each block is recorded once, with as many votes as are kept for it. -/
def TalliesMatch (votes : PaymentVotes) : Prop :=
  forall nHeight, ((votes.payeesAt nHeight).map CMasternodePayee.scriptPubKey).Nodup ∧
    forall payee, CMasternodeBlockPayees.votesIn (votes.payeesAt nHeight) payee =
      votes.votesFor nHeight payee

theorem talliesMatch_init : TalliesMatch {} :=
  fun _ => ⟨List.nodup_nil, fun _ => rfl⟩

/-!
# A further vote
-/

/-- What a counted vote adds. -/
theorem addWinningMasternode_cases (env : PaymentEnv) (votes : PaymentVotes)
    (winner : CMasternodePaymentWinner) :
    votes.addWinningMasternode env winner = (false, votes) ∨
      StdMap.contains votes.mapMasternodePayeeVotes (env.getHash winner) = false ∧
        exists votes', votes.addWinningMasternode env winner = (true, votes') ∧
          votes'.mapMasternodePayeeVotes =
            votes.mapMasternodePayeeVotes.insert (env.getHash winner) winner ∧
          forall nHeight, votes'.payeesAt nHeight =
            if nHeight = winner.nBlockHeight then
              CMasternodeBlockPayees.addTo winner.payee 1 (votes.payeesAt nHeight)
            else votes.payeesAt nHeight := by
  unfold addWinningMasternode
  cases env.mnodeman.getBlockHash (winner.nBlockHeight - 100) with
  | none => exact Or.inl rfl
  | some hash =>
      simp only
      cases hseen : StdMap.contains votes.mapMasternodePayeeVotes (env.getHash winner) with
      | true => exact Or.inl rfl
      | false =>
          refine Or.inr ⟨rfl, _, rfl, rfl, ?_⟩
          intro nHeight
          unfold payeesAt
          simp only
          rw [StdMap.lookup_insert_eq]
          split_ifs with h
          · subst h
            cases votes.mapMasternodeBlocks.lookup winner.nBlockHeight <;> rfl
          · rfl

theorem TalliesMatch.addWinningMasternode {votes : PaymentVotes} (h : votes.TalliesMatch)
    (env : PaymentEnv) (winner : CMasternodePaymentWinner) :
    TalliesMatch (votes.addWinningMasternode env winner).2 := by
  rcases addWinningMasternode_cases env votes winner with
    heq | ⟨hnew, votes', heq, hvotes, hpayees⟩
  · rw [heq]
    exact h
  · rw [heq]
    intro nHeight
    have hcount : forall payee, votes'.votesFor nHeight payee = votes.votesFor nHeight payee +
        if winner.nBlockHeight == nHeight && winner.payee == payee then 1 else 0 := by
      intro payee
      unfold votesFor
      rw [hvotes, StdMap.countValues_insert_new _ _ _ _ hnew]
    rw [hpayees]
    split_ifs with hheight
    · subst hheight
      refine ⟨CMasternodeBlockPayees.nodup_scripts_addTo (h _).1, ?_⟩
      intro payee
      rw [CMasternodeBlockPayees.votesIn_addTo, (h _).2, hcount]
      by_cases hpayee : winner.payee = payee <;> simp [hpayee]
    · refine ⟨(h nHeight).1, ?_⟩
      intro payee
      have hne : (winner.nBlockHeight == nHeight) = false :=
        beq_eq_false_iff_ne.mpr (Ne.symm hheight)
      rw [(h nHeight).2, hcount, hne]
      simp

/-!
# Cleaning
-/

abbrev VoteEntry := Sigma fun _ : UInt256 => CMasternodePaymentWinner

/-- Whether a vote is too old to be kept. -/
def isOld (limit nHeight : Int) (e : VoteEntry) : Bool :=
  decide (nHeight - e.2.nBlockHeight > limit)

/-- The loop erases each old vote, and the block it was for. -/
theorem cleaned_foldl (limit nHeight : Int) (es : List VoteEntry) (votes : PaymentVotes) :
    es.foldl (fun votes e => votes.cleanWinner limit nHeight e.1 e.2) votes =
      { votes with
        mapMasternodePayeeVotes := StdMap.eraseAll votes.mapMasternodePayeeVotes
          ((es.filter (isOld limit nHeight)).map Sigma.fst)
        mapMasternodeBlocks := StdMap.eraseAll votes.mapMasternodeBlocks
          ((es.filter (isOld limit nHeight)).map fun e => e.2.nBlockHeight) } := by
  induction es generalizing votes with
  | nil => rfl
  | cons e es ih =>
      rw [List.foldl_cons, ih]
      unfold cleanWinner
      by_cases hold : nHeight - e.2.nBlockHeight > limit
      · have hin : isOld limit nHeight e = true := decide_eq_true hold
        rw [if_pos hold, List.filter_cons_of_pos hin]
        rfl
      · have hout : ¬ isOld limit nHeight e = true := by simpa [isOld] using hold
        rw [if_neg hold, List.filter_cons_of_neg hout]

section Cleaned

variable (limit nHeight : Int) (votes : PaymentVotes)

/-- The votes after the loop over all of them. -/
def cleaned : PaymentVotes :=
  votes.mapMasternodePayeeVotes.entries.foldl
    (fun votes e => votes.cleanWinner limit nHeight e.1 e.2) votes

theorem votesFor_cleaned (height : Int) (payee : CScript) :
    (cleaned limit nHeight votes).votesFor height payee =
      if nHeight - height > limit then 0 else votes.votesFor height payee := by
  unfold cleaned votesFor
  rw [cleaned_foldl]
  simp only
  rw [StdMap.countValues_eraseAll]
  -- an entry is erased by its hash exactly if it is old itself
  have herased : forall e, e ∈ votes.mapMasternodePayeeVotes.entries ->
      (e.1 ∈ (votes.mapMasternodePayeeVotes.entries.filter (isOld limit nHeight)).map Sigma.fst <->
        isOld limit nHeight e = true) := by
    intro e hmem
    constructor
    · intro hin
      rcases List.mem_map.mp hin with ⟨e', hfilter, hkey⟩
      rcases List.mem_filter.mp hfilter with ⟨hmem', hold⟩
      rw [← votes.mapMasternodePayeeVotes.nodupKeys.eq_of_fst_eq hmem' hmem hkey]
      exact hold
    · exact fun hold => List.mem_map_of_mem (List.mem_filter.mpr ⟨hmem, hold⟩)
  by_cases hold : nHeight - height > limit
  · rw [if_pos hold, List.countP_eq_zero]
    intro e hmem hcounted
    simp only [Bool.and_eq_true, beq_iff_eq, decide_eq_true_eq] at hcounted
    refine hcounted.2 ((herased e hmem).mpr (decide_eq_true ?_))
    rw [hcounted.1.1]
    exact hold
  · rw [if_neg hold]
    unfold StdMap.countValues
    refine List.countP_congr fun e hmem => ?_
    rw [Bool.and_eq_true, and_iff_left_iff_imp]
    intro hcounted
    simp only [Bool.and_eq_true, beq_iff_eq] at hcounted
    refine decide_eq_true fun hin => hold ?_
    have he := of_decide_eq_true ((herased e hmem).mp hin)
    rw [hcounted.1] at he
    exact he

/-- A block goes with its old votes; an old block that stays has had no votes. -/
theorem payeesAt_cleaned (height : Int) :
    (cleaned limit nHeight votes).payeesAt height = [] ∧ nHeight - height > limit ∨
      (cleaned limit nHeight votes).payeesAt height = votes.payeesAt height ∧
        (nHeight - height > limit -> forall payee, votes.votesFor height payee = 0) := by
  unfold cleaned payeesAt
  rw [cleaned_foldl]
  simp only
  rw [StdMap.lookup_eraseAll]
  split_ifs with hin
  · left
    rcases List.mem_map.mp hin with ⟨e, hfilter, rfl⟩
    exact ⟨rfl, of_decide_eq_true (List.mem_filter.mp hfilter).2⟩
  · refine Or.inr ⟨rfl, ?_⟩
    intro hold payee
    unfold votesFor StdMap.countValues
    rw [List.countP_eq_zero]
    intro e hmem hcounted
    simp only [Bool.and_eq_true, beq_iff_eq] at hcounted
    refine hin (List.mem_map.mpr ⟨e, List.mem_filter.mpr ⟨hmem, ?_⟩, hcounted.1⟩)
    apply decide_eq_true
    rw [hcounted.1]
    exact hold

end Cleaned

theorem TalliesMatch.cleaned {votes : PaymentVotes} (h : votes.TalliesMatch)
    (limit nHeight : Int) : TalliesMatch (votes.cleaned limit nHeight) := by
  intro height
  rcases payeesAt_cleaned limit nHeight votes height with ⟨hgone, hold⟩ | ⟨hkept, hnone⟩
  · rw [hgone]
    refine ⟨List.nodup_nil, fun payee => ?_⟩
    rw [votesFor_cleaned, if_pos hold]
    rfl
  · rw [hkept]
    refine ⟨(h height).1, fun payee => ?_⟩
    rw [votesFor_cleaned, (h height).2]
    split_ifs with hold
    · rw [hnone hold payee]
    · rfl

theorem TalliesMatch.cleanPaymentList {votes : PaymentVotes} (h : votes.TalliesMatch)
    (env : PaymentEnv) : TalliesMatch (votes.cleanPaymentList env) := by
  unfold PaymentVotes.cleanPaymentList
  cases env.tipHeight with
  | none => exact h
  | some nHeight => exact h.cleaned (nLimit env.mnodeman) nHeight

/-!
# Any calls
-/

inductive PaymentCall where
  | addWinningMasternode (winner : CMasternodePaymentWinner)
  | cleanPaymentList

def call (votes : PaymentVotes) : PaymentEnv × PaymentCall -> PaymentVotes
  | (env, PaymentCall.addWinningMasternode winner) => (votes.addWinningMasternode env winner).2
  | (env, PaymentCall.cleanPaymentList) => votes.cleanPaymentList env

theorem tallies_match_along (os : List (PaymentEnv × PaymentCall)) :
    StatesSatisfy call TalliesMatch {} os := by
  refine statesSatisfy_of_invariant ?_ os _ talliesMatch_init
  rintro votes ⟨env, c⟩ h
  cases c with
  | addWinningMasternode winner => exact h.addWinningMasternode env winner
  | cleanPaymentList => exact h.cleanPaymentList env

/-!
# Heights of the payees
-/

/-- The payees of a block are kept under its height. -/
def BlocksKeyed (votes : PaymentVotes) : Prop :=
  forall nHeight payees, votes.mapMasternodeBlocks.lookup nHeight = some payees ->
    payees.nBlockHeight = nHeight

theorem BlocksKeyed.addWinningMasternode {votes : PaymentVotes} (h : votes.BlocksKeyed)
    (env : PaymentEnv) (winner : CMasternodePaymentWinner) :
    BlocksKeyed (votes.addWinningMasternode env winner).2 := by
  unfold PaymentVotes.addWinningMasternode
  cases env.mnodeman.getBlockHash (winner.nBlockHeight - 100) with
  | none => exact h
  | some hash =>
      simp only
      split_ifs
      · exact h
      · intro nHeight payees hlookup
        simp only at hlookup
        rw [StdMap.lookup_insert_eq] at hlookup
        split_ifs at hlookup with hheight
        · cases hlookup
          rw [hheight]
          cases hold : votes.mapMasternodeBlocks.lookup winner.nBlockHeight with
          | none => rfl
          | some old => exact h _ old hold
        · exact h nHeight payees hlookup

theorem BlocksKeyed.cleanPaymentList {votes : PaymentVotes} (h : votes.BlocksKeyed)
    (env : PaymentEnv) : BlocksKeyed (votes.cleanPaymentList env) := by
  unfold PaymentVotes.cleanPaymentList
  cases env.tipHeight with
  | none => exact h
  | some tipHeight =>
      intro nHeight payees hlookup
      simp only at hlookup
      rw [cleaned_foldl] at hlookup
      simp only at hlookup
      rw [StdMap.lookup_eraseAll] at hlookup
      split_ifs at hlookup
      exact h nHeight payees hlookup

theorem blocksKeyed_along (os : List (PaymentEnv × PaymentCall)) :
    StatesSatisfy call BlocksKeyed {} os := by
  refine statesSatisfy_of_invariant ?_ os _ (fun _ _ hlookup => by cases hlookup)
  rintro votes ⟨env, c⟩ h
  cases c with
  | addWinningMasternode winner => exact h.addWinningMasternode env winner
  | cleanPaymentList => exact h.cleanPaymentList env

end PaymentVotes

end Hbcur
