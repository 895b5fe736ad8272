import Hbcur.Validation.UpdateCoins

/-!
# Taking one step back

What `DisconnectBlock` does with a single undo record, compared with the step of
`UpdateCoins` which produced it.  The records go through the disk in between.
-/

namespace Hbcur

open Serialize

variable {state : Type} [CoinsState state]

/-- Two states hold the same unspent outputs with the same metadata. -/
def StateAgree (w v : state) : Prop :=
  forall txid, CCoins.Agree (coinsAt w txid) (coinsAt v txid)

/-- Entries with unspent outputs mark spent ones as `SetNull` does. -/
def StateCanonical (v : state) : Prop :=
  forall txid, (coinsAt v txid).isPruned = false -> (coinsAt v txid).Canonical

namespace CCoins

/-- No output is provably unspendable. -/
def Spendable (coins : CCoins) : Prop :=
  forall nPos out, coins.output? nPos = some out ->
    CScript.isUnspendable out.scriptPubKey = false

/-- Nothing but the given position is unspent. -/
def OnlyOutput (coins : CCoins) (nPos : Nat) : Prop :=
  forall m, m ≠ nPos -> coins.output? m = none

/-- Metadata which an undo record can carry. -/
structure MetadataStored (coins : CCoins) : Prop where
  notCoinStake : coins.fCoinStake = false
  height_pos : 0 < coins.nHeight
  height_lt : coins.nHeight < 1073741824
  version : 0 ≤ coins.nVersion

/--
Spending the output and undoing it gives the entry back: the output survives the
disk format, and if it is the last one so does the metadata.
-/
def Restorable (coins : CCoins) (nPos : Nat) : Prop :=
  forall out, coins.output? nPos = some out ->
    storedTxOut out = out ∧ (coins.OnlyOutput nPos -> coins.MetadataStored)

theorem spendable_of_isPruned {coins : CCoins} (h : coins.isPruned = true) :
    coins.Spendable := by
  intro nPos out hout
  rw [(isPruned_iff coins).mp h nPos] at hout
  cases hout

theorem spendable_fromTx (tx : CTransaction) (nHeight : Int) :
    (fromTx tx nHeight).Spendable := by
  intro nPos out hout
  unfold fromTx at hout
  rw [output?_clearUnspendable] at hout
  have hfilter := (Option.filter_eq_some_iff.mp hout).2
  simpa using hfilter

theorem spendable_of_agree {a b : CCoins} (h : Agree a b) (hb : b.Spendable) :
    a.Spendable := by
  intro nPos out hout
  rw [h.1 nPos] at hout
  exact hb nPos out hout

theorem agree_clearUnspendable {coins : CCoins} (h : coins.Spendable) :
    Agree coins.clearUnspendable coins := by
  refine ⟨?_, fun _ => metadata_clearUnspendable coins⟩
  intro nPos
  rw [output?_clearUnspendable]
  cases hout : coins.output? nPos with
  | none => rfl
  | some out =>
      rw [Option.filter_some, h nPos out hout]
      rfl

theorem canonical_fromTx {tx : CTransaction} (nHeight : Int)
    (h : forall out, out ∈ tx.vout -> 0 ≤ out.nValue) : (fromTx tx nHeight).Canonical := by
  apply canonical_clearUnspendable
  intro out hout hnull
  have hfalse := CTxOut.isNull_eq_false_of_nonneg (h out hout)
  rw [hnull] at hfalse
  cases hfalse

theorem cleanup_clearUnspendable (coins : CCoins) :
    coins.clearUnspendable.cleanup = coins.clearUnspendable :=
  CacheStack.cleanup_cleanup _

theorem isPruned_clearUnspendable {coins : CCoins} (h : coins.isPruned = true) :
    coins.clearUnspendable.isPruned = true := by
  rw [isPruned_iff]
  intro nPos
  rw [output?_clearUnspendable, (isPruned_iff coins).mp h nPos]
  rfl

end CCoins

open CCoins

/-!
# Spending
-/

theorem spendInput_eq_some {v v' : state} {out : COutPoint} {undo : CTxInUndo}
    (h : spendInput v out = some (undo, v')) :
    exists coins, (coinsAt v out.hash).spend out.n = some (undo, coins) ∧
      v' = assign v out.hash coins := by
  unfold spendInput at h
  cases hspend : (coinsAt v out.hash).spend out.n with
  | none =>
      rw [hspend] at h
      cases h
  | some result =>
      rcases result with ⟨undo', coins⟩
      rw [hspend] at h
      cases h
      exact ⟨coins, rfl, rfl⟩

theorem output?_of_spendInput [LawfulCoinsState state] {v v' : state} {out : COutPoint}
    {undo : CTxInUndo} (h : spendInput v out = some (undo, v')) (nPos : Nat) :
    (coinsAt v' out.hash).output? nPos =
      if nPos = out.n then none else (coinsAt v out.hash).output? nPos := by
  rcases spendInput_eq_some h with ⟨coins, hspend, rfl⟩
  rw [output?_assign]
  exact output?_of_spend hspend nPos

theorem metadata_of_spendInput [LawfulCoinsState state] {v v' : state} {out : COutPoint}
    {undo : CTxInUndo} (h : spendInput v out = some (undo, v'))
    (hpruned : (coinsAt v' out.hash).isPruned = false) :
    (coinsAt v' out.hash).metadata = (coinsAt v out.hash).metadata := by
  rcases spendInput_eq_some h with ⟨coins, hspend, rfl⟩
  rw [isPruned_assign] at hpruned
  rw [(agree_assign_self v out.hash coins).2 hpruned]
  exact metadata_of_spend hspend

theorem coinsAt_spendInput_other [LawfulCoinsState state] {v v' : state}
    {out : COutPoint} {undo : CTxInUndo} (h : spendInput v out = some (undo, v'))
    {txid : UInt256} (hne : txid ≠ out.hash) : coinsAt v' txid = coinsAt v txid := by
  rcases spendInput_eq_some h with ⟨coins, _, rfl⟩
  exact LawfulCoinsState.coinsAt_assign_other v out.hash txid coins hne

/-- The record holds the output, and the metadata when nothing else is left. -/
theorem undo_of_spendInput [LawfulCoinsState state] {v v' : state} {out : COutPoint}
    {undo : CTxInUndo} (h : spendInput v out = some (undo, v')) :
    (coinsAt v out.hash).output? out.n = some undo.txout ∧
      undo = if (coinsAt v' out.hash).isPruned then
          { txout := undo.txout
            fCoinBase := (coinsAt v out.hash).fCoinBase
            fCoinStake := (coinsAt v out.hash).fCoinStake
            nHeight := toUInt32 (coinsAt v out.hash).nHeight
            nVersion := (coinsAt v out.hash).nVersion }
        else { txout := undo.txout } := by
  rcases spendInput_eq_some h with ⟨coins, hspend, rfl⟩
  rcases (spend_eq_some_iff _ _ _ _).mp hspend with ⟨txout, hout, _, hundo⟩
  have htxout : undo.txout = txout := by
    rw [hundo]
    split <;> rfl
  rw [isPruned_assign, htxout]
  exact ⟨hout, hundo⟩

theorem onlyOutput_iff_isPruned [LawfulCoinsState state] {v v' : state}
    {out : COutPoint} {undo : CTxInUndo} (h : spendInput v out = some (undo, v')) :
    (coinsAt v out.hash).OnlyOutput out.n <-> (coinsAt v' out.hash).isPruned = true := by
  rw [isPruned_iff]
  constructor
  · intro honly nPos
    rw [output?_of_spendInput h]
    split
    · rfl
    · rename_i hne
      exact honly nPos hne
  · intro hnone m hne
    have hm := hnone m
    rw [output?_of_spendInput h, if_neg hne] at hm
    exact hm

/-!
# Restoring
-/

theorem restoreInput_snd (w : state) (out : COutPoint) (undo : CTxInUndo) :
    (restoreInput w out undo).2 =
      assign w out.hash ((reopened (coinsAt w out.hash) undo).2.putOutput out.n undo.txout) :=
  rfl

/-- What a clean restore found and what it leaves. -/
theorem restoreInput_clean [LawfulCoinsState state] {w : state} {out : COutPoint}
    {undo : CTxInUndo} (h : (restoreInput w out undo).1 = true) :
    (reopened (coinsAt w out.hash) undo).1 = true ∧
      (reopened (coinsAt w out.hash) undo).2.output? out.n = none := by
  rcases Bool.and_eq_true_iff.mp h with ⟨hfound, havailable⟩
  refine ⟨hfound, ?_⟩
  rw [isAvailable_eq, Bool.not_eq_true', Option.isSome_eq_false_iff,
    Option.isNone_iff_eq_none] at havailable
  exact havailable

theorem output?_restoreInput [LawfulCoinsState state] (w : state) (out : COutPoint)
    (undo : CTxInUndo) (m : Nat) :
    (coinsAt (restoreInput w out undo).2 out.hash).output? m =
      if m = out.n then (some undo.txout).filter (fun txout => !txout.isNull)
      else (reopened (coinsAt w out.hash) undo).2.output? m := by
  rw [restoreInput_snd, output?_assign, output?_putOutput]

theorem metadata_restoreInput [LawfulCoinsState state] {w : state} {out : COutPoint}
    {undo : CTxInUndo}
    (h : (coinsAt (restoreInput w out undo).2 out.hash).isPruned = false) :
    (coinsAt (restoreInput w out undo).2 out.hash).metadata =
      (reopened (coinsAt w out.hash) undo).2.metadata := by
  rw [restoreInput_snd] at h ⊢
  rw [isPruned_assign] at h
  exact (agree_assign_self _ _ _).2 h

theorem coinsAt_restoreInput_other [LawfulCoinsState state] (w : state)
    (out : COutPoint) (undo : CTxInUndo) {txid : UInt256} (hne : txid ≠ out.hash) :
    coinsAt (restoreInput w out undo).2 txid = coinsAt w txid :=
  LawfulCoinsState.coinsAt_assign_other w out.hash txid _ hne

theorem reopened_of_height {coins : CCoins} {undo : CTxInUndo} (h : undo.nHeight ≠ 0) :
    reopened coins undo =
      (coins.isPruned,
        { fCoinBase := undo.fCoinBase
          nHeight := wrapInt32 undo.nHeight
          nVersion := undo.nVersion }) :=
  if_pos h

theorem reopened_of_no_height {coins : CCoins} {undo : CTxInUndo}
    (h : undo.nHeight = 0) : reopened coins undo = (!coins.isPruned, coins) :=
  if_neg (not_not.mpr h)

/-- A cleared entry with metadata has no outputs. -/
theorem output?_reopened_of_height {coins : CCoins} {undo : CTxInUndo}
    (h : undo.nHeight ≠ 0) (m : Nat) : (reopened coins undo).2.output? m = none := by
  rw [reopened_of_height h]
  rfl

theorem filter_notNull {coins : CCoins} {nPos : Nat} {out : CTxOut}
    (h : coins.output? nPos = some out) :
    (some out).filter (fun txout => !txout.isNull) = some out := by
  rw [Option.filter_some, ((output?_eq_some_iff coins nPos out).mp h).2]
  rfl

/-!
# One spent output

Undoing a spend is clean and gives the entry back exactly when the entry can be
restored.
-/

section Spend

variable [LawfulCoinsState state] {v v1 w : state} {out : COutPoint} {undo : CTxInUndo}

/-- The entry which the record of a last output reopens. -/
theorem reopened_of_last (hspend : spendInput v out = some (undo, v1))
    (hlast : (coinsAt v1 out.hash).isPruned = true)
    (hstored : (coinsAt v out.hash).MetadataStored) (coins : CCoins) :
    (reopened coins (storedTxInUndo undo)).1 = coins.isPruned ∧
      (reopened coins (storedTxInUndo undo)).2.metadata = (coinsAt v out.hash).metadata ∧
      forall m, (reopened coins (storedTxInUndo undo)).2.output? m = none := by
  rcases undo_of_spendInput hspend with ⟨_, hundo⟩
  rw [hlast, if_pos rfl] at hundo
  have hpos := hstored.height_pos
  have hlt := hstored.height_lt
  have hheight : (toUInt32 (coinsAt v out.hash).nHeight : Int) =
      (coinsAt v out.hash).nHeight := by
    unfold toUInt32
    omega
  have hne : (storedTxInUndo undo).nHeight ≠ 0 := by
    rw [hundo]
    show toUInt32 (coinsAt v out.hash).nHeight ≠ 0
    omega
  refine ⟨?_, ?_, output?_reopened_of_height hne⟩
  · rw [reopened_of_height hne]
  · rw [reopened_of_height hne, hundo]
    have hversion : ¬ (coinsAt v out.hash).nVersion < 0 := not_lt.mpr hstored.version
    have hpositive : 0 < toUInt32 (coinsAt v out.hash).nHeight := by omega
    simp only [metadata, storedTxInUndo, storedVersion, if_neg hversion,
      if_pos hpositive, hstored.notCoinStake, hheight]
    rw [wrapInt32_of_range _ (by omega) (by omega)]

/-- The record of an output which leaves others behind has no metadata. -/
theorem nHeight_of_not_last (hspend : spendInput v out = some (undo, v1))
    (hlast : (coinsAt v1 out.hash).isPruned = false) :
    (storedTxInUndo undo).nHeight = 0 := by
  rcases undo_of_spendInput hspend with ⟨_, hundo⟩
  rw [hlast, if_neg Bool.false_ne_true] at hundo
  rw [hundo]
  rfl

theorem restoreInput_of_spendInput (hspend : spendInput v out = some (undo, v1))
    (hagree : StateAgree w v1)
    (hrestorable : (coinsAt v out.hash).Restorable out.n) :
    (restoreInput w out (storedTxInUndo undo)).1 = true ∧
      StateAgree (restoreInput w out (storedTxInUndo undo)).2 v := by
  rcases undo_of_spendInput hspend with ⟨hout, hundo⟩
  rcases hrestorable undo.txout hout with ⟨hstored, hmetadata⟩
  have htxout : (storedTxInUndo undo).txout = undo.txout := hstored
  have hprunedEq := isPruned_eq_of_agree (hagree out.hash)
  -- in both cases the reopened entry lacks the output and is otherwise as before
  have hfound : (reopened (coinsAt w out.hash) (storedTxInUndo undo)).1 = true ∧
      (reopened (coinsAt w out.hash) (storedTxInUndo undo)).2.metadata =
        (coinsAt v out.hash).metadata ∧
      forall m, (reopened (coinsAt w out.hash) (storedTxInUndo undo)).2.output? m =
        (coinsAt v1 out.hash).output? m := by
    cases hlast : (coinsAt v1 out.hash).isPruned with
    | true =>
        have honly := (onlyOutput_iff_isPruned hspend).mpr hlast
        rcases reopened_of_last hspend hlast (hmetadata honly) (coinsAt w out.hash) with
          ⟨hfound, hmeta, hnone⟩
        refine ⟨?_, hmeta, ?_⟩
        · rw [hfound, hprunedEq, hlast]
        · intro m
          rw [hnone m, (isPruned_iff _).mp hlast m]
    | false =>
        rw [reopened_of_no_height (nHeight_of_not_last hspend hlast)]
        refine ⟨?_, ?_, (hagree out.hash).1⟩
        · rw [hprunedEq, hlast]
          rfl
        · rw [(hagree out.hash).2 hlast]
          exact metadata_of_spendInput hspend hlast
  rcases hfound with ⟨hfound, hmeta, houtputs⟩
  constructor
  · show ((reopened (coinsAt w out.hash) (storedTxInUndo undo)).1 &&
      !(reopened (coinsAt w out.hash) (storedTxInUndo undo)).2.isAvailable out.n) = true
    rw [hfound, isAvailable_eq, houtputs out.n, output?_of_spendInput hspend, if_pos rfl]
    rfl
  · intro txid
    by_cases heq : txid = out.hash
    · subst heq
      constructor
      · intro m
        rw [output?_restoreInput, htxout, houtputs m, output?_of_spendInput hspend]
        by_cases hm : m = out.n
        · rw [if_pos hm, hm, hout]
          exact filter_notNull hout
        · rw [if_neg hm, if_neg hm]
      · intro _
        rw [← hmeta]
        apply metadata_restoreInput
        rw [isPruned_eq_false_iff]
        refine ⟨out.n, undo.txout, ?_⟩
        rw [output?_restoreInput, if_pos rfl, htxout]
        exact filter_notNull hout
    · rw [coinsAt_restoreInput_other w out _ heq, ← coinsAt_spendInput_other hspend heq]
      exact hagree txid

/-- Where the outputs of two entries agree, so does being pruned. -/
theorem isPruned_of_outputs {a b : CCoins} (h : forall m, a.output? m = b.output? m) :
    a.isPruned = b.isPruned := by
  rw [Bool.eq_iff_iff, isPruned_iff, isPruned_iff]
  simp only [h]

theorem restorable_of_restoreInput (hspend : spendInput v out = some (undo, v1))
    (hheight : undo.nHeight < 1073741824)
    (hclean : (restoreInput w out (storedTxInUndo undo)).1 = true)
    (hagree : StateAgree (restoreInput w out (storedTxInUndo undo)).2 v) :
    (coinsAt v out.hash).Restorable out.n ∧ StateAgree w v1 := by
  rcases undo_of_spendInput hspend with ⟨hout, _⟩
  rcases restoreInput_clean hclean with ⟨hfound, hunavailable⟩
  have hself := hagree out.hash
  have hnotPruned : (coinsAt v out.hash).isPruned = false :=
    (isPruned_eq_false_iff _).mpr ⟨out.n, undo.txout, hout⟩
  have hmeta : (reopened (coinsAt w out.hash) (storedTxInUndo undo)).2.metadata =
      (coinsAt v out.hash).metadata := by
    rw [← hself.2 hnotPruned]
    symm
    apply metadata_restoreInput
    rw [isPruned_eq_of_agree hself]
    exact hnotPruned
  have hstored : storedTxOut undo.txout = undo.txout := by
    have hvalue := hself.1 out.n
    rw [output?_restoreInput, if_pos rfl, hout] at hvalue
    exact (Option.filter_eq_some_iff.mp hvalue).1 |> Option.some.inj
  -- the outputs which are left are those which the undone spend left
  have houtputs : forall m,
      (reopened (coinsAt w out.hash) (storedTxInUndo undo)).2.output? m =
        (coinsAt v1 out.hash).output? m := by
    intro m
    rw [output?_of_spendInput hspend]
    by_cases hm : m = out.n
    · rw [if_pos hm, hm]
      exact hunavailable
    · have hvalue := hself.1 m
      rw [output?_restoreInput, if_neg hm] at hvalue
      rw [if_neg hm]
      exact hvalue
  have hothers : forall txid, txid ≠ out.hash ->
      CCoins.Agree (coinsAt w txid) (coinsAt v1 txid) := by
    intro txid hne
    have hother := hagree txid
    rw [coinsAt_restoreInput_other w out _ hne] at hother
    rw [coinsAt_spendInput_other hspend hne]
    exact hother
  by_cases hzero : (storedTxInUndo undo).nHeight = 0
  · rw [reopened_of_no_height hzero] at hfound hmeta houtputs
    have hwPruned : (coinsAt w out.hash).isPruned = false := by simpa using hfound
    constructor
    · intro txout htxout
      rw [hout] at htxout
      cases htxout
      refine ⟨hstored, ?_⟩
      intro honly
      have hpruned := (onlyOutput_iff_isPruned hspend).mp honly
      rw [← isPruned_of_outputs houtputs] at hpruned
      exact absurd hpruned (by simp [hwPruned])
    · intro txid
      by_cases heq : txid = out.hash
      · subst heq
        refine ⟨houtputs, ?_⟩
        intro hpruned
        rw [metadata_of_spendInput hspend hpruned]
        exact hmeta
      · exact hothers txid heq
  · rw [reopened_of_height hzero] at hfound hmeta houtputs
    have hwPruned : (coinsAt w out.hash).isPruned = true := hfound
    have hpruned : (coinsAt v1 out.hash).isPruned = true := by
      rw [← isPruned_of_outputs houtputs]
      rfl
    constructor
    · intro txout htxout
      rw [hout] at htxout
      cases htxout
      refine ⟨hstored, ?_⟩
      intro _
      have hpositive : 0 < undo.nHeight := by
        rw [nHeight_storedTxInUndo] at hzero
        omega
      simp only [metadata, storedTxInUndo, if_pos hpositive, Prod.mk.injEq] at hmeta
      rcases hmeta with ⟨_, hstake, hheightEq, hversionEq⟩
      rw [wrapInt32_of_range _ (by omega) (by omega)] at hheightEq
      refine ⟨hstake.symm, by omega, by omega, ?_⟩
      rw [← hversionEq]
      unfold storedVersion
      split <;> omega
    · intro txid
      by_cases heq : txid = out.hash
      · subst heq
        constructor
        · intro m
          rw [(isPruned_iff _).mp hwPruned m, (isPruned_iff _).mp hpruned m]
        · intro hfalse
          rw [hpruned] at hfalse
          cases hfalse
      · exact hothers txid heq

end Spend

/-!
# The outputs of one transaction
-/

section Create

variable {v w : state} {tx : CTransaction} {nHeight : Int}

theorem removeOutputs_fst (hversion : 0 ≤ tx.nVersion) :
    (removeOutputs w tx nHeight).1 =
      (coinsAt w tx.hash).clearUnspendable.same (CCoins.fromTx tx nHeight) := by
  have hnot : ¬ (CCoins.fromTx tx nHeight).nVersion < 0 := not_lt.mpr hversion
  simp only [removeOutputs, if_neg hnot]

variable [LawfulCoinsState state]

theorem coinsAt_removeOutputs_other {txid : UInt256} (hne : txid ≠ tx.hash) :
    coinsAt (removeOutputs w tx nHeight).2 txid = coinsAt w txid :=
  LawfulCoinsState.coinsAt_assign_other w tx.hash txid _ hne

theorem isPruned_removeOutputs :
    (coinsAt (removeOutputs w tx nHeight).2 tx.hash).isPruned = true :=
  LawfulCoinsState.isPruned_assign_self w tx.hash CCoins.empty rfl

theorem agree_of_isPruned {a b : CCoins} (ha : a.isPruned = true)
    (hb : b.isPruned = true) : CCoins.Agree a b := by
  constructor
  · intro nPos
    rw [(isPruned_iff a).mp ha nPos, (isPruned_iff b).mp hb nPos]
  · intro hfalse
    rw [hb] at hfalse
    cases hfalse

theorem removeOutputs_of_create (hversion : 0 ≤ tx.nVersion)
    (hvalues : forall out, out ∈ tx.vout -> 0 ≤ out.nValue)
    (hpruned : (coinsAt v tx.hash).isPruned = true)
    (hcanonical : StateCanonical w)
    (hagree : StateAgree w (assign v tx.hash (CCoins.fromTx tx nHeight))) :
    (removeOutputs w tx nHeight).1 = true ∧
      StateAgree (removeOutputs w tx nHeight).2 v := by
  have hself : CCoins.Agree (coinsAt w tx.hash) (CCoins.fromTx tx nHeight) :=
    agree_trans (hagree tx.hash) (agree_assign_self v tx.hash _)
  have hclear := agree_clearUnspendable
    (spendable_of_agree hself (spendable_fromTx tx nHeight))
  constructor
  · rw [removeOutputs_fst hversion, ← cleanup_clearUnspendable (coinsAt w tx.hash)]
    rw [show CCoins.fromTx tx nHeight = (CCoins.fromTx tx nHeight).cleanup from
      (cleanup_clearUnspendable _).symm]
    apply (same_cleanup_iff_agree _ _).mpr (agree_trans hclear hself)
    · intro hnotPruned
      rw [isPruned_eq_of_agree hclear] at hnotPruned
      exact canonical_clearUnspendable (hcanonical tx.hash hnotPruned)
    · intro _
      exact canonical_fromTx nHeight hvalues
  · intro txid
    by_cases heq : txid = tx.hash
    · subst heq
      exact agree_of_isPruned isPruned_removeOutputs hpruned
    · rw [coinsAt_removeOutputs_other heq]
      have hother := hagree txid
      rw [LawfulCoinsState.coinsAt_assign_other v tx.hash txid _ heq] at hother
      exact hother

theorem agree_of_removeOutputs (hversion : 0 ≤ tx.nVersion)
    (hspendable : (coinsAt w tx.hash).Spendable)
    (hclean : (removeOutputs w tx nHeight).1 = true)
    (hagree : StateAgree (removeOutputs w tx nHeight).2 v) :
    StateAgree w (assign v tx.hash (CCoins.fromTx tx nHeight)) := by
  rw [removeOutputs_fst hversion] at hclean
  intro txid
  by_cases heq : txid = tx.hash
  · subst heq
    exact agree_trans (agree_symm (agree_clearUnspendable hspendable))
      (agree_trans (agree_of_same hclean) (agree_symm (agree_assign_self v tx.hash _)))
  · have hother := hagree txid
    rw [coinsAt_removeOutputs_other heq] at hother
    rw [LawfulCoinsState.coinsAt_assign_other v tx.hash txid _ heq]
    exact hother

end Create

end Hbcur
