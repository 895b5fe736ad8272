import Hbcur.Foundation.Choosing
import Hbcur.Validation.Flows
import Hbcur.Validation.UndoSteps

/-!
# The unspent outputs as one map

A coins state read as a function from outpoints to unspent outputs.  Connecting a
transaction removes its inputs from this function and puts its outputs in place of
whatever was there under its identifier.
-/

namespace Hbcur

open CCoins

variable {state : Type} [CoinsState state]

def unspentAt (v : state) (out : COutPoint) : Option CTxOut :=
  (coinsAt v out.hash).output? out.n

/-- The outpoints which a transaction spends. -/
def CTransaction.spends (tx : CTransaction) : List COutPoint :=
  if tx.isCoinBase then [] else tx.prevouts

variable [LawfulCoinsState state]

theorem unspentAt_spendInput {v v' : state} {out : COutPoint} {undo : CTxInUndo}
    (h : spendInput v out = some (undo, v')) (other : COutPoint) :
    unspentAt v' other = if other = out then none else unspentAt v other := by
  rcases other with ⟨hash, n⟩
  unfold unspentAt
  by_cases hhash : hash = out.hash
  · subst hhash
    rw [output?_of_spendInput h]
    by_cases hn : n = out.n
    · subst hn
      rw [if_pos rfl, if_pos rfl]
    · rw [if_neg hn, if_neg]
      intro heq
      exact hn (congrArg COutPoint.n heq)
  · rw [coinsAt_spendInput_other h hhash, if_neg]
    intro heq
    exact hhash (congrArg COutPoint.hash heq)

theorem unspentAt_of_spendInput {v v' : state} {out : COutPoint} {undo : CTxInUndo}
    (h : spendInput v out = some (undo, v')) : unspentAt v out = some undo.txout :=
  (undo_of_spendInput h).1

theorem unspentAt_spendInputs :
    forall (outs : List COutPoint) {v v' : state} {undos : List CTxInUndo},
      spendInputs v outs = some (undos, v') ->
      (forall other, unspentAt v' other = if other ∈ outs then none else unspentAt v other) ∧
        (forall other, other ∈ outs -> exists txout, unspentAt v other = some txout) := by
  intro outs
  induction outs with
  | nil =>
      intro v v' undos h
      cases h
      exact ⟨fun other => rfl, fun other hmem => nomatch hmem⟩
  | cons out rest ih =>
      intro v v' undos h
      rcases spendInputs_cons h with ⟨undo, v1, undos', hone, hrest, _⟩
      rcases ih hrest with ⟨hafter, hbefore⟩
      constructor
      · intro other
        rw [hafter other, unspentAt_spendInput hone other]
        by_cases hmem : other ∈ rest
        · rw [if_pos hmem, if_pos (List.mem_cons_of_mem _ hmem)]
        · rw [if_neg hmem]
          simp only [List.mem_cons, hmem, or_false]
      · intro other hmem
        rcases List.mem_cons.mp hmem with rfl | hin
        · exact ⟨undo.txout, unspentAt_of_spendInput hone⟩
        · rcases hbefore other hin with ⟨txout, hout⟩
          rw [unspentAt_spendInput hone other] at hout
          split_ifs at hout
          exact ⟨txout, hout⟩

theorem unspentAt_assign (v : state) (txid : UInt256) (coins : CCoins) (out : COutPoint) :
    unspentAt (assign v txid coins) out =
      if out.hash = txid then coins.output? out.n else unspentAt v out := by
  unfold unspentAt
  split_ifs with hhash
  · rw [hhash, output?_assign]
  · rw [LawfulCoinsState.coinsAt_assign_other v txid out.hash coins hhash]

/-- What connecting a transaction does to the unspent outputs. -/
theorem unspentAt_updateCoins {v v' : state} {tx : CTransaction} {nHeight : Int}
    {undo : CTxUndo} (h : updateCoins v tx nHeight = some (undo, v')) :
    (forall out, unspentAt v' out =
      if out.hash = tx.hash then (fromTx tx nHeight).output? out.n
      else if out ∈ tx.spends then none else unspentAt v out) ∧
      (forall out, out ∈ tx.spends -> exists txout, unspentAt v out = some txout) := by
  unfold updateCoins at h
  unfold CTransaction.spends
  cases hcb : tx.isCoinBase with
  | true =>
      rw [if_pos hcb] at h
      simp only [Option.some.injEq, Prod.mk.injEq] at h
      rcases h with ⟨_, rfl⟩
      refine ⟨?_, fun out hmem => nomatch hmem⟩
      intro out
      rw [unspentAt_assign]
      rfl
  | false =>
      rw [if_neg (by rw [hcb]; exact Bool.false_ne_true)] at h
      cases hspend : spendInputs v tx.prevouts with
      | none =>
          simp only [hspend] at h
          cases h
      | some result =>
          rcases result with ⟨undos, v1⟩
          simp only [hspend, Option.some.injEq, Prod.mk.injEq] at h
          rcases h with ⟨_, rfl⟩
          rcases unspentAt_spendInputs tx.prevouts hspend with ⟨hafter, hbefore⟩
          refine ⟨?_, hbefore⟩
          intro out
          rw [unspentAt_assign, hafter out]
          rfl

omit [LawfulCoinsState state] in
theorem isPruned_iff_unspentAt (v : state) (txid : UInt256) :
    (coinsAt v txid).isPruned = true <->
      forall n, unspentAt v { hash := txid, n := n } = none :=
  isPruned_iff (coinsAt v txid)

/-- An output of a new entry is one of the outputs of its transaction. -/
theorem mem_vout_of_output?_fromTx {tx : CTransaction} {nHeight : Int} {nPos : Nat}
    {out : CTxOut} (h : (fromTx tx nHeight).output? nPos = some out) : out ∈ tx.vout := by
  unfold fromTx at h
  rw [output?_clearUnspendable] at h
  have hout := (Option.filter_eq_some_iff.mp h).1
  exact List.mem_of_getElem? ((output?_eq_some_iff _ _ _).mp hout).1

end Hbcur

/-!
# The value of all unspent outputs

A transaction which is connected adds its outputs to the supply and takes its inputs away, so
that what is left of the supply bounds the fees of all transactions connected.
-/

namespace Hbcur

open Foundation CCoins

variable {state : Type} [CoinsState state]

/-- The value of an unspent output, nothing for one which is spent. -/
def valueAt (v : state) (out : COutPoint) : Int :=
  ((unspentAt v out).map CTxOut.nValue).getD 0

def SupplyAtMost (v : state) (bound : Int) : Prop :=
  TotalAtMost (valueAt v) bound

theorem inputValue_eq (v : state) (txin : CTxIn) : inputValue v txin = valueAt v txin.prevout := by
  unfold inputValue getOutputFor valueAt unspentAt
  cases (coinsAt v txin.prevout.hash).output? txin.prevout.n <;> rfl

theorem spentValue_eq (v : state) (tx : CTransaction) :
    spentValue v tx = (tx.spends.map (valueAt v)).sum := by
  unfold spentValue CTransaction.spends
  split_ifs
  · rfl
  · unfold CTransaction.prevouts
    rw [List.map_map]
    congr 1
    apply List.map_congr_left
    intro txin _
    exact inputValue_eq v txin

/-- The value which a transaction puts under an outpoint. -/
def createdValue (tx : CTransaction) (out : COutPoint) : Int :=
  ((if out.hash = tx.hash then some out.n else none).bind fun n =>
    (tx.vout.map CTxOut.nValue)[n]?).getD 0

theorem totalAtMost_createdValue {tx : CTransaction}
    (hvalues : forall out, out ∈ tx.vout -> 0 ≤ out.nValue) :
    TotalAtMost (createdValue tx) tx.valueOut := by
  refine totalAtMost_positions ?_ (fun out : COutPoint =>
    if out.hash = tx.hash then some out.n else none) ?_
  · intro n hn
    rcases List.mem_map.mp hn with ⟨out, hmem, rfl⟩
    exact hvalues out hmem
  · intro out out' i hout hout'
    split_ifs at hout hout' with hhash hhash'
    cases out
    cases out'
    simp only [Option.some.injEq] at hout hout'
    simp_all

/-- An entry leaves at most the value of the output to be spent. -/
theorem value_output?_fromTx_le (tx : CTransaction) (nHeight : Int) (n : Nat)
    (hvalues : forall out, out ∈ tx.vout -> 0 ≤ out.nValue) :
    0 ≤ (((fromTx tx nHeight).output? n).map CTxOut.nValue).getD 0 ∧
      (((fromTx tx nHeight).output? n).map CTxOut.nValue).getD 0 ≤
        ((tx.vout.map CTxOut.nValue)[n]?).getD 0 := by
  rw [List.getElem?_map]
  unfold fromTx
  rw [output?_clearUnspendable]
  cases hout : Option.filter (fun out => !CScript.isUnspendable out.scriptPubKey)
      (output? _ n) with
  | none =>
      refine ⟨Int.le_refl 0, ?_⟩
      cases hget : tx.vout[n]? with
      | none => exact Int.le_refl 0
      | some out => exact hvalues out (List.mem_of_getElem? hget)
  | some out =>
      have hget := ((output?_eq_some_iff _ _ _).mp (Option.filter_eq_some_iff.mp hout).1).1
      change tx.vout[n]? = some out at hget
      rw [hget]
      exact ⟨hvalues out (List.mem_of_getElem? hget), Int.le_refl _⟩

variable [LawfulCoinsState state]

theorem supplyAtMost_updateCoins {v v' : state} {tx : CTransaction} {nHeight : Int}
    {undo : CTxUndo} {bound : Int} (h : SupplyAtMost v bound)
    (hvalues : forall out, out ∈ tx.vout -> 0 ≤ out.nValue) (hnodup : tx.spends.Nodup)
    (hupdate : updateCoins v tx nHeight = some (undo, v')) :
    SupplyAtMost v' (bound - spentValue v tx + tx.valueOut) := by
  have hspent : TotalAtMost (fun out => if out ∈ tx.spends then 0 else valueAt v out)
      (bound - spentValue v tx) := by
    rw [spentValue_eq]
    exact TotalAtMost.remove h hnodup fun _ => rfl
  have hafter := (unspentAt_updateCoins hupdate).1
  have hcreated := totalAtMost_createdValue hvalues
  have hle : forall out, 0 ≤ valueAt v' out ∧
      valueAt v' out ≤ (if out ∈ tx.spends then 0 else valueAt v out) + createdValue tx out := by
    intro out
    have hnew := hcreated.nonneg out
    have hold := hspent.nonneg out
    have hvalue : valueAt v' out =
        if out.hash = tx.hash then
          (((fromTx tx nHeight).output? out.n).map CTxOut.nValue).getD 0
        else if out ∈ tx.spends then 0 else valueAt v out := by
      unfold valueAt
      rw [hafter out]
      split_ifs <;> rfl
    rw [hvalue]
    by_cases hhash : out.hash = tx.hash
    · have hcreate : createdValue tx out = ((tx.vout.map CTxOut.nValue)[out.n]?).getD 0 := by
        unfold createdValue
        rw [if_pos hhash]
        rfl
      have hfrom := value_output?_fromTx_le tx nHeight out.n hvalues
      rw [if_pos hhash, hcreate]
      exact ⟨hfrom.1, by omega⟩
    · rw [if_neg hhash]
      exact ⟨hold, by omega⟩
  exact hspent.add hcreated (fun out => (hle out).1) fun out => (hle out).2

end Hbcur
