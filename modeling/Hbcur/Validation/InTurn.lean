import Hbcur.Validation.Availability

/-!
# Inputs in turn

Transactions which are connected one after another, each of which finds its inputs unspent
when it is reached.
-/

namespace Hbcur

open Foundation CCoins

variable {state : Type} [CoinsState state]

/-- From one state of the coins to another, with all inputs there at their turn. -/
def InTurn (nHeight : Int) : List CTransaction -> state -> state -> Prop
  | [], v, v' => v' = v
  | tx :: rest, v, v' => haveInputs v tx = true ∧
      exists undo v1, updateCoins v tx nHeight = some (undo, v1) ∧ InTurn nHeight rest v1 v'

/-- Whatever a transaction spends has been put into the list before it, if at all. -/
def ParentsFirst (txs : List CTransaction) : Prop :=
  forall before child after, txs = before ++ child :: after ->
    forall out, out ∈ child.spends -> out.hash ∉ (child :: after).map CTransaction.hash

/-- No transaction spends what is unspent under the identifier of another one. -/
def Unnamed (txs : List CTransaction) (v : state) : Prop :=
  forall tx, tx ∈ txs -> forall other, other ∈ txs -> forall out, out ∈ other.spends ->
    out.hash = tx.hash -> unspentAt v out = none

theorem haveInputs_iff (v : state) (tx : CTransaction) :
    haveInputs v tx = true <-> forall out, out ∈ tx.spends -> IsUnspent v out := by
  unfold haveInputs CTransaction.spends
  cases hcb : tx.isCoinBase with
  | true => exact iff_of_true rfl fun out hmem => nomatch hmem
  | false =>
      rw [Bool.false_or, List.all_eq_true, if_neg Bool.false_ne_true]
      constructor
      · intro h out hmem
        rcases List.mem_map.mp hmem with ⟨txin, htxin, rfl⟩
        have havailable := h txin htxin
        rw [isAvailable_eq] at havailable
        exact havailable
      · intro h txin htxin
        rw [isAvailable_eq]
        exact h txin.prevout (List.mem_map_of_mem htxin)

section InTurn

variable [LawfulCoinsState state] {nHeight : Int} {v v' w : state}

omit [LawfulCoinsState state] in
theorem inTurn_append {xs ys : List CTransaction} {v1 : state}
    (hxs : InTurn nHeight xs v v1) (hys : InTurn nHeight ys v1 v') :
    InTurn nHeight (xs ++ ys) v v' := by
  induction xs generalizing v with
  | nil =>
      cases hxs
      exact hys
  | cons tx rest ih =>
      rcases hxs with ⟨hinputs, undo, v2, hupdate, hrest⟩
      exact ⟨hinputs, undo, v2, hupdate, ih hrest⟩

omit [LawfulCoinsState state] in
theorem inTurn_of_append {xs ys : List CTransaction} (h : InTurn nHeight (xs ++ ys) v v') :
    exists v1, InTurn nHeight xs v v1 ∧ InTurn nHeight ys v1 v' := by
  induction xs generalizing v with
  | nil => exact ⟨v, rfl, h⟩
  | cons tx rest ih =>
      rcases h with ⟨hinputs, undo, v2, hupdate, hrest⟩
      rcases ih hrest with ⟨v1, hfirst, hlast⟩
      exact ⟨v1, ⟨hinputs, undo, v2, hupdate, hfirst⟩, hlast⟩

theorem spendInputs_isSome :
    forall (outs : List COutPoint) {v : state}, outs.Nodup ->
      (forall out, out ∈ outs -> IsUnspent v out) -> (spendInputs v outs).isSome = true := by
  intro outs
  induction outs with
  | nil => exact fun _ _ => rfl
  | cons out rest ih =>
      intro v hnodup hunspent
      rcases List.nodup_cons.mp hnodup with ⟨hnew, hrest⟩
      have hspend : ((coinsAt v out.hash).spend out.n).isSome = true := by
        rw [spend_isSome_iff]
        exact hunspent out List.mem_cons_self
      rcases Option.isSome_iff_exists.mp hspend with ⟨⟨undo, coins⟩, hone⟩
      have hinput : spendInput v out = some (undo, assign v out.hash coins) := by
        rw [spendInput, hone]
      have hothers := ih (v := assign v out.hash coins) hrest (by
        intro other hmem
        have hne : other ≠ out := fun heq => hnew (heq ▸ hmem)
        unfold IsUnspent
        rw [unspentAt_spendInput hinput other, if_neg hne]
        exact hunspent other (List.mem_cons_of_mem out hmem))
      rcases Option.isSome_iff_exists.mp hothers with ⟨⟨undos, v2⟩, hspends⟩
      rw [spendInputs, hinput]
      simp only [hspends]
      rfl

variable (nHeight) in
/-- With its inputs there, a transaction can be connected. -/
theorem exists_updateCoins {tx : CTransaction} (hnodup : tx.spends.Nodup)
    (hinputs : haveInputs v tx = true) :
    exists undo v', updateCoins v tx nHeight = some (undo, v') := by
  have hunspent := (haveInputs_iff v tx).mp hinputs
  unfold CTransaction.spends at hnodup hunspent
  unfold updateCoins
  split_ifs at hnodup hunspent ⊢
  · exact ⟨_, _, rfl⟩
  · rcases Option.isSome_iff_exists.mp (spendInputs_isSome _ hnodup hunspent) with
      ⟨⟨undos, v1⟩, hspends⟩
    rw [hspends]
    exact ⟨_, _, rfl⟩

/-!
# Nothing is spent twice
-/

/-- What is not there and not created does not get spent. -/
theorem not_mem_spends_of_inTurn {out : COutPoint} :
    forall (txs : List CTransaction) {v : state}, unspentAt v out = none ->
      out.hash ∉ txs.map CTransaction.hash -> InTurn nHeight txs v v' ->
      forall tx, tx ∈ txs -> out ∉ tx.spends := by
  intro txs
  induction txs with
  | nil => exact fun _ _ _ _ hmem => nomatch hmem
  | cons first rest ih =>
      intro v hnone hhash h tx hmem hspends
      rcases h with ⟨hinputs, undo, v1, hupdate, hrest⟩
      rw [List.map_cons, List.mem_cons, not_or] at hhash
      rcases List.mem_cons.mp hmem with rfl | hin
      · have hunspent := (haveInputs_iff v tx).mp hinputs out hspends
        unfold IsUnspent at hunspent
        rw [hnone] at hunspent
        cases hunspent
      · refine ih ?_ hhash.2 hrest tx hin hspends
        rw [(unspentAt_updateCoins hupdate).1 out, if_neg hhash.1, hnone, ite_self]

theorem unnamed_tail {first : CTransaction} {rest : List CTransaction} {undo : CTxUndo}
    (hids : ((first :: rest).map CTransaction.hash).Nodup) (h : Unnamed (first :: rest) v)
    (hupdate : updateCoins v first nHeight = some (undo, v')) : Unnamed rest v' := by
  rw [List.map_cons, List.nodup_cons] at hids
  intro tx htx other hother out hout heq
  have hne : out.hash ≠ first.hash := by
    rw [heq]
    exact fun hhash => hids.1 (hhash ▸ List.mem_map_of_mem htx)
  rw [(unspentAt_updateCoins hupdate).1 out, if_neg hne,
    h tx (List.mem_cons_of_mem first htx) other (List.mem_cons_of_mem first hother) out hout heq,
    ite_self]

omit [LawfulCoinsState state] in
/-- The inputs of the first transaction are under other identifiers. -/
theorem hash_not_mem_of_unnamed {first : CTransaction} {rest : List CTransaction}
    (h : Unnamed (first :: rest) v) (hinputs : haveInputs v first = true) :
    forall out, out ∈ first.spends -> out.hash ∉ (first :: rest).map CTransaction.hash := by
  intro out hout hmem
  rcases List.mem_map.mp hmem with ⟨tx, htx, heq⟩
  have hnone := h tx htx first List.mem_cons_self out hout heq.symm
  have hunspent := (haveInputs_iff v first).mp hinputs out hout
  unfold IsUnspent at hunspent
  rw [hnone] at hunspent
  cases hunspent

theorem parentsFirst_of_inTurn :
    forall (txs : List CTransaction) {v : state}, (txs.map CTransaction.hash).Nodup ->
      Unnamed txs v -> InTurn nHeight txs v v' -> ParentsFirst txs := by
  intro txs
  induction txs with
  | nil =>
      intro v _ _ _ before child after hsplit
      cases before <;> cases hsplit
  | cons first rest ih =>
      intro v hids hnew h before child after hsplit
      rcases h with ⟨hinputs, undo, v1, hupdate, hrest⟩
      have hfirst := hash_not_mem_of_unnamed hnew hinputs
      have hothers := ih (List.nodup_cons.mp hids).2 (unnamed_tail hids hnew hupdate) hrest
      cases before with
      | nil =>
          cases hsplit
          exact hfirst
      | cons head before =>
          cases hsplit
          exact hothers before child after rfl

theorem spends_nodup_of_inTurn :
    forall (txs : List CTransaction) {v : state}, (txs.map CTransaction.hash).Nodup ->
      (forall tx, tx ∈ txs -> tx.spends.Nodup) -> Unnamed txs v -> InTurn nHeight txs v v' ->
      (txs.flatMap CTransaction.spends).Nodup := by
  intro txs
  induction txs with
  | nil => exact fun _ _ _ _ => List.nodup_nil
  | cons first rest ih =>
      intro v hids hnodup hnew h
      rcases h with ⟨hinputs, undo, v1, hupdate, hrest⟩
      have hfirst := hash_not_mem_of_unnamed hnew hinputs
      rw [List.flatMap_cons]
      refine List.Nodup.append (hnodup first List.mem_cons_self)
        (ih (List.nodup_cons.mp hids).2 (fun tx hmem => hnodup tx (List.mem_cons_of_mem _ hmem))
          (unnamed_tail hids hnew hupdate) hrest) ?_
      intro out hout hlater
      rcases List.mem_flatMap.mp hlater with ⟨tx, htx, hspends⟩
      have hhash := hfirst out hout
      rw [List.map_cons, List.mem_cons, not_or] at hhash
      have hgone : unspentAt v1 out = none := by
        rw [(unspentAt_updateCoins hupdate).1 out, if_neg hhash.1, if_pos hout]
      exact not_mem_spends_of_inTurn rest hgone hhash.2 hrest tx htx hspends

/-!
# From other coins
-/

/-- The coins are the same, except for some identifiers and for outputs which are taken. -/
def Apart (own : UInt256 -> Prop) (taken : List COutPoint) (v w : state) : Prop :=
  forall out, ¬ own out.hash ->
    unspentAt w out = if out ∈ taken then none else unspentAt v out

/-- Transactions which have nothing to do with the difference are connected as before. -/
theorem inTurn_apart {own : UInt256 -> Prop} {taken : List COutPoint} :
    forall (txs : List CTransaction) {v w : state}, Apart own taken v w ->
      (forall tx, tx ∈ txs -> tx.spends.Nodup ∧
        (forall out, out ∈ tx.spends -> ¬ own out.hash ∧ out ∉ taken) ∧
          forall out, out ∈ taken -> out.hash ≠ tx.hash) ->
      InTurn nHeight txs v v' -> exists w', InTurn nHeight txs w w' := by
  intro txs
  induction txs with
  | nil => exact fun _ _ _ => ⟨_, rfl⟩
  | cons tx rest ih =>
      intro v w hapart htxs h
      rcases h with ⟨hinputs, undo, v1, hupdate, hrest⟩
      rcases htxs tx List.mem_cons_self with ⟨hnodup, hspends, htaken⟩
      have hinputs' : haveInputs w tx = true := by
        rw [haveInputs_iff] at hinputs ⊢
        intro out hout
        unfold IsUnspent
        rw [hapart out (hspends out hout).1, if_neg (hspends out hout).2]
        exact hinputs out hout
      rcases exists_updateCoins nHeight hnodup hinputs' with
        ⟨undo', w1, hupdate'⟩
      have hapart' : Apart own taken v1 w1 := by
        intro out hown
        rw [(unspentAt_updateCoins hupdate').1 out, (unspentAt_updateCoins hupdate).1 out,
          hapart out hown]
        by_cases hhash : out.hash = tx.hash
        · have hfree : out ∉ taken := fun hmem => htaken out hmem hhash
          rw [if_pos hhash, if_pos hhash, if_neg hfree]
        · rw [if_neg hhash, if_neg hhash]
          split_ifs <;> rfl
      rcases ih hapart' (fun t ht => htxs t (List.mem_cons_of_mem tx ht)) hrest with ⟨w', hw⟩
      exact ⟨w', hinputs', undo', w1, hupdate', hw⟩

/-!
# Transactions put in front
-/

/-- Transactions which are put in front of others, under identifiers which are new. -/
structure InFront (own others : List CTransaction) (v : state) : Prop where
  ownSpends : (own.flatMap CTransaction.spends).Nodup
  ownIds : forall tx, tx ∈ own -> forall other, other ∈ own ++ others ->
    forall out, out ∈ other.spends -> out.hash ≠ tx.hash
  spends : forall tx, tx ∈ others -> tx.spends.Nodup
  ids : forall tx, tx ∈ others -> forall out, out.hash = tx.hash -> unspentAt v out = none

/-- What they leave behind, and what they need. -/
theorem apart_of_inTurn :
    forall (own : List CTransaction) {v w : state},
      (forall tx, tx ∈ own -> forall other, other ∈ own ->
        forall out, out ∈ other.spends -> out.hash ≠ tx.hash) ->
      InTurn nHeight own v w ->
      Apart (fun hash => hash ∈ own.map CTransaction.hash) (own.flatMap CTransaction.spends) v w ∧
        forall out, out ∈ own.flatMap CTransaction.spends -> IsUnspent v out := by
  intro own
  induction own with
  | nil =>
      intro v w _ h
      cases h
      exact ⟨fun out _ => rfl, fun out hmem => nomatch hmem⟩
  | cons tx rest ih =>
      intro v w hids h
      rcases h with ⟨hinputs, undo, v1, hupdate, hrest⟩
      have hafter := (unspentAt_updateCoins hupdate).1
      rcases ih (fun t ht other hother => hids t (List.mem_cons_of_mem tx ht) other
        (List.mem_cons_of_mem tx hother)) hrest with ⟨hapart, hunspent⟩
      constructor
      · intro out hown
        change out.hash ∉ (tx :: rest).map CTransaction.hash at hown
        rw [List.map_cons, List.mem_cons, not_or] at hown
        rw [hapart out hown.2, hafter out, if_neg hown.1, List.flatMap_cons]
        by_cases hmem : out ∈ tx.spends
        · rw [if_pos hmem, ite_self, if_pos (List.mem_append_left _ hmem)]
        · rw [if_neg hmem]
          simp only [List.mem_append, hmem, false_or]
      · intro out hmem
        rw [List.flatMap_cons, List.mem_append] at hmem
        rcases hmem with hfirst | hlater
        · exact (haveInputs_iff v tx).mp hinputs out hfirst
        · have hlater' := hunspent out hlater
          rcases List.mem_flatMap.mp hlater with ⟨other, hother, hspends⟩
          unfold IsUnspent at hlater' ⊢
          rw [hafter out, if_neg (hids tx List.mem_cons_self other
            (List.mem_cons_of_mem tx hother) out hspends)] at hlater'
          split_ifs at hlater'
          · cases hlater'
          · exact hlater'

variable (nHeight) in
theorem exists_inTurn :
    forall (own : List CTransaction) {v : state}, (own.flatMap CTransaction.spends).Nodup ->
      (forall tx, tx ∈ own -> forall other, other ∈ own ->
        forall out, out ∈ other.spends -> out.hash ≠ tx.hash) ->
      (forall out, out ∈ own.flatMap CTransaction.spends -> IsUnspent v out) ->
      exists w, InTurn nHeight own v w := by
  intro own
  induction own with
  | nil => exact fun _ _ _ => ⟨_, rfl⟩
  | cons tx rest ih =>
      intro v hnodup hids hunspent
      rw [List.flatMap_cons] at hnodup hunspent
      rw [List.nodup_append] at hnodup
      rcases hnodup with ⟨htx, hrest, hdisjoint⟩
      have hinputs : haveInputs v tx = true :=
        (haveInputs_iff v tx).mpr fun out hmem => hunspent out (List.mem_append_left _ hmem)
      rcases exists_updateCoins nHeight htx hinputs with ⟨undo, v1, hupdate⟩
      have hlater : forall out, out ∈ rest.flatMap CTransaction.spends -> IsUnspent v1 out := by
        intro out hmem
        rcases List.mem_flatMap.mp hmem with ⟨other, hother, hspends⟩
        have hfree : out ∉ tx.spends := fun hfirst => hdisjoint out hfirst out hmem rfl
        unfold IsUnspent
        rw [(unspentAt_updateCoins hupdate).1 out, if_neg hfree, if_neg (hids tx
          List.mem_cons_self other (List.mem_cons_of_mem tx hother) out hspends)]
        exact hunspent out (List.mem_append_right _ hmem)
      rcases ih hrest (fun t ht other hother => hids t (List.mem_cons_of_mem tx ht) other
        (List.mem_cons_of_mem tx hother)) hlater with ⟨w, hw⟩
      exact ⟨w, hinputs, undo, v1, hupdate, hw⟩

/-- They fit in front exactly when what they spend is there and not spent by the others. -/
theorem inTurn_inFront_iff {own others : List CTransaction} (h : InFront own others v)
    (hothers : InTurn nHeight others v v') :
    (exists w, InTurn nHeight (own ++ others) v w) <->
      forall out, out ∈ own.flatMap CTransaction.spends ->
        IsUnspent v out ∧ forall tx, tx ∈ others -> out ∉ tx.spends := by
  have hids := fun tx htx other hother =>
    h.ownIds tx htx other (List.mem_append_left others hother)
  -- What is unspent is not under an identifier of the others.
  have hhash : forall out, IsUnspent v out -> out.hash ∉ others.map CTransaction.hash := by
    intro out hunspent hmem
    rcases List.mem_map.mp hmem with ⟨tx, htx, heq⟩
    unfold IsUnspent at hunspent
    rw [h.ids tx htx out heq.symm] at hunspent
    cases hunspent
  constructor
  · rintro ⟨w, hall⟩ out hout
    rcases inTurn_of_append hall with ⟨v1, hown, hrest⟩
    rcases apart_of_inTurn own hids hown with ⟨hapart, hunspent⟩
    refine ⟨hunspent out hout, not_mem_spends_of_inTurn others ?_ (hhash out (hunspent out hout))
      hrest⟩
    have hfree : out.hash ∉ own.map CTransaction.hash := by
      intro hmem
      rcases List.mem_map.mp hmem with ⟨tx, htx, heq⟩
      rcases List.mem_flatMap.mp hout with ⟨other, hother, hspends⟩
      exact hids tx htx other hother out hspends heq.symm
    rw [hapart out hfree, if_pos hout]
  · intro hfree
    rcases exists_inTurn nHeight own h.ownSpends hids
      (fun out hout => (hfree out hout).1) with ⟨v1, hown⟩
    have hapart := (apart_of_inTurn own hids hown).1
    have hrest : exists w, InTurn nHeight others v1 w := by
      refine inTurn_apart others hapart ?_ hothers
      intro tx htx
      refine ⟨h.spends tx htx, ?_, ?_⟩
      · intro out hout
        refine ⟨?_, fun hmem => (hfree out hmem).2 tx htx hout⟩
        intro hmem
        rcases List.mem_map.mp hmem with ⟨first, hfirst, heq⟩
        exact h.ownIds first hfirst tx (List.mem_append_right own htx) out hout heq.symm
      · intro out hout heq
        exact hhash out (hfree out hout).1 (heq ▸ List.mem_map_of_mem htx)
    rcases hrest with ⟨w, hw⟩
    exact ⟨w, inTurn_append hown hw⟩

end InTurn

end Hbcur
