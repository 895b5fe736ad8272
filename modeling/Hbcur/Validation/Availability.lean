import Hbcur.Validation.Overwrite

/-!
# Outputs which stay available

What is unspent before a block is connected or disconnected and not concerned by it is
unspent afterwards.
-/

namespace Hbcur

open Foundation CCoins

/-- The outpoint is one of the outputs which its transaction leaves to be spent. -/
def IsOutput (txOf : UInt256 -> CTransaction) (out : COutPoint) : Prop :=
  ((fromTx (txOf out.hash) 0).output? out.n).isSome = true

theorem output?_fromTx (tx : CTransaction) (nHeight nHeight' : Int) (nPos : Nat) :
    (fromTx tx nHeight).output? nPos = (fromTx tx nHeight').output? nPos := by
  unfold fromTx
  rw [output?_clearUnspendable, output?_clearUnspendable]
  rfl

section IsOutput

variable {txOf : UInt256 -> CTransaction} {out : COutPoint}

theorem IsOutput.lt_length (h : IsOutput txOf out) :
    out.n < (txOf out.hash).vout.length := by
  rcases Option.isSome_iff_exists.mp h with ⟨txout, hout⟩
  unfold fromTx at hout
  rw [output?_clearUnspendable] at hout
  have hget := ((output?_eq_some_iff _ _ _).mp (Option.filter_eq_some_iff.mp hout).1).1
  exact (List.getElem?_eq_some_iff.mp hget).1

theorem isOutput_iff {tx : CTransaction} (htx : txOf tx.hash = tx)
    (hhash : out.hash = tx.hash) (nHeight : Int) :
    IsOutput txOf out <-> ((fromTx tx nHeight).output? out.n).isSome = true := by
  unfold IsOutput
  rw [hhash, htx, output?_fromTx tx 0 nHeight]

end IsOutput

variable {state : Type} [CoinsState state]

def IsUnspent (v : state) (out : COutPoint) : Prop :=
  (unspentAt v out).isSome = true

/-- What is unspent is an output of the transaction with its identifier. -/
def CoinsNamed (txOf : UInt256 -> CTransaction) (v : state) : Prop :=
  forall out, IsUnspent v out -> IsOutput txOf out

/-!
# Connecting
-/

section Connecting

variable [LawfulCoinsState state] {txOf : UInt256 -> CTransaction} {nHeight : Int}

theorem coinsNamed_updateCoins {v v' : state} {tx : CTransaction} {undo : CTxUndo}
    (h : CoinsNamed txOf v) (htx : txOf tx.hash = tx)
    (hupdate : updateCoins v tx nHeight = some (undo, v')) :
    CoinsNamed txOf v' ∧ forall out, out ∈ tx.spends -> IsOutput txOf out := by
  rcases unspentAt_updateCoins hupdate with ⟨hafter, hbefore⟩
  constructor
  · intro out hout
    unfold IsUnspent at hout
    rw [hafter out] at hout
    split_ifs at hout with hhash hspent
    · exact (isOutput_iff htx hhash nHeight).mpr hout
    · cases hout
    · exact h out hout
  · intro out hmem
    rcases hbefore out hmem with ⟨txout, hout⟩
    exact h out (Option.isSome_iff_exists.mpr ⟨txout, hout⟩)

theorem isUnspent_updateCoins {v v' : state} {tx : CTransaction} {undo : CTxUndo}
    {out : COutPoint} (hout : IsOutput txOf out) (htx : txOf tx.hash = tx)
    (hupdate : updateCoins v tx nHeight = some (undo, v')) (hspends : out ∉ tx.spends)
    (h : IsUnspent v out ∨ out.hash = tx.hash) : IsUnspent v' out := by
  unfold IsUnspent
  rw [(unspentAt_updateCoins hupdate).1 out]
  split_ifs with hhash
  · exact (isOutput_iff htx hhash nHeight).mp hout
  · exact h.resolve_right hhash

theorem coinsNamed_updateCoinsAll :
    forall (txs : List CTransaction) {v v' : state} {undos : List CTxUndo},
      CoinsNamed txOf v -> (forall tx, tx ∈ txs -> txOf tx.hash = tx) ->
      updateCoinsAll v nHeight txs = some (undos, v') ->
      CoinsNamed txOf v' ∧
        forall tx, tx ∈ txs -> forall out, out ∈ tx.spends -> IsOutput txOf out := by
  intro txs
  induction txs with
  | nil =>
      intro v v' undos h _ hall
      cases hall
      exact ⟨h, fun _ hmem => nomatch hmem⟩
  | cons tx rest ih =>
      intro v v' undos h htxs hall
      rcases updateCoinsAll_cons hall with ⟨undo, v1, undos', hone, hrest, _⟩
      rcases coinsNamed_updateCoins h (htxs tx List.mem_cons_self) hone with
        ⟨hnamed, hspends⟩
      rcases ih hnamed (fun t ht => htxs t (List.mem_cons_of_mem _ ht)) hrest with
        ⟨hnamed', hspends'⟩
      refine ⟨hnamed', ?_⟩
      intro t ht
      rcases List.mem_cons.mp ht with rfl | hin
      · exact hspends
      · exact hspends' t hin

/-- Outputs from before or from the block itself, unless the block spends them. -/
theorem isUnspent_updateCoinsAll {out : COutPoint} (hout : IsOutput txOf out) :
    forall (txs : List CTransaction) {v v' : state} {undos : List CTxUndo},
      (forall tx, tx ∈ txs -> txOf tx.hash = tx) ->
      (forall tx, tx ∈ txs -> out ∉ tx.spends) ->
      updateCoinsAll v nHeight txs = some (undos, v') ->
      IsUnspent v out ∨ out.hash ∈ txs.map CTransaction.hash -> IsUnspent v' out := by
  intro txs
  induction txs with
  | nil =>
      intro v v' undos _ _ hall h
      cases hall
      exact h.resolve_right (fun hmem => nomatch hmem)
  | cons tx rest ih =>
      intro v v' undos htxs hspends hall h
      rcases updateCoinsAll_cons hall with ⟨undo, v1, undos', hone, hrest, _⟩
      refine ih (fun t ht => htxs t (List.mem_cons_of_mem _ ht))
        (fun t ht => hspends t (List.mem_cons_of_mem _ ht)) hrest ?_
      have hkeep := isUnspent_updateCoins hout (htxs tx List.mem_cons_self) hone
        (hspends tx List.mem_cons_self)
      rw [List.map_cons, List.mem_cons] at h
      rcases h with hunspent | hhash | hin
      · exact Or.inl (hkeep (Or.inl hunspent))
      · exact Or.inl (hkeep (Or.inr hhash))
      · exact Or.inr hin

end Connecting

/-!
# Disconnecting
-/

section Disconnecting

variable [LawfulCoinsState state] {txOf : UInt256 -> CTransaction} {nHeight : Int}

theorem coinsNamed_disconnectTxs :
    forall (pairs : List (CTransaction × Option CTxUndo)) {v v' : state} {fClean : Bool},
      CoinsNamed txOf v ->
      (forall pair, pair ∈ pairs -> pair.2 = none ∨ pair.1.isCoinBase = false) ->
      (forall pair, pair ∈ pairs -> forall out, out ∈ pair.1.spends -> IsOutput txOf out) ->
      disconnectTxs v nHeight pairs = some (fClean, v') -> CoinsNamed txOf v' := by
  intro pairs
  induction pairs with
  | nil =>
      intro v v' fClean h _ _ hdisconnect
      cases hdisconnect
      exact h
  | cons pair rest ih =>
      rcases pair with ⟨tx, txundo⟩
      intro v v' fClean h hcb hspends hdisconnect
      rcases disconnectTxs_cons hdisconnect with ⟨fCleanRest, v1, fCleanOne, hrest, hone, _⟩
      have hmid := ih h (fun p hp => hcb p (List.mem_cons_of_mem _ hp))
        (fun p hp => hspends p (List.mem_cons_of_mem _ hp)) hrest
      intro out hout
      rcases Option.isSome_iff_exists.mp hout with ⟨txout, htxout⟩
      rcases unspentAt_disconnectTx (hcb _ List.mem_cons_self) hone htxout with
        hmem | ⟨_, hold⟩
      · exact hspends _ List.mem_cons_self out hmem
      · exact hmid out (Option.isSome_iff_exists.mpr ⟨txout, hold⟩)

/-- A clean restore loses nothing. -/
theorem isUnspent_restoreInput {v : state} {out other : COutPoint} {undo : CTxInUndo}
    (hclean : (restoreInput v out undo).1 = true) (h : IsUnspent v other) :
    IsUnspent (restoreInput v out undo).2 other := by
  rcases restoreInput_clean hclean with ⟨hfound, hfree⟩
  unfold IsUnspent unspentAt at h ⊢
  by_cases hhash : other.hash = out.hash
  · rw [hhash] at h ⊢
    by_cases hheight : undo.nHeight = 0
    · rw [reopened_of_no_height hheight] at hfree
      rw [output?_restoreInput, reopened_of_no_height hheight]
      split_ifs with hn
      · rw [hn, hfree] at h
        cases h
      · exact h
    · -- The entry which is reopened had no outputs left.
      rw [reopened_of_height hheight] at hfound
      rw [(isPruned_iff _).mp hfound other.n] at h
      cases h
  · rw [coinsAt_restoreInput_other v out undo hhash]
    exact h

theorem isUnspent_restoreInputs {v : state} {other : COutPoint}
    (pairs : List (COutPoint × CTxInUndo)) (hclean : (restoreInputs v pairs).1 = true)
    (h : IsUnspent v other) : IsUnspent (restoreInputs v pairs).2 other := by
  induction pairs with
  | nil => exact h
  | cons pair rest ih =>
      rcases pair with ⟨out, undo⟩
      rcases Bool.and_eq_true_iff.mp hclean with ⟨hrest, hone⟩
      exact isUnspent_restoreInput hone (ih hrest)

theorem isUnspent_disconnectTx {v v' : state} {tx : CTransaction}
    {txundo : Option CTxUndo} {out : COutPoint}
    (hdisconnect : disconnectTx v nHeight tx txundo = some (true, v'))
    (hhash : out.hash ≠ tx.hash) (h : IsUnspent v out) : IsUnspent v' out := by
  have hremoved : IsUnspent (removeOutputs v tx nHeight).2 out := by
    unfold IsUnspent
    rw [unspentAt_removeOutputs, if_neg hhash]
    exact h
  unfold disconnectTx at hdisconnect
  cases txundo with
  | none =>
      simp only [Option.some.injEq, Prod.mk.injEq] at hdisconnect
      rw [← hdisconnect.2]
      exact hremoved
  | some txundo =>
      simp only at hdisconnect
      split_ifs at hdisconnect with hlen
      simp only [Option.some.injEq, Prod.mk.injEq, Bool.and_eq_true] at hdisconnect
      rw [← hdisconnect.2]
      exact isUnspent_restoreInputs _ hdisconnect.1.2 hremoved

theorem isUnspent_disconnectTxs {out : COutPoint} :
    forall (pairs : List (CTransaction × Option CTxUndo)) {v v' : state},
      disconnectTxs v nHeight pairs = some (true, v') ->
      (forall pair, pair ∈ pairs -> out.hash ≠ pair.1.hash) ->
      IsUnspent v out -> IsUnspent v' out := by
  intro pairs
  induction pairs with
  | nil =>
      intro v v' hdisconnect _ h
      cases hdisconnect
      exact h
  | cons pair rest ih =>
      rcases pair with ⟨tx, txundo⟩
      intro v v' hdisconnect hne h
      rcases disconnectTxs_cons hdisconnect with ⟨fCleanRest, v1, fCleanOne, hrest, hone, hclean⟩
      rcases Bool.and_eq_true_iff.mp hclean.symm with ⟨rfl, rfl⟩
      exact isUnspent_disconnectTx hone (hne _ List.mem_cons_self)
        (ih hrest (fun p hp => hne p (List.mem_cons_of_mem _ hp)) h)

end Disconnecting

end Hbcur
