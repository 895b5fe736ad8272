import Mathlib.Data.List.DropRight
import Hbcur.Primitives.Transaction

/-!
# Coins entries

`CCoins` of `coins.h`: the unspent outputs of one transaction together with
the metadata recorded when it was included in the chain.  Spent outputs are
null, and null outputs at the end of the vector are dropped.
-/

namespace Hbcur

/-!
# Undo information for one input

The metadata is only filled in when the spent output was the last unspent one
of its transaction.
-/

structure CTxInUndo where
  txout : CTxOut
  fCoinBase : Bool := false
  fCoinStake : Bool := false
  nHeight : Nat := 0
  nVersion : Int := 0
  deriving DecidableEq, Repr

structure CCoins where
  fCoinBase : Bool := false
  fCoinStake : Bool := false
  vout : List CTxOut := []
  nHeight : Int := 0
  nVersion : Int := 0
  deriving DecidableEq, Repr

namespace CCoins

/-- The default constructor, also the state reached by `Clear`. -/
def empty : CCoins := {}

def cleanup (coins : CCoins) : CCoins :=
  { coins with vout := coins.vout.rdropWhile CTxOut.isNull }

def clearUnspendable (coins : CCoins) : CCoins :=
  cleanup
    { coins with
      vout := coins.vout.map fun out =>
        if CScript.isUnspendable out.scriptPubKey then CTxOut.null else out }

def fromTx (tx : CTransaction) (nHeight : Int) : CCoins :=
  clearUnspendable
    { fCoinBase := tx.isCoinBase
      fCoinStake := tx.isCoinStake
      vout := tx.vout
      nHeight := nHeight
      nVersion := tx.nVersion }

def isPruned (coins : CCoins) : Bool :=
  coins.vout.all CTxOut.isNull

def isAvailable (coins : CCoins) (nPos : Nat) : Bool :=
  match coins.vout[nPos]? with
  | some out => !out.isNull
  | none => false

/-- `operator==`: pruned entries are equal whatever their metadata. -/
def same (a b : CCoins) : Bool :=
  (a.isPruned && b.isPruned) || a == b

/-- Conversion of an `int` to `unsigned int`. -/
def toUInt32 (n : Int) : Nat :=
  (n % 4294967296).toNat

/-- Mark an output spent and construct its undo information. -/
def spend (coins : CCoins) (nPos : Nat) : Option (CTxInUndo × CCoins) :=
  match coins.vout[nPos]? with
  | none => none
  | some out =>
      if out.isNull then none
      else
        let coins' := cleanup { coins with vout := coins.vout.set nPos CTxOut.null }
        if coins'.vout.isEmpty then
          some ({ txout := out
                  fCoinBase := coins.fCoinBase
                  fCoinStake := coins.fCoinStake
                  nHeight := toUInt32 coins.nHeight
                  nVersion := coins.nVersion }, coins')
        else
          some ({ txout := out }, coins')

/-- `vout.resize(nSize)` when the vector is shorter, then `vout[nPos] = out`. -/
def putOutput (coins : CCoins) (nPos : Nat) (out : CTxOut) : CCoins :=
  { coins with
    vout :=
      (coins.vout ++ List.replicate (nPos + 1 - coins.vout.length) CTxOut.null).set
        nPos out }

/-!
# Unspent outputs by position

The proofs read an entry through the function from positions to unspent
outputs, which `cleanup` and padding leave alone.
-/

def output? (coins : CCoins) (nPos : Nat) : Option CTxOut :=
  coins.vout[nPos]?.filter fun out => !out.isNull

/-- The metadata of an entry: everything but its outputs. -/
def metadata (coins : CCoins) : Bool × Bool × Int × Int :=
  (coins.fCoinBase, coins.fCoinStake, coins.nHeight, coins.nVersion)

/-- Null outputs are the ones which `SetNull` produces. -/
def Canonical (coins : CCoins) : Prop :=
  forall out, out ∈ coins.vout -> out.isNull = true -> out = CTxOut.null

theorem isAvailable_eq (coins : CCoins) (nPos : Nat) :
    coins.isAvailable nPos = (coins.output? nPos).isSome := by
  unfold isAvailable output?
  cases h : coins.vout[nPos]? with
  | none => rfl
  | some out =>
      cases hnull : out.isNull <;> simp [hnull]

theorem output?_eq_some_iff (coins : CCoins) (nPos : Nat) (out : CTxOut) :
    coins.output? nPos = some out <->
      coins.vout[nPos]? = some out ∧ out.isNull = false := by
  simp [output?, Option.filter_eq_some_iff]

theorem isPruned_iff (coins : CCoins) :
    coins.isPruned = true <-> forall nPos, coins.output? nPos = none := by
  constructor
  · intro h nPos
    rw [Option.eq_none_iff_forall_ne_some]
    intro out hout
    rcases (output?_eq_some_iff coins nPos out).mp hout with ⟨hget, hnull⟩
    have hall := List.all_eq_true.mp h out (List.mem_of_getElem? hget)
    rw [hnull] at hall
    cases hall
  · intro h
    apply List.all_eq_true.mpr
    intro out hout
    rcases List.mem_iff_getElem?.mp hout with ⟨nPos, hget⟩
    cases hnull : out.isNull with
    | true => rfl
    | false =>
        have hsome := (output?_eq_some_iff coins nPos out).mpr ⟨hget, hnull⟩
        rw [h nPos] at hsome
        cases hsome

theorem isPruned_eq_false_iff (coins : CCoins) :
    coins.isPruned = false <-> exists nPos out, coins.output? nPos = some out := by
  rw [← Bool.not_eq_true, isPruned_iff]
  simp only [not_forall, Option.ne_none_iff_exists']

/-!
# Outputs after each operation
-/

@[simp] theorem output?_empty (nPos : Nat) : empty.output? nPos = none := rfl

theorem output?_of_getElem?_eq {a b : CCoins} {nPos : Nat}
    (h : a.vout[nPos]? = b.vout[nPos]?) : a.output? nPos = b.output? nPos := by
  unfold output?
  rw [h]

/-- The part which `Cleanup` drops holds null outputs only. -/
theorem vout_eq_cleanup_append (coins : CCoins) :
    exists tail, coins.vout = coins.cleanup.vout ++ tail ∧
      forall out, out ∈ tail -> out.isNull = true := by
  refine ⟨coins.vout.rtakeWhile CTxOut.isNull, ?_, ?_⟩
  · exact List.rdropWhile_append_rtakeWhile.symm
  · intro out hout
    exact List.mem_rtakeWhile_imp hout

@[simp] theorem output?_cleanup (coins : CCoins) (nPos : Nat) :
    coins.cleanup.output? nPos = coins.output? nPos := by
  rcases vout_eq_cleanup_append coins with ⟨tail, hvout, htail⟩
  by_cases hlt : nPos < coins.cleanup.vout.length
  · apply output?_of_getElem?_eq
    rw [hvout, List.getElem?_append_left hlt]
  · have hle : coins.cleanup.vout.length ≤ nPos := Nat.le_of_not_lt hlt
    have hnone : coins.cleanup.output? nPos = none := by
      simp [output?, List.getElem?_eq_none hle]
    rw [hnone, eq_comm, Option.eq_none_iff_forall_ne_some]
    intro out hout
    rcases (output?_eq_some_iff coins nPos out).mp hout with ⟨hget, hnull⟩
    rw [hvout, List.getElem?_append_right hle] at hget
    rw [htail out (List.mem_of_getElem? hget)] at hnull
    cases hnull

@[simp] theorem isPruned_cleanup (coins : CCoins) :
    coins.cleanup.isPruned = coins.isPruned := by
  rw [Bool.eq_iff_iff, isPruned_iff, isPruned_iff]
  simp

theorem isPruned_iff_cleanup_vout (coins : CCoins) :
    coins.isPruned = true <-> coins.cleanup.vout = [] := by
  show _ <-> coins.vout.rdropWhile CTxOut.isNull = []
  rw [List.rdropWhile_eq_nil_iff]
  exact List.all_eq_true

theorem output?_set_null (coins : CCoins) (nPos m : Nat) :
    ({ coins with vout := coins.vout.set nPos CTxOut.null } : CCoins).output? m =
      if m = nPos then none else coins.output? m := by
  unfold output?
  by_cases hm : m = nPos
  · subst hm
    cases h : coins.vout[m]? with
    | none => simp [List.getElem?_set]
    | some out =>
        have hlt : m < coins.vout.length := (List.getElem?_eq_some_iff.mp h).1
        simp [hlt, Option.filter_some]
  · simp [Ne.symm hm, hm]

theorem output?_putOutput (coins : CCoins) (nPos m : Nat) (out : CTxOut) :
    (coins.putOutput nPos out).output? m =
      if m = nPos then (some out).filter (fun out => !out.isNull)
      else coins.output? m := by
  unfold output? putOutput
  by_cases hm : m = nPos
  · subst hm
    have hlt : m < (coins.vout ++
        List.replicate (m + 1 - coins.vout.length) CTxOut.null).length := by
      simp
      omega
    simp only [List.getElem?_set_self hlt, if_pos]
  · simp only [List.getElem?_set_ne (Ne.symm hm), if_neg hm]
    by_cases hlt : m < coins.vout.length
    · rw [List.getElem?_append_left hlt]
    · have hle : coins.vout.length ≤ m := Nat.le_of_not_lt hlt
      rw [List.getElem?_append_right hle, List.getElem?_eq_none hle]
      cases hpad : (List.replicate (nPos + 1 - coins.vout.length)
          CTxOut.null)[m - coins.vout.length]? with
      | none => rfl
      | some pad =>
          have hpadNull : pad = CTxOut.null :=
            List.eq_of_mem_replicate (List.mem_of_getElem? hpad)
          simp [hpadNull, Option.filter_some]

theorem output?_clearUnspendable (coins : CCoins) (nPos : Nat) :
    coins.clearUnspendable.output? nPos =
      (coins.output? nPos).filter
        (fun out => !CScript.isUnspendable out.scriptPubKey) := by
  unfold clearUnspendable
  rw [output?_cleanup]
  unfold output?
  simp only [List.getElem?_map]
  cases h : coins.vout[nPos]? with
  | none => rfl
  | some out =>
      cases hun : CScript.isUnspendable out.scriptPubKey <;>
        cases hnull : out.isNull <;> simp [Option.filter_some, hun, hnull]

@[simp] theorem metadata_clearUnspendable (coins : CCoins) :
    coins.clearUnspendable.metadata = coins.metadata := rfl

/-!
# Spending an output
-/

theorem spend_eq_some_iff (coins : CCoins) (nPos : Nat)
    (undo : CTxInUndo) (coins' : CCoins) :
    coins.spend nPos = some (undo, coins') <->
      exists out, coins.output? nPos = some out ∧
        coins' = cleanup { coins with vout := coins.vout.set nPos CTxOut.null } ∧
        undo =
          if coins'.isPruned then
            { txout := out
              fCoinBase := coins.fCoinBase
              fCoinStake := coins.fCoinStake
              nHeight := toUInt32 coins.nHeight
              nVersion := coins.nVersion }
          else { txout := out } := by
  have hemptyIff :
      (cleanup { coins with vout := coins.vout.set nPos CTxOut.null }).vout.isEmpty =
        (cleanup { coins with vout := coins.vout.set nPos CTxOut.null }).isPruned := by
    rw [Bool.eq_iff_iff, isPruned_cleanup, isPruned_iff_cleanup_vout, List.isEmpty_iff]
  unfold spend
  cases hget : coins.vout[nPos]? with
  | none =>
      simp [output?_eq_some_iff, hget]
  | some out =>
      by_cases hnull : out.isNull = true
      · have hnone : coins.output? nPos = none := by
          simp [output?, hget, Option.filter_some, hnull]
        simp [hnull, hnone]
      · have hout : coins.output? nPos = some out :=
          (output?_eq_some_iff coins nPos out).mpr ⟨hget, by simpa using hnull⟩
        simp only [if_neg hnull, hemptyIff, hout, Option.some.injEq, exists_eq_left']
        split
        · rename_i hpruned
          constructor
          · intro h
            injection h with h
            injection h with hundo hcoins
            subst hcoins
            simp only [hpruned, if_true, ← hundo, and_self]
          · rintro ⟨rfl, rfl⟩
            simp only [hpruned, if_true]
        · rename_i hpruned
          constructor
          · intro h
            injection h with h
            injection h with hundo hcoins
            subst hcoins
            simp only [hpruned, if_false, ← hundo, and_self, Bool.false_eq_true]
          · rintro ⟨rfl, rfl⟩
            simp only [hpruned, if_false, Bool.false_eq_true]

theorem output?_of_spend {coins coins' : CCoins} {nPos : Nat} {undo : CTxInUndo}
    (h : coins.spend nPos = some (undo, coins')) (m : Nat) :
    coins'.output? m = if m = nPos then none else coins.output? m := by
  rcases (spend_eq_some_iff _ _ _ _).mp h with ⟨out, _hout, hcoins, _hundo⟩
  rw [hcoins, output?_cleanup, output?_set_null]

theorem metadata_of_spend {coins coins' : CCoins} {nPos : Nat} {undo : CTxInUndo}
    (h : coins.spend nPos = some (undo, coins')) :
    coins'.metadata = coins.metadata := by
  rcases (spend_eq_some_iff _ _ _ _).mp h with ⟨out, _hout, hcoins, _hundo⟩
  rw [hcoins]
  rfl

theorem spend_isSome_iff (coins : CCoins) (nPos : Nat) :
    (coins.spend nPos).isSome = true <-> (coins.output? nPos).isSome = true := by
  constructor
  · intro h
    rcases Option.isSome_iff_exists.mp h with ⟨⟨undo, coins'⟩, hspend⟩
    rcases (spend_eq_some_iff _ _ _ _).mp hspend with ⟨out, hout, _⟩
    rw [hout]
    rfl
  · intro h
    rcases Option.isSome_iff_exists.mp h with ⟨out, hout⟩
    apply Option.isSome_iff_exists.mpr
    exact ⟨(_, _), (spend_eq_some_iff _ _ _ _).mpr ⟨out, hout, rfl, rfl⟩⟩

/-!
# Canonical entries
-/

theorem canonical_empty : empty.Canonical := by
  intro out hout
  cases hout

theorem canonical_cleanup {coins : CCoins} (h : coins.Canonical) :
    coins.cleanup.Canonical := by
  intro out hout hnull
  rcases vout_eq_cleanup_append coins with ⟨tail, hvout, _⟩
  apply h out _ hnull
  rw [hvout]
  exact List.mem_append.mpr (Or.inl hout)

theorem canonical_clearUnspendable {coins : CCoins} (h : coins.Canonical) :
    coins.clearUnspendable.Canonical := by
  apply canonical_cleanup
  intro out hout hnull
  rcases List.mem_map.mp hout with ⟨old, hold, heq⟩
  split at heq
  · exact heq.symm
  · rw [← heq] at hnull ⊢
    exact h old hold hnull

theorem canonical_putOutput {coins : CCoins} (h : coins.Canonical) (nPos : Nat)
    {out : CTxOut} (hout : out.isNull = true -> out = CTxOut.null) :
    (coins.putOutput nPos out).Canonical := by
  intro other hother hnull
  rcases List.mem_or_eq_of_mem_set hother with hmem | heq
  · rcases List.mem_append.mp hmem with hold | hpad
    · exact h other hold hnull
    · exact List.eq_of_mem_replicate hpad
  · rw [heq] at hnull ⊢
    exact hout hnull

theorem canonical_of_spend {coins coins' : CCoins} {nPos : Nat} {undo : CTxInUndo}
    (hcanon : coins.Canonical) (h : coins.spend nPos = some (undo, coins')) :
    coins'.Canonical := by
  rcases (spend_eq_some_iff _ _ _ _).mp h with ⟨out, _hout, hcoins, _hundo⟩
  rw [hcoins]
  apply canonical_cleanup
  intro other hother hnull
  rcases List.mem_or_eq_of_mem_set hother with hmem | heq
  · exact hcanon other hmem hnull
  · exact heq

/-!
# Equality of entries

Two cleaned canonical entries are equal as soon as their metadata and their
unspent outputs agree.
-/

theorem getElem?_last_of_cleanup {coins : CCoins} (hne : coins.cleanup.vout ≠ []) :
    exists out, coins.output? (coins.cleanup.vout.length - 1) = some out := by
  have hlast : (coins.cleanup.vout.getLast hne).isNull ≠ true :=
    List.rdropWhile_last_not CTxOut.isNull coins.vout hne
  refine ⟨coins.cleanup.vout.getLast hne, ?_⟩
  rw [← output?_cleanup, output?_eq_some_iff]
  constructor
  · rw [List.getLast_eq_getElem]
    exact List.getElem?_eq_getElem _
  · simpa using hlast

theorem cleanup_length_le {a b : CCoins}
    (hout : forall nPos, a.output? nPos = b.output? nPos) :
    a.cleanup.vout.length ≤ b.cleanup.vout.length := by
  by_cases hne : a.cleanup.vout = []
  · rw [hne]
    exact Nat.zero_le _
  · rcases getElem?_last_of_cleanup hne with ⟨out, hsome⟩
    rw [hout, ← output?_cleanup, output?_eq_some_iff] at hsome
    have hlt := (List.getElem?_eq_some_iff.mp hsome.1).1
    have hpos := List.length_pos_iff.mpr hne
    omega

theorem cleanup_vout_ext {a b : CCoins} (ha : a.Canonical) (hb : b.Canonical)
    (hout : forall nPos, a.output? nPos = b.output? nPos) :
    a.cleanup.vout = b.cleanup.vout := by
  have hlen : a.cleanup.vout.length = b.cleanup.vout.length :=
    Nat.le_antisymm (cleanup_length_le hout) (cleanup_length_le fun nPos => (hout nPos).symm)
  apply List.ext_getElem hlen
  intro nPos hnA hnB
  have hpos : a.cleanup.output? nPos = b.cleanup.output? nPos := by
    simpa using hout nPos
  simp only [output?, List.getElem?_eq_getElem hnA, List.getElem?_eq_getElem hnB,
    Option.filter_some] at hpos
  cases hnullA : (a.cleanup.vout[nPos]).isNull with
  | false =>
      cases hnullB : (b.cleanup.vout[nPos]).isNull with
      | false => simpa [hnullA, hnullB] using hpos
      | true => simp [hnullA, hnullB] at hpos
  | true =>
      cases hnullB : (b.cleanup.vout[nPos]).isNull with
      | false => simp [hnullA, hnullB] at hpos
      | true =>
          rw [canonical_cleanup ha _ (List.getElem_mem hnA) hnullA,
            canonical_cleanup hb _ (List.getElem_mem hnB) hnullB]

/-- The entries agree on unspent outputs and, when there are any, on metadata. -/
def Agree (a b : CCoins) : Prop :=
  (forall nPos, a.output? nPos = b.output? nPos) ∧
    (b.isPruned = false -> a.metadata = b.metadata)

theorem agree_refl (coins : CCoins) : Agree coins coins :=
  ⟨fun _ => rfl, fun _ => rfl⟩

theorem isPruned_eq_of_agree {a b : CCoins} (h : Agree a b) :
    a.isPruned = b.isPruned := by
  rw [Bool.eq_iff_iff, isPruned_iff, isPruned_iff]
  simp [h.1]

theorem agree_symm {a b : CCoins} (h : Agree a b) : Agree b a := by
  refine ⟨fun nPos => (h.1 nPos).symm, ?_⟩
  intro hpruned
  rw [isPruned_eq_of_agree h] at hpruned
  exact (h.2 hpruned).symm

theorem agree_trans {a b c : CCoins} (hab : Agree a b) (hbc : Agree b c) :
    Agree a c := by
  refine ⟨fun nPos => (hab.1 nPos).trans (hbc.1 nPos), ?_⟩
  intro hpruned
  have hb : b.isPruned = false := by
    rw [isPruned_eq_of_agree hbc]
    exact hpruned
  exact (hab.2 hb).trans (hbc.2 hpruned)

theorem agree_cleanup (coins : CCoins) : Agree coins.cleanup coins :=
  ⟨output?_cleanup coins, fun _ => rfl⟩

theorem agree_of_same {a b : CCoins} (h : a.same b = true) : Agree a b := by
  unfold same at h
  rcases Bool.or_eq_true_iff.mp h with hpruned | heq
  · rcases Bool.and_eq_true_iff.mp hpruned with ⟨ha, hb⟩
    constructor
    · intro nPos
      rw [(isPruned_iff a).mp ha nPos, (isPruned_iff b).mp hb nPos]
    · intro hfalse
      rw [hb] at hfalse
      cases hfalse
  · rw [eq_of_beq heq]
    exact agree_refl b

theorem same_cleanup_iff_agree {a b : CCoins}
    (ha : a.isPruned = false -> a.Canonical)
    (hb : b.isPruned = false -> b.Canonical) :
    a.cleanup.same b.cleanup = true <-> Agree a b := by
  constructor
  · intro h
    exact agree_trans (agree_symm (agree_cleanup a))
      (agree_trans (agree_of_same h) (agree_cleanup b))
  · intro h
    have hprunedEq := isPruned_eq_of_agree h
    unfold same
    rw [isPruned_cleanup, isPruned_cleanup, hprunedEq, Bool.and_self]
    cases hpruned : b.isPruned with
    | true => rfl
    | false =>
        have hvout := cleanup_vout_ext (ha (hprunedEq.trans hpruned)) (hb hpruned) h.1
        have hmeta := h.2 hpruned
        simp only [metadata, Prod.mk.injEq] at hmeta
        rw [Bool.false_or, beq_iff_eq]
        cases a with
        | mk aBase aStake aVout aHeight aVersion =>
            cases b with
            | mk bBase bStake bVout bHeight bVersion =>
                simp only [cleanup, CCoins.mk.injEq] at hvout hmeta ⊢
                exact ⟨hmeta.1, hmeta.2.1, hvout, hmeta.2.2.1, hmeta.2.2.2⟩

end CCoins

end Hbcur
