import Hbcur.Foundation.Run
import Hbcur.Foundation.StdMap
import Hbcur.Wallet.CoinSelection

/-!
# Rounds of obfuscation

`CWallet::GetInputObfuscationRounds` of `wallet.cpp` looks for the shortest chain of denominated
transactions behind an input, through at most 16 of them.  What it finds for an output is kept in a
static map for the life of the process.
-/

namespace Hbcur
namespace ObfuscationRounds

open Foundation CoinSelection

def OBFUSCATION_COLLATERAL : Int := 10 * COIN

def isCollateralAmount (nInputAmount : Int) : Bool :=
  nInputAmount != 0 && nInputAmount.tmod OBFUSCATION_COLLATERAL == 0 &&
    decide (nInputAmount < OBFUSCATION_COLLATERAL * 5) &&
    decide (nInputAmount > OBFUSCATION_COLLATERAL)

/-- An output is constructed with -10 rounds, and nothing sets those of a transaction of the wallet. -/
structure CWallet where
  mapWallet : StdMap UInt256 CTransaction
  nRounds_eq : forall hash wtx, mapWallet.lookup hash = some wtx ->
    forall txout, txout ∈ wtx.vout -> txout.nRounds = -10
  /-- `::IsMine` of a script, as a truth value. -/
  isMineScript : CScript -> Bool

/-- `IsMine` of an input. -/
def CWallet.isMine (wallet : CWallet) (prevout : COutPoint) : Bool :=
  match wallet.mapWallet.lookup prevout.hash with
  | none => false
  | some prev =>
      match prev.vout[prevout.n]? with
      | none => false
      | some txout => wallet.isMineScript txout.scriptPubKey

/-- `mDenomWtxes`, of whose transactions only the rounds of the outputs are read. -/
abbrev DenomWtxes : Type := StdMap UInt256 (List Int)

/-- `mDenomWtxes[hash].vout[nout].nRounds = nRounds`; `none` if there is no such output. -/
def setRounds (mDenomWtxes : DenomWtxes) (prevout : COutPoint) (nRounds : Int) :
    Option (Int × DenomWtxes) :=
  match mDenomWtxes.lookup prevout.hash with
  | none => none
  | some vout =>
      if prevout.n < vout.length then
        some (nRounds, mDenomWtxes.insert prevout.hash (vout.set prevout.n nRounds))
      else none

/-- `nShortest` and `fDenomFound` after another input. -/
def closer (found : Int × Bool) (n : Int) : Int × Bool :=
  if n ≥ 0 ∧ (n < found.1 ∨ found.1 = -10) then (n, true) else found

/-- The loop over the inputs, with the function for one of them. -/
def shortest (wallet : CWallet) (rounds : COutPoint -> DenomWtxes -> Option (Int × DenomWtxes)) :
    List CTxIn -> Int × Bool -> DenomWtxes -> Option ((Int × Bool) × DenomWtxes)
  | [], found, mDenomWtxes => some (found, mDenomWtxes)
  | in2 :: vin, found, mDenomWtxes =>
      if wallet.isMine in2.prevout then
        match rounds in2.prevout mDenomWtxes with
        | none => none
        | some (n, mDenomWtxes') => shortest wallet rounds vin (closer found n) mDenomWtxes'
      else shortest wallet rounds vin found mDenomWtxes

/-- One more than the shortest, but no more than 16. -/
def roundsAfter (found : Int × Bool) : Int :=
  if found.2 then (if found.1 ≥ 15 then 16 else found.1 + 1) else 0

/-- What is done for an output which has no rounds yet. -/
def computeRounds (wallet : CWallet)
    (rounds : COutPoint -> DenomWtxes -> Option (Int × DenomWtxes)) (wtx : CTransaction)
    (prevout : COutPoint) (mDenomWtxes : DenomWtxes) : Option (Int × DenomWtxes) :=
  match wtx.vout[prevout.n]? with
  | none => some (-4, mDenomWtxes)
  | some txout =>
      if isCollateralAmount txout.nValue then setRounds mDenomWtxes prevout (-3)
      else if !isDenominatedAmount txout.nValue then setRounds mDenomWtxes prevout (-2)
      else if !(wtx.vout.all fun out => isDenominatedAmount out.nValue) then
        setRounds mDenomWtxes prevout 0
      else
        match shortest wallet rounds wtx.vin (-10, false) mDenomWtxes with
        | none => none
        | some (found, mDenomWtxes') => setRounds mDenomWtxes' prevout (roundsAfter found)

/--
The argument counts down what `rounds` leaves of 16.  The result is `none` if a cached transaction
is indexed outside its outputs.
-/
def getRealInputObfuscationRounds (wallet : CWallet) :
    Nat -> COutPoint -> DenomWtxes -> Option (Int × DenomWtxes)
  | 0, _, mDenomWtxes => some (15, mDenomWtxes)
  | left + 1, prevout, mDenomWtxes =>
      match wallet.mapWallet.lookup prevout.hash with
      | none => some (14 - left, mDenomWtxes)
      | some wtx =>
          match mDenomWtxes.lookup prevout.hash with
          | none =>
              computeRounds wallet (getRealInputObfuscationRounds wallet left) wtx prevout
                (mDenomWtxes.insert prevout.hash (wtx.vout.map fun txout => txout.nRounds))
          | some vout =>
              match vout[prevout.n]? with
              | none => none
              | some nRounds =>
                  if nRounds ≠ -10 then some (nRounds, mDenomWtxes)
                  else
                    computeRounds wallet (getRealInputObfuscationRounds wallet left) wtx prevout
                      mDenomWtxes

def getInputObfuscationRounds (wallet : CWallet) (nObfuscationRounds : Int) (txin : CTxIn)
    (mDenomWtxes : DenomWtxes) : Option (Int × DenomWtxes) :=
  (getRealInputObfuscationRounds wallet 16 txin.prevout mDenomWtxes).map fun real =>
    (if real.1 > nObfuscationRounds then nObfuscationRounds else real.1, real.2)

/-!
# The rounds without the map
-/

section Rounds

variable (wallet : CWallet)

/-- The rounds of an output for which no input is looked at. -/
def leafRounds (wtx : CTransaction) (prevout : COutPoint) : Option Int :=
  match wtx.vout[prevout.n]? with
  | none => some (-4)
  | some txout =>
      if isCollateralAmount txout.nValue then some (-3)
      else if !isDenominatedAmount txout.nValue then some (-2)
      else if !(wtx.vout.all fun out => isDenominatedAmount out.nValue) then some 0
      else none

/-- The inputs behind an output which are looked at. -/
def ownInputs (prevout : COutPoint) : List COutPoint :=
  match wallet.mapWallet.lookup prevout.hash with
  | none => []
  | some wtx =>
      if (leafRounds wtx prevout).isSome then []
      else (wtx.vin.map CTxIn.prevout).filter wallet.isMine

/-- A chain of that many inputs can be followed. -/
def deep : Nat -> COutPoint -> Bool
  | 0, _ => true
  | k + 1, prevout => (ownInputs wallet prevout).any (deep k)

/-- The rounds of an output when nothing is remembered. -/
def freshRounds : Nat -> COutPoint -> Int
  | 0, _ => 15
  | left + 1, prevout =>
      match wallet.mapWallet.lookup prevout.hash with
      | none => 14 - left
      | some wtx =>
          match leafRounds wtx prevout with
          | some nRounds => nRounds
          | none =>
              roundsAfter ((ownInputs wallet prevout).foldl
                (fun found in2 => closer found (freshRounds left in2)) (-10, false))

/-- What the map has for an output. -/
def known (mDenomWtxes : DenomWtxes) (prevout : COutPoint) : Option Int :=
  ((mDenomWtxes.lookup prevout.hash).bind fun vout => vout[prevout.n]?).filter fun nRounds =>
    nRounds != -10

end Rounds

section Depth

variable {wallet : CWallet} {prevout in2 : COutPoint}

theorem exists_wtx_of_isMine (h : wallet.isMine prevout = true) :
    exists wtx, wallet.mapWallet.lookup prevout.hash = some wtx ∧ prevout.n < wtx.vout.length := by
  unfold CWallet.isMine at h
  cases hlookup : wallet.mapWallet.lookup prevout.hash with
  | none =>
      rw [hlookup] at h
      cases h
  | some wtx =>
      rw [hlookup] at h
      refine ⟨wtx, rfl, ?_⟩
      by_contra hout
      dsimp only at h
      rw [List.getElem?_eq_none (Nat.le_of_not_lt hout)] at h
      cases h

theorem isMine_of_mem_ownInputs (h : in2 ∈ ownInputs wallet prevout) :
    wallet.isMine in2 = true := by
  unfold ownInputs at h
  cases hlookup : wallet.mapWallet.lookup prevout.hash with
  | none =>
      rw [hlookup] at h
      cases h
  | some wtx =>
      rw [hlookup] at h
      dsimp only at h
      split at h
      · cases h
      · exact (List.mem_filter.mp h).2

theorem ownInputs_of_leaf {wtx : CTransaction} {nRounds : Int}
    (hlookup : wallet.mapWallet.lookup prevout.hash = some wtx)
    (hleaf : leafRounds wtx prevout = some nRounds) : ownInputs wallet prevout = [] := by
  unfold ownInputs
  rw [hlookup]
  dsimp only
  rw [hleaf]
  rfl

theorem ownInputs_of_none {wtx : CTransaction}
    (hlookup : wallet.mapWallet.lookup prevout.hash = some wtx)
    (hleaf : leafRounds wtx prevout = none) :
    ownInputs wallet prevout = (wtx.vin.map CTxIn.prevout).filter wallet.isMine := by
  unfold ownInputs
  rw [hlookup]
  dsimp only
  rw [hleaf]
  rfl

theorem freshRounds_of_leaf {wtx : CTransaction} {nRounds : Int} (left : Nat)
    (hlookup : wallet.mapWallet.lookup prevout.hash = some wtx)
    (hleaf : leafRounds wtx prevout = some nRounds) :
    freshRounds wallet (left + 1) prevout = nRounds := by
  rw [freshRounds, hlookup]
  dsimp only
  rw [hleaf]

theorem deep_in2 {k : Nat} (h : deep wallet (k + 1) prevout = false)
    (hin : in2 ∈ ownInputs wallet prevout) : deep wallet k in2 = false := by
  rw [deep, List.any_eq_false] at h
  exact Bool.eq_false_iff.mpr (h in2 hin)

theorem deep_of_le {k j : Nat} (hle : k ≤ j) (h : deep wallet k prevout = false) :
    deep wallet j prevout = false := by
  induction k generalizing j prevout with
  | zero => cases h
  | succ k ih =>
      obtain ⟨j, rfl⟩ : exists j', j = j' + 1 := ⟨j - 1, by omega⟩
      rw [deep, List.any_eq_false]
      intro in2 hin
      rw [ih (by omega) (deep_in2 h hin)]
      exact Bool.false_ne_true

/-- Where the chains end before the limit is reached, it does not matter. -/
theorem freshRounds_of_le {k j : Nat} {wtx : CTransaction} (hle : k ≤ j)
    (hlookup : wallet.mapWallet.lookup prevout.hash = some wtx)
    (h : deep wallet k prevout = false) :
    freshRounds wallet j prevout = freshRounds wallet k prevout := by
  induction k generalizing j prevout wtx with
  | zero => cases h
  | succ k ih =>
      obtain ⟨j, rfl⟩ : exists j', j = j' + 1 := ⟨j - 1, by omega⟩
      rw [freshRounds, freshRounds, hlookup]
      dsimp only
      cases leafRounds wtx prevout with
      | some nRounds => rfl
      | none =>
          dsimp only
          congr 1
          apply List.foldl_ext
          intro found in2 hin
          rcases exists_wtx_of_isMine (isMine_of_mem_ownInputs hin) with ⟨prev, hprev, _⟩
          rw [ih (by omega) hprev (deep_in2 h hin)]

end Depth

/-!
# What the map holds
-/

section Known

variable {wallet : CWallet} {mDenomWtxes : DenomWtxes} {prevout : COutPoint}

theorem known_of_vout {vout : List Int} {nRounds : Int}
    (hlookup : mDenomWtxes.lookup prevout.hash = some vout)
    (hget : vout[prevout.n]? = some nRounds) :
    known mDenomWtxes prevout = if nRounds ≠ -10 then some nRounds else none := by
  unfold known
  rw [hlookup, Option.bind_some, hget, Option.filter_some]
  by_cases hinit : nRounds = -10
  · rw [hinit]
    rfl
  · rw [if_pos (bne_iff_ne.mpr hinit), if_pos hinit]

/-- A transaction which is put into the map has no rounds yet. -/
theorem known_insert (wtx : CTransaction) {hash : UInt256}
    (hlookup : wallet.mapWallet.lookup hash = some wtx)
    (hnew : mDenomWtxes.lookup hash = none) (o : COutPoint) :
    known (mDenomWtxes.insert hash (wtx.vout.map fun txout => txout.nRounds)) o =
      known mDenomWtxes o := by
  unfold known
  rw [StdMap.lookup_insert_eq]
  split
  · case isTrue heq =>
      rw [heq, hnew, Option.bind_some, Option.bind_none, List.getElem?_map]
      cases hget : wtx.vout[o.n]? with
      | none => rfl
      | some txout =>
          rw [Option.map_some, wallet.nRounds_eq hash wtx hlookup txout (List.mem_of_getElem? hget)]
          rfl
  · rfl

/-- Setting the rounds of an output that the map has a place for. -/
theorem exists_setRounds {vout : List Int} {nRounds : Int}
    (hlookup : mDenomWtxes.lookup prevout.hash = some vout) (hn : prevout.n < vout.length)
    (hne : nRounds ≠ -10) :
    exists mDenomWtxes', setRounds mDenomWtxes prevout nRounds = some (nRounds, mDenomWtxes') ∧
      (forall o, known mDenomWtxes' o = if o = prevout then some nRounds else known mDenomWtxes o) ∧
      forall hash, (mDenomWtxes'.lookup hash).map List.length =
        (mDenomWtxes.lookup hash).map List.length := by
  refine ⟨mDenomWtxes.insert prevout.hash (vout.set prevout.n nRounds), ?_, fun o => ?_,
    fun hash => ?_⟩
  · unfold setRounds
    rw [hlookup]
    exact if_pos hn
  · by_cases ho : o = prevout
    · subst ho
      rw [if_pos rfl, known_of_vout (AList.lookup_insert _)
        (List.getElem?_set_self hn), if_pos hne]
    · rw [if_neg ho]
      unfold known
      rw [StdMap.lookup_insert_eq]
      split
      · case isTrue hhash =>
          have hindex : prevout.n ≠ o.n := by
            intro heq
            apply ho
            cases o
            cases prevout
            cases hhash
            cases heq
            rfl
          rw [hhash, hlookup, Option.bind_some, Option.bind_some, List.getElem?_set_ne hindex]
      · rfl
  · rw [StdMap.lookup_insert_eq]
    split
    · case isTrue hhash => rw [hhash, hlookup, Option.map_some, Option.map_some, List.length_set]
    · rfl

end Known

/-!
# A map which agrees with the wallet
-/

/--
The map has a place for each output of its transactions, the rounds it has are those found when
nothing is remembered, the limit is not reached for any of them, and what was looked at on the way
is there too.
-/
structure Valid (wallet : CWallet) (mDenomWtxes : DenomWtxes) : Prop where
  sized : forall hash vout, mDenomWtxes.lookup hash = some vout ->
    exists wtx, wallet.mapWallet.lookup hash = some wtx ∧ vout.length = wtx.vout.length
  fresh : forall o nRounds, known mDenomWtxes o = some nRounds ->
    deep wallet 16 o = false ∧ nRounds = freshRounds wallet 16 o
  closed : forall o, known mDenomWtxes o ≠ none -> forall in2, in2 ∈ ownInputs wallet o ->
    known mDenomWtxes in2 ≠ none

/-- What the map has for an output it keeps. -/
def Grows (mDenomWtxes mDenomWtxes' : DenomWtxes) : Prop :=
  (forall o, known mDenomWtxes o ≠ none -> known mDenomWtxes' o ≠ none) ∧
    forall hash, mDenomWtxes.lookup hash ≠ none -> mDenomWtxes'.lookup hash ≠ none

section Agreement

variable {wallet : CWallet} {mDenomWtxes mDenomWtxes' : DenomWtxes} {prevout : COutPoint}
  {wtx : CTransaction}

theorem Grows.refl : Grows mDenomWtxes mDenomWtxes := ⟨fun _ h => h, fun _ h => h⟩

theorem Grows.trans {mDenomWtxes'' : DenomWtxes} (h : Grows mDenomWtxes mDenomWtxes')
    (h' : Grows mDenomWtxes' mDenomWtxes'') : Grows mDenomWtxes mDenomWtxes'' :=
  ⟨fun o ho => h'.1 o (h.1 o ho), fun hash hh => h'.2 hash (h.2 hash hh)⟩

theorem valid_empty (wallet : CWallet) : Valid wallet ∅ where
  sized := by
    intro hash vout h
    rw [AList.lookup_empty] at h
    cases h
  fresh := by
    intro o nRounds h
    unfold known at h
    rw [AList.lookup_empty] at h
    cases h
  closed := by
    intro o h
    unfold known at h
    rw [AList.lookup_empty] at h
    exact absurd rfl h

theorem Valid.insert (h : Valid wallet mDenomWtxes)
    (hlookup : wallet.mapWallet.lookup prevout.hash = some wtx)
    (hnew : mDenomWtxes.lookup prevout.hash = none) :
    Valid wallet (mDenomWtxes.insert prevout.hash (wtx.vout.map fun txout => txout.nRounds)) ∧
      Grows mDenomWtxes
        (mDenomWtxes.insert prevout.hash (wtx.vout.map fun txout => txout.nRounds)) := by
  have hknown := known_insert wtx hlookup hnew
  refine ⟨⟨?_, ?_, ?_⟩, ?_, ?_⟩
  · intro hash vout hvout
    rw [StdMap.lookup_insert_eq] at hvout
    split at hvout
    · case isTrue heq =>
        cases hvout
        rw [heq]
        exact ⟨wtx, hlookup, List.length_map _⟩
    · exact h.sized hash vout hvout
  · intro o nRounds ho
    rw [hknown] at ho
    exact h.fresh o nRounds ho
  · intro o ho in2 hin
    rw [hknown] at ho ⊢
    exact h.closed o ho in2 hin
  · intro o ho
    rw [hknown]
    exact ho
  · intro hash hhash
    rw [StdMap.lookup_insert_eq]
    split
    · exact Option.some_ne_none _
    · exact hhash

/-- The rounds of an output may be set once those of its inputs are. -/
theorem Valid.set (h : Valid wallet mDenomWtxes)
    (hlookup : wallet.mapWallet.lookup prevout.hash = some wtx)
    (hplace : mDenomWtxes.lookup prevout.hash ≠ none) (hn : prevout.n < wtx.vout.length)
    (hdeep : deep wallet 16 prevout = false)
    (hinputs : forall in2, in2 ∈ ownInputs wallet prevout -> known mDenomWtxes in2 ≠ none)
    (hne : freshRounds wallet 16 prevout ≠ -10) :
    exists mDenomWtxes',
      setRounds mDenomWtxes prevout (freshRounds wallet 16 prevout) =
        some (freshRounds wallet 16 prevout, mDenomWtxes') ∧
      Valid wallet mDenomWtxes' ∧ Grows mDenomWtxes mDenomWtxes' ∧
      known mDenomWtxes' prevout ≠ none := by
  rcases Option.ne_none_iff_exists'.mp hplace with ⟨vout, hvout⟩
  rcases h.sized prevout.hash vout hvout with ⟨wtx', hlookup', hlength⟩
  rw [hlookup] at hlookup'
  cases hlookup'
  rcases exists_setRounds hvout (by omega) hne with ⟨mDenomWtxes', hset, hknown, hlengths⟩
  have hgrows : forall o, known mDenomWtxes o ≠ none -> known mDenomWtxes' o ≠ none := by
    intro o ho
    rw [hknown]
    split
    · exact Option.some_ne_none _
    · exact ho
  refine ⟨mDenomWtxes', hset, ⟨?_, ?_, ?_⟩, ⟨hgrows, ?_⟩, ?_⟩
  · intro hash vout' hvout'
    have hmap := hlengths hash
    rw [hvout', Option.map_some] at hmap
    rcases Option.map_eq_some_iff.mp hmap.symm with ⟨vout'', hold, hsame⟩
    rcases h.sized hash vout'' hold with ⟨wtx', hwtx', hsize⟩
    exact ⟨wtx', hwtx', hsame.symm.trans hsize⟩
  · intro o nRounds ho
    rw [hknown] at ho
    split at ho
    · case isTrue heq =>
        cases ho
        rw [heq]
        exact ⟨hdeep, rfl⟩
    · exact h.fresh o nRounds ho
  · intro o ho in2 hin
    rw [hknown] at ho
    split at ho
    · case isTrue heq =>
        rw [heq] at hin
        exact hgrows in2 (hinputs in2 hin)
    · exact hgrows in2 (h.closed o ho in2 hin)
  · intro hash hhash hnone
    have hmap := hlengths hash
    rw [hnone, Option.map_none] at hmap
    exact hhash (Option.map_eq_none_iff.mp hmap.symm)
  · rw [hknown, if_pos rfl]
    exact Option.some_ne_none _

end Agreement

/-!
# The answers
-/

section Answers

variable {wallet : CWallet} {mDenomWtxes : DenomWtxes} {prevout : COutPoint} {wtx : CTransaction}

theorem leafRounds_eq {txout : CTxOut} (hget : wtx.vout[prevout.n]? = some txout) :
    leafRounds wtx prevout =
      if isCollateralAmount txout.nValue then some (-3)
      else if !isDenominatedAmount txout.nValue then some (-2)
      else if !(wtx.vout.all fun out => isDenominatedAmount out.nValue) then some 0
      else none := by
  unfold leafRounds
  rw [hget]

theorem leafRounds_ne {nRounds : Int} (h : leafRounds wtx prevout = some nRounds) :
    nRounds ≠ -10 := by
  unfold leafRounds at h
  split at h
  · cases h
    decide
  · split at h
    · cases h
      decide
    · split at h
      · cases h
        decide
      · split at h
        · cases h
          decide
        · cases h

/-- A denominated input that is found has a chain of at least no rounds. -/
def FoundNonneg (found : Int × Bool) : Prop := found.2 = true -> 0 ≤ found.1

theorem foundNonneg_closer {found : Int × Bool} (n : Int) (h : FoundNonneg found) :
    FoundNonneg (closer found n) := by
  unfold closer
  split
  · case isTrue hcloser => exact fun _ => hcloser.1
  · exact h

theorem foundNonneg_foldl (rounds : COutPoint -> Int) (inputs : List COutPoint)
    {found : Int × Bool} (h : FoundNonneg found) :
    FoundNonneg (inputs.foldl (fun found in2 => closer found (rounds in2)) found) := by
  induction inputs generalizing found with
  | nil => exact h
  | cons in2 inputs ih => exact ih (foundNonneg_closer (rounds in2) h)

theorem roundsAfter_nonneg {found : Int × Bool} (h : FoundNonneg found) :
    0 ≤ roundsAfter found := by
  unfold roundsAfter
  split
  · case isTrue hfound =>
      have := h hfound
      split <;> omega
  · exact le_refl 0

theorem freshRounds_ne (hlookup : wallet.mapWallet.lookup prevout.hash = some wtx) :
    freshRounds wallet 16 prevout ≠ -10 := by
  rw [freshRounds, hlookup]
  dsimp only
  cases hleaf : leafRounds wtx prevout with
  | some nRounds => exact leafRounds_ne hleaf
  | none =>
      have hstart : FoundNonneg (-10, false) := fun h => by cases h
      have hnonneg := roundsAfter_nonneg
        (foundNonneg_foldl (freshRounds wallet 15) (ownInputs wallet prevout) hstart)
      intro h
      dsimp only at h
      omega

/-- Where inputs are looked at, the limit does not matter for theirs. -/
theorem freshRounds_eq_roundsAfter (hlookup : wallet.mapWallet.lookup prevout.hash = some wtx)
    (hleaf : leafRounds wtx prevout = none) (hdeep : deep wallet 16 prevout = false) :
    freshRounds wallet 16 prevout =
      roundsAfter (((wtx.vin.map CTxIn.prevout).filter wallet.isMine).foldl
        (fun found in2 => closer found (freshRounds wallet 16 in2)) (-10, false)) := by
  have hown := ownInputs_of_none hlookup hleaf
  rw [freshRounds, hlookup]
  dsimp only
  rw [hleaf, ← hown]
  dsimp only
  congr 1
  apply List.foldl_ext
  intro found in2 hin
  rcases exists_wtx_of_isMine (isMine_of_mem_ownInputs hin) with ⟨prev, hprev, _⟩
  have hsame : freshRounds wallet 16 in2 = freshRounds wallet 15 in2 :=
    freshRounds_of_le (by decide) hprev (deep_in2 hdeep hin)
  rw [hsame]

/-- A function that answers for an input and leaves its rounds in the map. -/
def AnswersFor (wallet : CWallet) (rounds : COutPoint -> DenomWtxes -> Option (Int × DenomWtxes))
    (in2 : COutPoint) : Prop :=
  forall mDenomWtxes, Valid wallet mDenomWtxes ->
    exists mDenomWtxes',
      rounds in2 mDenomWtxes = some (freshRounds wallet 16 in2, mDenomWtxes') ∧
        Valid wallet mDenomWtxes' ∧ Grows mDenomWtxes mDenomWtxes' ∧
        known mDenomWtxes' in2 ≠ none

theorem shortest_spec {rounds : COutPoint -> DenomWtxes -> Option (Int × DenomWtxes)}
    (vin : List CTxIn) (found : Int × Bool) (hvalid : Valid wallet mDenomWtxes)
    (hrounds : forall in2, in2 ∈ (vin.map CTxIn.prevout).filter wallet.isMine ->
      AnswersFor wallet rounds in2) :
    exists mDenomWtxes',
      shortest wallet rounds vin found mDenomWtxes =
        some (((vin.map CTxIn.prevout).filter wallet.isMine).foldl
          (fun found in2 => closer found (freshRounds wallet 16 in2)) found, mDenomWtxes') ∧
        Valid wallet mDenomWtxes' ∧ Grows mDenomWtxes mDenomWtxes' ∧
        forall in2, in2 ∈ (vin.map CTxIn.prevout).filter wallet.isMine ->
          known mDenomWtxes' in2 ≠ none := by
  induction vin generalizing found mDenomWtxes with
  | nil => exact ⟨mDenomWtxes, rfl, hvalid, Grows.refl, fun in2 hin => by cases hin⟩
  | cons in2 vin ih =>
      rw [List.map_cons, List.filter_cons] at hrounds ⊢
      rw [shortest]
      cases hmine : wallet.isMine in2.prevout with
      | false =>
          rw [hmine] at hrounds
          exact ih found hvalid hrounds
      | true =>
          rw [hmine, if_pos rfl] at hrounds
          rw [if_pos rfl, if_pos rfl]
          rcases hrounds in2.prevout List.mem_cons_self mDenomWtxes hvalid with
            ⟨mNext, hnext, hvalid', hgrows, hknown⟩
          rw [hnext]
          rcases ih (closer found (freshRounds wallet 16 in2.prevout)) hvalid'
            (fun in3 hin => hrounds in3 (List.mem_cons_of_mem _ hin)) with
            ⟨mLast, hlast, hvalid'', hgrows', hall⟩
          refine ⟨mLast, hlast, hvalid'', hgrows.trans hgrows', fun in3 hin => ?_⟩
          rcases List.mem_cons.mp hin with heq | hrest
          · rw [heq]
            exact hgrows'.1 _ hknown
          · exact hall in3 hrest

/-- An output for which no input is looked at. -/
theorem Valid.setLeaf {nRounds : Int} (hvalid : Valid wallet mDenomWtxes)
    (hlookup : wallet.mapWallet.lookup prevout.hash = some wtx)
    (hplace : mDenomWtxes.lookup prevout.hash ≠ none) (hn : prevout.n < wtx.vout.length)
    (hdeep : deep wallet 16 prevout = false) (hleaf : leafRounds wtx prevout = some nRounds) :
    exists mDenomWtxes',
      setRounds mDenomWtxes prevout nRounds =
        some (freshRounds wallet 16 prevout, mDenomWtxes') ∧
        Valid wallet mDenomWtxes' ∧ Grows mDenomWtxes mDenomWtxes' ∧
        known mDenomWtxes' prevout ≠ none := by
  have hown := ownInputs_of_leaf hlookup hleaf
  rw [← freshRounds_of_leaf 15 hlookup hleaf]
  apply hvalid.set hlookup hplace hn hdeep
  · intro in2 hin
    rw [hown] at hin
    cases hin
  · exact freshRounds_ne hlookup

/-- An output whose inputs are looked at. -/
theorem Valid.setAfter {rounds : COutPoint -> DenomWtxes -> Option (Int × DenomWtxes)}
    (hvalid : Valid wallet mDenomWtxes)
    (hlookup : wallet.mapWallet.lookup prevout.hash = some wtx)
    (hplace : mDenomWtxes.lookup prevout.hash ≠ none) (hn : prevout.n < wtx.vout.length)
    (hdeep : deep wallet 16 prevout = false) (hleaf : leafRounds wtx prevout = none)
    (hrounds : forall in2, in2 ∈ ownInputs wallet prevout -> AnswersFor wallet rounds in2) :
    exists mNext mDenomWtxes',
      shortest wallet rounds wtx.vin (-10, false) mDenomWtxes =
        some (((wtx.vin.map CTxIn.prevout).filter wallet.isMine).foldl
          (fun found in2 => closer found (freshRounds wallet 16 in2)) (-10, false), mNext) ∧
      setRounds mNext prevout (freshRounds wallet 16 prevout) =
        some (freshRounds wallet 16 prevout, mDenomWtxes') ∧
        Valid wallet mDenomWtxes' ∧ Grows mDenomWtxes mDenomWtxes' ∧
        known mDenomWtxes' prevout ≠ none := by
  have hown := ownInputs_of_none hlookup hleaf
  rw [hown] at hrounds
  rcases shortest_spec wtx.vin (-10, false) hvalid hrounds with
    ⟨mNext, hnext, hvalid', hgrows, hall⟩
  rw [← hown] at hall
  rcases hvalid'.set hlookup (hgrows.2 _ hplace) hn hdeep hall (freshRounds_ne hlookup) with
    ⟨mLast, hlast, hvalid'', hgrows', hknown⟩
  exact ⟨mNext, mLast, hnext, hlast, hvalid'', hgrows.trans hgrows', hknown⟩

theorem computeRounds_spec {rounds : COutPoint -> DenomWtxes -> Option (Int × DenomWtxes)}
    (hlookup : wallet.mapWallet.lookup prevout.hash = some wtx)
    (hvalid : Valid wallet mDenomWtxes) (hplace : mDenomWtxes.lookup prevout.hash ≠ none)
    (hdeep : deep wallet 16 prevout = false)
    (hrounds : forall in2, in2 ∈ ownInputs wallet prevout -> AnswersFor wallet rounds in2) :
    exists mDenomWtxes',
      computeRounds wallet rounds wtx prevout mDenomWtxes =
        some (freshRounds wallet 16 prevout, mDenomWtxes') ∧
        Valid wallet mDenomWtxes' ∧ Grows mDenomWtxes mDenomWtxes' ∧
        (prevout.n < wtx.vout.length -> known mDenomWtxes' prevout ≠ none) := by
  unfold computeRounds
  cases hget : wtx.vout[prevout.n]? with
  | none =>
      have hleaf : leafRounds wtx prevout = some (-4) := by
        unfold leafRounds
        rw [hget]
      rw [freshRounds_of_leaf 15 hlookup hleaf]
      refine ⟨mDenomWtxes, rfl, hvalid, Grows.refl, fun hn => ?_⟩
      rw [List.getElem?_eq_getElem hn] at hget
      cases hget
  | some txout =>
      have hn : prevout.n < wtx.vout.length := (List.getElem?_eq_some_iff.mp hget).1
      have hset : forall nRounds, leafRounds wtx prevout = some nRounds ->
          exists mDenomWtxes',
            setRounds mDenomWtxes prevout nRounds =
              some (freshRounds wallet 16 prevout, mDenomWtxes') ∧
              Valid wallet mDenomWtxes' ∧ Grows mDenomWtxes mDenomWtxes' ∧
              (prevout.n < wtx.vout.length -> known mDenomWtxes' prevout ≠ none) := by
        intro nRounds hleaf
        rcases hvalid.setLeaf hlookup hplace hn hdeep hleaf with
          ⟨mNext, hnext, hvalid', hgrows, hknown⟩
        exact ⟨mNext, hnext, hvalid', hgrows, fun _ => hknown⟩
      have hleaf := leafRounds_eq hget
      dsimp only
      split
      · case isTrue hcollateral =>
          rw [if_pos hcollateral] at hleaf
          exact hset (-3) hleaf
      · case isFalse hcollateral =>
          rw [if_neg hcollateral] at hleaf
          split
          · case isTrue hplain =>
              rw [if_pos hplain] at hleaf
              exact hset (-2) hleaf
          · case isFalse hplain =>
              rw [if_neg hplain] at hleaf
              split
              · case isTrue hother =>
                  rw [if_pos hother] at hleaf
                  exact hset 0 hleaf
              · case isFalse hother =>
                  rw [if_neg hother] at hleaf
                  rcases hvalid.setAfter hlookup hplace hn hdeep hleaf hrounds with
                    ⟨mNext, mLast, hnext, hlast, hvalid', hgrows, hknown⟩
                  rw [hnext]
                  dsimp only
                  rw [← freshRounds_eq_roundsAfter hlookup hleaf hdeep]
                  exact ⟨mLast, hlast, hvalid', hgrows, fun _ => hknown⟩

/-- Where the chains end before the limit, the map does not matter. -/
theorem getRealInputObfuscationRounds_spec {left : Nat} (hle : left ≤ 16)
    (hvalid : Valid wallet mDenomWtxes)
    (hlookup : wallet.mapWallet.lookup prevout.hash = some wtx)
    (hdeep : deep wallet left prevout = false)
    (hindex : mDenomWtxes.lookup prevout.hash ≠ none -> prevout.n < wtx.vout.length) :
    exists mDenomWtxes',
      getRealInputObfuscationRounds wallet left prevout mDenomWtxes =
        some (freshRounds wallet 16 prevout, mDenomWtxes') ∧
        Valid wallet mDenomWtxes' ∧ Grows mDenomWtxes mDenomWtxes' ∧
        (prevout.n < wtx.vout.length -> known mDenomWtxes' prevout ≠ none) := by
  induction left generalizing prevout mDenomWtxes wtx with
  | zero => cases hdeep
  | succ left ih =>
      have hrounds : forall in2, in2 ∈ ownInputs wallet prevout ->
          AnswersFor wallet (getRealInputObfuscationRounds wallet left) in2 := by
        intro in2 hin m hm
        rcases exists_wtx_of_isMine (isMine_of_mem_ownInputs hin) with ⟨prev, hprev, hn⟩
        rcases ih (by omega) hm hprev (deep_in2 hdeep hin) (fun _ => hn) with
          ⟨m', hm', hvalid', hgrows, hknown⟩
        exact ⟨m', hm', hvalid', hgrows, hknown hn⟩
      have hdeep' : deep wallet 16 prevout = false := deep_of_le hle hdeep
      rw [getRealInputObfuscationRounds, hlookup]
      dsimp only
      cases hvout : mDenomWtxes.lookup prevout.hash with
      | none =>
          rcases hvalid.insert hlookup hvout with ⟨hvalid', hgrows⟩
          have hplace : (mDenomWtxes.insert prevout.hash
              (wtx.vout.map fun txout => txout.nRounds)).lookup prevout.hash ≠ none := by
            rw [AList.lookup_insert]
            exact Option.some_ne_none _
          rcases computeRounds_spec hlookup hvalid' hplace hdeep' hrounds with
            ⟨m', hm', hvalid'', hgrows', hknown⟩
          exact ⟨m', hm', hvalid'', hgrows.trans hgrows', hknown⟩
      | some vout =>
          have hplace : mDenomWtxes.lookup prevout.hash ≠ none := by
            rw [hvout]
            exact Option.some_ne_none _
          have hn := hindex hplace
          rcases hvalid.sized prevout.hash vout hvout with ⟨wtx', hlookup', hlength⟩
          rw [hlookup] at hlookup'
          cases hlookup'
          have hbound : prevout.n < vout.length := by omega
          have hget : vout[prevout.n]? = some vout[prevout.n] :=
            List.getElem?_eq_getElem hbound
          have hknown := known_of_vout hvout hget
          dsimp only
          rw [hget]
          dsimp only
          split
          · case isTrue hne =>
              rw [if_pos hne] at hknown
              rw [(hvalid.fresh prevout _ hknown).2]
              refine ⟨mDenomWtxes, rfl, hvalid, Grows.refl, fun _ => ?_⟩
              rw [hknown]
              exact Option.some_ne_none _
          · exact computeRounds_spec hlookup hvalid hplace hdeep' hrounds

theorem getRealInputObfuscationRounds_unknown
    (hlookup : wallet.mapWallet.lookup prevout.hash = none) :
    getRealInputObfuscationRounds wallet 16 prevout mDenomWtxes = some (-1, mDenomWtxes) := by
  rw [getRealInputObfuscationRounds, hlookup]
  rfl

end Answers

/-!
# A process
-/

/-- The wallet and the map of a process that runs. -/
structure Process where
  wallet : CWallet
  mDenomWtxes : DenomWtxes

inductive ProcessStep where
  | query (nObfuscationRounds : Int) (txin : CTxIn)
  /-- Transactions or keys are added to the wallet or erased from it. -/
  | change (wallet : CWallet)

namespace Process

def start (wallet : CWallet) : Process := ⟨wallet, ∅⟩

def next (p : Process) : ProcessStep -> Process
  | ProcessStep.query nObfuscationRounds txin =>
      match getInputObfuscationRounds p.wallet nObfuscationRounds txin p.mDenomWtxes with
      | none => p
      | some answer => { p with mDenomWtxes := answer.2 }
  | ProcessStep.change wallet => { p with wallet := wallet }

/-- A query indexes within the outputs and is answered as by a process that has just started. -/
def AnswersFresh (p : Process) : ProcessStep -> Prop
  | ProcessStep.query nObfuscationRounds txin =>
      exists n mDenomWtxes' mDenomWtxes'',
        getInputObfuscationRounds p.wallet nObfuscationRounds txin p.mDenomWtxes =
          some (n, mDenomWtxes') ∧
        getInputObfuscationRounds p.wallet nObfuscationRounds txin ∅ = some (n, mDenomWtxes'')
  | ProcessStep.change _ => True

/--
A query does not follow a chain of 16 inputs, nor name a missing output of a transaction that is in
the map already.  A change leaves the transactions which are in the map and what `IsMine` answers
for their inputs.
-/
def Harmless (p : Process) : ProcessStep -> Prop
  | ProcessStep.query _ txin =>
      deep p.wallet 16 txin.prevout = false ∧
        (p.mDenomWtxes.lookup txin.prevout.hash ≠ none ->
          forall wtx, p.wallet.mapWallet.lookup txin.prevout.hash = some wtx ->
            txin.prevout.n < wtx.vout.length)
  | ProcessStep.change wallet =>
      forall hash, p.mDenomWtxes.lookup hash ≠ none ->
        wallet.mapWallet.lookup hash = p.wallet.mapWallet.lookup hash ∧
          forall wtx, p.wallet.mapWallet.lookup hash = some wtx ->
            forall in2, in2 ∈ wtx.vin -> wallet.isMine in2.prevout = p.wallet.isMine in2.prevout

end Process

section Change

variable {wallet wallet' : CWallet} {mDenomWtxes : DenomWtxes}

theorem ownInputs_congr {o : COutPoint}
    (hlookup : wallet'.mapWallet.lookup o.hash = wallet.mapWallet.lookup o.hash)
    (hmine : forall wtx, wallet.mapWallet.lookup o.hash = some wtx -> forall in2, in2 ∈ wtx.vin ->
      wallet'.isMine in2.prevout = wallet.isMine in2.prevout) :
    ownInputs wallet' o = ownInputs wallet o := by
  unfold ownInputs
  rw [hlookup]
  cases hwtx : wallet.mapWallet.lookup o.hash with
  | none => rfl
  | some wtx =>
      dsimp only
      congr 1
      apply List.filter_congr
      intro prevout hprevout
      rcases List.mem_map.mp hprevout with ⟨in2, hin, rfl⟩
      exact hmine wtx hwtx in2 hin

/-- What is in the map stays right if the wallet stays the same around it. -/
theorem Valid.change (h : Valid wallet mDenomWtxes)
    (hsame : forall hash, mDenomWtxes.lookup hash ≠ none ->
      wallet'.mapWallet.lookup hash = wallet.mapWallet.lookup hash ∧
        forall wtx, wallet.mapWallet.lookup hash = some wtx -> forall in2, in2 ∈ wtx.vin ->
          wallet'.isMine in2.prevout = wallet.isMine in2.prevout) :
    Valid wallet' mDenomWtxes := by
  have hplace : forall o, known mDenomWtxes o ≠ none -> mDenomWtxes.lookup o.hash ≠ none := by
    intro o ho hnone
    apply ho
    unfold known
    rw [hnone]
    rfl
  have hown : forall o, known mDenomWtxes o ≠ none -> ownInputs wallet' o = ownInputs wallet o :=
    fun o ho => ownInputs_congr (hsame o.hash (hplace o ho)).1 (hsame o.hash (hplace o ho)).2
  have hdeep : forall k o, known mDenomWtxes o ≠ none -> deep wallet' k o = deep wallet k o := by
    intro k
    induction k with
    | zero => exact fun _ _ => rfl
    | succ k ih =>
        intro o ho
        rw [deep, deep, hown o ho, Bool.eq_iff_iff, List.any_eq_true, List.any_eq_true]
        exact exists_congr fun in2 => and_congr_right fun hin => by
          rw [ih in2 (h.closed o ho in2 hin)]
  have hfresh : forall k o, known mDenomWtxes o ≠ none ->
      freshRounds wallet' k o = freshRounds wallet k o := by
    intro k
    induction k with
    | zero => exact fun _ _ => rfl
    | succ k ih =>
        intro o ho
        rw [freshRounds, freshRounds, (hsame o.hash (hplace o ho)).1, hown o ho]
        have hfold : (ownInputs wallet o).foldl
            (fun found in2 => closer found (freshRounds wallet' k in2)) (-10, false) =
            (ownInputs wallet o).foldl
              (fun found in2 => closer found (freshRounds wallet k in2)) (-10, false) := by
          apply List.foldl_ext
          intro found in2 hin
          rw [ih in2 (h.closed o ho in2 hin)]
        rw [hfold]
  refine ⟨fun hash vout hvout => ?_, fun o nRounds ho => ?_, fun o ho in2 hin => ?_⟩
  · rw [(hsame hash (by rw [hvout]; exact Option.some_ne_none _)).1]
    exact h.sized hash vout hvout
  · have hne : known mDenomWtxes o ≠ none := by
      rw [ho]
      exact Option.some_ne_none _
    rw [hdeep 16 o hne, hfresh 16 o hne]
    exact h.fresh o nRounds ho
  · rw [hown o ho] at hin
    exact h.closed o ho in2 hin

end Change

namespace Process

/-- One harmless step. -/
theorem answersFresh_step (p : Process) (step : ProcessStep)
    (hvalid : Valid p.wallet p.mDenomWtxes) (h : p.Harmless step) :
    p.AnswersFresh step ∧ Valid (p.next step).wallet (p.next step).mDenomWtxes := by
  cases step with
  | change wallet => exact ⟨trivial, hvalid.change h⟩
  | query nObfuscationRounds txin =>
      rcases h with ⟨hdeep, hindex⟩
      unfold AnswersFresh next getInputObfuscationRounds
      dsimp only
      cases hlookup : p.wallet.mapWallet.lookup txin.prevout.hash with
      | none =>
          rw [getRealInputObfuscationRounds_unknown hlookup,
            getRealInputObfuscationRounds_unknown hlookup]
          exact ⟨⟨_, _, _, rfl, rfl⟩, hvalid⟩
      | some wtx =>
          rcases getRealInputObfuscationRounds_spec (le_refl 16) hvalid hlookup hdeep
            (fun hplace => hindex hplace wtx hlookup) with ⟨m, hm, hvalid', _⟩
          rcases getRealInputObfuscationRounds_spec (le_refl 16) (valid_empty p.wallet) hlookup
            hdeep (fun hplace => absurd (AList.lookup_empty _) hplace) with ⟨m', hm', _⟩
          rw [hm, hm']
          exact ⟨⟨_, _, _, rfl, rfl⟩, hvalid'⟩

/-- In a run of harmless steps every query is answered as if the process had just started. -/
theorem answersFresh_of_harmless (wallet : CWallet) (steps : List ProcessStep)
    (h : StepsSatisfy next Harmless (start wallet) steps) :
    StepsSatisfy next AnswersFresh (start wallet) steps :=
  StepsSatisfy.imp (fun p => Valid p.wallet p.mDenomWtxes)
    (fun p step hvalid hstep => answersFresh_step p step hvalid hstep) steps (start wallet)
    (valid_empty wallet) h

end Process

/-!
# Chains of denominated transactions
-/

namespace RoundsExample

/-- A denominated transaction which spends the one before it. -/
def link (i : Nat) : CTransaction where
  hash := BitVec.ofNat 256 i
  nVersion := 1
  vin := [⟨⟨BitVec.ofNat 256 (i - 1), 0⟩, [], COutPoint.maxUInt32⟩]
  vout := [CTxOut.make (1 * COIN + 1000) []]
  nLockTime := 0

def links : Nat -> StdMap UInt256 CTransaction
  | 0 => ∅
  | n + 1 => (links n).insert (BitVec.ofNat 256 (n + 1)) (link (n + 1))

theorem exists_link {n : Nat} {hash : UInt256} {wtx : CTransaction}
    (h : (links n).lookup hash = some wtx) : exists i, wtx = link i := by
  induction n with
  | zero =>
      rw [links, AList.lookup_empty] at h
      cases h
  | succ n ih =>
      rw [links, StdMap.lookup_insert_eq] at h
      split at h
      · cases h
        exact ⟨n + 1, rfl⟩
      · exact ih h

/-- A wallet which owns a chain of that many. -/
def chain (n : Nat) : CWallet where
  mapWallet := links n
  nRounds_eq := by
    intro hash wtx h txout htxout
    rcases exists_link h with ⟨i, rfl⟩
    rw [List.mem_singleton.mp htxout]
    rfl
  isMineScript := fun _ => true

def inputOf (i : Nat) : CTxIn := ⟨⟨BitVec.ofNat 256 i, 0⟩, [], COutPoint.maxUInt32⟩

theorem lookup_chain_two :
    (chain 2).mapWallet.lookup (inputOf 2).prevout.hash = some (link 2) ∧
      (chain 2).mapWallet.lookup (inputOf 1).prevout.hash = some (link 1) := by
  decide

/-- A chain of two, from either end. -/
theorem answersFresh_chain_two :
    StepsSatisfy Process.next Process.Harmless (Process.start (chain 2))
        [ProcessStep.query 2 (inputOf 2), ProcessStep.query 2 (inputOf 1)] ∧
      StepsSatisfy Process.next Process.AnswersFresh (Process.start (chain 2))
        [ProcessStep.query 2 (inputOf 2), ProcessStep.query 2 (inputOf 1)] := by
  have h : StepsSatisfy Process.next Process.Harmless (Process.start (chain 2))
      [ProcessStep.query 2 (inputOf 2), ProcessStep.query 2 (inputOf 1)] := by
    refine ⟨⟨by decide +kernel, fun _ wtx hwtx => ?_⟩,
      ⟨by decide +kernel, fun _ wtx hwtx => ?_⟩, trivial⟩
    · cases lookup_chain_two.1.symm.trans hwtx
      decide
    · cases lookup_chain_two.2.symm.trans hwtx
      decide
  exact ⟨h, Process.answersFresh_of_harmless (chain 2) _ h⟩

/-- After a chain of 17 has been followed to the limit, its second transaction has 16 rounds. -/
theorem not_answersFresh_chain :
    ¬ StepsSatisfy Process.next Process.AnswersFresh (Process.start (chain 17))
      [ProcessStep.query 16 (inputOf 17), ProcessStep.query 16 (inputOf 2)] := by
  rintro ⟨_, ⟨n, m, m', hcached, hfresh⟩, _⟩
  have hsixteen : (getInputObfuscationRounds (chain 17) 16 (inputOf 2)
      ((Process.start (chain 17)).next
        (ProcessStep.query 16 (inputOf 17))).mDenomWtxes).map Prod.fst = some 16 := by
    decide +kernel
  have hone : (getInputObfuscationRounds (chain 17) 16 (inputOf 2) ∅).map Prod.fst = some 1 := by
    decide +kernel
  have hleft : n = 16 :=
    Option.some.inj ((congrArg (Option.map Prod.fst) hcached).symm.trans hsixteen)
  have hright : n = 1 :=
    Option.some.inj ((congrArg (Option.map Prod.fst) hfresh).symm.trans hone)
  rw [hleft] at hright
  cases hright

end RoundsExample

end ObfuscationRounds
end Hbcur
