import Hbcur.Foundation.Run
import Hbcur.Net.Bloom
import Hbcur.Script.Solver

/-!
# Relevant transactions

`CBloomFilter::IsRelevantAndUpdate`, which adds outputs to the filter while it looks for matches,
and what holds after any sequence of insertions and such calls on a filter from the network.
-/

namespace Hbcur
namespace Net

open Foundation Serialize

def BLOOM_UPDATE_NONE : UInt8 := 0
def BLOOM_UPDATE_ALL : UInt8 := 1
def BLOOM_UPDATE_P2PUBKEY_ONLY : UInt8 := 2
def BLOOM_UPDATE_MASK : UInt8 := 3

namespace CBloomFilter

variable (filter : CBloomFilter)

def insertOutPoint (outpoint : COutPoint) : Option CBloomFilter :=
  filter.insert outpoint.serialize

def insertHash (hash : UInt256) : Option CBloomFilter := filter.insert (writeUInt256 hash)

def containsOutPoint (outpoint : COutPoint) : Option Bool := filter.contains outpoint.serialize

def containsHash (hash : UInt256) : Option Bool := filter.contains (writeUInt256 hash)

/-- `data.size() != 0 && contains(data)` -/
def containsData (data : List UInt8) : Option Bool :=
  if data.length = 0 then some false else filter.contains data

/-- The loop over the operations of a script, which ends at the first element contained. -/
def scriptLoop : Nat -> CScript -> Option Bool
  | 0, _ => some false
  | rounds + 1, pc =>
      match CScript.getOp pc with
      | none => some false
      | some (_, data, pc) => do
          let found ← filter.containsData data
          if found then some true else scriptLoop rounds pc

/-- Whether a data element of a script is contained; each round reads at least one byte. -/
def matchesScript (script : CScript) : Option Bool := filter.scriptLoop script.length script

/-- The update for an output which has matched. -/
def updateForOutput (scriptPubKey : CScript) (outpoint : COutPoint) : Option CBloomFilter :=
  if filter.nFlags &&& BLOOM_UPDATE_MASK = BLOOM_UPDATE_ALL then filter.insertOutPoint outpoint
  else if filter.nFlags &&& BLOOM_UPDATE_MASK = BLOOM_UPDATE_P2PUBKEY_ONLY then
    match Script.solver scriptPubKey with
    | some (type, _) =>
        if type = Script.TxnOutType.pubKey ∨ type = Script.TxnOutType.multiSig then
          filter.insertOutPoint outpoint
        else some filter
    | none => some filter
  else some filter

/-- The loop over the outputs, with the filter and `fFound` as they stand at output `i`. -/
def outputsLoop (hash : UInt256) :
    List CTxOut -> Nat -> CBloomFilter -> Bool -> Option (CBloomFilter × Bool)
  | [], _, filter, fFound => some (filter, fFound)
  | txout :: vout, i, filter, fFound => do
      let found ← filter.matchesScript txout.scriptPubKey
      if found then do
        let filter ← filter.updateForOutput txout.scriptPubKey { hash := hash, n := i }
        outputsLoop hash vout (i + 1) filter true
      else outputsLoop hash vout (i + 1) filter fFound

def inputsLoop : List CTxIn -> Option Bool
  | [] => some false
  | txin :: vin => do
      let spends ← filter.containsOutPoint txin.prevout
      if spends then some true
      else do
        let found ← filter.matchesScript txin.scriptSig
        if found then some true else inputsLoop vin

def isRelevantAndUpdate (tx : CTransaction) : Option (CBloomFilter × Bool) :=
  if filter.isFull then some (filter, true)
  else if filter.isEmpty then some (filter, false)
  else do
    let found ← filter.containsHash tx.hash
    let (filter, fFound) ← outputsLoop tx.hash tx.vout 0 filter found
    if fFound then some (filter, true)
    else do
      let relevant ← filter.inputsLoop tx.vin
      some (filter, relevant)

/-!
# One call
-/

variable {filter} {later : CBloomFilter}

theorem exists_contains (h : filter.HasBits) (vKey : List UInt8) :
    exists found, filter.contains vKey = some found :=
  ⟨_, contains_eq h vKey⟩

theorem exists_containsData (h : filter.HasBits) (data : List UInt8) :
    exists found, filter.containsData data = some found := by
  unfold containsData
  split
  · exact ⟨false, rfl⟩
  · exact exists_contains h data

theorem exists_scriptLoop (h : filter.HasBits) (rounds : Nat) (pc : CScript) :
    exists found, filter.scriptLoop rounds pc = some found := by
  induction rounds generalizing pc with
  | zero => exact ⟨false, rfl⟩
  | succ rounds ih =>
      rw [scriptLoop]
      cases CScript.getOp pc with
      | none => exact ⟨false, rfl⟩
      | some operation =>
          rcases operation with ⟨opcode, data, pc'⟩
          rcases exists_containsData h data with ⟨found, hfound⟩
          simp only [hfound, Option.bind_eq_bind, Option.bind_some]
          cases found with
          | true => exact ⟨true, rfl⟩
          | false => exact ih pc'

theorem exists_matchesScript (h : filter.HasBits) (script : CScript) :
    exists found, filter.matchesScript script = some found :=
  exists_scriptLoop h _ _

theorem updateForOutput_spec (h : filter.HasBits) (scriptPubKey : CScript)
    (outpoint : COutPoint) :
    exists later, filter.updateForOutput scriptPubKey outpoint = some later ∧
      Extends later filter ∧
      (filter.nFlags &&& BLOOM_UPDATE_MASK = BLOOM_UPDATE_ALL ->
        later.containsOutPoint outpoint = some true) := by
  rcases insert_spec h outpoint.serialize with ⟨later, hlater, hextends, hin⟩
  unfold updateForOutput
  split
  · exact ⟨later, hlater, hextends, fun _ => hin⟩
  case isFalse hall =>
    split
    · split
      · split
        · exact ⟨later, hlater, hextends, fun _ => hin⟩
        · exact ⟨filter, rfl, Extends.refl, fun hflags => absurd hflags hall⟩
      · exact ⟨filter, rfl, Extends.refl, fun hflags => absurd hflags hall⟩
    · exact ⟨filter, rfl, Extends.refl, fun hflags => absurd hflags hall⟩

theorem exists_inputsLoop (h : filter.HasBits) (vin : List CTxIn) :
    exists relevant, filter.inputsLoop vin = some relevant := by
  induction vin with
  | nil => exact ⟨false, rfl⟩
  | cons txin vin ih =>
      rcases exists_contains h txin.prevout.serialize with ⟨spends, hspends⟩
      rcases exists_matchesScript h txin.scriptSig with ⟨found, hfound⟩
      rcases ih with ⟨relevant, hrelevant⟩
      rw [inputsLoop, containsOutPoint, hspends]
      simp only [hfound, hrelevant, Option.bind_eq_bind, Option.bind_some]
      split
      · exact ⟨true, rfl⟩
      · split
        · exact ⟨true, rfl⟩
        · exact ⟨relevant, rfl⟩

/-- An input which spends a contained output ends the loop at the latest. -/
theorem inputsLoop_of_mem (h : filter.HasBits) {vin : List CTxIn} {txin : CTxIn}
    (hmem : txin ∈ vin) (hin : filter.containsOutPoint txin.prevout = some true) :
    filter.inputsLoop vin = some true := by
  induction vin with
  | nil => cases hmem
  | cons other vin ih =>
      rcases exists_contains h other.prevout.serialize with ⟨spends, hspends⟩
      rcases exists_matchesScript h other.scriptSig with ⟨found, hfound⟩
      rw [inputsLoop]
      rcases List.mem_cons.mp hmem with heq | htail
      · rw [← heq, hin]
        rfl
      · rw [containsOutPoint, hspends]
        simp only [hfound, ih htail, Option.bind_eq_bind, Option.bind_some, ite_self]

/-- The outputs which the scan of a transaction matches, at the filter as it then stands. -/
inductive Matched (hash : UInt256) :
    List CTxOut -> Nat -> CBloomFilter -> COutPoint -> Prop where
  | here {txout : CTxOut} {vout : List CTxOut} {i : Nat} {filter : CBloomFilter} :
      filter.matchesScript txout.scriptPubKey = some true ->
      Matched hash (txout :: vout) i filter { hash := hash, n := i }
  | after {txout : CTxOut} {vout : List CTxOut} {i : Nat} {filter later : CBloomFilter}
      {outpoint : COutPoint} :
      filter.matchesScript txout.scriptPubKey = some true ->
      filter.updateForOutput txout.scriptPubKey { hash := hash, n := i } = some later ->
      Matched hash vout (i + 1) later outpoint ->
      Matched hash (txout :: vout) i filter outpoint
  | skip {txout : CTxOut} {vout : List CTxOut} {i : Nat} {filter : CBloomFilter}
      {outpoint : COutPoint} :
      filter.matchesScript txout.scriptPubKey = some false ->
      Matched hash vout (i + 1) filter outpoint ->
      Matched hash (txout :: vout) i filter outpoint

/-- An empty filter matches nothing. -/
theorem matchesScript_of_isEmpty (hfull : filter.isFull = false) (hempty : filter.isEmpty = true)
    (script : CScript) : filter.matchesScript script = some false := by
  have hcontains : forall data, filter.containsData data = some false := by
    intro data
    unfold containsData contains
    rw [hfull, hempty]
    split
    · rfl
    · rfl
  have hloop : forall rounds pc, filter.scriptLoop rounds pc = some false := by
    intro rounds
    induction rounds with
    | zero =>
        intro pc
        rfl
    | succ rounds ih =>
        intro pc
        rw [scriptLoop]
        split
        · rfl
        · rw [hcontains]
          exact ih _
  exact hloop _ _

theorem not_matched_of_isEmpty (hfull : filter.isFull = false) (hempty : filter.isEmpty = true)
    {hash : UInt256} {vout : List CTxOut} {i : Nat} {outpoint : COutPoint} :
    ¬ Matched hash vout i filter outpoint := by
  have hnone := matchesScript_of_isEmpty hfull hempty
  induction vout generalizing i with
  | nil => exact nofun
  | cons txout vout ih =>
      intro hmatched
      cases hmatched with
      | here htrue => exact nomatch (hnone _).symm.trans htrue
      | after htrue => exact nomatch (hnone _).symm.trans htrue
      | skip _ hrest => exact ih hrest

theorem outputsLoop_spec (hash : UInt256) (vout : List CTxOut) (i : Nat) (fFound : Bool)
    (h : filter.HasBits) :
    exists later fFound', outputsLoop hash vout i filter fFound = some (later, fFound') ∧
      Extends later filter ∧
      (filter.nFlags &&& BLOOM_UPDATE_MASK = BLOOM_UPDATE_ALL ->
        forall outpoint, Matched hash vout i filter outpoint ->
          later.containsOutPoint outpoint = some true) := by
  induction vout generalizing i filter fFound with
  | nil => exact ⟨filter, fFound, rfl, Extends.refl, fun _ _ hmatched => nomatch hmatched⟩
  | cons txout vout ih =>
      rcases exists_matchesScript h txout.scriptPubKey with ⟨found, hfound⟩
      rw [outputsLoop, hfound]
      simp only [Option.bind_eq_bind, Option.bind_some]
      cases found with
      | false =>
          rcases ih (i + 1) fFound h with ⟨later, fFound', hlater, hextends, hall⟩
          refine ⟨later, fFound', hlater, hextends, ?_⟩
          intro hflags outpoint hmatched
          cases hmatched with
          | here htrue => exact nomatch hfound.symm.trans htrue
          | after htrue => exact nomatch hfound.symm.trans htrue
          | skip _ hrest => exact hall hflags outpoint hrest
      | true =>
          rcases updateForOutput_spec h txout.scriptPubKey { hash := hash, n := i } with
            ⟨next, hnext, hstep, hinserted⟩
          rcases ih (i + 1) true (hstep.hasBits h) with ⟨later, fFound', hlater, hextends, hall⟩
          refine ⟨later, fFound', ?_, hextends.trans hstep, ?_⟩
          · simp only [if_true, hnext, Option.bind_some, hlater]
          · intro hflags outpoint hmatched
            cases hmatched with
            | here _ => exact hextends.contains (hstep.hasBits h) (hinserted hflags)
            | after _ hupdate hrest =>
                rw [hnext, Option.some_inj] at hupdate
                rw [← hstep.nFlags_eq] at hflags
                exact hall hflags outpoint (hupdate ▸ hrest)
            | skip hfalse => exact nomatch hfound.symm.trans hfalse

theorem isRelevantAndUpdate_spec (h : filter.HasBits) (tx : CTransaction) :
    exists later relevant, filter.isRelevantAndUpdate tx = some (later, relevant) ∧
      Extends later filter ∧
      (filter.nFlags &&& BLOOM_UPDATE_MASK = BLOOM_UPDATE_ALL ->
        forall outpoint, Matched tx.hash tx.vout 0 filter outpoint ->
          later.containsOutPoint outpoint = some true) := by
  unfold isRelevantAndUpdate
  cases hfull : filter.isFull with
  | true =>
      refine ⟨filter, true, rfl, Extends.refl, ?_⟩
      intro _ outpoint _
      unfold containsOutPoint contains
      rw [if_pos hfull]
  | false =>
      cases hempty : filter.isEmpty with
      | true =>
          refine ⟨filter, false, rfl, Extends.refl, ?_⟩
          intro _ outpoint hmatched
          exact absurd hmatched (not_matched_of_isEmpty hfull hempty)
      | false =>
          rcases exists_contains h (writeUInt256 tx.hash) with ⟨found, hfound⟩
          rcases outputsLoop_spec tx.hash tx.vout 0 found h with
            ⟨later, fFound, hlater, hextends, hall⟩
          rcases exists_inputsLoop (hextends.hasBits h) tx.vin with ⟨relevant, hrelevant⟩
          simp only [Bool.false_eq_true, if_false, containsHash, hfound, hlater, hrelevant,
            Option.bind_eq_bind, Option.bind_some]
          cases fFound with
          | true => exact ⟨later, true, rfl, hextends, hall⟩
          | false => exact ⟨later, relevant, rfl, hextends, hall⟩

/-- A transaction which spends a contained output is relevant. -/
theorem isRelevantAndUpdate_of_spends (h : filter.HasBits) {tx : CTransaction} {txin : CTxIn}
    (hmem : txin ∈ tx.vin) (hin : filter.containsOutPoint txin.prevout = some true) :
    exists later, filter.isRelevantAndUpdate tx = some (later, true) := by
  unfold isRelevantAndUpdate
  cases hfull : filter.isFull with
  | true => exact ⟨filter, rfl⟩
  | false =>
      cases hempty : filter.isEmpty with
      | true =>
          unfold containsOutPoint contains at hin
          rw [hfull, hempty] at hin
          cases hin
      | false =>
          rcases exists_contains h (writeUInt256 tx.hash) with ⟨found, hfound⟩
          rcases outputsLoop_spec tx.hash tx.vout 0 found h with
            ⟨later, fFound, hlater, hextends, _⟩
          have hspent := inputsLoop_of_mem (hextends.hasBits h) hmem (hextends.contains h hin)
          simp only [Bool.false_eq_true, if_false, containsHash, hfound, hlater, hspent,
            Option.bind_eq_bind, Option.bind_some, ite_self]
          exact ⟨later, rfl⟩

/-!
# Runs
-/

inductive Call where
  | insert (vKey : List UInt8)
  | insertOutPoint (outpoint : COutPoint)
  | insertHash (hash : UInt256)
  | isRelevantAndUpdate (tx : CTransaction)

/-- The key which a call inserts. -/
def Call.key : Call -> Option (List UInt8)
  | insert vKey => some vKey
  | insertOutPoint outpoint => some outpoint.serialize
  | insertHash hash => some (writeUInt256 hash)
  | isRelevantAndUpdate _ => none

/-- The answer of a call, where it gives one, and the filter after it. -/
def step (filter : CBloomFilter) : Call -> Option (Option Bool × CBloomFilter)
  | Call.insert vKey => (filter.insert vKey).map (fun later => (none, later))
  | Call.insertOutPoint outpoint =>
      (filter.insertOutPoint outpoint).map (fun later => (none, later))
  | Call.insertHash hash => (filter.insertHash hash).map (fun later => (none, later))
  | Call.isRelevantAndUpdate tx =>
      (filter.isRelevantAndUpdate tx).map (fun found => (some found.2, found.1))

/-- The outputs which some call of a run matches by script data. -/
inductive MatchedIn : CBloomFilter -> List Call -> COutPoint -> Prop where
  | now {filter : CBloomFilter} {tx : CTransaction} {calls : List Call} {outpoint : COutPoint} :
      Matched tx.hash tx.vout 0 filter outpoint ->
      MatchedIn filter (Call.isRelevantAndUpdate tx :: calls) outpoint
  | later {filter next : CBloomFilter} {call : Call} {answer : Option Bool} {calls : List Call}
      {outpoint : COutPoint} :
      step filter call = some (answer, next) -> MatchedIn next calls outpoint ->
      MatchedIn filter (call :: calls) outpoint

theorem step_insert (h : filter.HasBits) (vKey : List UInt8) :
    exists answer next,
      (filter.insert vKey).map (fun later => ((none : Option Bool), later)) =
        some (answer, next) ∧
      Extends next filter ∧ next.contains vKey = some true := by
  rcases insert_spec h vKey with ⟨next, hnext, hextends, hin⟩
  exact ⟨none, next, by rw [hnext]; rfl, hextends, hin⟩

theorem step_spec (h : filter.HasBits) (call : Call) :
    exists answer next, step filter call = some (answer, next) ∧ Extends next filter ∧
      (forall vKey, call.key = some vKey -> next.contains vKey = some true) ∧
      (filter.nFlags &&& BLOOM_UPDATE_MASK = BLOOM_UPDATE_ALL ->
        forall tx outpoint, call = Call.isRelevantAndUpdate tx ->
          Matched tx.hash tx.vout 0 filter outpoint ->
          next.containsOutPoint outpoint = some true) := by
  cases call with
  | insert vKey =>
      rcases step_insert h vKey with ⟨answer, next, hstep, hextends, hin⟩
      exact ⟨answer, next, hstep, hextends, fun _ hkey => Option.some.inj hkey ▸ hin, nofun⟩
  | insertOutPoint outpoint =>
      rcases step_insert h outpoint.serialize with ⟨answer, next, hstep, hextends, hin⟩
      exact ⟨answer, next, hstep, hextends, fun _ hkey => Option.some.inj hkey ▸ hin, nofun⟩
  | insertHash hash =>
      rcases step_insert h (writeUInt256 hash) with ⟨answer, next, hstep, hextends, hin⟩
      exact ⟨answer, next, hstep, hextends, fun _ hkey => Option.some.inj hkey ▸ hin, nofun⟩
  | isRelevantAndUpdate tx =>
      rcases isRelevantAndUpdate_spec h tx with ⟨next, relevant, hnext, hextends, hall⟩
      refine ⟨some relevant, next, by rw [step, hnext]; rfl, hextends, nofun, ?_⟩
      intro hflags tx' outpoint hcall hmatched
      cases hcall
      exact hall hflags outpoint hmatched

theorem run_spec (h : filter.HasBits) (calls : List Call) :
    exists answers later, run step filter calls = some (answers, later) ∧ Extends later filter ∧
      (forall call vKey, call ∈ calls -> call.key = some vKey ->
        later.contains vKey = some true) ∧
      (filter.nFlags &&& BLOOM_UPDATE_MASK = BLOOM_UPDATE_ALL ->
        forall outpoint, MatchedIn filter calls outpoint ->
          later.containsOutPoint outpoint = some true) := by
  induction calls generalizing filter with
  | nil => exact ⟨[], filter, rfl, Extends.refl, nofun, fun _ _ hmatched => nomatch hmatched⟩
  | cons call calls ih =>
      rcases step_spec h call with ⟨answer, next, hstep, hextends, hkey, hmatches⟩
      rcases ih (hextends.hasBits h) with ⟨answers, later, hrun, hlater, hkeys, hall⟩
      have hnext := hextends.hasBits h
      refine ⟨answer :: answers, later, run_cons_of_step hstep hrun, hlater.trans hextends, ?_,
        ?_⟩
      · intro other vKey hmem hother
        rcases List.mem_cons.mp hmem with heq | htail
        · exact hlater.contains hnext (hkey vKey (heq ▸ hother))
        · exact hkeys other vKey htail hother
      · intro hflags outpoint hmatched
        cases hmatched with
        | now hscan => exact hlater.contains hnext (hmatches hflags _ outpoint rfl hscan)
        | later hstep' hrest =>
            rw [hstep, Option.some_inj, Prod.mk.injEq] at hstep'
            rw [← hextends.nFlags_eq] at hflags
            exact hall hflags outpoint (hstep'.2 ▸ hrest)

/-- A transaction with one output. -/
def paying (hash : UInt256) (scriptPubKey : CScript) : CTransaction where
  hash := hash
  nVersion := 1
  vin := []
  vout := [CTxOut.make 0 scriptPubKey]
  nLockTime := 0

/-- A transaction with one input. -/
def spending (hash : UInt256) (prevout : COutPoint) : CTransaction where
  hash := hash
  nVersion := 1
  vin := [{ prevout := prevout, scriptSig := [], nSequence := COutPoint.maxUInt32 }]
  vout := []
  nLockTime := 0

/--
A filter from the network answers every sequence of calls without a modulus by zero, contains
what they have inserted, and under `BLOOM_UPDATE_ALL` finds the transactions which spend what they
have matched.
-/
theorem no_false_negatives {received : CBloomFilter} (h : received.filterLoad = some filter)
    (calls : List Call) :
    exists answers later, run step filter calls = some (answers, later) ∧
      (forall vKey, exists found, later.contains vKey = some found) ∧
      (forall call vKey, call ∈ calls -> call.key = some vKey ->
        later.contains vKey = some true) ∧
      (received.nFlags &&& BLOOM_UPDATE_MASK = BLOOM_UPDATE_ALL ->
        forall outpoint, MatchedIn filter calls outpoint ->
          forall tx txin, txin ∈ tx.vin -> txin.prevout = outpoint ->
            exists after, later.isRelevantAndUpdate tx = some (after, true)) := by
  unfold filterLoad at h
  split at h
  · cases h
  · rw [Option.some_inj] at h
    rw [← h]
    have hbits : received.updateEmptyFull.HasBits := hasBits_updateEmptyFull
    rcases run_spec hbits calls with ⟨answers, later, hrun, hextends, hkeys, hmatched⟩
    have hlater := hextends.hasBits hbits
    refine ⟨answers, later, hrun, exists_contains hlater, hkeys, ?_⟩
    intro hflags outpoint hin tx txin hmem hprevout
    exact isRelevantAndUpdate_of_spends hlater hmem (hprevout ▸ hmatched hflags outpoint hin)

/-- A filter of four bytes, an inserted key, an output which pushes it and the spending input. -/
theorem finds_spender :
    exists answers later after,
      run step (CBloomFilter.updateEmptyFull ⟨[0, 0, 0, 0], true, false, 2, 5, 1⟩)
        [Call.insert [1, 2, 3], Call.isRelevantAndUpdate (paying 7 [3, 1, 2, 3])] =
          some (answers, later) ∧
      later.contains [1, 2, 3] = some true ∧
      later.isRelevantAndUpdate (spending 8 { hash := 7, n := 0 }) = some (after, true) := by
  rcases @no_false_negatives _ ⟨[0, 0, 0, 0], true, false, 2, 5, 1⟩ rfl
    [Call.insert [1, 2, 3], Call.isRelevantAndUpdate (paying 7 [3, 1, 2, 3])] with
    ⟨answers, later, hrun, _, hkeys, hspends⟩
  rcases hspends (by decide) { hash := 7, n := 0 }
    (MatchedIn.later rfl (MatchedIn.now (Matched.here (by decide))))
    (spending 8 { hash := 7, n := 0 }) _ (List.mem_singleton.mpr rfl) rfl with ⟨after, hafter⟩
  exact ⟨answers, later, after, hrun, hkeys _ _ List.mem_cons_self rfl, hafter⟩

end CBloomFilter

end Net
end Hbcur
