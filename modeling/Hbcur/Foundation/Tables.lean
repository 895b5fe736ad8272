import Hbcur.Foundation.Run
import Hbcur.Foundation.StdMap

/-!
# Memo tables

A table of earlier answers in front of a function which also depends on a context.  The table is
asked by the key alone.
-/

namespace Hbcur
namespace Foundation

variable {context key value : Type} [DecidableEq key] (f : context -> key -> Option value)

/-- The answer from the table, or from the function, which is then entered if there is one. -/
def memoCall (table : StdMap key value) (call : context × key) :
    Option value × StdMap key value :=
  match table.lookup call.2 with
  | some v => (some v, table)
  | none =>
      match f call.1 call.2 with
      | none => (none, table)
      | some v => (some v, table.insert call.2 v)

/-- The table after a call. -/
def memoNext (table : StdMap key value) (call : context × key) : StdMap key value :=
  (memoCall f table call).2

/-- The call is answered as it would be without a table. -/
def AnswersAfresh (table : StdMap key value) (call : context × key) : Prop :=
  (memoCall f table call).1 = f call.1 call.2

/-- What is in the table for the key of a call is what the function gives. -/
def UpToDate (table : StdMap key value) (call : context × key) : Prop :=
  forall v, table.lookup call.2 = some v -> f call.1 call.2 = some v

/-- If the earlier of two calls for one key has an answer, then it is that of the later one. -/
def Agree (earlier later : context × key) : Prop :=
  forall v, earlier.2 = later.2 -> f earlier.1 earlier.2 = some v ->
    f later.1 later.2 = some v

variable {f} {table : StdMap key value} {call later : context × key}

theorem answersAfresh_iff : AnswersAfresh f table call <-> UpToDate f table call := by
  unfold AnswersAfresh UpToDate memoCall
  cases hlookup : table.lookup call.2 with
  | some v =>
      constructor
      · intro h w hw
        cases hw
        exact h.symm
      · intro h
        exact (h v rfl).symm
  | none =>
      apply iff_of_true
      · cases f call.1 call.2 <;> rfl
      · intro v hv
        cases hv

/-- A call brings the table in agreement with the later calls which agree with it. -/
theorem upToDate_memoNext (h : UpToDate f table call) :
    UpToDate f (memoNext f table call) later <->
      UpToDate f table later ∧ Agree f call later := by
  unfold memoNext memoCall
  cases hlookup : table.lookup call.2 with
  | some v =>
      -- the table stays, and holds the answer of the call
      constructor
      · intro hlater
        constructor
        · exact hlater
        · intro w hkey hw
          apply hlater w
          rw [← hkey, hlookup, ← h v hlookup, hw]
      · exact fun hboth => hboth.1
  | none =>
      cases hf : f call.1 call.2 with
      | none =>
          constructor
          · intro hlater
            constructor
            · exact hlater
            · intro w _ hw
              rw [hf] at hw
              cases hw
          · exact fun hboth => hboth.1
      | some v =>
          constructor
          · intro hlater
            constructor
            · intro w hw
              apply hlater w
              rw [StdMap.lookup_insert_eq, if_neg]
              · exact hw
              · intro hkey
                rw [hkey, hlookup] at hw
                cases hw
            · intro w hkey hw
              apply hlater w
              rw [StdMap.lookup_insert_eq, if_pos hkey.symm, ← hf, hw]
          · intro hboth w hw
            rw [StdMap.lookup_insert_eq] at hw
            by_cases hkey : later.2 = call.2
            · rw [if_pos hkey] at hw
              exact hboth.2 w hkey.symm (hf.trans hw)
            · rw [if_neg hkey] at hw
              exact hboth.1 w hw

theorem stepsSatisfy_answersAfresh_iff (calls : List (context × key)) :
    forall table : StdMap key value,
      StepsSatisfy (memoNext f) (AnswersAfresh f) table calls <->
        (forall call, call ∈ calls -> UpToDate f table call) ∧ calls.Pairwise (Agree f) := by
  induction calls with
  | nil =>
      intro table
      apply iff_of_true
      · trivial
      · constructor
        · intro call hcall
          cases hcall
        · exact List.Pairwise.nil
  | cons call calls ih =>
      intro table
      rw [StepsSatisfy, ih, answersAfresh_iff, List.pairwise_cons, List.forall_mem_cons]
      constructor
      · intro ⟨hcall, hrest, hpairs⟩
        have hboth := fun later hlater => (upToDate_memoNext hcall).mp (hrest later hlater)
        exact ⟨⟨hcall, fun later hlater => (hboth later hlater).1⟩,
          fun later hlater => (hboth later hlater).2, hpairs⟩
      · intro ⟨⟨hcall, hrest⟩, hagree, hpairs⟩
        constructor
        · exact hcall
        · constructor
          · intro later hlater
            exact (upToDate_memoNext hcall).mpr ⟨hrest later hlater, hagree later hlater⟩
          · exact hpairs

/-- From an empty table, all calls are answered as without one exactly when they agree. -/
theorem stepsSatisfy_answersAfresh_empty (calls : List (context × key)) :
    StepsSatisfy (memoNext f) (AnswersAfresh f) (∅ : StdMap key value) calls <->
      calls.Pairwise (Agree f) := by
  rw [stepsSatisfy_answersAfresh_iff]
  constructor
  · exact fun h => h.2
  · intro h
    constructor
    · intro call _ v hv
      rw [AList.lookup_empty] at hv
      cases hv
    · exact h

end Foundation
end Hbcur

/-!
# The latest message for each key

A map which keeps one message for each key.  A later message replaces an earlier one; of two
messages from the same time the one that came first stays.
-/

namespace Hbcur
namespace Foundation

variable {message key time : Type} [DecidableEq key] [LinearOrder time]
  (keyOf : message -> key) (timeOf : message -> time)

def keepLatest (m : StdMap key message) (msg : message) : StdMap key message :=
  match m.lookup (keyOf msg) with
  | none => m.insert (keyOf msg) msg
  | some old => if timeOf msg ≤ timeOf old then m else m.insert (keyOf msg) msg

/-- What is found under a key is a message for it, and none of the messages is later. -/
structure IsLatest (msgs : message -> Prop) (k : key) (found : Option message) : Prop where
  mem : forall msg, found = some msg -> msgs msg ∧ keyOf msg = k
  latest : forall other, msgs other -> keyOf other = k ->
    exists msg, found = some msg ∧ timeOf other ≤ timeOf msg

theorem lookup_keepLatest_of_ne {m : StdMap key message} {msg : message} {k : key}
    (h : k ≠ keyOf msg) : (keepLatest keyOf timeOf m msg).lookup k = m.lookup k := by
  unfold keepLatest
  cases m.lookup (keyOf msg) with
  | none => exact AList.lookup_insert_ne h
  | some old =>
      simp only
      split_ifs
      · rfl
      · exact AList.lookup_insert_ne h

/-- One more message has been seen. -/
theorem IsLatest.keepLatest {msgs : message -> Prop} {m : StdMap key message} {k : key}
    (h : IsLatest keyOf timeOf msgs k (m.lookup k)) (msg : message) :
    IsLatest keyOf timeOf (fun other => msgs other ∨ other = msg) k
      ((keepLatest keyOf timeOf m msg).lookup k) := by
  by_cases hk : k = keyOf msg
  · subst hk
    unfold Foundation.keepLatest
    cases hfound : m.lookup (keyOf msg) with
    | none =>
        rw [hfound] at h
        rw [AList.lookup_insert]
        constructor
        · intro other heq
          cases heq
          exact ⟨Or.inr rfl, rfl⟩
        · intro other hother hkey
          rcases hother with hold | rfl
          · rcases h.latest other hold hkey with ⟨_, hnone, _⟩
            cases hnone
          · exact ⟨other, rfl, le_refl _⟩
    | some old =>
        rw [hfound] at h
        rcases h.mem old rfl with ⟨hold, hkey⟩
        simp only
        split_ifs with hle
        · rw [hfound]
          constructor
          · intro other heq
            cases heq
            exact ⟨Or.inl hold, hkey⟩
          · intro other hother hotherKey
            rcases hother with hseen | rfl
            · exact h.latest other hseen hotherKey
            · exact ⟨old, rfl, hle⟩
        · rw [AList.lookup_insert]
          constructor
          · intro other heq
            cases heq
            exact ⟨Or.inr rfl, rfl⟩
          · intro other hother hotherKey
            rcases hother with hseen | rfl
            · rcases h.latest other hseen hotherKey with ⟨_, heq, hle'⟩
              cases heq
              exact ⟨msg, rfl, le_trans hle' (le_of_lt (not_le.mp hle))⟩
            · exact ⟨other, rfl, le_refl _⟩
  · rw [lookup_keepLatest_of_ne keyOf timeOf hk]
    constructor
    · intro other heq
      rcases h.mem other heq with ⟨hseen, hkey⟩
      exact ⟨Or.inl hseen, hkey⟩
    · intro other hother hkey
      rcases hother with hseen | rfl
      · exact h.latest other hseen hkey
      · exact absurd hkey.symm hk

omit [DecidableEq key] in
theorem IsLatest.congr {msgs msgs' : message -> Prop} {k : key} {found : Option message}
    (h : IsLatest keyOf timeOf msgs k found) (hmsgs : forall msg, msgs msg <-> msgs' msg) :
    IsLatest keyOf timeOf msgs' k found := by
  constructor
  · intro msg heq
    rcases h.mem msg heq with ⟨hin, hkey⟩
    exact ⟨(hmsgs msg).mp hin, hkey⟩
  · intro other hin hkey
    exact h.latest other ((hmsgs other).mpr hin) hkey

theorem IsLatest.foldl (l : List message) {msgs : message -> Prop} {m : StdMap key message}
    {k : key} (h : IsLatest keyOf timeOf msgs k (m.lookup k)) :
    IsLatest keyOf timeOf (fun other => msgs other ∨ other ∈ l) k
      ((l.foldl (Foundation.keepLatest keyOf timeOf) m).lookup k) := by
  induction l generalizing msgs m with
  | nil =>
      refine h.congr keyOf timeOf fun other => ?_
      simp
  | cons msg rest ih =>
      refine (ih (h.keepLatest keyOf timeOf msg)).congr keyOf timeOf fun other => ?_
      rw [List.mem_cons, or_assoc]

/-- After any messages, each key has its latest one. -/
theorem isLatest_run (l : List message) (k : key) :
    IsLatest keyOf timeOf (fun other => other ∈ l) k
      ((l.foldl (keepLatest keyOf timeOf) ∅).lookup k) := by
  have hstart : IsLatest keyOf timeOf (fun _ : message => False) k
      ((∅ : StdMap key message).lookup k) := by
    constructor
    · intro msg h
      cases h
    · exact fun _ h => h.elim
  exact (hstart.foldl keyOf timeOf l).congr keyOf timeOf fun _ => by
    rw [false_or]

/-- A message that comes first stays as long as no later one is seen. -/
theorem lookup_run_of_first (l : List message) {m : StdMap key message} {msg : message}
    (hfound : m.lookup (keyOf msg) = some msg)
    (hlatest : forall other, other ∈ l -> keyOf other = keyOf msg -> timeOf other ≤ timeOf msg) :
    (l.foldl (keepLatest keyOf timeOf) m).lookup (keyOf msg) = some msg := by
  induction l generalizing m with
  | nil => exact hfound
  | cons other rest ih =>
      refine ih ?_ fun next hnext => hlatest next (List.mem_cons_of_mem other hnext)
      by_cases hkey : keyOf msg = keyOf other
      · unfold keepLatest
        rw [← hkey, hfound]
        simp only
        rw [if_pos (hlatest other List.mem_cons_self hkey.symm), hfound]
      · rw [lookup_keepLatest_of_ne keyOf timeOf hkey, hfound]

omit [DecidableEq key] in
theorem IsLatest.unique {msgs : message -> Prop} {k : key} {found found' : Option message}
    (h : IsLatest keyOf timeOf msgs k found) (h' : IsLatest keyOf timeOf msgs k found')
    (hone : forall a b, msgs a -> msgs b -> keyOf a = k -> keyOf b = k -> timeOf a = timeOf b ->
      (forall other, msgs other -> keyOf other = k -> timeOf other ≤ timeOf a) -> a = b) :
    found = found' := by
  cases found with
  | none =>
      cases found' with
      | none => rfl
      | some b =>
          rcases h'.mem b rfl with ⟨hb, hkey⟩
          rcases h.latest b hb hkey with ⟨_, hnone, _⟩
          cases hnone
  | some a =>
      rcases h.mem a rfl with ⟨ha, haKey⟩
      rcases h'.latest a ha haKey with ⟨b, hb, hle⟩
      rcases h'.mem b hb with ⟨hbIn, hbKey⟩
      have hmax : forall other, msgs other -> keyOf other = k -> timeOf other ≤ timeOf a := by
        intro other hother hkey
        rcases h.latest other hother hkey with ⟨_, heq, hother⟩
        cases heq
        exact hother
      rw [hb, hone a b ha hbIn haKey hbKey (le_antisymm hle (hmax b hbIn hbKey)) hmax]

end Foundation
end Hbcur
