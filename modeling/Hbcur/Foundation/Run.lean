import Mathlib.Data.List.Forall2

/-!
# Runs of guarded transition functions

A component is a partial step function which answers each operation.  A guard
tracks which operations its users may issue.  The rules below turn facts about
one step into facts about whole runs.
-/

namespace Hbcur
namespace Foundation

variable {state op answer ghost abstract : Type}

/-- Run a list of operations, collecting the answers. -/
def run (step : state -> op -> Option (answer × state)) :
    state -> List op -> Option (List answer × state)
  | s, [] => some ([], s)
  | s, o :: ops =>
      match step s o with
      | none => none
      | some (a, s') =>
          match run step s' ops with
          | none => none
          | some (as, s'') => some (a :: as, s'')

theorem run_cons_of_step {step : state -> op -> Option (answer × state)}
    {s s' s'' : state} {o : op} {ops : List op} {a : answer} {as : List answer}
    (hstep : step s o = some (a, s')) (hrun : run step s' ops = some (as, s'')) :
    run step s (o :: ops) = some (a :: as, s'') := by
  simp only [run, hstep, hrun]

/-- Follow a guard along a list of operations. -/
def guardRun (guard : ghost -> op -> Option ghost) : ghost -> List op -> Option ghost
  | g, [] => some g
  | g, o :: ops =>
      match guard g o with
      | none => none
      | some g' => guardRun guard g' ops

theorem guardRun_cons {guard : ghost -> op -> Option ghost} {g g'' : ghost} {o : op}
    {ops : List op} (h : guardRun guard g (o :: ops) = some g'') :
    exists g', guard g o = some g' ∧ guardRun guard g' ops = some g'' := by
  unfold guardRun at h
  cases hg : guard g o with
  | none =>
      rw [hg] at h
      cases h
  | some g' =>
      rw [hg] at h
      exact ⟨g', rfl, h⟩

/-- Run a total abstract machine on the same operations. -/
def abstractRun (astep : abstract -> op -> answer × abstract) :
    abstract -> List op -> List answer × abstract
  | x, [] => ([], x)
  | x, o :: ops =>
      ((astep x o).1 :: (abstractRun astep (astep x o).2 ops).1,
        (abstractRun astep (astep x o).2 ops).2)

/--
Forward simulation: if every permitted step has a result whose answer matches
the abstract one and which restores the relation, then every permitted run has a
result, all answers match and the relation holds at the end.
-/
theorem run_simulates
    {step : state -> op -> Option (answer × state)}
    {guard : ghost -> op -> Option ghost}
    {astep : abstract -> op -> answer × abstract}
    {rel : state -> ghost -> abstract -> Prop}
    {matched : answer -> answer -> Prop}
    (hstep : forall s g x o g', rel s g x -> guard g o = some g' ->
      exists a s', step s o = some (a, s') ∧ matched a (astep x o).1 ∧
        rel s' g' (astep x o).2) :
    forall (ops : List op) (s : state) (g : ghost) (x : abstract) (g' : ghost),
      rel s g x -> guardRun guard g ops = some g' ->
      exists as s', run step s ops = some (as, s') ∧
        List.Forall₂ matched as (abstractRun astep x ops).1 ∧
        rel s' g' (abstractRun astep x ops).2 := by
  intro ops
  induction ops with
  | nil =>
      intro s g x g' hrel hguard
      have hg : g = g' := by
        simpa [guardRun] using hguard
      subst hg
      exact ⟨[], s, rfl, List.Forall₂.nil, hrel⟩
  | cons o ops ih =>
      intro s g x g' hrel hguard
      rcases guardRun_cons hguard with ⟨g1, hg1, hrest⟩
      rcases hstep s g x o g1 hrel hg1 with ⟨a, s1, hs1, hmatch, hrel1⟩
      rcases ih s1 g1 (astep x o).2 g' hrel1 hrest with ⟨as, s2, hrun, hmatches, hrel2⟩
      exact ⟨a :: as, s2, run_cons_of_step hs1 hrun,
        List.Forall₂.cons hmatch hmatches, hrel2⟩

/-!
# Reachable states

States reached by steps all of which satisfy a condition on the state before
them and on their input.
-/

inductive Reachable (next : state -> op -> state -> Prop)
    (admitted : state -> op -> Prop) (init : state) : state -> Prop where
  | start : Reachable next admitted init init
  | step {s s' : state} {o : op} :
      Reachable next admitted init s -> admitted s o -> next s o s' ->
      Reachable next admitted init s'

theorem invariant_of_reachable {next : state -> op -> state -> Prop}
    {admitted : state -> op -> Prop} {init : state} {inv : state -> Prop}
    (hinit : inv init)
    (hstep : forall s o s', inv s -> admitted s o -> next s o s' -> inv s')
    {s : state} (hreach : Reachable next admitted init s) : inv s := by
  induction hreach with
  | start => exact hinit
  | step _ hadmitted hnext ih => exact hstep _ _ _ ih hadmitted hnext

/-- A partial step function, run over a list of operations. -/
theorem reachable_of_foldlM {step : state -> op -> Option state} {init : state} :
    forall (ops : List op) (s s' : state),
      Reachable (fun s o s' => step s o = some s') (fun _ _ => True) init s ->
      ops.foldlM step s = some s' ->
      Reachable (fun s o s' => step s o = some s') (fun _ _ => True) init s' := by
  intro ops
  induction ops with
  | nil =>
      intro s s' hreach hrun
      cases hrun
      exact hreach
  | cons o ops ih =>
      intro s s' hreach hrun
      rw [List.foldlM_cons, Option.bind_eq_bind, Option.bind_eq_some_iff] at hrun
      rcases hrun with ⟨s1, hstep, hrest⟩
      exact ih s1 s' (hreach.step trivial hstep) hrest

/-- A loop over a list keeps what each round gives the next, and knows which rounds are done. -/
theorem foldl_invariant {item : Type} {next : state -> item -> state}
    (inv : List item -> state -> Prop) (xs : List item) {s : state} (hinit : inv [] s)
    (hstep : forall done x rest s, xs = done ++ x :: rest -> inv done s ->
      inv (done ++ [x]) (next s x)) : inv xs (xs.foldl next s) := by
  have hall : forall (rest done : List item) (s : state), xs = done ++ rest -> inv done s ->
      inv xs (rest.foldl next s) := by
    intro rest
    induction rest with
    | nil =>
        intro done s hxs hinv
        rw [List.append_nil] at hxs
        rw [hxs]
        exact hinv
    | cons x rest ih =>
        intro done s hxs hinv
        apply ih (done ++ [x])
        · rw [hxs, List.append_assoc, List.singleton_append]
        · exact hstep done x rest s hxs hinv
  exact hall xs [] s rfl hinit

/-!
# Along a run

A run of a total machine, with what holds of the states it goes through and of its steps.
-/

section Along

variable {next : state -> op -> state} {P : state -> Prop} {Q Q' : state -> op -> Prop}

/-- The condition holds of every state of the run, the first one included. -/
def StatesSatisfy (next : state -> op -> state) (P : state -> Prop) :
    state -> List op -> Prop
  | s, [] => P s
  | s, o :: ops => P s ∧ StatesSatisfy next P (next s o) ops

/-- The condition holds of every step of the run and the state before it. -/
def StepsSatisfy (next : state -> op -> state) (Q : state -> op -> Prop) :
    state -> List op -> Prop
  | _, [] => True
  | s, o :: ops => Q s o ∧ StepsSatisfy next Q (next s o) ops

theorem StatesSatisfy.head {s : state} {ops : List op} (h : StatesSatisfy next P s ops) :
    P s := by
  cases ops with
  | nil => exact h
  | cons o ops => exact h.1

/-- The condition holds at the end. -/
theorem StatesSatisfy.foldl {s : state} {ops : List op} (h : StatesSatisfy next P s ops) :
    P (ops.foldl next s) := by
  induction ops generalizing s with
  | nil => exact h
  | cons o ops ih => exact ih h.2

/-- An invariant which the admitted steps keep. -/
theorem statesSatisfy_of_steps (inv : state -> Prop) (himp : forall s, inv s -> P s)
    (hstep : forall s o, inv s -> Q s o -> inv (next s o)) :
    forall (ops : List op) (s : state), inv s -> StepsSatisfy next Q s ops ->
      StatesSatisfy next P s ops := by
  intro ops
  induction ops with
  | nil => exact fun s hinv _ => himp s hinv
  | cons o ops ih =>
      intro s hinv h
      exact ⟨himp s hinv, ih (next s o) (hstep s o hinv h.1) h.2⟩

/-- An invariant which all steps keep. -/
theorem statesSatisfy_of_invariant (hstep : forall s o, P s -> P (next s o)) :
    forall (ops : List op) (s : state), P s -> StatesSatisfy next P s ops := by
  intro ops
  induction ops with
  | nil => exact fun s h => h
  | cons o ops ih => exact fun s h => ⟨h, ih (next s o) (hstep s o h)⟩

/-- The states are good exactly when the steps are admitted, if a bad step shows at once. -/
theorem statesSatisfy_iff_steps (inv : state -> Prop) (himp : forall s, inv s -> P s)
    (hstep : forall s o, inv s -> Q s o -> inv (next s o))
    (hback : forall s o, inv s -> P (next s o) -> Q s o) :
    forall (ops : List op) (s : state), inv s ->
      (StatesSatisfy next P s ops <-> StepsSatisfy next Q s ops) := by
  intro ops
  induction ops with
  | nil => exact fun s hinv => iff_of_true (himp s hinv) trivial
  | cons o ops ih =>
      intro s hinv
      constructor
      · intro h
        have hq := hback s o hinv h.2.head
        exact ⟨hq, (ih (next s o) (hstep s o hinv hq)).mp h.2⟩
      · intro h
        exact ⟨himp s hinv, (ih (next s o) (hstep s o hinv h.1)).mpr h.2⟩

/-- What admitted steps do in states which satisfy an invariant. -/
theorem StepsSatisfy.imp (inv : state -> Prop)
    (hstep : forall s o, inv s -> Q s o -> Q' s o ∧ inv (next s o)) :
    forall (ops : List op) (s : state), inv s -> StepsSatisfy next Q s ops ->
      StepsSatisfy next Q' s ops := by
  intro ops
  induction ops with
  | nil => exact fun _ _ _ => trivial
  | cons o ops ih =>
      intro s hinv h
      rcases hstep s o hinv h.1 with ⟨hq, hnext⟩
      exact ⟨hq, ih (next s o) hnext h.2⟩

theorem stepsSatisfy_congr (h : forall s o, Q s o <-> Q' s o) (ops : List op) (s : state) :
    StepsSatisfy next Q s ops <-> StepsSatisfy next Q' s ops := by
  induction ops generalizing s with
  | nil => exact Iff.rfl
  | cons o ops ih => exact and_congr (h s o) (ih (next s o))

end Along

/-!
# Inert operations

Operations which can be left out of a run, except that they may leave a mark.  No other
operation of a run may leave the mark in the run without the inert ones.
-/

section Inert

variable (next : state -> op -> state) (rel : state -> state -> Prop) (marked : state -> Prop)
  (inert : op -> Bool) (marks : op -> Prop)

theorem marked_foldl (hkeep : forall s o, marked s -> marked (next s o)) (ops : List op)
    {s : state} (h : marked s) : marked (ops.foldl next s) := by
  induction ops generalizing s with
  | nil => exact h
  | cons o ops ih => exact ih (hkeep s o h)

theorem foldl_inert (hkeep : forall s o, marked s -> marked (next s o))
    (hinert : forall s s' o, inert o = true -> rel s s' ->
      rel s (next s' o) ∧ (marked (next s' o) <-> marked s' ∨ marks o))
    (hother : forall s s' o, inert o = false -> rel s s' -> ¬ marked (next s o) ->
      rel (next s o) (next s' o) ∧ (marked (next s' o) <-> marked s')) :
    forall (ops : List op) (s s' : state), rel s s' ->
      ¬ marked ((ops.filter fun o => !inert o).foldl next s) ->
      rel ((ops.filter fun o => !inert o).foldl next s) (ops.foldl next s') ∧
        (marked (ops.foldl next s') <->
          marked s' ∨ exists o, o ∈ ops ∧ inert o = true ∧ marks o) := by
  intro ops
  induction ops with
  | nil =>
      intro s s' hrel _
      refine ⟨hrel, ?_⟩
      simp
  | cons o ops ih =>
      intro s s' hrel hfinal
      rw [List.foldl_cons]
      cases hcase : inert o with
      | true =>
          have hdrop : (o :: ops).filter (fun o => !inert o) = ops.filter fun o => !inert o := by
            rw [List.filter_cons_of_neg (by simp [hcase])]
          rw [hdrop] at hfinal ⊢
          rcases hinert s s' o hcase hrel with ⟨hrel', hmark⟩
          rcases ih s (next s' o) hrel' hfinal with ⟨hend, hmarked⟩
          refine ⟨hend, ?_⟩
          rw [hmarked, hmark, or_assoc]
          simp only [List.mem_cons, or_and_right, exists_or, exists_eq_left, hcase, true_and]
      | false =>
          have hstay : (o :: ops).filter (fun o => !inert o) =
              o :: ops.filter fun o => !inert o := by
            rw [List.filter_cons_of_pos (by simp [hcase])]
          rw [hstay, List.foldl_cons] at hfinal ⊢
          have hnow : ¬ marked (next s o) := fun h => hfinal (marked_foldl next marked hkeep _ h)
          rcases hother s s' o hcase hrel hnow with ⟨hrel', hmark⟩
          rcases ih (next s o) (next s' o) hrel' hfinal with ⟨hend, hmarked⟩
          refine ⟨hend, ?_⟩
          rw [hmarked, hmark]
          simp only [List.mem_cons, or_and_right, exists_or, exists_eq_left, hcase,
            Bool.false_eq_true, false_and, false_or]

end Inert

end Foundation
end Hbcur
