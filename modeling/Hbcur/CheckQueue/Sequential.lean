import Hbcur.Foundation.Run
import Hbcur.CheckQueue.State

/-!
# Checking in parallel and in sequence

The schedules of one master and any number of workers, for any sequence of blocks.
-/

namespace Hbcur
namespace CheckQueue

open Foundation

variable {check : Type}

/-!
# Runs
-/

namespace Master

/-- The master's own thread while it is inside `Wait`. -/
def threads : Master check -> List (Phase check)
  | inLoop _ phase => [phase]
  | _ => []

/-- How far the master's block has come. -/
def Agrees (h : History check) : Master check -> Prop
  | outside => h = History.empty
  | adding block batches => h.added ++ batches.flatten = block.checks
  | inLoop block _ => h.added = block.checks

end Master

def System.threads (s : System check) : List (Phase check) :=
  s.master.threads ++ s.workers

/-- A finished block was checked completely and with the right result. -/
structure Finished.Sequential (eval : check -> Bool) (f : Finished check) : Prop where
  accounted : Accounted eval f.history f.fRet
  complete : f.history.added = f.block.checks

structure Invariant (eval : check -> Bool) (s : System check) : Prop where
  kept : Kept eval s.pool s.history s.threads 0
  agrees : s.master.Agrees s.history
  finished : forall f, f ∈ s.finished -> f.Sequential eval

section Runs

variable {eval : check -> Bool} {s s' : System check}

theorem kept_new (nBatchSize : Nat) :
    Kept eval (CCheckQueue.new nBatchSize) History.empty [] 0 where
  wellFormed := fun t hmem => absurd hmem List.not_mem_nil
  running := rfl
  places := List.Perm.nil
  processed := List.Perm.nil
  nTodo_eq := rfl
  nTotal_eq := rfl
  nIdle_eq := rfl
  flags := by simp [CCheckQueue.new, History.empty]
  skipping := Or.inl rfl
  small := Nat.zero_lt_succ _

theorem invariant_init (nBatchSize nWorkers : Nat) :
    Invariant eval (System.init nBatchSize nWorkers) where
  kept := by
    induction nWorkers with
    | zero => exact kept_new nBatchSize
    | succ nWorkers ih => exact ih.call
  agrees := rfl
  finished := fun f hmem => absurd hmem List.not_mem_nil

/-- Nothing is left to do between two blocks. -/
theorem Invariant.outside (hinv : Invariant eval s) (hmaster : s.master = Master.outside) :
    s.pool.queue = [] ∧ s.pool.fAllOk = true ∧ s.pool.isIdle = true := by
  have hagrees := hinv.agrees
  have hkept := hinv.kept
  rw [hmaster] at hagrees
  rw [show s.history = History.empty from hagrees] at hkept
  rcases hkept.nothing_queued with ⟨hqueue, htodo⟩
  have hflag : s.pool.fAllOk = true :=
    (hkept.flags.mpr fun c hmem => absurd hmem List.not_mem_nil).1
  have hcounts : s.threads.countP Phase.isInLoop = s.threads.countP Phase.isWaiting := by
    apply List.countP_congr
    intro t hmem
    rcases hkept.resting htodo t hmem with rfl | rfl
    · exact Iff.rfl
    · exact Iff.rfl
  have hidle : s.pool.nTotal = s.pool.nIdle := by
    rw [hkept.nTotal_eq, hkept.nIdle_eq, hcounts, Nat.add_zero]
  exact ⟨hqueue, hflag, by simp [CCheckQueue.isIdle, hidle, htodo, hflag]⟩

/-- The steps of the master before it joins the workers. -/
theorem invariant_control {block : Block check} (hinv : Invariant eval s)
    (hmaster : s.master = Master.outside) :
    Invariant eval { s with master := Master.adding block block.batches } where
  kept := by
    have hkept := hinv.kept
    rw [System.threads, hmaster] at hkept
    exact hkept
  agrees := by
    have hagrees := hinv.agrees
    rw [hmaster] at hagrees
    show s.history.added ++ block.batches.flatten = block.checks
    rw [show s.history = History.empty from hagrees]
    rfl
  finished := hinv.finished

theorem invariant_add {block : Block check} {vChecks : List check} {batches : List (List check)}
    (hinv : Invariant eval s) (hmaster : s.master = Master.adding block (vChecks :: batches)) :
    Invariant eval { s with
      pool := s.pool.add vChecks
      history := { s.history with added := s.history.added ++ vChecks }
      master := Master.adding block batches } := by
  have hagrees := hinv.agrees
  have hkept := hinv.kept
  rw [hmaster] at hagrees
  rw [System.threads, hmaster] at hkept
  have hprogram : s.history.added ++ vChecks ++ batches.flatten = block.checks := by
    rw [List.append_assoc]
    exact hagrees
  have hsmall : (s.history.added ++ vChecks).length < uintModulus := by
    have hblock : block.checks.length < uintModulus := block.small
    rw [← hprogram, List.length_append] at hblock
    omega
  exact ⟨hkept.add hsmall, hprogram, hinv.finished⟩

theorem invariant_wait {block : Block check} (hinv : Invariant eval s)
    (hmaster : s.master = Master.adding block []) :
    Invariant eval { s with master := Master.inLoop block Phase.entering } where
  kept := by
    have hkept := hinv.kept
    rw [System.threads, hmaster] at hkept
    exact hkept.call
  agrees := by
    have hagrees := hinv.agrees
    rw [hmaster] at hagrees
    simpa [Master.Agrees] using hagrees
  finished := hinv.finished

/-- A step of the master inside `Wait`, which may end the block. -/
theorem invariant_master {block : Block check} {phase : Phase check} (hinv : Invariant eval s)
    (hmaster : s.master = Master.inLoop block phase)
    (hstep : step eval s Action.master = some s') : Invariant eval s' := by
  have hagrees := hinv.agrees
  have hkept := hinv.kept
  rw [hmaster] at hagrees
  rw [System.threads, hmaster] at hkept
  have hadded : s.history.added = block.checks := hagrees
  simp only [step, hmaster] at hstep
  rcases hloop : loopStep eval true s.pool s.history phase with ⟨pool, history, phase'⟩
  rw [hloop] at hstep
  rcases loopStep_spec hkept true with ⟨_, hreturns⟩ | hcontinues
  · rw [hloop] at hreturns
    rcases hreturns with ⟨hsame, q', hkept', hqueue, htodo, hpool, hphase⟩
    dsimp only at hsame hkept' hpool hphase
    subst hphase hpool
    cases hstep
    constructor
    case kept => exact hkept'.renew hqueue htodo
    case agrees => rfl
    case finished =>
      rw [List.forall_mem_cons]
      exact ⟨⟨hkept'.accounted hqueue htodo, hsame.trans hadded⟩, hinv.finished⟩
  · rw [hloop] at hcontinues
    rcases hcontinues with ⟨hsame, hstays, hnext⟩
    dsimp only at hsame hstays hnext
    cases phase' with
    | returned fRet => exact absurd rfl (hstays fRet)
    | entering =>
        cases hstep
        exact ⟨hnext, hsame.trans hadded, hinv.finished⟩
    | waiting =>
        cases hstep
        exact ⟨hnext, hsame.trans hadded, hinv.finished⟩
    | executing nNow fOk vChecks next =>
        cases hstep
        exact ⟨hnext, hsame.trans hadded, hinv.finished⟩

/-- A thread without a batch leaves no trace in the history. -/
theorem loopStep_history (eval : check -> Bool) (q : CCheckQueue check) (h : History check)
    {phase : Phase check} (hresting : phase = Phase.entering ∨ phase = Phase.waiting)
    (fMaster : Bool) :
    (loopStep eval fMaster q h phase).2.1 = h := by
  rcases hresting with rfl | rfl
  · rfl
  · rfl

theorem invariant_worker {i : Nat} (hinv : Invariant eval s)
    (hstep : step eval s (Action.worker i) = some s') : Invariant eval s' := by
  simp only [step] at hstep
  cases hphase : s.workers[i]? with
  | none =>
      rw [hphase] at hstep
      cases hstep
  | some phase =>
      rcases List.getElem?_eq_some_iff.mp hphase with ⟨hi, rfl⟩
      simp only [hphase] at hstep
      have hhere : s.threads.Perm
          (s.workers[i] :: (s.master.threads ++ s.workers.eraseIdx i)) :=
        (List.Perm.append_left _ (List.getElem_cons_eraseIdx_perm hi).symm).trans
          List.perm_middle
      have hkept := hinv.kept.perm hhere
      have hagrees := hinv.agrees
      rcases hloop : loopStep eval false s.pool s.history s.workers[i] with
        ⟨pool, history, phase'⟩
      rw [hloop] at hstep
      cases hstep
      rcases loopStep_spec hkept false with ⟨hfalse, _⟩ | hcontinues
      · cases hfalse
      rw [hloop] at hcontinues
      rcases hcontinues with ⟨hsame, _, hnext⟩
      dsimp only at hsame hnext
      have hthere : (s.master.threads ++ s.workers.set i phase').Perm
          (phase' :: (s.master.threads ++ s.workers.eraseIdx i)) :=
        (List.Perm.append_left _ (List.set_perm_cons_eraseIdx hi phase')).trans List.perm_middle
      constructor
      case kept => exact hnext.perm hthere.symm
      case agrees =>
        show s.master.Agrees history
        cases hmaster : s.master with
        | outside =>
            rw [hmaster] at hagrees
            have hempty : s.history = History.empty := hagrees
            have hrest := hkept
            rw [hempty] at hrest
            have hhistory := loopStep_history eval s.pool s.history
              (hrest.resting hrest.nothing_queued.2 _ List.mem_cons_self) false
            rw [hloop] at hhistory
            exact hhistory.trans hempty
        | adding block batches =>
            rw [hmaster] at hagrees
            show history.added ++ batches.flatten = block.checks
            rw [hsame]
            exact hagrees
        | inLoop block phase =>
            rw [hmaster] at hagrees
            exact hsame.trans hagrees
      case finished => exact hinv.finished

theorem invariant_step {action : Action check} (hinv : Invariant eval s)
    (hstep : step eval s action = some s') : Invariant eval s' := by
  cases action with
  | control block =>
      cases hmaster : s.master with
      | outside =>
          simp only [step, hmaster, (hinv.outside hmaster).2.2, if_true, Option.some.injEq] at hstep
          rw [← hstep]
          exact invariant_control hinv hmaster
      | adding block' batches => simp [step, hmaster] at hstep
      | inLoop block' phase => simp [step, hmaster] at hstep
  | add =>
      cases hmaster : s.master with
      | outside => simp [step, hmaster] at hstep
      | adding block batches =>
          cases batches with
          | nil => simp [step, hmaster] at hstep
          | cons vChecks batches =>
              simp only [step, hmaster, Option.some.injEq] at hstep
              rw [← hstep]
              exact invariant_add hinv hmaster
      | inLoop block phase => simp [step, hmaster] at hstep
  | wait =>
      cases hmaster : s.master with
      | outside => simp [step, hmaster] at hstep
      | adding block batches =>
          cases batches with
          | nil =>
              simp only [step, hmaster, Option.some.injEq] at hstep
              rw [← hstep]
              exact invariant_wait hinv hmaster
          | cons vChecks batches => simp [step, hmaster] at hstep
      | inLoop block phase => simp [step, hmaster] at hstep
  | master =>
      cases hmaster : s.master with
      | outside => simp [step, hmaster] at hstep
      | adding block batches => simp [step, hmaster] at hstep
      | inLoop block phase => exact invariant_master hinv hmaster hstep
  | worker i => exact invariant_worker hinv hstep

/-- The states of all schedules. -/
def Scheduled (eval : check -> Bool) (nBatchSize nWorkers : Nat) (s : System check) : Prop :=
  Reachable (fun s action s' => step eval s action = some s') (fun _ _ => True)
    (System.init nBatchSize nWorkers) s

theorem invariant_of_scheduled {nBatchSize nWorkers : Nat}
    (hreach : Scheduled eval nBatchSize nWorkers s) : Invariant eval s :=
  invariant_of_reachable (invariant_init nBatchSize nWorkers)
    (fun _ _ _ hinv _ hstep => invariant_step hinv hstep) hreach

end Runs

/-- What the checks of a state have to show for the parallel checking to be sequential. -/
structure ChecksInParallel (eval : check -> Bool) (s : System check) : Prop where
  /-- Queued plus taken but not reported. -/
  nTodo_eq : s.pool.nTodo = s.pool.queue.length + (s.threads.map fun t => t.vChecks.length).sum
  /-- No check is lost or in two places. -/
  places : s.history.added.Perm
    (s.pool.queue ++ s.threads.flatMap Phase.vChecks ++ s.history.reported)
  /-- No check is executed or skipped twice, and none before it is taken. -/
  processed : (s.history.evaluated ++ s.history.skipped).Perm
    (s.threads.flatMap Phase.processed ++ s.history.reported)
  /-- A block whose `Wait` has returned. -/
  finished : forall f, f ∈ s.finished ->
    f.history.reported.Perm f.block.checks ∧
    (f.history.evaluated ++ f.history.skipped).Perm f.block.checks ∧
    f.fRet = f.block.checks.all eval
  /-- The queue is ready for the next block, and the assertion of its controller holds. -/
  outside : s.master = Master.outside ->
    s.pool.queue = [] ∧ s.pool.fAllOk = true ∧ s.pool.isIdle = true

/-- Every schedule of the master and any number of workers checks each block as a sequential
run over its checks would. -/
theorem checksInParallel_of_scheduled (eval : check -> Bool) (nBatchSize nWorkers : Nat)
    (s : System check) (hreach : Scheduled eval nBatchSize nWorkers s) :
    ChecksInParallel eval s := by
  have hinv := invariant_of_scheduled hreach
  have hkept := hinv.kept
  constructor
  case nTodo_eq =>
    have htodo := hkept.nTodo_eq
    rw [List.length_flatMap] at htodo
    exact htodo
  case places =>
    have hplaces := hkept.places
    rw [List.append_assoc] at hplaces ⊢
    exact hplaces.trans (List.Perm.append_left _ List.perm_append_comm)
  case processed => exact hkept.processed.trans List.perm_append_comm
  case finished =>
    intro f hmem
    rcases hinv.finished f hmem with ⟨⟨hreported, hprocessed, hresult⟩, hcomplete⟩
    rw [hcomplete] at hreported hprocessed hresult
    exact ⟨hreported, hprocessed, hresult⟩
  case outside => exact fun hmaster => hinv.outside hmaster

/-- Two batches, with one check which fails. -/
def exampleBlock : Block Nat := ⟨[[2, 3], [13]], by decide⟩

/-- The worker takes one check, the master the others. -/
def exampleSchedule : List (Action Nat) :=
  [Action.worker 0, Action.control exampleBlock, Action.add, Action.worker 0, Action.add,
    Action.wait, Action.master, Action.master, Action.master, Action.master, Action.worker 0,
    Action.worker 0, Action.master]

def exampleEnd : System Nat :=
  (exampleSchedule.foldlM (step fun n => decide (n ≠ 13)) (System.init 128 1)).getD
    (System.init 128 1)

theorem checksInParallel_of_example :
    exampleEnd.master = Master.outside ∧ exampleEnd.finished.map Finished.fRet = [false] ∧
    ChecksInParallel (fun n => decide (n ≠ 13)) exampleEnd :=
  ⟨by decide, by decide, checksInParallel_of_scheduled _ 128 1 exampleEnd
    (reachable_of_foldlM exampleSchedule _ _ Reachable.start rfl)⟩

end CheckQueue
end Hbcur
