import Mathlib.Algebra.Order.Group.Multiset
import Mathlib.Tactic.Abel

/-!
# The check queue

`CCheckQueue` and `CCheckQueueControl` of `checkqueue.h`: one master pushes batches of checks,
worker threads take them and report the result of whole batches, and the master joins the workers
until nothing is left.  The critical sections are atomic; a waiting thread may wake up at any time.
-/

namespace Hbcur
namespace CheckQueue

variable {check : Type}

structure CCheckQueue (check : Type) where
  /-- A stack whose top is at the end. -/
  queue : List check
  nIdle : Nat
  nTotal : Nat
  fAllOk : Bool
  nTodo : Nat
  fQuit : Bool
  nBatchSize : Nat
  deriving DecidableEq, Repr

/-- The range of `unsigned int`. -/
def uintModulus : Nat := 4294967296

/-- The place of a thread between two critical sections of `Loop`. -/
inductive Phase (check : Type) where
  | entering
  | waiting
  | executing (nNow : Nat) (fOk : Bool) (vChecks : List check) (next : Nat)
  | returned (fRet : Bool)
  deriving DecidableEq, Repr

/-- What has happened to the checks of the current block. -/
structure History (check : Type) where
  added : List check
  evaluated : List check
  skipped : List check
  reported : List check
  deriving DecidableEq, Repr

namespace History

def empty : History check := ⟨[], [], [], []⟩

end History

namespace CCheckQueue

def new (nBatchSizeIn : Nat) : CCheckQueue check where
  queue := []
  nIdle := 0
  nTotal := 0
  fAllOk := true
  nTodo := 0
  fQuit := false
  nBatchSize := nBatchSizeIn

def add (q : CCheckQueue check) (vChecks : List check) : CCheckQueue check :=
  { q with
    queue := q.queue ++ vChecks
    nTodo := (q.nTodo + vChecks.length) % uintModulus }

def isIdle (q : CCheckQueue check) : Bool :=
  q.nTotal == q.nIdle && q.nTodo == 0 && q.fAllOk

/-- How many checks to take now. -/
def takeSize (q : CCheckQueue check) : Nat :=
  max 1 (min q.nBatchSize (q.queue.length % uintModulus / (q.nTotal + q.nIdle + 1)))

/-- The clean-up of the previous batch. -/
def report (q : CCheckQueue check) (nNow : Nat) (fOk : Bool) : CCheckQueue check :=
  { q with
    fAllOk := q.fAllOk && fOk
    nTodo := (q.nTodo + (uintModulus - nNow % uintModulus)) % uintModulus }

/-- From `while (queue.empty())` to the end of the critical section. -/
def loopStart (q : CCheckQueue check) (fMaster : Bool) : CCheckQueue check × Phase check :=
  if q.queue.isEmpty then
    if (fMaster || q.fQuit) && q.nTodo == 0 then
      ({ q with
          nTotal := q.nTotal - 1
          fAllOk := if fMaster then true else q.fAllOk }, Phase.returned q.fAllOk)
    else ({ q with nIdle := q.nIdle + 1 }, Phase.waiting)
  else
    ({ q with queue := q.queue.take (q.queue.length - q.takeSize) },
      Phase.executing q.takeSize q.fAllOk (q.queue.reverse.take q.takeSize) 0)

end CCheckQueue

section Steps

variable (eval : check -> Bool)

/-- The next atomic step of a thread inside `Loop`: one critical section or one check. -/
def loopStep (fMaster : Bool) (q : CCheckQueue check) (h : History check) :
    Phase check -> CCheckQueue check × History check × Phase check
  | Phase.entering =>
      match ({ q with nTotal := q.nTotal + 1 } : CCheckQueue check).loopStart fMaster with
      | (q', phase) => (q', h, phase)
  | Phase.waiting =>
      match ({ q with nIdle := q.nIdle - 1 } : CCheckQueue check).loopStart fMaster with
      | (q', phase) => (q', h, phase)
  | Phase.executing nNow fOk vChecks next =>
      match vChecks[next]? with
      | some c =>
          if fOk then
            (q, { h with evaluated := c :: h.evaluated },
              Phase.executing nNow (eval c) vChecks (next + 1))
          else
            (q, { h with skipped := c :: h.skipped },
              Phase.executing nNow fOk vChecks (next + 1))
      | none =>
          match (q.report nNow fOk).loopStart fMaster with
          | (q', phase) => (q', { h with reported := vChecks ++ h.reported }, phase)
  | Phase.returned fRet => (q, h, Phase.returned fRet)

/-!
# The master and its workers
-/

/-- The batches which one block adds.  A block of at most `MAX_BLOCK_SIZE` bytes has far fewer
inputs to check than an `unsigned int` counts. -/
structure Block (check : Type) where
  batches : List (List check)
  small : batches.flatten.length < uintModulus
  deriving DecidableEq

namespace Block

def checks (block : Block check) : List check := block.batches.flatten

end Block

inductive Master (check : Type) where
  | outside
  | adding (block : Block check) (batches : List (List check))
  | inLoop (block : Block check) (phase : Phase check)
  deriving DecidableEq

/-- A block whose `Wait` has returned. -/
structure Finished (check : Type) where
  block : Block check
  history : History check
  fRet : Bool
  deriving DecidableEq

structure System (check : Type) where
  pool : CCheckQueue check
  workers : List (Phase check)
  master : Master check
  history : History check
  finished : List (Finished check)
  deriving DecidableEq

namespace System

def init (nBatchSize nWorkers : Nat) : System check where
  pool := CCheckQueue.new nBatchSize
  workers := List.replicate nWorkers Phase.entering
  master := Master.outside
  history := History.empty
  finished := []

end System

inductive Action (check : Type) where
  /-- The constructor of `CCheckQueueControl`, which asserts that the queue is idle. -/
  | control (block : Block check)
  | add
  | wait
  | master
  | worker (i : Nat)
  deriving DecidableEq

/-- One atomic step of the named thread, if it has one. -/
def step (s : System check) : Action check -> Option (System check)
  | Action.control block =>
      match s.master with
      | Master.outside =>
          if s.pool.isIdle then some { s with master := Master.adding block block.batches }
          else none
      | _ => none
  | Action.add =>
      match s.master with
      | Master.adding block (vChecks :: batches) =>
          some { s with
            pool := s.pool.add vChecks
            history := { s.history with added := s.history.added ++ vChecks }
            master := Master.adding block batches }
      | _ => none
  | Action.wait =>
      match s.master with
      | Master.adding block [] => some { s with master := Master.inLoop block Phase.entering }
      | _ => none
  | Action.master =>
      match s.master with
      | Master.inLoop block phase =>
          match loopStep eval true s.pool s.history phase with
          | (pool, history, Phase.returned fRet) =>
              some { s with
                pool
                master := Master.outside
                history := History.empty
                finished := ⟨block, history, fRet⟩ :: s.finished }
          | (pool, history, phase') =>
              some { s with pool, history, master := Master.inLoop block phase' }
      | _ => none
  | Action.worker i =>
      match s.workers[i]? with
      | none => none
      | some phase =>
          match loopStep eval false s.pool s.history phase with
          | (pool, history, phase') =>
              some { s with pool, history, workers := s.workers.set i phase' }

end Steps

end CheckQueue
end Hbcur

/-!
# The checks of a block

Whatever the schedule, every check of a block is in exactly one place: queued, taken by one thread
or reported.  The flag, together with the flags of the batches in work, says whether all checks
evaluated so far are good, and a check is skipped only after another one has failed.
-/

namespace Hbcur
namespace CheckQueue

variable {check : Type}

/-!
# What a thread holds
-/

namespace Phase

/-- The batch which is taken and not reported. -/
def vChecks : Phase check -> List check
  | executing _ _ vChecks _ => vChecks
  | _ => []

/-- The part of the batch which is evaluated or skipped. -/
def processed : Phase check -> List check
  | executing _ _ vChecks next => vChecks.take next
  | _ => []

def fOk : Phase check -> Bool
  | executing _ fOk _ _ => fOk
  | _ => true

def isInLoop : Phase check -> Bool
  | waiting => true
  | executing _ _ _ _ => true
  | _ => false

def isWaiting : Phase check -> Bool
  | waiting => true
  | _ => false

/-- A batch is never empty and `nNow` is its size; no thread is left outside its loop. -/
def WellFormed : Phase check -> Prop
  | executing nNow _ vChecks _ => nNow = vChecks.length ∧ vChecks ≠ []
  | returned _ => False
  | _ => True

end Phase

/-!
# The invariant
-/

/-- The queue, the history of the block and the threads fit together; `entered` threads are in
the loop and in no phase, which happens inside a critical section. -/
structure Kept (eval : check -> Bool) (q : CCheckQueue check) (h : History check)
    (threads : List (Phase check)) (entered : Nat) : Prop where
  wellFormed : forall t, t ∈ threads -> t.WellFormed
  running : q.fQuit = false
  places : h.added.Perm (q.queue ++ h.reported ++ threads.flatMap Phase.vChecks)
  processed : (h.evaluated ++ h.skipped).Perm (h.reported ++ threads.flatMap Phase.processed)
  nTodo_eq : q.nTodo = q.queue.length + (threads.flatMap Phase.vChecks).length
  nTotal_eq : q.nTotal = threads.countP Phase.isInLoop + entered
  nIdle_eq : q.nIdle = threads.countP Phase.isWaiting
  flags : (q.fAllOk = true ∧ forall t, t ∈ threads -> t.fOk = true) <->
    forall c, c ∈ h.evaluated -> eval c = true
  skipping : h.skipped = [] ∨ exists c, c ∈ h.evaluated ∧ eval c = false
  small : h.added.length < uintModulus

section Sections

variable {eval : check -> Bool} {q : CCheckQueue check} {h : History check}
  {threads threads' : List (Phase check)} {entered : Nat}

theorem Kept.perm (hkept : Kept eval q h threads entered) (hperm : threads.Perm threads') :
    Kept eval q h threads' entered where
  wellFormed := fun t hmem => hkept.wellFormed t (hperm.mem_iff.mpr hmem)
  running := hkept.running
  places := hkept.places.trans (List.Perm.append_left _ (hperm.flatMap_right _))
  processed := hkept.processed.trans (List.Perm.append_left _ (hperm.flatMap_right _))
  nTodo_eq := by rw [hkept.nTodo_eq, (hperm.flatMap_right _).length_eq]
  nTotal_eq := by rw [hkept.nTotal_eq, hperm.countP_eq]
  nIdle_eq := by rw [hkept.nIdle_eq, hperm.countP_eq]
  flags := by
    rw [← hkept.flags]
    simp only [hperm.mem_iff]
  skipping := hkept.skipping
  small := hkept.small

/-!
# The critical sections
-/

/-- The first iteration counts the thread. -/
theorem Kept.enter (hkept : Kept eval q h (Phase.entering :: threads) 0) :
    Kept eval { q with nTotal := q.nTotal + 1 } h threads 1 where
  wellFormed := fun t hmem => hkept.wellFormed t (List.mem_cons_of_mem _ hmem)
  running := hkept.running
  places := hkept.places
  processed := hkept.processed
  nTodo_eq := hkept.nTodo_eq
  nTotal_eq := congrArg (fun n => n + 1) hkept.nTotal_eq
  nIdle_eq := hkept.nIdle_eq
  flags := by
    have hflags := hkept.flags
    rw [List.forall_mem_cons] at hflags
    simpa [Phase.fOk] using hflags
  skipping := hkept.skipping
  small := hkept.small

theorem Kept.wake (hkept : Kept eval q h (Phase.waiting :: threads) 0) :
    Kept eval { q with nIdle := q.nIdle - 1 } h threads 1 where
  wellFormed := fun t hmem => hkept.wellFormed t (List.mem_cons_of_mem _ hmem)
  running := hkept.running
  places := hkept.places
  processed := hkept.processed
  nTodo_eq := hkept.nTodo_eq
  nTotal_eq := by
    have htotal := hkept.nTotal_eq
    rw [List.countP_cons_of_pos rfl] at htotal
    exact htotal
  nIdle_eq := by
    have hidle := hkept.nIdle_eq
    rw [List.countP_cons_of_pos rfl] at hidle
    show q.nIdle - 1 = _
    rw [hidle, Nat.add_sub_cancel]
  flags := by
    have hflags := hkept.flags
    rw [List.forall_mem_cons] at hflags
    simpa [Phase.fOk] using hflags
  skipping := hkept.skipping
  small := hkept.small

theorem Kept.report {nNow next : Nat} {fOk : Bool} {vChecks : List check}
    (hkept : Kept eval q h (Phase.executing nNow fOk vChecks next :: threads) 0)
    (hdone : vChecks.length ≤ next) :
    Kept eval (q.report nNow fOk) { h with reported := vChecks ++ h.reported } threads 1 where
  wellFormed := fun t hmem => hkept.wellFormed t (List.mem_cons_of_mem _ hmem)
  running := hkept.running
  places := by
    have hplaces := hkept.places
    rw [List.flatMap_cons, ← Multiset.coe_eq_coe] at hplaces
    rw [← Multiset.coe_eq_coe, hplaces]
    simp only [← Multiset.coe_add, Phase.vChecks, CCheckQueue.report]
    abel
  processed := by
    have hprocessed := hkept.processed
    rw [List.flatMap_cons, ← Multiset.coe_eq_coe] at hprocessed
    rw [← Multiset.coe_eq_coe, hprocessed]
    simp only [← Multiset.coe_add, Phase.processed, List.take_of_length_le hdone]
    abel
  nTodo_eq := by
    have htodo := hkept.nTodo_eq
    have hsize := (hkept.wellFormed _ List.mem_cons_self).1
    have hplaces := hkept.places.length_eq
    have hsmall := hkept.small
    rw [List.flatMap_cons] at htodo hplaces
    simp only [List.length_append, Phase.vChecks] at htodo hplaces
    simp only [CCheckQueue.report, uintModulus] at hsmall ⊢
    omega
  nTotal_eq := by
    have htotal := hkept.nTotal_eq
    rw [List.countP_cons_of_pos rfl] at htotal
    exact htotal
  nIdle_eq := hkept.nIdle_eq
  flags := by
    have hflags := hkept.flags
    rw [List.forall_mem_cons] at hflags
    rw [← hflags]
    simp [CCheckQueue.report, Phase.fOk, and_assoc]
  skipping := hkept.skipping
  small := hkept.small

/-!
# Executing a check
-/

theorem take_succ_of_getElem? {vChecks : List check} {next : Nat} {c : check}
    (hc : vChecks[next]? = some c) : vChecks.take (next + 1) = vChecks.take next ++ [c] := by
  rw [List.take_add_one, hc, Option.toList_some]

/-- One check of a batch whose flag is still set. -/
theorem Kept.evaluate {nNow next : Nat} {vChecks : List check} {c : check}
    (hkept : Kept eval q h (Phase.executing nNow true vChecks next :: threads) 0)
    (hc : vChecks[next]? = some c) :
    Kept eval q { h with evaluated := c :: h.evaluated }
      (Phase.executing nNow (eval c) vChecks (next + 1) :: threads) 0 where
  wellFormed := by
    have hwell := hkept.wellFormed
    rw [List.forall_mem_cons] at hwell ⊢
    exact hwell
  running := hkept.running
  places := hkept.places
  processed := by
    have hprocessed := hkept.processed
    rw [List.flatMap_cons, ← Multiset.coe_eq_coe] at hprocessed
    rw [List.flatMap_cons, ← Multiset.coe_eq_coe, List.cons_append, ← Multiset.cons_coe, hprocessed,
      ← Multiset.singleton_add, ← Multiset.coe_singleton]
    simp only [← Multiset.coe_add, Phase.processed, take_succ_of_getElem? hc]
    abel
  nTodo_eq := hkept.nTodo_eq
  nTotal_eq := hkept.nTotal_eq
  nIdle_eq := hkept.nIdle_eq
  flags := by
    have hflags := hkept.flags
    rw [List.forall_mem_cons] at hflags ⊢
    rw [List.forall_mem_cons, ← hflags]
    simp only [Phase.fOk, true_and]
    tauto
  skipping := by
    rcases hkept.skipping with hnone | ⟨c', hmem, hbad⟩
    · exact Or.inl hnone
    · exact Or.inr ⟨c', List.mem_cons_of_mem c hmem, hbad⟩
  small := hkept.small

/-- One check of a batch whose flag is cleared, which shows that a check has failed. -/
theorem Kept.skip {nNow next : Nat} {vChecks : List check} {c : check}
    (hkept : Kept eval q h (Phase.executing nNow false vChecks next :: threads) 0)
    (hc : vChecks[next]? = some c) :
    Kept eval q { h with skipped := c :: h.skipped }
      (Phase.executing nNow false vChecks (next + 1) :: threads) 0 where
  wellFormed := by
    have hwell := hkept.wellFormed
    rw [List.forall_mem_cons] at hwell ⊢
    exact hwell
  running := hkept.running
  places := hkept.places
  processed := by
    have hprocessed := hkept.processed
    rw [List.flatMap_cons, ← Multiset.coe_eq_coe, ← Multiset.coe_add] at hprocessed
    rw [List.flatMap_cons, ← Multiset.coe_eq_coe, ← Multiset.coe_add, ← Multiset.cons_coe,
      Multiset.add_cons, hprocessed, ← Multiset.singleton_add, ← Multiset.coe_singleton]
    simp only [← Multiset.coe_add, Phase.processed, take_succ_of_getElem? hc]
    abel
  nTodo_eq := hkept.nTodo_eq
  nTotal_eq := hkept.nTotal_eq
  nIdle_eq := hkept.nIdle_eq
  flags := by
    have hflags := hkept.flags
    rw [List.forall_mem_cons] at hflags ⊢
    exact hflags
  skipping := by
    apply Or.inr
    have hflags := hkept.flags
    rw [List.forall_mem_cons] at hflags
    have hbad : ¬ forall c', c' ∈ h.evaluated -> eval c' = true := by
      rw [← hflags]
      simp [Phase.fOk]
    simpa using hbad
  small := hkept.small

/-!
# The loop condition
-/

theorem takeSize_pos (q : CCheckQueue check) : 0 < q.takeSize :=
  Nat.lt_of_lt_of_le Nat.one_pos (Nat.le_max_left _ _)

theorem takeSize_le {q : CCheckQueue check} (hqueue : q.queue ≠ []) :
    q.takeSize ≤ q.queue.length := by
  have hlength := List.length_pos_of_ne_nil hqueue
  have hdiv := Nat.div_le_self (q.queue.length % uintModulus) (q.nTotal + q.nIdle + 1)
  have hmod := Nat.mod_le q.queue.length uintModulus
  unfold CCheckQueue.takeSize
  omega

theorem Kept.idle (hkept : Kept eval q h threads 1) :
    Kept eval { q with nIdle := q.nIdle + 1 } h (Phase.waiting :: threads) 0 where
  wellFormed := by
    rw [List.forall_mem_cons]
    exact ⟨trivial, hkept.wellFormed⟩
  running := hkept.running
  places := hkept.places
  processed := hkept.processed
  nTodo_eq := hkept.nTodo_eq
  nTotal_eq := by
    rw [List.countP_cons_of_pos rfl]
    exact hkept.nTotal_eq
  nIdle_eq := by
    rw [List.countP_cons_of_pos rfl]
    exact congrArg (fun n => n + 1) hkept.nIdle_eq
  flags := by
    rw [List.forall_mem_cons, ← hkept.flags]
    simp [Phase.fOk]
  skipping := hkept.skipping
  small := hkept.small

/-- The batch comes off the top of the queue. -/
theorem Kept.take (hkept : Kept eval q h threads 1) (hqueue : q.queue ≠ []) :
    Kept eval { q with queue := q.queue.take (q.queue.length - q.takeSize) } h
      (Phase.executing q.takeSize q.fAllOk (q.queue.reverse.take q.takeSize) 0 :: threads) 0 := by
  have hle := takeSize_le hqueue
  have hlength : (q.queue.reverse.take q.takeSize).length = q.takeSize := by
    rw [List.length_take, List.length_reverse, Nat.min_eq_left hle]
  have hsplit : (q.queue.take (q.queue.length - q.takeSize) ++
      q.queue.reverse.take q.takeSize).Perm q.queue := by
    rw [List.take_reverse]
    exact (List.Perm.append_left _ (List.reverse_perm _)).trans
      (List.Perm.of_eq (List.take_append_drop _ _))
  constructor
  case wellFormed =>
    rw [List.forall_mem_cons]
    exact ⟨⟨hlength.symm, List.ne_nil_of_length_pos (by rw [hlength]; exact takeSize_pos q)⟩,
      hkept.wellFormed⟩
  case running => exact hkept.running
  case places =>
    rw [List.flatMap_cons, ← Multiset.coe_eq_coe]
    have hplaces := hkept.places
    rw [← Multiset.coe_eq_coe] at hplaces
    rw [hplaces, ← Multiset.coe_add, ← Multiset.coe_add, ← Multiset.coe_eq_coe.mpr hsplit]
    simp only [← Multiset.coe_add, Phase.vChecks]
    abel
  case processed => exact hkept.processed
  case nTodo_eq =>
    have htotal := hsplit.length_eq
    rw [List.length_append] at htotal
    have htodo := hkept.nTodo_eq
    rw [List.flatMap_cons, List.length_append]
    simp only [Phase.vChecks]
    omega
  case nTotal_eq =>
    rw [List.countP_cons_of_pos rfl]
    exact hkept.nTotal_eq
  case nIdle_eq => exact hkept.nIdle_eq
  case flags =>
    rw [List.forall_mem_cons, ← hkept.flags]
    simp [Phase.fOk]
  case skipping => exact hkept.skipping
  case small => exact hkept.small

/-!
# The calls of the master
-/

theorem Kept.add (hkept : Kept eval q h threads 0) {vChecks : List check}
    (hsmall : (h.added ++ vChecks).length < uintModulus) :
    Kept eval (q.add vChecks) { h with added := h.added ++ vChecks } threads 0 where
  wellFormed := hkept.wellFormed
  running := hkept.running
  places := by
    have hplaces := hkept.places
    rw [← Multiset.coe_eq_coe] at hplaces
    rw [← Multiset.coe_eq_coe, ← Multiset.coe_add, hplaces]
    simp only [← Multiset.coe_add, CCheckQueue.add]
    abel
  processed := hkept.processed
  nTodo_eq := by
    have htodo := hkept.nTodo_eq
    have hplaces := hkept.places.length_eq
    simp only [List.length_append] at hplaces hsmall
    simp only [CCheckQueue.add, List.length_append]
    rw [Nat.mod_eq_of_lt (by omega)]
    omega
  nTotal_eq := hkept.nTotal_eq
  nIdle_eq := hkept.nIdle_eq
  flags := hkept.flags
  skipping := hkept.skipping
  small := hsmall

/-- A thread which is about to enter the loop is not counted yet. -/
theorem Kept.call (hkept : Kept eval q h threads 0) :
    Kept eval q h (Phase.entering :: threads) 0 where
  wellFormed := by
    rw [List.forall_mem_cons]
    exact ⟨trivial, hkept.wellFormed⟩
  running := hkept.running
  places := hkept.places
  processed := hkept.processed
  nTodo_eq := hkept.nTodo_eq
  nTotal_eq := hkept.nTotal_eq
  nIdle_eq := hkept.nIdle_eq
  flags := by
    rw [List.forall_mem_cons, ← hkept.flags]
    simp [Phase.fOk]
  skipping := hkept.skipping
  small := hkept.small

/-- What the loop condition leads to: the master returns, or the thread waits or takes a batch. -/
theorem loopStart_spec (hkept : Kept eval q h threads 1) (fMaster : Bool) :
    (fMaster = true ∧ q.queue = [] ∧ q.nTodo = 0 ∧
      q.loopStart fMaster =
        ({ q with nTotal := q.nTotal - 1, fAllOk := true }, Phase.returned q.fAllOk)) ∨
    ((forall fRet, (q.loopStart fMaster).2 ≠ Phase.returned fRet) ∧
      Kept eval (q.loopStart fMaster).1 h ((q.loopStart fMaster).2 :: threads) 0) := by
  unfold CCheckQueue.loopStart
  by_cases hqueue : q.queue = []
  · rw [if_pos (List.isEmpty_iff.mpr hqueue)]
    split
    · rename_i hreturn
      simp only [hkept.running, Bool.or_false, Bool.and_eq_true, beq_iff_eq] at hreturn
      exact Or.inl ⟨hreturn.1, hqueue, hreturn.2, by rw [hreturn.1]; rfl⟩
    · exact Or.inr ⟨fun fRet hphase => (by cases hphase), hkept.idle⟩
  · rw [if_neg (by rw [List.isEmpty_iff]; exact hqueue)]
    exact Or.inr ⟨fun fRet hphase => (by cases hphase), hkept.take hqueue⟩

/-- A thread which returns from `Wait` found the queue empty and nothing left to do. -/
structure Returns (eval : check -> Bool) (h : History check) (threads : List (Phase check))
    (found : CCheckQueue check × History check × Phase check) : Prop where
  same_added : found.2.1.added = h.added
  state : exists q', Kept eval q' found.2.1 threads 1 ∧ q'.queue = [] ∧ q'.nTodo = 0 ∧
    found.1 = { q' with nTotal := q'.nTotal - 1, fAllOk := true } ∧
    found.2.2 = Phase.returned q'.fAllOk

/-- A thread which stays in its loop keeps the invariant. -/
structure Continues (eval : check -> Bool) (h : History check) (threads : List (Phase check))
    (found : CCheckQueue check × History check × Phase check) : Prop where
  same_added : found.2.1.added = h.added
  stays : forall fRet, found.2.2 ≠ Phase.returned fRet
  kept : Kept eval found.1 found.2.1 (found.2.2 :: threads) 0

theorem after_loopStart {h' : History check} (hadded : h'.added = h.added)
    (hkept : Kept eval q h' threads 1) (fMaster : Bool) :
    (fMaster = true ∧ Returns eval h threads ((q.loopStart fMaster).1, h', (q.loopStart fMaster).2)) ∨
      Continues eval h threads ((q.loopStart fMaster).1, h', (q.loopStart fMaster).2) := by
  rcases loopStart_spec hkept fMaster with ⟨hmaster, hqueue, htodo, hloop⟩ | ⟨hstays, hnext⟩
  · rw [hloop]
    exact Or.inl ⟨hmaster, hadded, q, hkept, hqueue, htodo, rfl, rfl⟩
  · exact Or.inr ⟨hadded, hstays, hnext⟩

/-- One step of one thread, among any others. -/
theorem loopStep_spec {phase : Phase check} (hkept : Kept eval q h (phase :: threads) 0)
    (fMaster : Bool) :
    (fMaster = true ∧ Returns eval h threads (loopStep eval fMaster q h phase)) ∨
      Continues eval h threads (loopStep eval fMaster q h phase) := by
  cases phase with
  | entering => exact after_loopStart rfl hkept.enter fMaster
  | waiting => exact after_loopStart rfl hkept.wake fMaster
  | executing nNow fOk vChecks next =>
      cases hc : vChecks[next]? with
      | none =>
          have hdone := List.getElem?_eq_none_iff.mp hc
          have hsame : ({ h with reported := vChecks ++ h.reported } : History check).added =
              h.added := rfl
          simp only [loopStep, hc]
          exact after_loopStart hsame (hkept.report hdone) fMaster
      | some c =>
          cases fOk with
          | true =>
              simp only [loopStep, hc]
              exact Or.inr ⟨rfl, fun fRet hphase => (by cases hphase), hkept.evaluate hc⟩
          | false =>
              simp only [loopStep, hc]
              exact Or.inr ⟨rfl, fun fRet hphase => (by cases hphase), hkept.skip hc⟩
  | returned fRet => exact (hkept.wellFormed _ List.mem_cons_self).elim

/-!
# The end of a block
-/

/-- Nothing to do means that no thread holds a batch. -/
theorem Kept.vChecks_eq_nil (hkept : Kept eval q h threads entered) (htodo : q.nTodo = 0) :
    threads.flatMap Phase.vChecks = [] := by
  have hsum := hkept.nTodo_eq
  exact List.eq_nil_of_length_eq_zero (by omega)

theorem phase_of_vChecks_eq_nil {t : Phase check} (hwell : t.WellFormed) (hnil : t.vChecks = []) :
    t = Phase.entering ∨ t = Phase.waiting := by
  cases t with
  | entering => exact Or.inl rfl
  | waiting => exact Or.inr rfl
  | executing nNow fOk vChecks next => exact absurd hnil hwell.2
  | returned fRet => exact hwell.elim

/-- No thread executes while there is nothing to do. -/
theorem Kept.resting (hkept : Kept eval q h threads entered) (htodo : q.nTodo = 0) :
    forall t, t ∈ threads -> t = Phase.entering ∨ t = Phase.waiting := by
  intro t hmem
  have hnil := List.flatMap_eq_nil_iff.mp (hkept.vChecks_eq_nil htodo) t hmem
  exact phase_of_vChecks_eq_nil (hkept.wellFormed t hmem) hnil

theorem Kept.processed_eq_nil (hkept : Kept eval q h threads entered) (htodo : q.nTodo = 0) :
    threads.flatMap Phase.processed = [] := by
  rw [List.flatMap_eq_nil_iff]
  intro t hmem
  rcases hkept.resting htodo t hmem with rfl | rfl
  · rfl
  · rfl

theorem Kept.fOk_of_resting (hkept : Kept eval q h threads entered) (htodo : q.nTodo = 0) :
    forall t, t ∈ threads -> t.fOk = true := by
  intro t hmem
  rcases hkept.resting htodo t hmem with rfl | rfl
  · rfl
  · rfl

/-- The history of a block which `Wait` has finished. -/
structure Accounted (eval : check -> Bool) (h : History check) (fRet : Bool) : Prop where
  reported : h.reported.Perm h.added
  processed : (h.evaluated ++ h.skipped).Perm h.added
  result : fRet = h.added.all eval

theorem Kept.accounted (hkept : Kept eval q h threads entered) (hqueue : q.queue = [])
    (htodo : q.nTodo = 0) : Accounted eval h q.fAllOk := by
  have hvChecks := hkept.vChecks_eq_nil htodo
  have hnone := hkept.processed_eq_nil htodo
  have hreported : h.reported.Perm h.added := by
    have hplaces := hkept.places
    rw [hqueue, hvChecks, List.nil_append, List.append_nil] at hplaces
    exact hplaces.symm
  have hprocessed : (h.evaluated ++ h.skipped).Perm h.added := by
    have hperm := hkept.processed
    rw [hnone, List.append_nil] at hperm
    exact hperm.trans hreported
  have hflag : q.fAllOk = true <-> forall c, c ∈ h.evaluated -> eval c = true := by
    rw [← hkept.flags]
    exact (and_iff_left (hkept.fOk_of_resting htodo)).symm
  constructor
  case reported => exact hreported
  case processed => exact hprocessed
  case result =>
    rw [Bool.eq_iff_iff, hflag, List.all_eq_true]
    constructor
    · intro hall c hmem
      rcases hkept.skipping with hskipped | ⟨c', hmem', hbad⟩
      · rw [hskipped, List.append_nil] at hprocessed
        exact hall c (hprocessed.mem_iff.mpr hmem)
      · rw [hall c' hmem'] at hbad
        cases hbad
    · intro hall c hmem
      exact hall c (hprocessed.mem_iff.mp (List.mem_append_left _ hmem))

/-- The workers are ready for the next block. -/
theorem Kept.renew (hkept : Kept eval q h threads 1) (hqueue : q.queue = []) (htodo : q.nTodo = 0) :
    Kept eval { q with nTotal := q.nTotal - 1, fAllOk := true } History.empty threads 0 := by
  have hvChecks := hkept.vChecks_eq_nil htodo
  have hprocessed := hkept.processed_eq_nil htodo
  constructor
  case wellFormed => exact hkept.wellFormed
  case running => exact hkept.running
  case places => simp [hqueue, hvChecks, History.empty]
  case processed => simp [hprocessed, History.empty]
  case nTodo_eq => exact hkept.nTodo_eq
  case nTotal_eq =>
    have htotal := hkept.nTotal_eq
    show q.nTotal - 1 = _
    omega
  case nIdle_eq => exact hkept.nIdle_eq
  case flags =>
    simp only [History.empty, List.not_mem_nil, IsEmpty.forall_iff, implies_true, true_and, iff_true]
    exact hkept.fOk_of_resting htodo
  case skipping => exact Or.inl rfl
  case small => exact Nat.zero_lt_succ _

theorem Kept.nothing_queued
    (hkept : Kept eval q History.empty threads entered) : q.queue = [] ∧ q.nTodo = 0 := by
  have hlength := hkept.places.length_eq
  have htodo := hkept.nTodo_eq
  simp only [History.empty, List.length_append, List.length_nil] at hlength
  exact ⟨List.eq_nil_of_length_eq_zero (by omega), by omega⟩

end Sections

end CheckQueue
end Hbcur
