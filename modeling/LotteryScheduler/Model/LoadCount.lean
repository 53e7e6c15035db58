import LotteryScheduler.Model.System

namespace LotteryScheduler.Model
open Lib

def taskUninterruptible : Nat := 0x0002
def taskNoload : Nat := 0x0400

/-- The counters of sleeping tasks on a runqueue, and the two bits of every task that they
go by. -/
structure LoadCount where
  contributesToLoad : Tid → Bool
  inIowait : Tid → Bool
  nrUninterruptible : UInt32
  nrIowait : Int

def LoadCount.start : LoadCount := ⟨fun _ => false,fun _ => false,0,0⟩

/-- `sched_contributes_to_load` of a task that blocks in this state. -/
def contributes (prevState : Nat) (frozen : Bool) : Bool :=
  prevState &&& taskUninterruptible != 0 && !(prevState &&& taskNoload != 0) && !frozen

/-- The counting in `__schedule` around its call of `deactivate_task`. -/
def countBlock (prev : Tid) (prevState : Nat) (frozen : Bool) (c : LoadCount) : LoadCount :=
  let load := contributes prevState frozen
  { c with
    contributesToLoad := Function.update c.contributesToLoad prev load
    nrUninterruptible := if load then c.nrUninterruptible + 1 else c.nrUninterruptible
    nrIowait := if c.inIowait prev then c.nrIowait + 1 else c.nrIowait }

/-- The counting in `ttwu_do_activate`. -/
def countActivate (p : Tid) (c : LoadCount) : LoadCount :=
  { c with
    nrUninterruptible := if c.contributesToLoad p then c.nrUninterruptible - 1
      else c.nrUninterruptible
    nrIowait := if c.inIowait p then c.nrIowait - 1 else c.nrIowait }

/-- `dup_task_struct` copies the bits with all the rest. -/
def countCopy (cur self : Tid) (c : LoadCount) : LoadCount :=
  { c with
    contributesToLoad := Function.update c.contributesToLoad self (c.contributesToLoad cur)
    inIowait := Function.update c.inIowait self (c.inIowait cur) }

/-- The current task blocks in `__schedule`: not preempted, not running, and not kept by a
signal. -/
def blocks (e : Env) (preempt : Bool) (s : Kernel) : Bool :=
  let prevState := (s.task s.rq.curr).state
  !preempt && prevState != 0 && !signalPendingState e prevState

/-- A wakeup gets as far as `ttwu_do_activate`. -/
def activates (p : Tid) (state : Nat) (s : Kernel) : Bool :=
  ttwuStateMatch s p state && p != s.rq.curr && !s.taskOnRqQueued p

/-- What an operation adds to the counters, in a state of the frozen flag of the task that
it takes the CPU from. -/
def countOp (e : Env) (frozen : Bool) (s : Kernel) (c : LoadCount) : Op → LoadCount
  | .schedule preempt =>
    if blocks e preempt s then countBlock s.rq.curr (s.task s.rq.curr).state frozen c else c
  | .schedYield =>
    if blocks e false s then countBlock s.rq.curr (s.task s.rq.curr).state frozen c else c
  | .tryToWakeUp p state => if activates p state s then countActivate p c else c
  | .kernelClone _ ce | .createIoThread ce => countCopy s.rq.curr ce.pid c
  | _ => c

structure LoadState where
  kernel : Kernel
  load : LoadCount

def ioSchedulePrepare (w : LoadState) : Bool × LoadState :=
  let current := w.kernel.rq.curr
  (w.load.inIowait current,
    { w with load := { w.load with inIowait := Function.update w.load.inIowait current true } })

def ioScheduleFinish (token : Bool) (w : LoadState) : LoadState :=
  let current := w.kernel.rq.curr
  { w with load := { w.load with inIowait := Function.update w.load.inIowait current token } }

/-- One operation with its counting, or one half of `io_schedule`. -/
inductive LoadEvent where
  | op (e : Env) (frozen : Bool) (op : Op)
  | prepare
  | finish (token : Bool)

/-- A task does not exit between the two halves of `io_schedule`. -/
def exitsOutside (w : LoadState) : Op → Prop
  | .releaseTask p => w.load.inIowait p = false
  | _ => True

instance (w : LoadState) : (op : Op) → Decidable (exitsOutside w op)
  | .releaseTask p => inferInstanceAs (Decidable (w.load.inIowait p = false))
  | .setCurrentState _ | .schedule _ | .tryToWakeUp _ _ | .kernelClone _ _ | .createIoThread _
  | .wakeUpNewTask _ | .setUserNice _ _ | .rtMutexSetprio _ _ | .schedMoveTask _
  | .schedSetscheduler _ _ _ _ _ | .schedulerTick | .schedYield | .taskSchedRuntime _
  | .schedExec | .setCpusAllowed _ | .otherTask _ _ => inferInstanceAs (Decidable True)

/-- Only a system with a freezer has frozen tasks. -/
def mayCount (b : Build) (freezer : Bool) (w : LoadState) : LoadEvent → Prop
  | .op _ frozen op =>
    enabled b w.kernel op ∧ exitsOutside w op ∧ (freezer = false → frozen = false)
  | .prepare | .finish _ => w.kernel.rq.curr ≠ w.kernel.rq.idle

instance (b : Build) (freezer : Bool) (w : LoadState) :
    (ev : LoadEvent) → Decidable (mayCount b freezer w ev)
  | .op _ frozen _ => inferInstanceAs (Decidable (_ ∧ _ ∧ (freezer = false → frozen = false)))
  | .prepare | .finish _ => inferInstanceAs (Decidable (_ ≠ _))

def loadEvent (b : Build) : LoadEvent → LoadState → Except Fault LoadState
  | .op e frozen op, w => do
    let s ← exec b e op w.kernel
    .ok ⟨s,countOp e frozen w.kernel w.load op⟩
  | .prepare, w => .ok (ioSchedulePrepare w).2
  | .finish token, w => .ok (ioScheduleFinish token w)

def LoadStep (b : Build) (freezer : Bool) (w w' : LoadState) : Prop :=
  ∃ ev, mayCount b freezer w ev ∧ loadEvent b ev w = .ok w'

/-- Every state of the counters in any run from `sched_init`. -/
inductive LoadReach (b : Build) (freezer : Bool) : LoadState → Prop where
  | init : LoadReach b freezer ⟨schedInit,.start⟩
  | step (before : LoadReach b freezer w) (last : LoadStep b freezer w w') :
    LoadReach b freezer w'

def runLoad (b : Build) (freezer : Bool) : List LoadEvent → LoadState → Except Fault LoadState
  | [], w => .ok w
  | ev :: evs, w =>
    if mayCount b freezer w ev then loadEvent b ev w >>= runLoad b freezer evs else .error .bug

theorem LoadReach.runLoad (h : LoadReach b freezer w)
    (hr : runLoad b freezer evs w = .ok w') : LoadReach b freezer w' := by
  induction evs generalizing w with
  | nil =>
    cases hr
    exact h
  | cons ev evs ih =>
    simp only [Model.runLoad] at hr
    split at hr
    next hmay =>
      obtain ⟨u,hu,hr⟩ := bind_eq_ok.mp hr
      exact ih (h.step ⟨ev,hmay,hu⟩) hr
    next => cases hr

end LotteryScheduler.Model
