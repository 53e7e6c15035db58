import LotteryScheduler.Model.System

namespace LotteryScheduler.Model
open Lib

abbrev MmId := Nat

def initMm : MmId := 0

/-- The two counts of an address space: its users, who hold one reference between them, and
the references. -/
structure Mm where
  mmUsers : Int
  mmCount : Int
  deriving DecidableEq, Repr

/-- What the tasks and the CPU know of address spaces. `loaded` are the page tables that the
CPU uses, `switching` is the task that `finish_task_switch` is still to clean up after,
`outside` counts the users that are no tasks, and `allocated` and `freed` keep the history. -/
structure MmState where
  kernel : Kernel
  mm : Tid → Option MmId
  activeMm : Tid → Option MmId
  mms : MmId → Mm
  prevMm : Option MmId
  loaded : MmId
  switching : Option Tid
  outside : MmId → Nat
  allocated : MmId → Nat
  freed : MmId → Nat
  warned : Bool

section Counts

def mmget (m : MmId) (w : MmState) : MmState :=
  { w with mms := Function.update w.mms m { w.mms m with mmUsers := (w.mms m).mmUsers + 1 } }

def mmgrab (m : MmId) (w : MmState) : MmState :=
  { w with mms := Function.update w.mms m { w.mms m with mmCount := (w.mms m).mmCount + 1 } }

/-- `__mmdrop`, with its assertion and its two warnings. -/
def freeMm (m : MmId) (w : MmState) : Except Fault MmState :=
  let current := w.kernel.rq.curr
  if m = initMm then .error .bug
  else .ok { w with
    warned := w.warned || w.mm current = some m || w.activeMm current = some m
    freed := Function.update w.freed m (w.freed m + 1) }

def mmdrop (m : MmId) (w : MmState) : Except Fault MmState :=
  let w := { w with
    mms := Function.update w.mms m { w.mms m with mmCount := (w.mms m).mmCount - 1 } }
  if (w.mms m).mmCount = 0 then freeMm m w else .ok w

def mmput (m : MmId) (w : MmState) : Except Fault MmState :=
  let w := { w with
    mms := Function.update w.mms m { w.mms m with mmUsers := (w.mms m).mmUsers - 1 } }
  if (w.mms m).mmUsers = 0 then mmdrop m w else .ok w

end Counts

section Switching

/-- `context_switch` up to its call of `finish_task_switch`. -/
def contextSwitch (prev next : Tid) (w : MmState) : Except Fault MmState :=
  let w := { w with switching := some prev }
  match w.mm next with
  | none =>
    let w := { w with activeMm := Function.update w.activeMm next (w.activeMm prev) }
    match w.mm prev with
    | some _ =>
      match w.activeMm prev with
      | some m => .ok (mmgrab m w)
      | none => .error .badPointer
    | none => .ok { w with activeMm := Function.update w.activeMm prev none }
  | some m =>
    let w := { w with loaded := m }
    match w.mm prev with
    | some _ => .ok w
    | none => .ok { w with
        prevMm := w.activeMm prev
        activeMm := Function.update w.activeMm prev none }

def finishTaskSwitch (w : MmState) : Except Fault MmState :=
  let mm := w.prevMm
  let w := { w with prevMm := none, switching := none }
  match mm with
  | some m => mmdrop m w
  | none => .ok w

end Switching

section Tasks

/-- `mm_init`, for `mm_alloc` and for `dup_mm`. -/
def mmInit (m : MmId) (w : MmState) : MmState :=
  { w with
    mms := Function.update w.mms m ⟨1,1⟩
    allocated := Function.update w.allocated m (w.allocated m + 1) }

/-- What a fork meets: the memory that `allocate_mm` would hand out, and whether a fork that
fails gets as far as past `copy_mm`. -/
structure ForkMm where
  fresh : MmId
  reached : Bool
  deriving DecidableEq, Repr

/-- `copy_mm` for the task named `tsk`, when it succeeds. -/
def copyMm (cloneFlags : UInt64) (fresh : MmId) (tsk : Tid) (w : MmState) : MmState :=
  let join (m : MmId) (w : MmState) : MmState := { w with
    mm := Function.update w.mm tsk (some m)
    activeMm := Function.update w.activeMm tsk (some m) }
  match w.mm w.kernel.rq.curr with
  | none => { w with
      mm := Function.update w.mm tsk none
      activeMm := Function.update w.activeMm tsk none }
  | some oldmm =>
    if hasFlag cloneFlags cloneVm then join oldmm (mmget oldmm w)
    else join fresh (mmInit fresh w)

/-- `bad_fork_cleanup_mm`, after which the task is gone. -/
def cleanupMm (tsk : Tid) (w : MmState) : Except Fault MmState :=
  let gone := { w with
    mm := Function.update w.mm tsk none
    activeMm := Function.update w.activeMm tsk none }
  match w.mm tsk with
  | some m => mmput m gone
  | none => .ok gone

/-- The address space of a child, when `t` is the kernel after the fork. -/
def forkMm (cloneFlags : UInt64) (pid : Tid) (f : ForkMm) (t : Kernel) (w : MmState) :
    Except Fault MmState :=
  if pid ∈ t.live then .ok { copyMm cloneFlags f.fresh pid w with kernel := t }
  else if f.reached then do
    let w ← cleanupMm pid (copyMm cloneFlags f.fresh pid w)
    .ok { w with kernel := t }
  else .ok { w with kernel := t }

/-- A task that executes a program moves to an address space of `mm_alloc`, and gives back its
old one or the one that it has borrowed. -/
def execMmap (fresh : MmId) (w : MmState) : Except Fault MmState :=
  let current := w.kernel.rq.curr
  let moved := { mmInit fresh w with
    mm := Function.update w.mm current (some fresh)
    activeMm := Function.update w.activeMm current (some fresh)
    loaded := fresh }
  match w.mm current with
  | some oldMm => mmput oldMm moved
  | none =>
    match w.activeMm current with
    | some activeMm => mmdrop activeMm moved
    | none => .error .badPointer

/-- A task that exits gives up its address space and keeps it for the rest of its time on the
CPU as a kernel thread does. -/
def exitMm (w : MmState) : Except Fault MmState :=
  let current := w.kernel.rq.curr
  match w.mm current with
  | none => .ok w
  | some m =>
    let w := mmgrab m w
    mmput m { w with mm := Function.update w.mm current none }

/-- `get_task_mm`, for a task with `PF_KTHREAD` or without. -/
def getTaskMm (kthread : Bool) (task : Tid) (w : MmState) : MmState :=
  match w.mm task with
  | none => w
  | some m =>
    if kthread then w
    else
      let w := mmget m w
      { w with outside := Function.update w.outside m (w.outside m + 1) }

/-- An `mmput` by somebody who has such a reference. -/
def putOutside (m : MmId) (w : MmState) : Except Fault MmState :=
  mmput m { w with outside := Function.update w.outside m (w.outside m - 1) }

end Tasks

section Runs

/-- One operation of the kernel with what it does to address spaces, the end of a switch, or
something that a task or another user does with an address space. -/
inductive MmEvent where
  | op (e : Env) (op : Op) (f : ForkMm)
  | finish
  | exec (fresh : MmId)
  | exit
  | get (kthread : Bool) (task : Tid)
  | put (m : MmId)

/-- What happens to the address spaces in an operation that makes `t` of the kernel. -/
def opMm (op : Op) (f : ForkMm) (t : Kernel) (w : MmState) : Except Fault MmState :=
  match op with
  | .schedule _ | .schedYield =>
    let prev := w.kernel.rq.curr
    if prev ≠ t.rq.curr then contextSwitch prev t.rq.curr { w with kernel := t }
    else .ok { w with kernel := t }
  | .kernelClone args ce => forkMm args.flags ce.pid f t w
  | .createIoThread ce => forkMm cloneVm ce.pid f t w
  | _ => .ok { w with kernel := t }

def mmEvent (b : Build) (ev : MmEvent) (w : MmState) : Except Fault MmState :=
  match ev with
  | .op e op f => do
    let t ← exec b e op w.kernel
    opMm op f t w
  | .finish => finishTaskSwitch w
  | .exec fresh => execMmap fresh w
  | .exit => exitMm w
  | .get kthread task => .ok (getTaskMm kthread task w)
  | .put m => putOutside m w

/-- What an interrupt may do in the middle of a switch. -/
def fromInterrupt : Op → Bool
  | .tryToWakeUp _ _ | .schedulerTick => true
  | _ => false

/-- A task is released when it has no address space any more. -/
def withoutMm (w : MmState) : Op → Prop
  | .releaseTask p => w.mm p = none
  | _ => True

instance (w : MmState) : (op : Op) → Decidable (withoutMm w op)
  | .releaseTask p => inferInstanceAs (Decidable (w.mm p = none))
  | .setCurrentState _ | .schedule _ | .tryToWakeUp _ _ | .kernelClone _ _ | .createIoThread _
  | .wakeUpNewTask _ | .setUserNice _ _ | .rtMutexSetprio _ _ | .schedMoveTask _
  | .schedSetscheduler _ _ _ _ _ | .schedulerTick | .schedYield | .taskSchedRuntime _
  | .schedExec | .setCpusAllowed _ | .otherTask _ _ => inferInstanceAs (Decidable True)

/-- What the callers of each event see to. Memory is handed out when nothing refers to it. -/
def mayMm (b : Build) (w : MmState) : MmEvent → Prop
  | .op _ op f => enabled b w.kernel op ∧ withoutMm w op ∧
      (w.switching = none ∨ fromInterrupt op = true) ∧ (w.mms f.fresh).mmCount = 0
  | .finish => w.switching ≠ none
  | .exec fresh => w.switching = none ∧ w.kernel.rq.curr ≠ w.kernel.rq.idle ∧
      (w.mms fresh).mmCount = 0
  | .exit | .get _ _ => w.switching = none
  | .put m => w.switching = none ∧ m ≠ initMm ∧ 0 < w.outside m

instance (b : Build) (w : MmState) : (ev : MmEvent) → Decidable (mayMm b w ev)
  | .op _ _ _ => inferInstanceAs (Decidable (_ ∧ _ ∧ (_ ∨ _) ∧ _))
  | .finish => inferInstanceAs (Decidable (w.switching ≠ none))
  | .exit | .get _ _ => inferInstanceAs (Decidable (w.switching = none))
  | .exec _ | .put _ => inferInstanceAs (Decidable (_ ∧ _ ∧ _))

/-- The boot task runs on `init_mm` lazily, which has its own users for good. -/
def mmStart (initUsers : Nat) : MmState where
  kernel := schedInit
  mm := fun _ => none
  activeMm := Function.update (fun _ => none) schedInit.rq.curr (some initMm)
  mms := Function.update (fun _ => ⟨0,0⟩) initMm ⟨initUsers,2⟩
  prevMm := none
  loaded := initMm
  switching := none
  outside := Function.update (fun _ => 0) initMm initUsers
  allocated := Function.update (fun _ => 0) initMm 1
  freed := fun _ => 0
  warned := false

inductive MmReach (b : Build) (initUsers : Nat) : MmState → Prop where
  | init : MmReach b initUsers (mmStart initUsers)
  | step (before : MmReach b initUsers w) (may : mayMm b w ev) (run : mmEvent b ev w = .ok w') :
    MmReach b initUsers w'

def runMm (b : Build) : List MmEvent → MmState → Except Fault MmState
  | [], w => .ok w
  | ev :: evs, w => if mayMm b w ev then mmEvent b ev w >>= runMm b evs else .error .bug

theorem MmReach.runMm (h : MmReach b initUsers w) (hr : runMm b evs w = .ok w') :
    MmReach b initUsers w' := by
  induction evs generalizing w with
  | nil =>
    cases hr
    exact h
  | cons ev evs ih =>
    simp only [Model.runMm] at hr
    split at hr
    next hmay =>
      obtain ⟨u,hu,hr⟩ := bind_eq_ok.mp hr
      exact ih (h.step hmay hu) hr
    next => cases hr

end Runs

end LotteryScheduler.Model
