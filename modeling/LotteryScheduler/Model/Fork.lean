import LotteryScheduler.Model.Core

namespace LotteryScheduler.Model
open Lib

def csignal : UInt64 := 0x000000ff
def cloneVm : UInt64 := 0x00000100
def cloneFs : UInt64 := 0x00000200
def cloneFiles : UInt64 := 0x00000400
def cloneSighand : UInt64 := 0x00000800
def clonePidfd : UInt64 := 0x00001000
def cloneParent : UInt64 := 0x00008000
def cloneThread : UInt64 := 0x00010000
def cloneNewns : UInt64 := 0x00020000
def cloneParentSettid : UInt64 := 0x00100000
def cloneDetached : UInt64 := 0x00400000
def cloneUntraced : UInt64 := 0x00800000
def cloneNewuser : UInt64 := 0x10000000
def cloneNewpid : UInt64 := 0x20000000
def cloneIo : UInt64 := 0x80000000

structure KernelCloneArgs where
  flags : UInt64
  pidfd : UInt64 := 0
  parentTid : UInt64 := 0
  deriving DecidableEq, Repr

/-- The steps of `copy_process` that only fail or succeed, in order. -/
inductive CopyStep where
  | perfEventInitTask
  | auditAlloc
  | securityTaskAlloc
  | copySemundo
  | copyFiles
  | copyFs
  | copySighand
  | copySignal
  | copyMm
  | copyNamespaces
  | copyIo
  | copyThread
  | allocPid
  deriving DecidableEq, Repr

def copySteps : List CopyStep :=
  [.perfEventInitTask,.auditAlloc,.securityTaskAlloc,.copySemundo,.copyFiles,.copyFs,
    .copySighand,.copySignal,.copyMm,.copyNamespaces,.copyIo,.copyThread,.allocPid]

/-- What one call of `copy_process` meets: the namespaces and signals of the
caller, the results of the copying steps, and the pid that is handed out. -/
structure CopyEnv where
  pid : Tid
  signalUnkillable : Bool := false
  otherPidNs : Bool := false
  otherTimeNs : Bool := false
  sigpending : Bool := false
  dupFails : Bool := false
  copyCreds : Int := 0
  overNproc : Bool := false
  step : CopyStep → Int := fun _ => 0
  getUnusedFd : Int := 0
  pidfdFile : Int := 0
  putPidfd : Int := 0
  cgroupCanFork : Int := 0
  pidnsAdding : Bool := true
  fatalSignal : Bool := false

/-- The combinations of flags that `copy_process` refuses. -/
def invalidFlags (ce : CopyEnv) (flags : UInt64) : Bool :=
  (hasFlag flags cloneNewns && hasFlag flags cloneFs) ||
    (hasFlag flags cloneNewuser && hasFlag flags cloneFs) ||
    (hasFlag flags cloneThread && !hasFlag flags cloneSighand) ||
    (hasFlag flags cloneSighand && !hasFlag flags cloneVm) ||
    (hasFlag flags cloneParent && ce.signalUnkillable) ||
    (hasFlag flags cloneThread &&
      (hasFlag flags (cloneNewuser ||| cloneNewpid) || ce.otherPidNs)) ||
    (hasFlag flags (cloneThread ||| cloneVm) && ce.otherTimeNs) ||
    (hasFlag flags clonePidfd && hasFlag flags (cloneDetached ||| cloneThread))

/-- The first step that fails, with its error. -/
def firstFailure (ce : CopyEnv) : List CopyStep → Option Int
  | [] => none
  | st :: rest => if ce.step st ≠ 0 then some (ce.step st) else firstFailure ce rest

/-- `__sched_fork` for the task named `self`. -/
def schedForkInit (self : Tid) (p : TaskStruct) : TaskStruct :=
  { p with onRq := .none, rtTimeout := 0, dl := { p.dl with flags := 0, piSe := self } }

def resetOnFork (p : TaskStruct) : TaskStruct :=
  let p :=
    if dlPolicy p.policy || rtPolicy p.policy then
      { p with policy := schedNormal, staticPrio := niceToPrio 0, rtPriority := 0 }
    else if prioToNice p.staticPrio < 0 then { p with staticPrio := niceToPrio 0 }
    else p
  { p with prio := p.staticPrio, normalPrio := p.staticPrio, schedResetOnFork := false }

def schedFork (cur : TaskStruct) (self : Tid) (p : TaskStruct) : Int × TaskStruct :=
  let p := schedForkInit self p
  let p := { p with state := taskNew, prio := cur.normalPrio }
  let p := if p.schedResetOnFork then resetOnFork p else p
  if p.policy = schedLottery then (0,{ p with schedClass := .lottery })
  else if dlPrio p.prio then (-eagain,p)
  else if rtPrio p.prio then (0,{ p with schedClass := .rt })
  else (0,{ p with schedClass := .fair })

/-- `sched_cgroup_fork`, called for the child before it is attached. -/
def schedCgroupFork (b : Build) (e : Env) (self : Tid) (p : TaskStruct) (s : Kernel) :
    Except Fault Kernel :=
  callHookIfSet b e p.schedClass .taskFork self s

/-- The child becomes visible. Its links are those of the task it was copied from. -/
def attach (self : Tid) (p : TaskStruct) (s : Kernel) : Kernel :=
  { s with
    live := s.live ++ [self]
    task := Function.update s.task self p
    se := Function.update s.se self ⟨0⟩
    mem := Function.update s.mem (.task self) (s.mem (.task s.rq.curr))
    nrThreads := s.nrThreads + 1 }

/-- `copy_process`: an error pointer, or the new task. The whole of it is one step, though
other calls could come between its test of `nr_threads` and the new task. -/
def copyProcess (b : Build) (e : Env) (args : KernelCloneArgs) (ce : CopyEnv) (s : Kernel) :
    Except Fault (Except Int Tid × Kernel) :=
  let cur := s.task s.rq.curr
  let dup := { cur with piTopTask := none }
  let child := schedFork cur ce.pid dup
  let pidfd := hasFlag args.flags clonePidfd
  if invalidFlags ce args.flags then .ok (.error (-einval),s)
  else if ce.sigpending then .ok (.error (-erestartnointr),s)
  else if ce.dupFails then .ok (.error (-enomem),s)
  else if ce.copyCreds < 0 then .ok (.error ce.copyCreds,s)
  else if ce.overNproc then .ok (.error (-eagain),s)
  else if s.nrThreads ≥ b.maxThreads then .ok (.error (-eagain),s)
  else if child.1 ≠ 0 then .ok (.error child.1,s)
  else match firstFailure ce copySteps with
    | some retval => .ok (.error retval,s)
    | none =>
      if pidfd ∧ ce.getUnusedFd < 0 then .ok (.error ce.getUnusedFd,s)
      else if pidfd ∧ ce.pidfdFile ≠ 0 then .ok (.error ce.pidfdFile,s)
      else if pidfd ∧ ce.putPidfd ≠ 0 then .ok (.error ce.putPidfd,s)
      else if ce.cgroupCanFork ≠ 0 then .ok (.error ce.cgroupCanFork,s)
      else do
        let s ← schedCgroupFork b e ce.pid child.2 s
        if !ce.pidnsAdding then .ok (.error (-enomem),s)
        else if ce.fatalSignal then .ok (.error (-eintr),s)
        else .ok (.ok ce.pid,attach ce.pid child.2 s)

def createIoThread (b : Build) (e : Env) (ce : CopyEnv) (s : Kernel) :
    Except Fault (Except Int Tid × Kernel) :=
  let flags := cloneFs ||| cloneFiles ||| cloneSighand ||| cloneThread ||| cloneIo
  copyProcess b e { flags := (flags ||| cloneVm ||| cloneUntraced) &&& ~~~csignal } ce s

/-- `p->ltr.tickets = 5`. -/
def giveTickets (p : Tid) (s : Kernel) : Kernel := s.setTask p { s.task p with tickets := 5 }

/-- `kernel_clone` up to its call of `wake_up_new_task`. The tickets are stored
through whatever `copy_process` returned. -/
def kernelCloneCopy (b : Build) (e : Env) (args : KernelCloneArgs) (ce : CopyEnv) (s : Kernel) :
    Except Fault (Except Int Tid × Kernel) :=
  if hasFlag args.flags clonePidfd ∧ hasFlag args.flags cloneParentSettid ∧
      args.pidfd = args.parentTid then .ok (.error (-einval),s)
  else do
    let (p,s) ← copyProcess b e args ce s
    match p with
    | .error _ => .error .badPointer
    | .ok p => .ok (.ok p,giveTickets p s)

def kernelClone (b : Build) (e : Env) (args : KernelCloneArgs) (ce : CopyEnv) (s : Kernel) :
    Except Fault (Int × Kernel) := do
  let (p,s) ← kernelCloneCopy b e args ce s
  match p with
  | .error retval => .ok (retval,s)
  | .ok p => do
    let s ← wakeUpNewTask b e p s
    .ok (p,s)

end LotteryScheduler.Model
