import LotteryScheduler.Model.Lottery

namespace LotteryScheduler.Model
open Lib

def dequeueSleep : UInt32 := 0x01
def dequeueSave : UInt32 := 0x02
def dequeueMove : UInt32 := 0x04
def dequeueNoclock : UInt32 := 0x08
def enqueueWakeup : UInt32 := 0x01
def enqueueRestore : UInt32 := 0x02
def enqueueNoclock : UInt32 := 0x08
def enqueueHead : UInt32 := 0x10
def enqueueReplenish : UInt32 := 0x20
def enqueueMigrated (b : Build) : UInt32 := if b.smp then 0x40 else 0x00

section Queueing

def enqueueTask (b : Build) (e : Env) (p : Tid) (flags : UInt32) (s : Kernel) :
    Except Fault Kernel :=
  let s := if flags &&& enqueueNoclock = 0 then updateRqClock e s else s
  callHook b e (s.task p).schedClass .enqueueTask p s

def dequeueTask (b : Build) (e : Env) (p : Tid) (flags : UInt32) (s : Kernel) :
    Except Fault Kernel :=
  let s := if flags &&& dequeueNoclock = 0 then updateRqClock e s else s
  callHook b e (s.task p).schedClass .dequeueTask p s

def activateTask (b : Build) (e : Env) (p : Tid) (flags : UInt32) (s : Kernel) :
    Except Fault Kernel := do
  let flags := if (s.task p).onRq = .migrating then flags ||| enqueueMigrated b else flags
  let s ← enqueueTask b e p flags s
  .ok (s.setOnRq p .queued)

def deactivateTask (b : Build) (e : Env) (p : Tid) (flags : UInt32) (s : Kernel) :
    Except Fault Kernel :=
  let onRq := if flags &&& dequeueSleep ≠ 0 then OnRq.none else OnRq.migrating
  dequeueTask b e p flags (s.setOnRq p onRq)

def putPrevTask (b : Build) (e : Env) (p : Tid) (s : Kernel) : Except Fault Kernel :=
  callHook b e (s.task p).schedClass .putPrevTask p s

def setNextTask (b : Build) (e : Env) (p : Tid) (s : Kernel) : Except Fault Kernel :=
  callHook b e (s.task p).schedClass .setNextTask p s

/-- The opening half of every change to a task's scheduling data. -/
def takeOff (b : Build) (e : Env) (p : Tid) (queued running : Bool) (flags : UInt32)
    (s : Kernel) : Except Fault Kernel := do
  let s ← applyIf queued (dequeueTask b e p flags) s
  applyIf running (putPrevTask b e p) s

/-- The closing half. -/
def putBack (b : Build) (e : Env) (p : Tid) (queued running : Bool) (flags : UInt32)
    (s : Kernel) : Except Fault Kernel := do
  let s ← applyIf queued (enqueueTask b e p flags) s
  applyIf running (setNextTask b e p) s

end Queueing

section Preemption

/-- The comparison in `check_preempt_curr`: the class of the current task decides
among its own tasks, and the later of two addresses wins otherwise. -/
def preemptCurr (b : Build) (e : Env) (p : Tid) (s : Kernel) : Except Fault Kernel :=
  let currClass := (s.task s.rq.curr).schedClass
  if (s.task p).schedClass = currClass then callHook b e currClass .checkPreemptCurr p s
  else if (s.task p).schedClass > currClass then .ok (reschedCurr s)
  else .ok s

def checkPreemptCurr (b : Build) (e : Env) (p : Tid) (s : Kernel) : Except Fault Kernel := do
  let s ← preemptCurr b e p s
  .ok (if s.taskOnRqQueued s.rq.curr && s.rq.needResched then rqClockSkipUpdate s else s)

def checkClassChanged (b : Build) (e : Env) (p : Tid) (prevClass : SchedClass) (oldprio : Int)
    (s : Kernel) : Except Fault Kernel :=
  let t := s.task p
  if prevClass ≠ t.schedClass then do
    let s ← callHookIfSet b e prevClass .switchedFrom p s
    callHook b e t.schedClass .switchedTo p s
  else if oldprio ≠ t.prio || dlPrio t.prio then callHook b e t.schedClass .prioChanged p s
  else .ok s

end Preemption

section Wakeups

def ttwuDoWakeup (b : Build) (e : Env) (p : Tid) (s : Kernel) : Except Fault Kernel := do
  let s ← checkPreemptCurr b e p s
  let s := s.setState p taskRunning
  applyIf b.smp (callHookIfSet b e (s.task p).schedClass .taskWoken p) s

def ttwuDoActivate (b : Build) (e : Env) (p : Tid) (s : Kernel) : Except Fault Kernel := do
  let s ← activateTask b e p (enqueueWakeup ||| enqueueNoclock) s
  ttwuDoWakeup b e p s

/-- `select_task_rq`; the one CPU of this model is the answer. -/
def selectTaskRq (b : Build) (e : Env) (p : Tid) (s : Kernel) : Except Fault Kernel :=
  if e.nrCpusAllowed p > 1 && !e.migrationDisabled p then
    callHook b e (s.task p).schedClass .selectTaskRq p s
  else .ok s

def ttwuStateMatch (s : Kernel) (p : Tid) (state : Nat) : Bool := (s.task p).state &&& state != 0

def ttwuQueue (b : Build) (e : Env) (p : Tid) (s : Kernel) : Except Fault Kernel :=
  ttwuDoActivate b e p (updateRqClock e s)

def tryToWakeUp (b : Build) (e : Env) (p : Tid) (state : Nat) (s : Kernel) :
    Except Fault (Bool × Kernel) :=
  if !ttwuStateMatch s p state then .ok (false,s)
  else if p = s.rq.curr then .ok (true,s.setState p taskRunning)
  else if s.taskOnRqQueued p then do
    let s ← ttwuDoWakeup b e p (updateRqClock e s)
    .ok (true,s)
  else do
    let s ← applyIf b.smp (fun s => selectTaskRq b e p (s.setState p taskWaking)) s
    let s ← ttwuQueue b e p s
    .ok (true,s)

def wakeUpNewTask (b : Build) (e : Env) (p : Tid) (s : Kernel) : Except Fault Kernel := do
  let s := s.setState p taskRunning
  let s ← applyIf b.smp (selectTaskRq b e p) s
  let s ← activateTask b e p enqueueNoclock (updateRqClock e s)
  let s ← checkPreemptCurr b e p s
  applyIf b.smp (callHookIfSet b e (s.task p).schedClass .taskWoken p) s

end Wakeups

section Picking

/-- The balancing pass stops at the first class that has a runnable task. -/
def balancePass (b : Build) (e : Env) (prev : Tid) : List SchedClass → Kernel →
    Except Fault Kernel
  | [], s => .ok s
  | c :: cs, s => do
    let s ← callHook b e c .balance prev s
    if e.balanced c then .ok s else balancePass b e prev cs s

def putPrevTaskBalance (b : Build) (e : Env) (prev : Tid) (s : Kernel) : Except Fault Kernel := do
  let s ← applyIf b.smp (balancePass b e prev (forClassRange (s.task prev).schedClass .idle)) s
  putPrevTask b e prev s

/-- The guard of the optimisation in `__pick_next_task`. -/
def fastPath (s : Kernel) (prev : Tid) : Bool :=
  decide ((s.task prev).schedClass ≤ .fair) && s.rq.nrRunning == cfsHNrRunning s

def pickNextTaskFair (e : Env) (s : Kernel) : Option Tid × Kernel :=
  (e.pick .fair (s.rq.queue .fair),upstreamEffect e .fair .pickNextTask s)

/-- The body of `for_each_class`, over the classes that are left. -/
def pickWalk (b : Build) (e : Env) : List SchedClass → Kernel → Except Fault (Tid × Kernel)
  | [], _ => .error .bug
  | c :: cs, s => do
    let (p,s) ← callPickNextTask b e c s
    match p with
    | some p => .ok (p,s)
    | none => pickWalk b e cs s

/-- `__pick_next_task`. -/
def pickNextTask (b : Build) (e : Env) (prev : Tid) (s : Kernel) : Except Fault (Tid × Kernel) :=
  if fastPath s prev then
    match pickNextTaskFair e s with
    | (some p,s) => .ok (p,s)
    | (none,s) => do
      let s ← putPrevTask b e prev s
      .ok (s.rq.idle,upstreamEffect e .idle .pickNextTask s)
  else do
    let s ← putPrevTaskBalance b e prev s
    pickWalk b e forEachClass s

def schedCoreEnabled (b : Build) (e : Env) : Bool := b.schedCore && e.coreEnabled

/-- The walk of a core-wide selection. What comes after it, the choice among the siblings
of the core, is left out: the walk ends at its first class, the lottery class. -/
def pickTaskWalk (b : Build) (e : Env) : List SchedClass → Kernel → Except Fault (Tid × Kernel)
  | [], _ => .error .bug
  | c :: cs, s => do
    let (p,s) ← callPickTask b e c s
    match p with
    | some p => .ok (p,s)
    | none => pickTaskWalk b e cs s

/-- `pick_next_task`. `rq->core_pick`, which only a completed selection sets, is always
NULL, so the path that goes by it is left out. -/
def pickNextTaskCore (b : Build) (e : Env) (prev : Tid) (s : Kernel) :
    Except Fault (Tid × Kernel) :=
  if !schedCoreEnabled b e then pickNextTask b e prev s
  else if e.cpuIsOffline then pickNextTask b e prev s
  else do
    let s ← putPrevTaskBalance b e prev s
    let (next,s) ← pickTaskWalk b e forEachClass s
    let s ← setNextTask b e next s
    .ok (next,s)

end Picking

section Scheduling

def signalPendingState (e : Env) (state : Nat) : Bool :=
  if state &&& (taskInterruptible ||| taskWakekill) = 0 then false
  else if !e.signalPending then false
  else state &&& taskInterruptible != 0 || e.fatalSignalPending

/-- A task that is not running leaves the queue unless a signal keeps it there. -/
def blockPrev (b : Build) (e : Env) (preempt : Bool) (s : Kernel) : Except Fault Kernel :=
  let prev := s.rq.curr
  let prevState := (s.task prev).state
  if !preempt && prevState ≠ 0 then
    if signalPendingState e prevState then .ok (s.setState prev taskRunning)
    else deactivateTask b e prev (dequeueSleep ||| dequeueNoclock) s
  else .ok s

/-- `__schedule` up to its call of `pick_next_task`. -/
def beforePick (b : Build) (e : Env) (preempt : Bool) (s : Kernel) : Except Fault Kernel :=
  let s := { s with rq := { s.rq with clockUpdateFlags := s.rq.clockUpdateFlags <<< 1 } }
  blockPrev b e preempt (updateRqClock e s)

/-- `__schedule` after that call. -/
def switchTo (next : Tid) (s : Kernel) : Kernel :=
  let flags := s.rq.clockUpdateFlags &&& ~~~(rqcfActSkip ||| rqcfReqSkip)
  { s with rq := { s.rq with curr := next, needResched := false, clockUpdateFlags := flags } }

/-- `__schedule`; `preempt` is a non-zero mode. -/
def schedule (b : Build) (e : Env) (preempt : Bool) (s : Kernel) : Except Fault Kernel := do
  let prev := s.rq.curr
  let s ← beforePick b e preempt s
  let (next,s) ← pickNextTaskCore b e prev s
  .ok (switchTo next s)

def schedulerTick (b : Build) (e : Env) (s : Kernel) : Except Fault Kernel :=
  let s := updateRqClock e s
  callHook b e (s.task s.rq.curr).schedClass .taskTick s.rq.curr s

def doSchedYield (b : Build) (e : Env) (s : Kernel) : Except Fault Kernel := do
  let s ← callHook b e (s.task s.rq.curr).schedClass .yieldTask s.rq.curr s
  schedule b e false s

def taskSchedRuntime (b : Build) (e : Env) (p : Tid) (s : Kernel) : Except Fault (Nat × Kernel) := do
  let s ← applyIf (s.taskCurrent p && s.taskOnRqQueued p)
    (fun s => callHook b e (s.task p).schedClass .updateCurr p (updateRqClock e s)) s
  .ok ((s.se p).sumExecRuntime,s)

/-- Only SMP builds have this function. -/
def schedExec (b : Build) (e : Env) (s : Kernel) : Except Fault Kernel :=
  callHook b e (s.task s.rq.curr).schedClass .selectTaskRq s.rq.curr s

end Scheduling

section Changes

def setCpusAllowed (b : Build) (e : Env) (p : Tid) (s : Kernel) : Except Fault Kernel := do
  let queued := s.taskOnRqQueued p
  let running := s.taskCurrent p
  let s ← takeOff b e p queued running (dequeueSave ||| dequeueNoclock) s
  let s ← callHook b e (s.task p).schedClass .setCpusAllowed p s
  putBack b e p queued running (enqueueRestore ||| enqueueNoclock) s

/-- `effective_prio`, which also stores the normal priority. -/
def effectivePrio (t : TaskStruct) : TaskStruct × Int :=
  let t := { t with normalPrio := normalPrio t }
  if !rtPrio t.prio then (t,t.normalPrio) else (t,t.prio)

/-- What `set_user_nice` does to a task of a policy that uses the nice value. -/
def renice (t : TaskStruct) (nice : Int) : TaskStruct :=
  let (t,prio) := effectivePrio { t with staticPrio := niceToPrio nice }
  { t with prio }

def setUserNice (b : Build) (e : Env) (p : Tid) (nice : Int) (s : Kernel) :
    Except Fault Kernel :=
  if taskNice (s.task p) = nice ∨ nice < minNice ∨ nice > maxNice then .ok s
  else
    let s := updateRqClock e s
    let t := s.task p
    if dlPolicy t.policy || rtPolicy t.policy then
      .ok (s.setTask p { t with staticPrio := niceToPrio nice })
    else do
      let queued := s.taskOnRqQueued p
      let running := s.taskCurrent p
      let s ← takeOff b e p queued running (dequeueSave ||| dequeueNoclock) s
      let s := s.setTask p (renice (s.task p) nice)
      let s ← putBack b e p queued running (enqueueRestore ||| enqueueNoclock) s
      callHook b e (s.task p).schedClass .prioChanged p s

/-- `__setscheduler_prio`. -/
def setschedulerPrio (t : TaskStruct) (prio : Int) : TaskStruct :=
  if t.policy = schedLottery then { t with schedClass := .lottery, prio }
  else if dlPrio prio then { t with schedClass := .dl, prio }
  else if rtPrio prio then { t with schedClass := .rt, prio }
  else { t with schedClass := .fair, prio }

/-- `__rt_effective_prio`. -/
def rtEffectivePrio (s : Kernel) (piTask : Option Tid) (prio : Int) : Int :=
  match piTask with
  | none => prio
  | some d => min prio (s.task d).prio

def dlEntityPreempt (b : Build) (x y : DlEntity) : Bool :=
  (b.schedutil && hasFlag x.flags schedFlagSugov) || decide ((x.deadline - y.deadline).toInt64 < 0)

/-- The condition under which a deadline priority brings the donor's entity with it. -/
def boostedByDonor (b : Build) (s : Kernel) (p : Tid) (piTask : Option Tid) : Bool :=
  !dlPrio (s.task p).normalPrio ||
    match piTask with
    | none => false
    | some d => dlPrio (s.task d).prio && dlEntityPreempt b (s.task d).dl (s.task p).dl

/-- `p->dl.pi_se` after the three branches of `rt_mutex_setprio`. -/
def boostEntity (b : Build) (s : Kernel) (p : Tid) (piTask : Option Tid) (prio oldprio : Int) :
    Except Fault Tid :=
  if dlPrio prio then
    if boostedByDonor b s p piTask then
      match piTask with
      | none => .error .badPointer
      | some d => .ok (s.task d).dl.piSe
    else .ok p
  else if dlPrio oldprio then .ok p
  else .ok (s.task p).dl.piSe

/-- The queue flags that the same branches add. -/
def boostFlags (b : Build) (s : Kernel) (p : Tid) (piTask : Option Tid) (prio oldprio : Int) :
    UInt32 :=
  if dlPrio prio then if boostedByDonor b s p piTask then enqueueReplenish else 0
  else if rtPrio prio ∧ oldprio < prio then enqueueHead
  else 0

/-- The real-time timeout is cleared when a task falls back among the others. -/
def boostTimeout (t : TaskStruct) (prio oldprio : Int) : Nat :=
  if !rtPrio prio && rtPrio oldprio then 0 else t.rtTimeout

def rtMutexSetprio (b : Build) (e : Env) (p : Tid) (piTask : Option Tid) (s : Kernel) :
    Except Fault Kernel :=
  let prio := rtEffectivePrio s piTask (s.task p).normalPrio
  let oldprio := (s.task p).prio
  if (s.task p).piTopTask = piTask ∧ prio = oldprio ∧ !dlPrio prio then .ok s
  else
    let s := updateRqClock e s
    let s := s.setTask p { s.task p with piTopTask := piTask }
    if prio = oldprio ∧ !dlPrio prio then .ok s
    else if p = s.rq.idle then .ok s
    else do
      let move := if oldprio = prio then 0 else dequeueMove
      let queueFlag := dequeueSave ||| move ||| dequeueNoclock
      let prevClass := (s.task p).schedClass
      let queued := s.taskOnRqQueued p
      let running := s.taskCurrent p
      let s ← takeOff b e p queued running queueFlag s
      let piSe ← boostEntity b s p piTask prio oldprio
      let t := s.task p
      let t := { t with dl := { t.dl with piSe }, rtTimeout := boostTimeout t prio oldprio }
      let queueFlag := queueFlag ||| boostFlags b s p piTask prio oldprio
      let s := s.setTask p (setschedulerPrio t prio)
      let s ← putBack b e p queued running queueFlag s
      checkClassChanged b e p prevClass oldprio s

def schedChangeGroup (b : Build) (e : Env) (p : Tid) (s : Kernel) : Except Fault Kernel :=
  callHookIfSet b e (s.task p).schedClass .taskChangeGroup p s

def schedMoveTask (b : Build) (e : Env) (p : Tid) (s : Kernel) : Except Fault Kernel := do
  let s := updateRqClock e s
  let queueFlags := dequeueSave ||| dequeueMove ||| dequeueNoclock
  let running := s.taskCurrent p
  let queued := s.taskOnRqQueued p
  let s ← takeOff b e p queued running queueFlags s
  let s ← schedChangeGroup b e p s
  let s ← putBack b e p queued running queueFlags s
  .ok (if running then reschedCurr s else s)

end Changes

end LotteryScheduler.Model
