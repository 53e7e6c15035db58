import LotteryScheduler.Model.Setscheduler
import LotteryScheduler.Model.Fork

namespace LotteryScheduler.Model
open Lib

/-- The operations on one CPU. A fork and the first wakeup of its child are two of
them, since the parent can be preempted in between, and `otherTask` stands for
whatever happens to a task of another runqueue. The stop tasks of SMP builds
(`sched_set_stop_task`) are left out. -/
inductive Op where
  | setCurrentState (state : Nat)
  | schedule (preempt : Bool)
  | tryToWakeUp (p : Tid) (state : Nat)
  | kernelClone (args : KernelCloneArgs) (ce : CopyEnv)
  | createIoThread (ce : CopyEnv)
  | wakeUpNewTask (p : Tid)
  | setUserNice (p : Tid) (nice : Int)
  | rtMutexSetprio (p : Tid) (piTask : Option Tid)
  | schedMoveTask (p : Tid)
  | schedSetscheduler (caller : Caller) (p : Tid) (attr : SchedAttr) (user pi : Bool)
  | schedulerTick
  | schedYield
  | taskSchedRuntime (p : Tid)
  | schedExec
  | setCpusAllowed (p : Tid)
  | releaseTask (p : Tid)
  | otherTask (p : Tid) (t : TaskStruct)

/-- The pid allocator hands out an unused pid below its limit. -/
def freshPid (b : Build) (p : Tid) (s : Kernel) : Prop :=
  p ∉ s.live ∧ p ≠ s.rq.idle ∧ p < b.pidMax

instance (b : Build) (p : Tid) (s : Kernel) : Decidable (freshPid b p s) :=
  inferInstanceAs (Decidable (_ ∧ _ ∧ _))

/-- What the callers of each operation see to. -/
def enabled (b : Build) (s : Kernel) : Op → Prop
  | .setCurrentState state => s.rq.curr ≠ s.rq.idle ∧ state ≠ taskNew
  | .schedule _ => True
  | .tryToWakeUp p state => p ∈ s.live ∧ state &&& taskNew = 0
  | .kernelClone _ ce => freshPid b ce.pid s
  | .createIoThread ce => s.rq.curr ≠ s.rq.idle ∧ freshPid b ce.pid s
  | .wakeUpNewTask p => p ∈ s.live ∧ (s.task p).state = taskNew
  | .setUserNice p _ => p ∈ s.live
  | .rtMutexSetprio p _ => p ∈ s.live
  | .schedMoveTask p => p ∈ s.live
  | .schedSetscheduler caller p _ _ pi => p ∈ s.live ∧ ¬(pi ∧ caller.inInterrupt)
  | .schedulerTick => True
  | .schedYield => s.rq.curr ≠ s.rq.idle
  | .taskSchedRuntime p => p ∈ s.live
  | .schedExec => b.smp ∧ s.rq.curr ≠ s.rq.idle
  | .setCpusAllowed p => b.smp ∧ p ∈ s.live
  | .releaseTask p => p ∈ s.live ∧ (s.task p).state = taskDead ∧ (s.task p).onRq = .none ∧
      p ≠ s.rq.curr
  | .otherTask p _ => p ∉ s.live ∧ p ≠ s.rq.idle

instance (b : Build) (s : Kernel) : (op : Op) → Decidable (enabled b s op)
  | .schedule _ | .schedulerTick => inferInstanceAs (Decidable True)
  | .setUserNice p _ | .rtMutexSetprio p _ | .schedMoveTask p | .taskSchedRuntime p =>
    inferInstanceAs (Decidable (p ∈ s.live))
  | .schedYield => inferInstanceAs (Decidable (_ ≠ _))
  | .kernelClone _ ce => inferInstanceAs (Decidable (freshPid b ce.pid s))
  | .createIoThread _ => inferInstanceAs (Decidable (_ ∧ freshPid _ _ _))
  | .setCurrentState _ | .tryToWakeUp _ _ | .wakeUpNewTask _ | .schedSetscheduler _ _ _ _ _
  | .schedExec | .setCpusAllowed _ | .releaseTask _ | .otherTask _ _ =>
    inferInstanceAs (Decidable (_ ∧ _))

def releaseTask (p : Tid) (s : Kernel) : Kernel :=
  { s with live := s.live.erase p, nrThreads := s.nrThreads - 1 }

def exec (b : Build) (e : Env) (op : Op) (s : Kernel) : Except Fault Kernel :=
  match op with
  | .setCurrentState state => .ok (s.setState s.rq.curr state)
  | .schedule preempt => schedule b e preempt s
  | .tryToWakeUp p state => do
    let (_,s) ← tryToWakeUp b e p state s
    .ok s
  | .kernelClone args ce => do
    let (_,s) ← kernelCloneCopy b e args ce s
    .ok s
  | .createIoThread ce => do
    let (_,s) ← createIoThread b e ce s
    .ok s
  | .wakeUpNewTask p => wakeUpNewTask b e p s
  | .setUserNice p nice => setUserNice b e p nice s
  | .rtMutexSetprio p piTask => rtMutexSetprio b e p piTask s
  | .schedMoveTask p => schedMoveTask b e p s
  | .schedSetscheduler caller p attr user pi => do
    let (_,s) ← schedSetscheduler b e caller p attr user pi s
    .ok s
  | .schedulerTick => schedulerTick b e s
  | .schedYield => doSchedYield b e s
  | .taskSchedRuntime p => do
    let (_,s) ← taskSchedRuntime b e p s
    .ok s
  | .schedExec => schedExec b e s
  | .setCpusAllowed p => setCpusAllowed b e p s
  | .releaseTask p => .ok (releaseTask p s)
  | .otherTask p t => .ok (s.setTask p t)

/-- The boot task after `init_idle`. -/
def bootTask : TaskStruct where
  state := taskRunning
  onRq := .queued
  prio := 120
  staticPrio := 120
  normalPrio := 120
  rtPriority := 0
  rtTimeout := 0
  schedClass := .idle
  policy := schedNormal
  tickets := 0
  schedResetOnFork := false
  piTopTask := none
  dl := { piSe := 0 }

/-- The state that `sched_init` leaves: the boot task runs, and nothing is queued. -/
def schedInit : Kernel :=
  initLtrRq {
    live := []
    task := fun _ => bootTask
    se := fun _ => ⟨0⟩
    mem := fun _ => ⟨.null,.null⟩
    rq := {
      nrRunning := 0
      queue := fun _ => []
      ltr := ⟨0,0⟩
      curr := 0
      idle := 0
      stop := none
      clock := 0
      clockTask := 0
      clockUpdateFlags := 0
      needResched := false }
    nrThreads := 0
    log := [] }

/-- One operation that its caller may start and that completes, whatever it meets. -/
def Step (b : Build) (s s' : Kernel) : Prop :=
  ∃ e op, enabled b s op ∧ exec b e op s = .ok s'

inductive Reachable (b : Build) : Kernel → Prop where
  | init : Reachable b schedInit
  | step (before : Reachable b s) (last : Step b s s') : Reachable b s'

/-- A schedule of operations, each with what it meets, run from `s`. -/
def runOps (b : Build) : List (Env × Op) → Kernel → Except Fault Kernel
  | [], s => .ok s
  | (e,op) :: ops, s =>
    if enabled b s op then exec b e op s >>= runOps b ops else .error .bug

theorem Reachable.runOps {ops : List (Env × Op)} (h : Reachable b s)
    (hr : runOps b ops s = .ok s') : Reachable b s' := by
  induction ops generalizing s with
  | nil =>
    simp only [Model.runOps,Except.ok.injEq] at hr
    exact hr ▸ h
  | cons eop ops ih =>
    simp only [Model.runOps] at hr
    split at hr
    · obtain ⟨t,ht,hr⟩ := bind_eq_ok.mp hr
      exact ih (h.step ⟨_,_,‹_›,ht⟩) hr
    · cases hr

theorem runOps_cons (he : enabled b s op) (h : exec b e op s = .ok t) (ops : List (Env × Op)) :
    runOps b ((e,op) :: ops) s = runOps b ops t := by
  simp only [Model.runOps]
  rw [if_pos he,h]
  rfl

theorem runOps_append (b : Build) (ops ops' : List (Env × Op)) (s : Kernel) :
    runOps b (ops ++ ops') s = runOps b ops s >>= runOps b ops' := by
  induction ops generalizing s with
  | nil => rfl
  | cons eop ops ih =>
    simp only [List.cons_append,Model.runOps]
    split
    · cases exec b eop.1 eop.2 s with
      | error _ => rfl
      | ok t => exact ih t
    · rfl

/-- The state after a schedule of operations from the start, when it completes. -/
def after (b : Build) (ops : List (Env × Op)) : Kernel :=
  (runOps b ops schedInit).toOption.getD schedInit

def completes (b : Build) (ops : List (Env × Op)) : Bool := (runOps b ops schedInit).toBool

theorem runOps_after (h : completes b ops = true) :
    runOps b ops schedInit = .ok (after b ops) := ok_getD h _

theorem Reachable.after (h : completes b ops = true) : Reachable b (after b ops) :=
  Reachable.init.runOps (runOps_after h)

/-- The rest of a schedule, from the state after its beginning. -/
theorem runOps_rest (ops ops' : List (Env × Op)) (h : completes b ops = true)
    (h' : completes b (ops ++ ops') = true) :
    runOps b ops' (after b ops) = .ok (after b (ops ++ ops')) := by
  have hlast := runOps_after h'
  rw [runOps_append,runOps_after h] at hlast
  exact hlast

/-- The last operation of a schedule, from the state before it. -/
theorem exec_after (ops : List (Env × Op)) (e : Env) (op : Op) (h : completes b ops = true)
    (h' : completes b (ops ++ [(e,op)]) = true) :
    enabled b (after b ops) op ∧
      exec b e op (after b ops) = .ok (after b (ops ++ [(e,op)])) := by
  have hlast := runOps_after h'
  rw [runOps_append,runOps_after h] at hlast
  change runOps b [(e,op)] (Model.after b ops) = _ at hlast
  simp only [runOps] at hlast
  split at hlast
  next he =>
    obtain ⟨t,ht,hlast⟩ := bind_eq_ok.mp hlast
    cases hlast
    exact ⟨he,ht⟩
  next => cases hlast

/-- The classes defined elsewhere as they are on one CPU, with quiet surroundings:
nothing is charged, nobody asks for a reschedule, the first task queued is picked. -/
def Env.quiet : Env where
  schedClock := 0
  ktimeNs := fun n => n
  randomWord := 0
  pick := fun _ l => l.head?
  pick_none := by simp
  pick_mem := fun _ _ _ h => List.mem_of_mem_head? h
  resched := fun _ _ => false
  charge := fun _ _ => 0
  balanced := fun _ => false
  checkparamDl := fun _ => true
  setparamDl := fun t _ => t.dl
  dlParamChanged := fun _ _ => false
  dlOverflow := fun _ _ _ => false
  dlOverflow_leave := by simp
  dlSpanRefused := fun _ => false
  signalPending := false
  fatalSignalPending := false
  nrCpusAllowed := fun _ => 2
  migrationDisabled := fun _ => false
  coreEnabled := false
  cpuIsOffline := false

/-- The hooks that the idle class leaves out. -/
def idleLacks : List Hook := [.enqueueTask,.yieldTask,.taskWoken,.taskFork,.switchedFrom,
  .taskChangeGroup]

/-- The build of the repository: a uniprocessor with the default pid limit. -/
def Build.versatile : Build where
  smp := false
  schedCore := false
  schedCore_smp := nofun
  schedutil := false
  maxThreads := 1024
  pidMax := 32768
  pidMax_le := by decide
  upstreamHooks := fun c h => c != .idle || !idleLacks.contains h
  upstream_complete := by
    intro c h _ ht hi
    cases c <;> cases h <;> simp_all [idleLacks,Hook.tested]

/-- An ordinary user without rights beyond its own tasks. -/
def Caller.plain : Caller where
  capSysNice := false
  sameOwner := true
  rlimitRtprio := 0
  rlimitNice := 0

/-- The boot task clones a task, which is woken. -/
def spawn (pid : Tid) : List (Env × Op) :=
  [(.quiet,.kernelClone { flags := 0 } { pid }),(.quiet,.wakeUpNewTask pid)]

/-- A user moves a task to the lottery policy. -/
def toLottery (pid : Tid) : Env × Op :=
  (.quiet,.schedSetscheduler .plain pid { schedPolicy := schedLottery } true true)

/-- A task moves to the lottery policy while it runs. -/
def lotteryRunsOps : List (Env × Op) := spawn 1 ++ [(.quiet,.schedule true),toLottery 1]

/-- One task was cloned and woken, and waits in the fair class. -/
def fairWaits : Kernel := after .versatile (spawn 1)

/-- A task is queued under the lottery policy while the boot task runs. -/
def lotteryWaits : Kernel := after .versatile (spawn 1 ++ [toLottery 1])

def lotteryRuns : Kernel := after .versatile lotteryRunsOps

/-- A lottery task runs with a task of the fair class queued beside it. -/
def lotteryRunsAlongFair : Kernel :=
  after .versatile (spawn 1 ++ spawn 2 ++ [(.quiet,.schedule true),toLottery 1])

theorem fairWaits_reachable : Reachable .versatile fairWaits := .after (by decide +kernel)

theorem lotteryWaits_reachable : Reachable .versatile lotteryWaits := .after (by decide +kernel)

theorem lotteryRuns_reachable : Reachable .versatile lotteryRuns := .after (by decide +kernel)

theorem lotteryRunsAlongFair_reachable : Reachable .versatile lotteryRunsAlongFair :=
  .after (by decide +kernel)

end LotteryScheduler.Model
