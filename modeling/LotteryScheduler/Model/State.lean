import LotteryScheduler.Lib.IntrusiveList
import LotteryScheduler.Lib.Execution
import LotteryScheduler.Model.Policy

namespace LotteryScheduler.Model
open Lib

/-- `task_struct::on_rq`. -/
inductive OnRq where
  | none
  | queued
  | migrating
  deriving DecidableEq, Repr

/-- The deadline entity of a task. `piSe` names the task whose entity is in force. -/
structure DlEntity where
  flags : UInt64 := 0
  deadline : UInt64 := 0
  piSe : Tid
  deriving DecidableEq, Repr

structure TaskStruct where
  state : Nat
  onRq : OnRq
  prio : Int
  staticPrio : Int
  normalPrio : Int
  rtPriority : Nat
  rtTimeout : Nat
  schedClass : SchedClass
  policy : Int
  tickets : UInt32
  schedResetOnFork : Bool
  piTopTask : Option Tid
  dl : DlEntity
  deriving DecidableEq, Repr

/-- The part of `se` that every class shares. -/
structure SchedEntity where
  sumExecRuntime : Nat
  deriving DecidableEq, Repr

/-- What owns a `list_head` of the lottery queue: the runqueue or a task. -/
inductive Node where
  | ltrQueue
  | task (p : Tid)
  deriving DecidableEq, Repr

structure LtrRq where
  nrRunning : UInt32
  totalTickets : UInt32
  deriving DecidableEq, Repr

/-- The runqueue. `queue` stands for the queues of the classes that are not part
of this source, `needResched` for the flag of the current task. -/
structure Rq where
  nrRunning : UInt32
  queue : SchedClass → List Tid
  ltr : LtrRq
  curr : Tid
  idle : Tid
  stop : Option Tid
  clock : Nat
  clockTask : Nat
  clockUpdateFlags : UInt32
  needResched : Bool

inductive LogOp where
  | e
  | d
  | s
  deriving DecidableEq, Repr

/-- One line printed by `log_event`. -/
structure LogRecord where
  pid : Tid
  ns : Nat
  op : LogOp
  deriving DecidableEq, Repr

/-- `live` are the tasks that were created and not yet released, the boot task
apart. -/
structure Kernel where
  live : List Tid
  task : Tid → TaskStruct
  se : Tid → SchedEntity
  mem : Links Node
  rq : Rq
  nrThreads : Nat
  log : List LogRecord

/-- How a call can fail to complete. -/
inductive Fault where
  | nullHook (c : SchedClass) (h : Hook)
  | badPointer
  | bug
  | endless
  deriving DecidableEq, Repr

/-- One configuration. Core scheduling needs the siblings of an SMP build. The pid
allocator bounds the tasks that can be live, and the classes that are not part of this
source provide every hook that the core calls untested, except the two that are never
called on the idle class. `max_threads`, which a sysctl can change, is a constant. -/
structure Build where
  smp : Bool
  schedCore : Bool
  schedCore_smp : schedCore = true → smp = true
  schedutil : Bool
  maxThreads : Nat
  pidMax : Nat
  pidMax_le : pidMax ≤ 858993459
  upstreamHooks : SchedClass → Hook → Bool
  upstream_complete : ∀ c h, c ≠ .lottery → h.tested = false →
    ¬(c = .idle ∧ (h = .enqueueTask ∨ h = .yieldTask)) → upstreamHooks c h = true

/-- What one operation reads from outside this source: the clocks, the random
pool, and the decisions of the classes and helpers defined elsewhere. -/
structure Env where
  schedClock : Nat
  ktimeNs : Nat → Nat
  randomWord : UInt32
  pick : SchedClass → List Tid → Option Tid
  pick_none : ∀ c l, pick c l = none ↔ l = []
  pick_mem : ∀ c l p, pick c l = some p → p ∈ l
  resched : SchedClass → Hook → Bool
  charge : SchedClass → Hook → Nat
  balanced : SchedClass → Bool
  checkparamDl : SchedAttr → Bool
  setparamDl : TaskStruct → SchedAttr → DlEntity
  dlParamChanged : TaskStruct → SchedAttr → Bool
  dlOverflow : TaskStruct → Int → SchedAttr → Bool
  dlOverflow_leave : ∀ t policy attr, dlPolicy policy = false → dlPolicy t.policy = true →
    dlOverflow t policy attr = false
  dlSpanRefused : Tid → Bool
  signalPending : Bool
  fatalSignalPending : Bool
  nrCpusAllowed : Tid → Nat
  migrationDisabled : Tid → Bool
  coreEnabled : Bool
  cpuIsOffline : Bool

def Build.provides (b : Build) (c : SchedClass) (h : Hook) : Bool :=
  match c with
  | .lottery => lotterySchedClass.contains h
  | c => b.upstreamHooks c h

section Updates

def Kernel.setTask (s : Kernel) (p : Tid) (t : TaskStruct) : Kernel :=
  { s with task := Function.update s.task p t }

def Kernel.setState (s : Kernel) (p : Tid) (state : Nat) : Kernel :=
  s.setTask p { s.task p with state }

def Kernel.setOnRq (s : Kernel) (p : Tid) (onRq : OnRq) : Kernel :=
  s.setTask p { s.task p with onRq }

def Kernel.setNeedResched (s : Kernel) : Kernel :=
  { s with rq := { s.rq with needResched := true } }

def Kernel.setQueue (s : Kernel) (c : SchedClass) (l : List Tid) : Kernel :=
  { s with rq := { s.rq with queue := Function.update s.rq.queue c l } }

def Kernel.setLtr (s : Kernel) (ltr : LtrRq) : Kernel := { s with rq := { s.rq with ltr } }

/-- `update_curr` of the class that owns the current task. -/
def Kernel.chargeCurr (s : Kernel) (ns : Nat) : Kernel :=
  { s with se := Function.update s.se s.rq.curr ⟨(s.se s.rq.curr).sumExecRuntime + ns⟩ }

def addNrRunning (s : Kernel) (count : UInt32) : Kernel :=
  { s with rq := { s.rq with nrRunning := s.rq.nrRunning + count } }

def subNrRunning (s : Kernel) (count : UInt32) : Kernel :=
  { s with rq := { s.rq with nrRunning := s.rq.nrRunning - count } }

def logEvent (e : Env) (p : Tid) (op : LogOp) (s : Kernel) : Kernel :=
  { s with log := s.log ++ [⟨p,e.ktimeNs s.log.length,op⟩] }

end Updates

section Queries

def Kernel.taskOnRqQueued (s : Kernel) (p : Tid) : Bool := (s.task p).onRq == .queued

def Kernel.taskCurrent (s : Kernel) (p : Tid) : Bool := s.rq.curr == p

def taskNice (t : TaskStruct) : Int := prioToNice t.staticPrio

def normalPrio (t : TaskStruct) : Int :=
  normalPrioOf t.policy t.rtPriority (prioToNice t.staticPrio)

def idleCpu (s : Kernel) : Bool :=
  if s.rq.curr ≠ s.rq.idle then false
  else if s.rq.nrRunning ≠ 0 then false
  else true

def singleTaskRunning (s : Kernel) : Bool := s.rq.nrRunning == 1

/-- `rq->cfs.h_nr_running`. -/
def cfsHNrRunning (s : Kernel) : UInt32 := UInt32.ofNat (s.rq.queue .fair).length

end Queries

section Clock

def rqcfReqSkip : UInt32 := 0x01
def rqcfActSkip : UInt32 := 0x02

/-- Interrupt and steal time are not accounted in this build: the whole
difference goes to the task clock. -/
def updateRqClockTask (s : Kernel) (delta : Nat) : Kernel :=
  { s with rq := { s.rq with clockTask := s.rq.clockTask + delta } }

def updateRqClock (e : Env) (s : Kernel) : Kernel :=
  if s.rq.clockUpdateFlags &&& rqcfActSkip ≠ 0 then s
  else if e.schedClock < s.rq.clock then s
  else
    let delta := e.schedClock - s.rq.clock
    updateRqClockTask { s with rq := { s.rq with clock := s.rq.clock + delta } } delta

def rqClockSkipUpdate (s : Kernel) : Kernel :=
  { s with rq := { s.rq with clockUpdateFlags := s.rq.clockUpdateFlags ||| rqcfReqSkip } }

end Clock

/-- A flag that is already set is left alone. -/
def reschedCurr (s : Kernel) : Kernel :=
  if s.rq.needResched then s else s.setNeedResched

end LotteryScheduler.Model
