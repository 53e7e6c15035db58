import Mathlib.Algebra.Group.Int.Defs
import Mathlib.Algebra.Group.Nat.Defs
import Mathlib.Data.List.Basic

namespace LotteryScheduler.Model

/-- A task is named by its pid; the boot task is pid 0. -/
abbrev Tid := Nat

def schedNormal : Int := 0
def schedFifo : Int := 1
def schedRr : Int := 2
def schedBatch : Int := 3
def schedIdle : Int := 5
def schedDeadline : Int := 6
def schedLottery : Int := 7

def idlePolicy (policy : Int) : Bool := policy == schedIdle

def fairPolicy (policy : Int) : Bool := policy == schedNormal || policy == schedBatch

def rtPolicy (policy : Int) : Bool := policy == schedFifo || policy == schedRr

def dlPolicy (policy : Int) : Bool := policy == schedDeadline

def ltrPolicy (policy : Int) : Bool := policy == schedLottery

def validPolicy (policy : Int) : Bool :=
  idlePolicy policy || fairPolicy policy ||
    rtPolicy policy || dlPolicy policy || ltrPolicy policy

def maxNice : Int := 19
def minNice : Int := -20
def maxRtPrio : Int := 100
def maxDlPrio : Int := 0
def defaultPrio : Int := 120

/-- A C `int` after wrapping arithmetic. -/
def toInt32 (n : Int) : Int := n.bmod (2 ^ 32)

def niceToPrio (nice : Int) : Int := toInt32 (nice + defaultPrio)

def prioToNice (prio : Int) : Int := toInt32 (prio - defaultPrio)

def niceToRlimit (nice : Int) : Int := toInt32 (maxNice - nice + 1)

def dlPrio (prio : Int) : Bool := prio < maxDlPrio

def rtPrio (prio : Int) : Bool := prio < maxRtPrio

/-- `__normal_prio`. -/
def normalPrioOf (policy rtPriority nice : Int) : Int :=
  if dlPolicy policy then maxDlPrio - 1
  else if rtPolicy policy then maxRtPrio - 1 - rtPriority
  else niceToPrio nice

def schedFlagResetOnFork : UInt64 := 0x01
def schedFlagReclaim : UInt64 := 0x02
def schedFlagDlOverrun : UInt64 := 0x04
def schedFlagKeepPolicy : UInt64 := 0x08
def schedFlagKeepParams : UInt64 := 0x10
def schedFlagUtilClampMin : UInt64 := 0x20
def schedFlagUtilClampMax : UInt64 := 0x40
def schedFlagSugov : UInt64 := 0x10000000

def schedFlagKeepAll : UInt64 := schedFlagKeepPolicy ||| schedFlagKeepParams

def schedFlagUtilClamp : UInt64 := schedFlagUtilClampMin ||| schedFlagUtilClampMax

def schedFlagAll : UInt64 :=
  schedFlagResetOnFork ||| schedFlagReclaim ||| schedFlagDlOverrun |||
    schedFlagKeepAll ||| schedFlagUtilClamp

/-- The flag test `word & mask` of a C condition. -/
def hasFlag (word mask : UInt64) : Bool := word &&& mask != 0

/-- The request handed to `__sched_setscheduler`. -/
structure SchedAttr where
  schedPolicy : Int
  schedFlags : UInt64 := 0
  schedNice : Int := 0
  schedPriority : Nat := 0
  schedRuntime : Nat := 0
  schedDeadlineNs : Nat := 0
  schedPeriod : Nat := 0
  deriving DecidableEq, Repr

def taskRunning : Nat := 0x0000
def taskInterruptible : Nat := 0x0001
def taskDead : Nat := 0x0080
def taskWakekill : Nat := 0x0100
def taskWaking : Nat := 0x0200
def taskNew : Nat := 0x0800

def enomem : Int := 12
def eagain : Int := 11
def eperm : Int := 1
def ebusy : Int := 16
def einval : Int := 22
def eintr : Int := 4
def eopnotsupp : Int := 95
def erestartnointr : Int := 513

/-- A member of the class table, in the table's own words. -/
inductive SchedClass where
  | idle
  | fair
  | rt
  | dl
  | stop
  | lottery
  deriving DecidableEq, Repr

/-- The classes by increasing address, as the linker script places them. -/
def schedData : List SchedClass := [.idle,.fair,.rt,.dl,.stop,.lottery]

def SchedClass.addr (c : SchedClass) : Nat := schedData.idxOf c

instance : LE SchedClass := ⟨fun a b => a.addr ≤ b.addr⟩
instance : LT SchedClass := ⟨fun a b => a.addr < b.addr⟩
instance (a b : SchedClass) : Decidable (a ≤ b) := inferInstanceAs (Decidable (a.addr ≤ b.addr))
instance (a b : SchedClass) : Decidable (a < b) := inferInstanceAs (Decidable (a.addr < b.addr))

/-- The classes met by a pointer that starts at `source` and is decremented until
it is `target`. -/
def forClassRange (source target : SchedClass) : List SchedClass :=
  (schedData.reverse.dropWhile (· != source)).takeWhile (· != target)

/-- `for_each_class`: from the last entry of the table down to its first. -/
def forEachClass : List SchedClass := schedData.reverse

/-- The function pointers of `struct sched_class` that the core calls. Of those that it
tests against NULL only four are here: the others (`yield_to_task`, `migrate_task_rq`,
`find_lock_rq`, `task_dead`, `get_rr_interval`, `rq_online` and `rq_offline`) belong to
operations that are left out. -/
inductive Hook where
  | enqueueTask
  | dequeueTask
  | yieldTask
  | checkPreemptCurr
  | pickNextTask
  | pickTask
  | putPrevTask
  | setNextTask
  | balance
  | selectTaskRq
  | setCpusAllowed
  | taskWoken
  | taskTick
  | taskFork
  | switchedFrom
  | switchedTo
  | prioChanged
  | updateCurr
  | taskChangeGroup
  deriving DecidableEq, Repr

/-- The hooks that the core tests against NULL before it calls them. -/
def Hook.tested : Hook → Bool
  | .taskWoken | .taskFork | .switchedFrom | .taskChangeGroup => true
  | _ => false

/-- The initialiser of `lottery_sched_class`. -/
def lotterySchedClass : List Hook :=
  [.enqueueTask,.dequeueTask,.yieldTask,.checkPreemptCurr,.pickNextTask,.putPrevTask,
    .setNextTask,.taskTick,.switchedTo,.switchedFrom,.prioChanged]

end LotteryScheduler.Model
