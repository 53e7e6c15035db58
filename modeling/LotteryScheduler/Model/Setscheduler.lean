import LotteryScheduler.Model.Core

namespace LotteryScheduler.Model
open Lib

/-- The caller's rights over the target, the target's limits, and the verdict of
the security module. -/
structure Caller where
  inInterrupt : Bool := false
  capSysNice : Bool
  sameOwner : Bool
  rlimitRtprio : Nat
  rlimitNice : Nat
  securityTaskSetscheduler : Int := 0
  deriving DecidableEq, Repr

/-- The rlimit is compared as an unsigned long. -/
def canNice (caller : Caller) (nice : Int) : Bool :=
  decide (niceToRlimit nice % 2 ^ 32 ≤ caller.rlimitNice) || caller.capSysNice

def setparamPolicy : Int := -1

/-- `__setscheduler_params`. -/
def setschedulerParams (e : Env) (t : TaskStruct) (attr : SchedAttr) : TaskStruct :=
  let policy := if attr.schedPolicy = setparamPolicy then t.policy else attr.schedPolicy
  let t := { t with policy }
  let t := if dlPolicy policy then { t with dl := { e.setparamDl t attr with piSe := t.dl.piSe } }
    else if fairPolicy policy then { t with staticPrio := niceToPrio attr.schedNice }
    else t
  let t := { t with rtPriority := attr.schedPriority }
  { t with normalPrio := normalPrio t }

/-- The build of the repository has no utilization clamping (`CONFIG_UCLAMP_TASK`). -/
def uclampValidate : Int := -eopnotsupp

section Admission

/-- The policy a request is about: its own, or the task's when it names none. -/
def effectivePolicy (t : TaskStruct) (attr : SchedAttr) : Int :=
  if attr.schedPolicy < 0 then t.policy else attr.schedPolicy

def requestedReset (t : TaskStruct) (attr : SchedAttr) : Bool :=
  if attr.schedPolicy < 0 then t.schedResetOnFork else hasFlag attr.schedFlags schedFlagResetOnFork

/-- The checks made on every request; zero means that it passes. -/
def checkRequest (e : Env) (t : TaskStruct) (attr : SchedAttr) : Int :=
  let policy := effectivePolicy t attr
  if attr.schedPolicy ≥ 0 ∧ !validPolicy policy then -einval
  else if hasFlag attr.schedFlags (~~~(schedFlagAll ||| schedFlagSugov)) then -einval
  else if (attr.schedPriority : Int) > maxRtPrio - 1 then -einval
  else if (dlPolicy policy && !e.checkparamDl attr) ||
      (rtPolicy policy != (attr.schedPriority != 0)) || !ltrPolicy policy then -einval
  else 0

/-- The checks made on a user without the capability, in the source's order. -/
def checkUser (caller : Caller) (t : TaskStruct) (attr : SchedAttr) : Int :=
  let policy := effectivePolicy t attr
  if fairPolicy policy ∧ attr.schedNice < taskNice t ∧ !canNice caller attr.schedNice then -eperm
  else if rtPolicy policy ∧ policy ≠ t.policy ∧ caller.rlimitRtprio = 0 then -eperm
  else if rtPolicy policy ∧ attr.schedPriority > t.rtPriority ∧
      attr.schedPriority > caller.rlimitRtprio then -eperm
  else if dlPolicy policy then -eperm
  else if idlePolicy t.policy ∧ !idlePolicy policy ∧ !canNice caller (taskNice t) then -eperm
  else if !caller.sameOwner then -eperm
  else if t.schedResetOnFork ∧ !requestedReset t attr then -eperm
  else 0

/-- All checks made before the runqueue lock is taken. -/
def admission (e : Env) (caller : Caller) (t : TaskStruct) (attr : SchedAttr) (user : Bool) :
    Int :=
  let request := checkRequest e t attr
  let rights := checkUser caller t attr
  if request ≠ 0 then request
  else if user ∧ !caller.capSysNice ∧ rights ≠ 0 then rights
  else if user ∧ hasFlag attr.schedFlags schedFlagSugov then -einval
  else if user ∧ caller.securityTaskSetscheduler ≠ 0 then caller.securityTaskSetscheduler
  else if hasFlag attr.schedFlags schedFlagUtilClamp then uclampValidate
  else 0

/-- Whether a request for the policy the task already has changes anything. -/
def changes (e : Env) (t : TaskStruct) (attr : SchedAttr) : Bool :=
  let policy := effectivePolicy t attr
  (fairPolicy policy && attr.schedNice != taskNice t) ||
    (rtPolicy policy && attr.schedPriority != t.rtPriority) ||
    (dlPolicy policy && e.dlParamChanged t attr) ||
    hasFlag attr.schedFlags schedFlagUtilClamp

end Admission

/-- `newprio`: the requested priority, boosted by the top waiter when `pi` is set. -/
def newPrio (s : Kernel) (p : Tid) (attr : SchedAttr) (pi : Bool) : Int :=
  let prio := normalPrioOf (effectivePolicy (s.task p) attr) attr.schedPriority attr.schedNice
  if pi then rtEffectivePrio s (s.task p).piTopTask prio else prio

/-- The parameters and the class of an accepted request, unless it keeps them. -/
def commitParams (e : Env) (t : TaskStruct) (attr : SchedAttr) (newprio : Int) : TaskStruct :=
  if hasFlag attr.schedFlags schedFlagKeepParams then t
  else setschedulerPrio (setschedulerParams e t attr) newprio

/-- `__sched_setscheduler` from the point where nothing can fail any more. -/
def commitRequest (b : Build) (e : Env) (p : Tid) (attr : SchedAttr) (pi : Bool) (s : Kernel) :
    Except Fault Kernel := do
  let reset := requestedReset (s.task p) attr
  let newprio := newPrio s p attr pi
  let s := s.setTask p { s.task p with schedResetOnFork := reset }
  let oldprio := (s.task p).prio
  let move := if pi ∧ newprio = oldprio then 0 else dequeueMove
  let queueFlags := dequeueSave ||| move ||| dequeueNoclock
  let queued := s.taskOnRqQueued p
  let running := s.taskCurrent p
  let s ← takeOff b e p queued running queueFlags s
  let prevClass := (s.task p).schedClass
  let s := s.setTask p (commitParams e (s.task p) attr newprio)
  let queueFlags := if oldprio < (s.task p).prio then queueFlags ||| enqueueHead else queueFlags
  let s ← putBack b e p queued running queueFlags s
  checkClassChanged b e p prevClass oldprio s

/-- `__sched_setscheduler`. Under one lock the policy cannot change between the
two readings of it, so the second check never sends the call back to the start. -/
def schedSetscheduler (b : Build) (e : Env) (caller : Caller) (p : Tid) (attr : SchedAttr)
    (user pi : Bool) (s : Kernel) : Except Fault (Int × Kernel) :=
  if pi ∧ caller.inInterrupt then .error .bug
  else if admission e caller (s.task p) attr user ≠ 0 then
    .ok (admission e caller (s.task p) attr user,s)
  else
    let s := updateRqClock e s
    let t := s.task p
    let policy := effectivePolicy t attr
    if s.rq.stop = some p then .ok (-einval,s)
    else if policy = t.policy ∧ !changes e t attr then
      .ok (0,s.setTask p { t with schedResetOnFork := requestedReset t attr })
    else if user ∧ b.smp ∧ dlPolicy policy ∧ !hasFlag attr.schedFlags schedFlagSugov ∧
        e.dlSpanRefused p then .ok (-eperm,s)
    else if (dlPolicy policy || dlPrio t.prio) && e.dlOverflow t policy attr then .ok (-ebusy,s)
    else do
      let s ← commitRequest b e p attr pi s
      .ok (0,s)

section Queries

/-- `get_params`; the deadline class fills in its own fields. -/
def getParams (getparamDl : TaskStruct → SchedAttr → SchedAttr) (t : TaskStruct)
    (attr : SchedAttr) : SchedAttr :=
  if dlPolicy t.policy then getparamDl t attr
  else if rtPolicy t.policy then { attr with schedPriority := t.rtPriority }
  else { attr with schedNice := taskNice t }

/-- What `sched_getattr` copies to the user. -/
def schedGetattr (getparamDl : TaskStruct → SchedAttr → SchedAttr) (t : TaskStruct) : SchedAttr :=
  let kattr : SchedAttr := { schedPolicy := t.policy }
  let kattr := if t.schedResetOnFork then
      { kattr with schedFlags := kattr.schedFlags ||| schedFlagResetOnFork }
    else kattr
  let kattr := getParams getparamDl t kattr
  { kattr with schedFlags := kattr.schedFlags &&& schedFlagAll }

end Queries

section Wrappers

def schedResetOnForkBit : Nat := 0x40000000

/-- `_sched_setscheduler`; the reset bit may come in the policy word. -/
def schedSetschedulerParam (b : Build) (e : Env) (caller : Caller) (p : Tid) (policy : Int)
    (schedPriority : Nat) (check : Bool) (s : Kernel) : Except Fault (Int × Kernel) :=
  let attr : SchedAttr :=
    { schedPolicy := policy, schedPriority, schedNice := prioToNice (s.task p).staticPrio }
  let bits := BitVec.ofInt 32 policy
  let attr :=
    if policy ≠ setparamPolicy ∧ bits &&& BitVec.ofNat 32 schedResetOnForkBit ≠ 0 then
      { attr with
        schedFlags := attr.schedFlags ||| schedFlagResetOnFork
        schedPolicy := (bits &&& ~~~BitVec.ofNat 32 schedResetOnForkBit).toInt }
    else attr
  schedSetscheduler b e caller p attr check true s

def schedSetschedulerNocheck (b : Build) (e : Env) (caller : Caller) (p : Tid) (policy : Int)
    (schedPriority : Nat) (s : Kernel) : Except Fault (Int × Kernel) :=
  schedSetschedulerParam b e caller p policy schedPriority false s

/-- A call whose warning fires when the request is refused. -/
def warnOnRefusal (r : Except Fault (Int × Kernel)) : Except Fault (Bool × Kernel) := do
  let (retval,s) ← r
  .ok (retval != 0,s)

def schedSetFifo (b : Build) (e : Env) (caller : Caller) (p : Tid) (s : Kernel) :
    Except Fault (Bool × Kernel) :=
  warnOnRefusal (schedSetschedulerNocheck b e caller p schedFifo (maxRtPrio / 2).toNat s)

def schedSetFifoLow (b : Build) (e : Env) (caller : Caller) (p : Tid) (s : Kernel) :
    Except Fault (Bool × Kernel) :=
  warnOnRefusal (schedSetschedulerNocheck b e caller p schedFifo 1 s)

def schedSetattr (b : Build) (e : Env) (caller : Caller) (p : Tid) (attr : SchedAttr)
    (s : Kernel) : Except Fault (Int × Kernel) :=
  schedSetscheduler b e caller p attr true true s

def schedSetattrNocheck (b : Build) (e : Env) (caller : Caller) (p : Tid) (attr : SchedAttr)
    (s : Kernel) : Except Fault (Int × Kernel) :=
  schedSetscheduler b e caller p attr false true s

def schedSetNormal (b : Build) (e : Env) (caller : Caller) (p : Tid) (nice : Int) (s : Kernel) :
    Except Fault (Bool × Kernel) :=
  let attr : SchedAttr := { schedPolicy := schedLottery, schedNice := nice }
  warnOnRefusal (schedSetattrNocheck b e caller p attr s)

end Wrappers

end LotteryScheduler.Model
