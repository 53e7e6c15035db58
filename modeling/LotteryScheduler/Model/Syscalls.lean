import LotteryScheduler.Model.System

namespace LotteryScheduler.Model
open Lib

def esrch : Int := 3
def e2big : Int := 7
def efault : Int := 14

def niceWidth : Int := maxNice - minNice + 1

def schedAttrSizeVer0 : Nat := 48
def schedAttrSizeVer1 : Nat := 56
def pageSize : Nat := 4096

/-- A pointer that a user passes, with what is found behind it. -/
inductive UserPtr (α : Type) where
  | null
  | bad
  | to (value : α)
  deriving DecidableEq, Repr

/-- A `struct sched_attr` of a user: the size it states, and the answers and the zero-extended
result of the helpers that read it. -/
structure UserAttr where
  getUser : Int := 0
  size : Nat
  copyStructFromUser : Int := 0
  attr : SchedAttr
  deriving DecidableEq, Repr

/-- A C `int` taken for an unsigned one. -/
def toUnsigned (n : Int) : Nat := (BitVec.ofInt 32 n).toNat

/-- Pid zero names the caller. -/
def findProcessByPid (pid : Int) (s : Kernel) : Option Tid :=
  if pid = 0 then some s.rq.curr
  else if 0 < pid ∧ pid.toNat ∈ s.live then some pid.toNat
  else none

section Nice

/-- `sys_nice`; the security module answers for the caller. -/
def sysNice (b : Build) (e : Env) (caller : Caller) (securityTaskSetnice increment : Int)
    (s : Kernel) : Except Fault (Int × Kernel) :=
  let increment := max (-niceWidth) (min increment niceWidth)
  let nice := max minNice (min (taskNice (s.task s.rq.curr) + increment) maxNice)
  if increment < 0 ∧ !canNice caller nice then .ok (-eperm,s)
  else if securityTaskSetnice ≠ 0 then .ok (securityTaskSetnice,s)
  else do
    let s ← setUserNice b e s.rq.curr nice s
    .ok (0,s)

end Nice

section Setting

def doSchedSetscheduler (b : Build) (e : Env) (caller : Caller) (pid policy : Int)
    (param : UserPtr Int) (s : Kernel) : Except Fault (Int × Kernel) :=
  if param = .null ∨ pid < 0 then .ok (-einval,s)
  else match param with
    | .to schedPriority =>
      match findProcessByPid pid s with
      | none => .ok (-esrch,s)
      | some p => schedSetschedulerParam b e caller p policy (toUnsigned schedPriority) true s
    | _ => .ok (-efault,s)

def sysSchedSetscheduler (b : Build) (e : Env) (caller : Caller) (pid policy : Int)
    (param : UserPtr Int) (s : Kernel) : Except Fault (Int × Kernel) :=
  if policy < 0 then .ok (-einval,s) else doSchedSetscheduler b e caller pid policy param s

/-- `sched_copy_attr`. A size of zero stands for the first version of the structure. -/
def schedCopyAttr (uattr : UserAttr) : Except Int SchedAttr :=
  let size := if uattr.size = 0 then schedAttrSizeVer0 else uattr.size
  if uattr.getUser ≠ 0 then .error uattr.getUser
  else if size < schedAttrSizeVer0 ∨ size > pageSize then .error (-e2big)
  else if uattr.copyStructFromUser ≠ 0 then .error uattr.copyStructFromUser
  else if hasFlag uattr.attr.schedFlags schedFlagUtilClamp ∧ size < schedAttrSizeVer1 then
    .error (-einval)
  else .ok { uattr.attr with schedNice := max minNice (min uattr.attr.schedNice maxNice) }

def sysSchedSetattr (b : Build) (e : Env) (caller : Caller)
    (getparamDl : TaskStruct → SchedAttr → SchedAttr) (pid : Int) (uattr : UserPtr UserAttr)
    (flags : UInt32) (s : Kernel) : Except Fault (Int × Kernel) :=
  if uattr = .null ∨ pid < 0 ∨ flags ≠ 0 then .ok (-einval,s)
  else match uattr with
    | .to uattr =>
      match schedCopyAttr uattr with
      | .error retval => .ok (retval,s)
      | .ok attr =>
        if attr.schedPolicy < 0 then .ok (-einval,s)
        else
          let attr := if hasFlag attr.schedFlags schedFlagKeepPolicy then
            { attr with schedPolicy := setparamPolicy } else attr
          match findProcessByPid pid s with
          | none => .ok (-esrch,s)
          | some p =>
            let attr := if hasFlag attr.schedFlags schedFlagKeepParams then
              getParams getparamDl (s.task p) attr else attr
            schedSetattr b e caller p attr s
    | _ => .ok (-efault,s)

end Setting

section Getting

/-- `sys_sched_getscheduler`; the reset bit comes with the policy. -/
def sysSchedGetscheduler (securityTaskGetscheduler : Tid → Int) (pid : Int) (s : Kernel) : Int :=
  if pid < 0 then -einval
  else match findProcessByPid pid s with
    | none => -esrch
    | some p =>
      if securityTaskGetscheduler p ≠ 0 then securityTaskGetscheduler p
      else
        let reset := if (s.task p).schedResetOnFork then schedResetOnForkBit else 0
        (BitVec.ofInt 32 (s.task p).policy ||| BitVec.ofNat 32 reset).toInt

/-- `sys_sched_getparam`, with what it stores for the user. -/
def sysSchedGetparam (securityTaskGetscheduler : Tid → Int) (pid : Int) (param : UserPtr Unit)
    (s : Kernel) : Int × Option Nat :=
  if param = .null ∨ pid < 0 then (-einval,none)
  else match findProcessByPid pid s with
    | none => (-esrch,none)
    | some p =>
      if securityTaskGetscheduler p ≠ 0 then (securityTaskGetscheduler p,none)
      else
        let schedPriority := if rtPolicy (s.task p).policy then (s.task p).rtPriority else 0
        if param = .bad then (-efault,none) else (0,some schedPriority)

/-- `sys_sched_getattr`, with what it stores for the user. -/
def sysSchedGetattr (securityTaskGetscheduler : Tid → Int)
    (getparamDl : TaskStruct → SchedAttr → SchedAttr) (pid : Int) (uattr : UserPtr Unit)
    (usize : Nat) (flags : UInt32) (s : Kernel) : Int × Option UserAttr :=
  if uattr = .null ∨ pid < 0 ∨ usize > pageSize ∨ usize < schedAttrSizeVer0 ∨ flags ≠ 0 then
    (-einval,none)
  else match findProcessByPid pid s with
    | none => (-esrch,none)
    | some p =>
      if securityTaskGetscheduler p ≠ 0 then (securityTaskGetscheduler p,none)
      else if uattr = .bad then (-efault,none)
      else (0,some {
        size := min usize schedAttrSizeVer1
        attr := schedGetattr getparamDl (s.task p) })

end Getting

section Sysrq

/-- The body of the loop of `normalize_rt_tasks`. The start of execution and the statistics
of a user task, which it clears first, are left out. -/
def normalizeTask (b : Build) (e : Env) (caller : Caller) (kthread : Bool) (p : Tid)
    (s : Kernel) : Except Fault Kernel :=
  let t := s.task p
  if kthread then .ok s
  else if !dlPrio t.prio && !rtPrio t.prio then
    applyIf (taskNice t < 0) (setUserNice b e p 0) s
  else do
    let (_,s) ← schedSetscheduler b e caller p { schedPolicy := schedNormal } false false s
    .ok s

/-- `normalize_rt_tasks`, over the threads that are left. -/
def normalizeRtTasks (b : Build) (e : Tid → Env) (caller : Caller) (kthread : Tid → Bool) :
    List Tid → Kernel → Except Fault Kernel
  | [], s => .ok s
  | p :: ps, s => do
    let s ← normalizeTask b (e p) caller (kthread p) p s
    normalizeRtTasks b e caller kthread ps s

end Sysrq

end LotteryScheduler.Model
