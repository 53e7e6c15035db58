import LotteryScheduler.Lib.Unwind
import LotteryScheduler.Model.Fork

namespace LotteryScheduler.Model
open Lib

/-- What a task has of its own or shares with others, with a count of its users. -/
inductive Part where
  | files
  | fs
  | sighand
  | signal
  | mm
  deriving DecidableEq, Repr

abbrev ObjId := Nat

/-- What is handed out for a new task and taken back when its copying fails. -/
inductive Lease where
  | taskStruct
  | creds
  | delayacct
  | perf
  | audit
  | security
  | semundo
  | namespaces
  | ioContext
  | thread
  | pid
  | pidfd
  | pidfile
  | cgroup
  deriving DecidableEq, Repr

structure UserCounts where
  users : Part → ObjId → Nat
  leases : Lease → Nat

section Counting

def UserCounts.set (p : Part) (o : ObjId) (k : Nat) (n : UserCounts) : UserCounts :=
  { n with users := Function.update n.users p (Function.update (n.users p) o k) }

def UserCounts.get (p : Part) (o : ObjId) (n : UserCounts) : UserCounts :=
  n.set p o (n.users p o + 1)

/-- The last one that puts an object frees it. -/
def UserCounts.put (p : Part) (o : ObjId) (n : UserCounts) : UserCounts :=
  n.set p o (n.users p o - 1)

def UserCounts.lease (l : Lease) (n : UserCounts) : UserCounts :=
  { n with leases := Function.update n.leases l (n.leases l + 1) }

def UserCounts.giveBack (l : Lease) (n : UserCounts) : UserCounts :=
  { n with leases := Function.update n.leases l (n.leases l - 1) }

end Counting

/-- A call of `copy_process`: the flags, what the caller points to, what the allocators return,
the results of the steps, and whether the child gets an `io_context`. -/
structure CloneCall where
  flags : UInt64
  cur : Part → Option ObjId
  fresh : Part → ObjId
  env : CopyEnv
  schedFork : Int
  tooMany : Bool
  ioContext : Bool

inductive CopyLabel where
  | badForkCancelCgroup
  | badForkPutPidfd
  | badForkFreePid
  | badForkCleanupThread
  | badForkCleanupIo
  | badForkCleanupNamespaces
  | badForkCleanupMm
  | badForkCleanupSignal
  | badForkCleanupSighand
  | badForkCleanupFs
  | badForkCleanupFiles
  | badForkCleanupSemundo
  | badForkCleanupSecurity
  | badForkCleanupAudit
  | badForkCleanupPerf
  | badForkCleanupPolicy
  | badForkCleanupCount
  | badForkFree
  | forkOut
  deriving DecidableEq, Repr

section Copying
variable (c : CloneCall)

def cloneFlag : Part → UInt64
  | .files => cloneFiles
  | .fs => cloneFs
  | .sighand => cloneSighand
  | .signal => cloneThread
  | .mm => cloneVm

def CloneCall.shares (p : Part) : Bool := hasFlag c.flags (cloneFlag p)

/-- What the child points to. -/
def CloneCall.part (p : Part) : Option ObjId :=
  (c.cur p).map fun o => if c.shares p then o else c.fresh p

def copyPart (p : Part) (n : UserCounts) : UserCounts :=
  match c.cur p with
  | none => n
  | some o => if c.shares p then n.get p o else n.set p (c.fresh p) 1

def copyFiles : UserCounts → UserCounts := copyPart c .files

def copyFs : UserCounts → UserCounts := copyPart c .fs

def copySighand : UserCounts → UserCounts := copyPart c .sighand

/-- `copy_signal`; a thread is counted when it joins its group. -/
def copySignal (n : UserCounts) : UserCounts := if c.shares .signal then n else copyPart c .signal n

/-- `copy_mm`, as far as the users of an address space go. -/
def copyMmUsers : UserCounts → UserCounts := copyPart c .mm

def exitPart (p : Part) (q : Option ObjId) (n : UserCounts) : UserCounts :=
  match q with
  | none => n
  | some o => n.put p o

/-- `free_signal_struct`, whatever the count is. -/
def freeSignalStruct (q : Option ObjId) (n : UserCounts) : UserCounts :=
  match q with
  | none => n
  | some o => n.set .signal o 0

/-- A step that answers zero succeeds. -/
def fails (ret : Int) : Option Int := if ret = 0 then none else some ret

def failsIf (cond : Bool) (ret : Int) : Option Int := if cond then some ret else none

/-- The steps of `copy_process`, each with what it takes and where it jumps to. -/
def copyStages : List (Stage UserCounts Int CopyLabel) :=
  let pidfd := hasFlag c.flags clonePidfd
  let step := fun st => fails (c.env.step st)
  [⟨failsIf c.env.sigpending (-erestartnointr),id,id,.forkOut⟩,
    ⟨failsIf c.env.dupFails (-enomem),.lease .taskStruct,id,.forkOut⟩,
    ⟨failsIf (c.env.copyCreds < 0) c.env.copyCreds,.lease .creds,id,.badForkFree⟩,
    ⟨failsIf c.env.overNproc (-eagain),id,id,.badForkCleanupCount⟩,
    ⟨failsIf c.tooMany (-eagain),.lease .delayacct,id,.badForkCleanupCount⟩,
    ⟨fails c.schedFork,id,id,.badForkCleanupPolicy⟩,
    ⟨step .perfEventInitTask,.lease .perf,id,.badForkCleanupPolicy⟩,
    ⟨step .auditAlloc,.lease .audit,id,.badForkCleanupPerf⟩,
    ⟨step .securityTaskAlloc,.lease .security,id,.badForkCleanupAudit⟩,
    ⟨step .copySemundo,.lease .semundo,id,.badForkCleanupSecurity⟩,
    ⟨step .copyFiles,copyFiles c,id,.badForkCleanupSemundo⟩,
    ⟨step .copyFs,copyFs c,id,.badForkCleanupFiles⟩,
    ⟨step .copySighand,copySighand c,id,.badForkCleanupFs⟩,
    ⟨step .copySignal,copySignal c,id,.badForkCleanupSighand⟩,
    ⟨step .copyMm,copyMmUsers c,id,.badForkCleanupSignal⟩,
    ⟨step .copyNamespaces,.lease .namespaces,id,.badForkCleanupMm⟩,
    ⟨step .copyIo,if c.ioContext then .lease .ioContext else id,id,.badForkCleanupNamespaces⟩,
    ⟨step .copyThread,.lease .thread,id,.badForkCleanupIo⟩,
    ⟨step .allocPid,.lease .pid,id,.badForkCleanupThread⟩,
    ⟨failsIf (pidfd && c.env.getUnusedFd < 0) c.env.getUnusedFd,
      if pidfd then .lease .pidfd else id,id,.badForkFreePid⟩,
    -- a descriptor without a file is put back before the jump
    ⟨failsIf (pidfd && c.env.pidfdFile ≠ 0) c.env.pidfdFile,
      if pidfd then .lease .pidfile else id,if pidfd then .giveBack .pidfd else id,
      .badForkFreePid⟩,
    ⟨failsIf (pidfd && c.env.putPidfd ≠ 0) c.env.putPidfd,id,id,.badForkPutPidfd⟩,
    ⟨fails c.env.cgroupCanFork,.lease .cgroup,id,.badForkPutPidfd⟩,
    ⟨failsIf (!c.env.pidnsAdding) (-enomem),id,id,.badForkCancelCgroup⟩,
    ⟨failsIf c.env.fatalSignal (-eintr),id,id,.badForkCancelCgroup⟩]

/-- The labels at the end of `copy_process`, each with the statements up to the next. -/
def copyCleanups : List (Cleanup UserCounts CopyLabel) :=
  [⟨.badForkCancelCgroup,.giveBack .cgroup⟩,
    ⟨.badForkPutPidfd,fun n => if hasFlag c.flags clonePidfd then
      (n.giveBack .pidfile).giveBack .pidfd else n⟩,
    ⟨.badForkFreePid,.giveBack .pid⟩,
    ⟨.badForkCleanupThread,.giveBack .thread⟩,
    ⟨.badForkCleanupIo,if c.ioContext then .giveBack .ioContext else id⟩,
    ⟨.badForkCleanupNamespaces,.giveBack .namespaces⟩,
    ⟨.badForkCleanupMm,exitPart .mm (c.part .mm)⟩,
    ⟨.badForkCleanupSignal,fun n =>
      if c.shares .signal then n else freeSignalStruct (c.part .signal) n⟩,
    ⟨.badForkCleanupSighand,exitPart .sighand (c.part .sighand)⟩,
    ⟨.badForkCleanupFs,exitPart .fs (c.part .fs)⟩,
    ⟨.badForkCleanupFiles,exitPart .files (c.part .files)⟩,
    ⟨.badForkCleanupSemundo,.giveBack .semundo⟩,
    ⟨.badForkCleanupSecurity,.giveBack .security⟩,
    ⟨.badForkCleanupAudit,.giveBack .audit⟩,
    ⟨.badForkCleanupPerf,.giveBack .perf⟩,
    ⟨.badForkCleanupPolicy,.giveBack .delayacct⟩,
    ⟨.badForkCleanupCount,.giveBack .creds⟩,
    ⟨.badForkFree,.giveBack .taskStruct⟩,
    ⟨.forkOut,id⟩]

/-- What `copy_process` does to the counts: an error and what is left then, or success. -/
def copyCounts (n : UserCounts) : Except (Int × UserCounts) UserCounts :=
  performStages (copyCleanups c) (copyStages c) n

end Copying

/-- The tasks, what each points to, and the counts. -/
structure Sharing where
  live : List Tid
  part : Tid → Part → Option ObjId
  counts : UserCounts

section Calls

/-- A thread is counted among the users of the signals of its group when it becomes visible. -/
def joinGroup (c : CloneCall) (n : UserCounts) : UserCounts :=
  match c.cur .signal with
  | none => n
  | some o => if c.shares .signal then n.get .signal o else n

/-- `copy_process` with what its caller returns: the new task or an error. -/
def cloneShared (self : Tid) (c : CloneCall) (s : Sharing) : Int × Sharing :=
  match copyCounts c s.counts with
  | .error (ret,n) => (ret,{ s with counts := n })
  | .ok n => (self,⟨s.live ++ [self],Function.update s.part self c.part,joinGroup c n⟩)

def Sharing.point (s : Sharing) (t : Tid) (p : Part) (q : Option ObjId) :
    Tid → Part → Option ObjId :=
  Function.update s.part t (Function.update (s.part t) p q)

/-- A task gives up one of its parts, as it does one after the other when it exits. -/
def exitShared (p : Part) (t : Tid) (s : Sharing) : Sharing :=
  { s with part := s.point t p none, counts := exitPart p (s.part t p) s.counts }

/-- The task gets a part of its own if it is shared, and puts the old one. -/
def unsharePart (p : Part) (shared : Nat → Bool) (t : Tid) (new : ObjId) (s : Sharing) :
    Sharing :=
  match s.part t p with
  | none => s
  | some o =>
    if shared (s.counts.users p o) then
      { s with part := s.point t p (some new), counts := (s.counts.set p new 1).put p o }
    else s

/-- `unshare_fs`, and what `ksys_unshare` does with its result. -/
def unshareFs : Tid → ObjId → Sharing → Sharing := unsharePart .fs fun users => users ≠ 1

/-- `unshare_fd`, and what `ksys_unshare` does with its result. -/
def unshareFd : Tid → ObjId → Sharing → Sharing := unsharePart .files fun users => 1 < users

end Calls

section Runs

inductive SharingOp where
  | clone (self caller : Tid) (c : CloneCall)
  | exit (p : Part) (t : Tid)
  | release (t : Tid)
  | unshareFs (t : Tid) (new : ObjId)
  | unshareFd (t : Tid) (new : ObjId)

def sharingOp (op : SharingOp) (s : Sharing) : Sharing :=
  match op with
  | .clone self _ c => (cloneShared self c s).2
  | .exit p t => exitShared p t s
  | .release t => { s with live := s.live.erase t }
  | .unshareFs t new => unshareFs t new s
  | .unshareFd t new => unshareFd t new s

/-- What the callers and the allocators see to. Only a task that has given up all its parts is
released. -/
def mayShare (s : Sharing) : SharingOp → Prop
  | .clone self caller c => self ∉ s.live ∧ caller ∈ s.live ∧ c.cur = s.part caller ∧
      ∀ p, s.counts.users p (c.fresh p) = 0
  | .exit _ t => t ∈ s.live
  | .release t => t ∈ s.live ∧ ∀ p, s.part t p = none
  | .unshareFs t new => t ∈ s.live ∧ s.counts.users .fs new = 0
  | .unshareFd t new => t ∈ s.live ∧ s.counts.users .files new = 0

/-- The first task has all but an address space. -/
def sharingStart : Sharing where
  live := [0]
  part := fun _ p => if p = .mm then none else some 0
  counts := ⟨fun p o => if p ≠ .mm ∧ o = 0 then 1 else 0,fun _ => 0⟩

inductive SharingReach : Sharing → Prop where
  | init : SharingReach sharingStart
  | step (before : SharingReach s) (may : mayShare s op) : SharingReach (sharingOp op s)

end Runs

end LotteryScheduler.Model
