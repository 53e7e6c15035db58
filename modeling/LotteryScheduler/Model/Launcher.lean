import LotteryScheduler.Model.Monitor
import LotteryScheduler.Model.Syscalls

namespace LotteryScheduler.Model
open Lib

def exitFailure : Int := 1

/-- What one call of `fork` meets. -/
structure ForkEnv where
  env : Env
  copy : CopyEnv

/-- `sys_fork`; the signal for the parent is not part of the model. -/
def sysFork (b : Build) (f : ForkEnv) (s : Kernel) : Except Fault (Int × Kernel) :=
  kernelClone b f.env { flags := 0 } f.copy s

/-- `start_dummy_with_lottery` in the parent, which goes on whatever `fork` answers. -/
def startDummyWithLottery (b : Build) (f : ForkEnv) (s : Kernel) : Except Fault Kernel := do
  let (_,s) ← sysFork b f s
  .ok s

/-- The loop over the children, one turn for each. Nothing else runs between two forks. -/
def forkChildren (b : Build) : List ForkEnv → Kernel → Except Fault Kernel
  | [], s => .ok s
  | f :: rest, s => startDummyWithLottery b f s >>= forkChildren b rest

/-- How a launcher ends: its exit status, and the policy it has printed. -/
structure LauncherEnd where
  status : Int
  printed : Option Int
  deriving DecidableEq, Repr

/-- A system call as the C library reports it. -/
def libcResult (retval : Int) : Int := if retval < 0 then -1 else retval

/-- `main` of the launcher, from its arguments. The policy that it reads first it does not
use. Its system calls follow each other directly: no tick, no switch and no other task's
operation comes between them. -/
def launcherMain (b : Build) (e : Env) (caller : Caller) (security : Tid → Int)
    (atoi : Text → Int) (forks : Nat → ForkEnv) (argv : List Text) (s : Kernel) :
    Except Fault (LauncherEnd × Kernel) :=
  match argv with
  | [_,number] =>
    let numChildren := atoi number
    if numChildren ≤ 0 then .ok (⟨exitFailure,none⟩,s)
    else do
      let (r,s) ← sysSchedSetscheduler b e caller 0 schedLottery (.to 0) s
      if libcResult r = -1 then .ok (⟨exitFailure,none⟩,s)
      else do
        let policy := libcResult (sysSchedGetscheduler security 0 s)
        let s ← forkChildren b ((List.range numChildren.toNat).map forks) s
        .ok (⟨0,some policy⟩,s)
  | _ => .ok (⟨exitFailure,none⟩,s)

end LotteryScheduler.Model
