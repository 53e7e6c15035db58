import LotteryScheduler.Model.System

namespace LotteryScheduler.Model
open Lib

/-- Where a task is in the wait loop that `set_current_state` is made for: before it sets
its state, before it tests the condition, before it calls `schedule`, or past the loop. -/
inductive WaiterPc where
  | arm
  | test
  | sleep
  | done
  deriving DecidableEq, Repr

/-- Where the other side is: before `CONDITION = 1`, before `wake_up_state`, or past both. -/
inductive WakerPc where
  | signal
  | wake
  | done
  deriving DecidableEq, Repr

structure WaitState where
  kernel : Kernel
  condition : Bool
  waiter : WaiterPc
  waker : WakerPc

/-- `wake_up_state`. -/
def wakeUpState (p : Tid) (state : Nat) : Op := .tryToWakeUp p state

/-- What only the task itself does: it sets its state and it gives up the CPU. It is
released by its parent, after it has exited. -/
def ownOp (p : Tid) (s : Kernel) : Op → Prop
  | .setCurrentState _ | .schedule false | .schedYield => s.rq.curr = p
  | .releaseTask x => x = p
  | _ => False

/-- One statement of the loop, made by the waiter while it has the CPU. -/
inductive WaiterStep (b : Build) (p : Tid) (state : Nat) : WaitState → WaitState → Prop where
  | arm (pc : w.waiter = .arm) (curr : w.kernel.rq.curr = p)
    (run : exec b e (.setCurrentState state) w.kernel = .ok s) :
    WaiterStep b p state w { w with kernel := s, waiter := .test }
  | leave (pc : w.waiter = .test) (curr : w.kernel.rq.curr = p) (met : w.condition = true)
    (run : exec b e (.setCurrentState taskRunning) w.kernel = .ok s) :
    WaiterStep b p state w { w with kernel := s, waiter := .done }
  | stay (pc : w.waiter = .test) (curr : w.kernel.rq.curr = p) (unmet : w.condition = false) :
    WaiterStep b p state w { w with waiter := .sleep }
  | sleep (pc : w.waiter = .sleep) (curr : w.kernel.rq.curr = p)
    (run : exec b e (.schedule false) w.kernel = .ok s) :
    WaiterStep b p state w { w with kernel := s, waiter := .arm }

/-- What happens besides: the two statements of the waker, and any operation of anybody
else, preemptions of the waiter and other wakeups of it included. -/
inductive OtherStep (b : Build) (p : Tid) (state : Nat) : WaitState → WaitState → Prop where
  | signal (pc : w.waker = .signal) :
    OtherStep b p state w { w with condition := true, waker := .wake }
  | wake (pc : w.waker = .wake) (may : enabled b w.kernel (wakeUpState p state))
    (run : exec b e (wakeUpState p state) w.kernel = .ok s) :
    OtherStep b p state w { w with kernel := s, waker := .done }
  | other (may : enabled b w.kernel op) (foreign : ¬ownOp p w.kernel op)
    (run : exec b e op w.kernel = .ok s) : OtherStep b p state w { w with kernel := s }

/-- Every state of the two parties in any interleaving, from a task of a reachable kernel
that is about to enter the loop. -/
inductive Waits (b : Build) (p : Tid) (state : Nat) : WaitState → Prop where
  | start (reach : Reachable b s) (live : p ∈ s.live)
    (running : (s.task p).state = taskRunning) (queued : (s.task p).onRq = .queued) :
    Waits b p state ⟨s,false,.arm,.signal⟩
  | waiter (before : Waits b p state w) (last : WaiterStep b p state w w') : Waits b p state w'
  | other (before : Waits b p state w) (last : OtherStep b p state w w') : Waits b p state w'

/-- How many statements of the loop are left once the condition holds. -/
def WaiterPc.left : WaiterPc → Nat
  | .sleep => 3
  | .arm => 2
  | .test => 1
  | .done => 0

end LotteryScheduler.Model
