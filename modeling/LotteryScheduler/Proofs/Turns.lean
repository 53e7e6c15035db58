import LotteryScheduler.Proofs.Sleepers

namespace LotteryScheduler.Proofs
open Lib Model

/-- The operations that may give the CPU to another task. -/
def switching : Op → Bool
  | .schedule _ | .schedYield => true
  | _ => false

/-- A better priority is lent to a task. -/
def lends : Op → Prop
  | .rtMutexSetprio _ donor => donor ≠ none
  | _ => False

instance : (op : Op) → Decidable (lends op)
  | .rtMutexSetprio _ donor => inferInstanceAs (Decidable (donor ≠ none))
  | .setCurrentState _ | .schedule _ | .tryToWakeUp _ _ | .kernelClone _ _ | .createIoThread _
  | .wakeUpNewTask _ | .setUserNice _ _ | .schedMoveTask _ | .schedSetscheduler _ _ _ _ _
  | .schedulerTick | .schedYield | .taskSchedRuntime _ | .schedExec | .setCpusAllowed _
  | .releaseTask _ | .otherTask _ _ => inferInstanceAs (Decidable False)

/-- The CPU is with a task of the lottery class. -/
def lotteryHasCpu (s : Kernel) : Prop := (s.task s.rq.curr).schedClass = .lottery

instance (s : Kernel) : Decidable (lotteryHasCpu s) := inferInstanceAs (Decidable (_ = _))

/-- No task has a priority from another. -/
def NoneLent (s : Kernel) : Prop := ∀ p ∈ s.live, (s.task p).piTopTask = none

section Current
variable {b : Build} {s t : Kernel} {r : Ready} {p : Tid} {op : Op}

theorem ttwuDoWakeup_curr (b : Build) (e : Env) (p : Tid) (s : Kernel) :
    Yields (ttwuDoWakeup b e p s) (fun t => t.rq.curr = s.rq.curr) := by
  refine (checkPreemptCurr_frame b e p s).bind fun t ht => ?_
  refine .applyIf (fun _ => ?_) fun _ => ht.curr
  exact (callHookIfSet_frame b e _ _ p _).mono fun _ hu => hu.curr.trans ht.curr

theorem ttwuQueue_curr (b : Build) (e : Env) (p : Tid) (s : Kernel) :
    Yields (ttwuQueue b e p s) (fun t => t.rq.curr = s.rq.curr) := by
  refine Yields.bind (Q := fun t => t.rq.curr = s.rq.curr) ?_ fun t ht => ?_
  · refine (enqueueTask_frame b e p _ _).bind fun t ht => .ok ?_
    exact ht.curr.trans (updateRqClock_quiet e s).curr
  · exact (ttwuDoWakeup_curr b e p t).mono fun _ hu => hu.trans ht

theorem tryToWakeUp_curr (b : Build) (e : Env) (p : Tid) (mask : Nat) (s : Kernel) :
    Yields (tryToWakeUp b e p mask s) (fun a => a.2.rq.curr = s.rq.curr) := by
  unfold tryToWakeUp
  split
  · exact .ok rfl
  split
  · exact .ok rfl
  split
  · refine (ttwuDoWakeup_curr b e p _).bind fun t ht => .ok ?_
    exact ht.trans (updateRqClock_quiet e s).curr
  · refine Yields.bind (Q := fun t => t.rq.curr = s.rq.curr) ?_ fun t ht => ?_
    · refine .applyIf (fun _ => ?_) fun _ => rfl
      exact (selectTaskRq_frame b e p _).mono fun _ ht => ht.curr
    · exact (ttwuQueue_curr b e p t).bind fun u hu => .ok (hu.trans ht)

theorem wakeUpNewTask_curr (b : Build) (e : Env) (p : Tid) (s : Kernel) :
    Yields (wakeUpNewTask b e p s) (fun t => t.rq.curr = s.rq.curr) := by
  refine Yields.bind (Q := fun t => t.rq.curr = s.rq.curr) ?_ fun t ht => ?_
  · refine .applyIf (fun _ => ?_) fun _ => rfl
    exact (selectTaskRq_frame b e p _).mono fun _ ht => ht.curr
  refine Yields.bind (Q := fun u => u.rq.curr = s.rq.curr) ?_ fun u hu => ?_
  · refine (enqueueTask_frame b e p _ _).bind fun u hu => .ok ?_
    exact (hu.curr.trans (updateRqClock_quiet e t).curr).trans ht
  refine (checkPreemptCurr_frame b e p u).bind fun v hv => ?_
  have hcurr := hv.curr.trans hu
  refine .applyIf (fun _ => ?_) fun _ => hcurr
  exact (callHookIfSet_frame b e _ _ p v).mono fun _ hw => hw.curr.trans hcurr

theorem setUserNice_curr (b : Build) (e : Env) (p : Tid) (nice : Int) (s : Kernel) :
    Yields (setUserNice b e p nice s) (fun t => t.rq.curr = s.rq.curr) := by
  have hclock := (updateRqClock_quiet e s).curr
  unfold setUserNice
  split
  · exact .ok rfl
  dsimp only
  split
  · exact .ok hclock
  · refine (takeOff_frame b e p _ _ _ _).bind fun t ht => ?_
    refine (putBack_frame b e p _ _ _ _).bind fun u hu => ?_
    refine (callHook_frame b e _ _ p u).mono fun v hv => ?_
    exact (hv.curr.trans hu.curr).trans (ht.curr.trans hclock)

theorem copyProcess_curr (b : Build) (e : Env) (args : KernelCloneArgs) (ce : CopyEnv)
    (s : Kernel) : Yields (copyProcess b e args ce s) (fun a => a.2.rq.curr = s.rq.curr) := by
  refine (copyProcess_spec b e args ce s).yields.mono fun a ha => ?_
  cases ha with
  | failed quiet => exact quiet.curr
  | created quiet => exact quiet.curr

theorem kernelCloneCopy_curr (b : Build) (e : Env) (args : KernelCloneArgs) (ce : CopyEnv)
    (s : Kernel) :
    Yields (kernelCloneCopy b e args ce s) (fun a => a.2.rq.curr = s.rq.curr) := by
  unfold kernelCloneCopy
  split
  · exact .ok rfl
  refine (copyProcess_curr b e args ce s).bind fun a ha => ?_
  obtain ⟨res,t⟩ := a
  cases res with
  | error retval => exact .error _ _
  | ok p => exact .ok ha

theorem curr_snd {m : Except Fault (α × Kernel)}
    (h : Yields m (fun a => a.2.rq.curr = s.rq.curr)) :
    Yields (m >>= fun a => .ok a.2) (fun t => t.rq.curr = s.rq.curr) :=
  h.bind fun _ ha => .ok ha

/-- Only `__schedule` gives the CPU to another task. -/
theorem exec_curr (e : Env) (h : Inv b s r) (he : enabled b s op) (hop : switching op = false) :
    Yields (exec b e op s) (fun t => t.rq.curr = s.rq.curr) := by
  cases op with
  | schedule preempt => cases hop
  | schedYield => cases hop
  | tryToWakeUp p state => exact curr_snd (tryToWakeUp_curr b e p state s)
  | kernelClone args ce => exact curr_snd (kernelCloneCopy_curr b e args ce s)
  | createIoThread ce => exact curr_snd (copyProcess_curr b e _ ce s)
  | wakeUpNewTask p => exact wakeUpNewTask_curr b e p s
  | setUserNice p nice => exact setUserNice_curr b e p nice s
  | rtMutexSetprio p donor =>
    refine (rtMutexSetprio_inherits e donor h he).yields.mono fun t ht => ?_
    cases ht with
    | same => rfl
    | noted _ _ changed => exact changed.curr
    | moved _ _ changed => exact changed.curr
  | schedMoveTask p => exact (schedMoveTask_frame b e p s).mono fun _ ht => ht.curr
  | schedSetscheduler caller p attr user pi =>
    refine curr_snd ((schedSetscheduler_answer e caller attr user pi h he.1 he.2).yields.mono ?_)
    intro a ha
    cases ha with
    | refused => rfl
    | stopTask _ _ quiet => exact quiet.curr
    | busy _ _ _ _ quiet => exact quiet.curr
    | unchanged _ _ _ changed => exact changed.curr
    | committed _ _ _ _ changed => exact changed.curr
  | schedulerTick => exact (schedulerTick_frame b e s).mono fun _ ht => ht.curr
  | taskSchedRuntime p =>
    exact curr_snd ((taskSchedRuntime_frame b e p s).mono fun _ ha => ha.curr)
  | schedExec => exact (callHook_frame b e _ _ _ s).mono fun _ ht => ht.curr
  | setCpusAllowed p => exact (setCpusAllowed_frame b e p s).mono fun _ ht => ht.curr
  | setCurrentState state => exact .ok rfl
  | releaseTask p => exact .ok rfl
  | otherTask p t => exact .ok rfl

end Current

end LotteryScheduler.Proofs
