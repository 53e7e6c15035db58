import LotteryScheduler.Proofs.Turns

namespace LotteryScheduler.Proofs
open Lib Model

/-- No task came or went. -/
structure Peopled (s t : Kernel) : Prop where
  live : t.live = s.live
  threads : t.nrThreads = s.nrThreads

section Peopled
variable {b : Build} {s t u : Kernel} {p : Tid} {op : Op}

theorem Peopled.refl (s : Kernel) : Peopled s s := ⟨rfl,rfl⟩

theorem Peopled.trans (h : Peopled s t) (h' : Peopled t u) : Peopled s u :=
  ⟨h'.live.trans h.live,h'.threads.trans h.threads⟩

theorem Frame.peopled (h : Frame s t) : Peopled s t := ⟨h.live,h.threads⟩

theorem setTask_peopled (s : Kernel) (p : Tid) (v : TaskStruct) : Peopled s (s.setTask p v) :=
  ⟨rfl,rfl⟩

theorem clock_peopled (e : Env) (s : Kernel) : Peopled s (updateRqClock e s) :=
  (updateRqClock_quiet e s).toFrame.peopled

theorem activateTask_peopled (b : Build) (e : Env) (p : Tid) (flags : UInt32) (s : Kernel) :
    Yields (activateTask b e p flags s) (Peopled s) :=
  (enqueueTask_frame b e p _ s).bind fun t ht =>
    .ok (ht.peopled.trans (setTask_peopled t p _))

theorem ttwuDoWakeup_peopled (b : Build) (e : Env) (p : Tid) (s : Kernel) :
    Yields (ttwuDoWakeup b e p s) (Peopled s) := by
  refine (checkPreemptCurr_frame b e p s).bind fun t ht => ?_
  have hset := ht.peopled.trans (setTask_peopled t p { t.task p with state := taskRunning })
  refine .applyIf (fun _ => ?_) fun _ => hset
  exact (callHookIfSet_frame b e _ _ p _).mono fun _ hu => hset.trans hu.peopled

theorem ttwuQueue_peopled (b : Build) (e : Env) (p : Tid) (s : Kernel) :
    Yields (ttwuQueue b e p s) (Peopled s) := by
  refine (activateTask_peopled b e p _ _).bind fun t ht => ?_
  exact (ttwuDoWakeup_peopled b e p t).mono fun _ hu => ((clock_peopled e s).trans ht).trans hu

theorem tryToWakeUp_peopled (b : Build) (e : Env) (p : Tid) (mask : Nat) (s : Kernel) :
    Yields (tryToWakeUp b e p mask s) (fun a => Peopled s a.2) := by
  unfold tryToWakeUp
  split
  · exact .ok (.refl s)
  split
  · exact .ok (setTask_peopled s p _)
  split
  · refine (ttwuDoWakeup_peopled b e p _).bind fun t ht => ?_
    exact .ok ((clock_peopled e s).trans ht)
  · refine Yields.bind (Q := Peopled s) ?_ fun t ht => ?_
    · refine .applyIf (fun _ => ?_) fun _ => .refl s
      exact (selectTaskRq_frame b e p _).mono fun _ ht => (setTask_peopled s p _).trans ht.peopled
    · exact (ttwuQueue_peopled b e p t).bind fun u hu => .ok (ht.trans hu)

theorem wakeUpNewTask_peopled (b : Build) (e : Env) (p : Tid) (s : Kernel) :
    Yields (wakeUpNewTask b e p s) (Peopled s) := by
  have hset := setTask_peopled s p { s.task p with state := taskRunning }
  refine Yields.bind (Q := Peopled s) ?_ fun t ht => ?_
  · refine .applyIf (fun _ => ?_) fun _ => hset
    exact (selectTaskRq_frame b e p _).mono fun _ ht => hset.trans ht.peopled
  refine (activateTask_peopled b e p _ _).bind fun u hu => ?_
  have hactive := (ht.trans (clock_peopled e t)).trans hu
  refine (checkPreemptCurr_frame b e p u).bind fun v hv => ?_
  have hchecked := hactive.trans hv.peopled
  refine .applyIf (fun _ => ?_) fun _ => hchecked
  exact (callHookIfSet_frame b e _ _ p v).mono fun _ hw => hchecked.trans hw.peopled

theorem checkClassChanged_peopled (b : Build) (e : Env) (p : Tid) (c : SchedClass)
    (oldprio : Int) (s : Kernel) : Yields (checkClassChanged b e p c oldprio s) (Peopled s) := by
  unfold checkClassChanged
  dsimp only
  split
  · refine (callHookIfSet_frame b e _ _ p s).bind fun t ht => ?_
    exact (callHook_frame b e _ _ p t).mono fun _ hu => (ht.trans hu).peopled
  split
  · exact (callHook_frame b e _ _ p s).mono fun _ ht => ht.peopled
  · exact .ok (.refl s)

theorem setUserNice_peopled (b : Build) (e : Env) (p : Tid) (nice : Int) (s : Kernel) :
    Yields (setUserNice b e p nice s) (Peopled s) := by
  unfold setUserNice
  split
  · exact .ok (.refl s)
  dsimp only
  split
  · exact .ok ((clock_peopled e s).trans (setTask_peopled _ p _))
  · refine (takeOff_frame b e p _ _ _ _).bind fun t ht => ?_
    refine (putBack_frame b e p _ _ _ _).bind fun u hu => ?_
    refine (callHook_frame b e _ _ p u).mono fun v hv => ?_
    have hoff := (clock_peopled e s).trans ht.peopled
    exact (hoff.trans (setTask_peopled t p _)).trans (hu.trans hv).peopled

theorem rtMutexSetprio_peopled (b : Build) (e : Env) (p : Tid) (donor : Option Tid)
    (s : Kernel) : Yields (rtMutexSetprio b e p donor s) (Peopled s) := by
  unfold rtMutexSetprio
  dsimp only
  split
  · exact .ok (.refl s)
  have hnote := (clock_peopled e s).trans
    (setTask_peopled _ p { (updateRqClock e s).task p with piTopTask := donor })
  generalize (updateRqClock e s).setTask p _ = t at hnote ⊢
  split
  · exact .ok hnote
  split
  · exact .ok hnote
  refine (takeOff_frame b e p _ _ _ t).bind fun u hu => ?_
  have hoff := hnote.trans hu.peopled
  refine Yields.bind (Q := fun _ => True) (fun _ _ => trivial) fun piSe _ => ?_
  refine (putBack_frame b e p _ _ _ _).bind fun v hv => ?_
  have hback := (hoff.trans (setTask_peopled u p _)).trans hv.peopled
  exact (checkClassChanged_peopled b e p _ _ v).mono fun _ hw => hback.trans hw

theorem commitRequest_peopled (b : Build) (e : Env) (p : Tid) (attr : SchedAttr) (pi : Bool)
    (s : Kernel) : Yields (commitRequest b e p attr pi s) (Peopled s) := by
  unfold commitRequest
  dsimp only
  refine (takeOff_frame b e p _ _ _ _).bind fun t ht => ?_
  have hoff := (setTask_peopled s p _).trans ht.peopled
  refine (putBack_frame b e p _ _ _ _).bind fun u hu => ?_
  have hback := (hoff.trans (setTask_peopled t p _)).trans hu.peopled
  exact (checkClassChanged_peopled b e p _ _ u).mono fun _ hv => hback.trans hv

theorem schedSetscheduler_peopled (b : Build) (e : Env) (caller : Caller) (p : Tid)
    (attr : SchedAttr) (user pi : Bool) (s : Kernel) :
    Yields (schedSetscheduler b e caller p attr user pi s) (fun a => Peopled s a.2) := by
  have hclock := clock_peopled e s
  unfold schedSetscheduler
  split
  · exact .error _ _
  split
  · exact .ok (.refl s)
  dsimp only
  split
  · exact .ok hclock
  split
  · exact .ok (hclock.trans (setTask_peopled _ p _))
  split
  · exact .ok hclock
  split
  · exact .ok hclock
  refine (commitRequest_peopled b e p attr pi _).bind fun t ht => ?_
  exact .ok (hclock.trans ht)

theorem schedule_peopled (b : Build) (e : Env) (preempt : Bool) (s : Kernel) :
    Yields (schedule b e preempt s) (Peopled s) := by
  have hclock := ((shiftFlags_quiet s).trans (updateRqClock_quiet e _)).toFrame.peopled
  have hbefore : Yields (beforePick b e preempt s) (Peopled s) := by
    unfold beforePick
    dsimp only
    generalize updateRqClock e _ = t at hclock
    unfold blockPrev
    dsimp only
    split
    · split
      · exact .ok (hclock.trans (setTask_peopled t _ _))
      · exact (dequeueTask_frame b e _ _ _).mono fun _ hu =>
          (hclock.trans (setTask_peopled t _ _)).trans hu.peopled
    · exact .ok hclock
  refine hbefore.bind fun t ht => ?_
  refine (pickNextTaskCore_frame b e _ t).bind fun a ha => ?_
  have hpick := ht.trans ha.peopled
  exact .ok ⟨hpick.live,hpick.threads⟩

/-- The operations that may make a task come or go. -/
def populates : Op → Bool
  | .kernelClone _ _ | .createIoThread _ | .releaseTask _ => true
  | _ => false

theorem peopled_snd {m : Except Fault (α × Kernel)} (h : Yields m (fun a => Peopled s a.2)) :
    Yields (m >>= fun a => .ok a.2) (Peopled s) := h.bind fun _ ha => .ok ha

theorem exec_peopled (e : Env) (s : Kernel) (h : populates op = false) :
    Yields (exec b e op s) (Peopled s) := by
  cases op with
  | setCurrentState state => exact .ok (setTask_peopled s _ _)
  | schedule preempt => exact schedule_peopled b e preempt s
  | tryToWakeUp p mask => exact peopled_snd (tryToWakeUp_peopled b e p mask s)
  | kernelClone args ce => cases h
  | createIoThread ce => cases h
  | wakeUpNewTask p => exact wakeUpNewTask_peopled b e p s
  | setUserNice p nice => exact setUserNice_peopled b e p nice s
  | rtMutexSetprio p donor => exact rtMutexSetprio_peopled b e p donor s
  | schedMoveTask p => exact (schedMoveTask_frame b e p s).mono fun _ ht => ht.peopled
  | schedSetscheduler caller p attr user pi =>
    exact peopled_snd (schedSetscheduler_peopled b e caller p attr user pi s)
  | schedulerTick => exact (schedulerTick_frame b e s).mono fun _ ht => ht.peopled
  | schedYield =>
    refine (callHook_frame b e _ _ _ s).bind fun t ht => ?_
    exact (schedule_peopled b e false t).mono fun _ hu => ht.peopled.trans hu
  | taskSchedRuntime p =>
    exact peopled_snd ((taskSchedRuntime_frame b e p s).mono fun _ ha => ha.peopled)
  | schedExec => exact (callHook_frame b e _ _ _ s).mono fun _ ht => ht.peopled
  | setCpusAllowed p => exact (setCpusAllowed_frame b e p s).mono fun _ ht => ht.peopled
  | releaseTask p => cases h
  | otherTask p v => exact .ok (setTask_peopled s p v)

theorem copyProcess_live (b : Build) (e : Env) (args : KernelCloneArgs) (ce : CopyEnv)
    (s : Kernel) : Yields (copyProcess b e args ce s)
      (fun a => a.2.live = s.live ∨ a.2.live = s.live ++ [ce.pid]) := by
  refine (copyProcess_spec b e args ce s).yields.mono fun a ha => ?_
  cases ha with
  | failed quiet => exact .inl quiet.live
  | created quiet => exact .inr (congrArg (· ++ [ce.pid]) quiet.live)

theorem kernelCloneCopy_live (b : Build) (e : Env) (args : KernelCloneArgs) (ce : CopyEnv)
    (s : Kernel) : Yields (kernelCloneCopy b e args ce s)
      (fun a => a.2.live = s.live ∨ a.2.live = s.live ++ [ce.pid]) := by
  unfold kernelCloneCopy
  refine .ite (fun _ => .ok (.inl rfl)) fun _ => ?_
  refine (copyProcess_live b e args ce s).bind fun a ha => ?_
  obtain ⟨res,t⟩ := a
  cases res with
  | error _ => exact .error _ _
  | ok p => exact .ok ha

end Peopled

end LotteryScheduler.Proofs
