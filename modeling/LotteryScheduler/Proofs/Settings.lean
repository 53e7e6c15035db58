import LotteryScheduler.Proofs.Runs

namespace LotteryScheduler.Proofs
open Lib Model

/-- What an operation can leave of a task's data, apart from whether it runs. -/
def settings (t : TaskStruct) : TaskStruct :=
  { t with state := taskRunning, onRq := .none, tickets := 0 }

/-- The pid that a fork hands out. -/
def newPid : Op → Option Tid
  | .kernelClone _ ce | .createIoThread ce => some ce.pid
  | _ => none

/-- What one operation makes of the data of one task. -/
inductive Adjusted (s : Kernel) : Op → Tid → TaskStruct → Prop where
  | kept (live : p ∈ s.live) (same : settings v = settings (s.task p)) : Adjusted s op p v
  | weighed (live : p ∈ s.live) (low : minNice ≤ nice) (high : nice ≤ maxNice) :
    Adjusted s (.setUserNice p nice) p { s.task p with staticPrio := niceToPrio nice }
  | reniced (live : p ∈ s.live) (low : minNice ≤ nice) (high : nice ≤ maxNice)
    (deadline : dlPolicy (s.task p).policy = false)
    (realtime : rtPolicy (s.task p).policy = false) :
    Adjusted s (.setUserNice p nice) p (renice (s.task p) nice)
  | noted (live : p ∈ s.live) :
    Adjusted s (.rtMutexSetprio p donor) p { s.task p with piTopTask := donor }
  | lent (live : p ∈ s.live) : Adjusted s (.rtMutexSetprio p donor) p (lent s p donor piSe)
  | reset (live : p ∈ s.live) : Adjusted s (.schedSetscheduler caller p attr user pi) p
    { s.task p with schedResetOnFork := requestedReset (s.task p) attr }
  | committed (live : p ∈ s.live) (named : attr.schedPolicy = schedLottery)
    (other : (s.task p).policy ≠ schedLottery) :
    Adjusted s (.schedSetscheduler caller p attr user pi) p (committed e s p attr pi)
  | born (pid : newPid op = some p)
    (start : (schedFork (s.task s.rq.curr) p
      { s.task s.rq.curr with piTopTask := none }).1 = 0)
    (same : settings v = settings (schedFork (s.task s.rq.curr) p
      { s.task s.rq.curr with piTopTask := none }).2) : Adjusted s op p v

/-- What one operation makes of all tasks; the boot task stays as it is. -/
structure Adjusts (s : Kernel) (op : Op) (s' : Kernel) : Prop where
  idle : s'.rq.idle = s.rq.idle
  boot : settings (s'.task s'.rq.idle) = settings (s.task s.rq.idle)
  tasks : ∀ p ∈ s'.live, Adjusted s op p (s'.task p)

/-- No task's settings changed. -/
structure Retains (s s' : Kernel) : Prop where
  live : s'.live = s.live
  idle : s'.rq.idle = s.rq.idle
  keeps : ∀ x, settings (s'.task x) = settings (s.task x)

section Frames
variable {b : Build} {e : Env} {s t u : Kernel} {p : Tid} {c : SchedClass}

theorem Frame.retains (h : Frame s t) : Retains s t :=
  ⟨h.live,h.idle,fun x => by rw [h.task]⟩

theorem Retains.refl (s : Kernel) : Retains s s := ⟨rfl,rfl,fun _ => rfl⟩

theorem Retains.trans (h : Retains s t) (h' : Retains t u) : Retains s u :=
  ⟨h'.live.trans h.live,h'.idle.trans h.idle,fun x => (h'.keeps x).trans (h.keeps x)⟩

theorem Retains.frame (h : Retains s t) (h' : Frame t u) : Retains s u := h.trans h'.retains

theorem Changed.retains (h : Changed s p v t) (hv : settings v = settings (s.task p)) :
    Retains s t := by
  refine ⟨h.live,h.idle,fun x => ?_⟩
  rcases eq_or_ne x p with rfl | hne
  · rw [h.task_self,hv]
  · rw [h.task_other hne]

theorem enqueueTaskLottery_frame (e : Env) (p : Tid) (s : Kernel) :
    Yields (enqueueTaskLottery e p s) (Frame s) := by
  unfold enqueueTaskLottery
  split
  · exact .error _ _
  · exact .ok ⟨rfl,rfl,rfl,rfl,rfl,rfl,Nat.le_refl _,fun _ _ => rfl⟩

theorem dequeueTaskLottery_frame (e : Env) (p : Tid) (s : Kernel) :
    Yields (dequeueTaskLottery e p s) (Frame s) := by
  unfold dequeueTaskLottery
  split
  · exact .error _ _
  · exact .ok ⟨rfl,rfl,rfl,rfl,rfl,rfl,Nat.le_refl _,fun _ _ => rfl⟩

theorem switchedFromLottery_frame (e : Env) (p : Tid) (s : Kernel) :
    Yields (switchedFromLottery e p s) (Frame s) := by
  unfold switchedFromLottery
  split
  · exact dequeueTaskLottery_frame e p s
  · exact .ok (.refl s)

theorem upstreamHook_frame (e : Env) (h : Hook) (s : Kernel) (hc : c ≠ .lottery) :
    Frame s (upstreamHook e c h p s) := by
  have hq := (upstreamEffect_quiet e h s hc).toFrame
  have hadd : ∀ t : Kernel, Frame t (addNrRunning (t.setQueue c (t.rq.queue c ++ [p])) 1) :=
    fun _ => ⟨rfl,rfl,rfl,rfl,rfl,rfl,Nat.le_refl _,fun _ _ => rfl⟩
  have hsub : ∀ t : Kernel, Frame t (subNrRunning (t.setQueue c ((t.rq.queue c).erase p)) 1) :=
    fun _ => ⟨rfl,rfl,rfl,rfl,rfl,rfl,Nat.le_refl _,fun _ _ => rfl⟩
  cases h with
  | enqueueTask =>
    cases c with
    | idle => exact hq
    | lottery => contradiction
    | _ => exact hq.trans (hadd _)
  | dequeueTask =>
    cases c with
    | idle => exact hq
    | lottery => contradiction
    | _ => exact hq.trans (hsub _)
  | _ => exact (upstreamHook_quiet e s hc (by simp) (by simp)).toFrame

/-- A hook that completes leaves the tasks alone, whatever it does to the queues. -/
theorem callHook_frame (b : Build) (e : Env) (c : SchedClass) (h : Hook) (p : Tid) (s : Kernel) :
    Yields (callHook b e c h p s) (Frame s) := by
  unfold callHook
  split
  · split
    · cases h with
      | enqueueTask => exact enqueueTaskLottery_frame e p s
      | dequeueTask => exact dequeueTaskLottery_frame e p s
      | switchedFrom => exact switchedFromLottery_frame e p s
      | taskTick => exact .ok (taskTickLottery_quiet e s).toFrame
      | yieldTask => exact .ok (.refl s)
      | checkPreemptCurr => exact .ok (.refl s)
      | putPrevTask => exact .ok (.refl s)
      | setNextTask => exact .ok (.refl s)
      | switchedTo => exact .ok (.refl s)
      | prioChanged => exact .ok (.refl s)
      | _ => exact .error _ _
    next hc => exact .ok (upstreamHook_frame e h s hc)
  · exact .error _ _

theorem callHookIfSet_frame (b : Build) (e : Env) (c : SchedClass) (h : Hook) (p : Tid)
    (s : Kernel) : Yields (callHookIfSet b e c h p s) (Frame s) := by
  unfold callHookIfSet
  split
  · exact callHook_frame b e c h p s
  · exact .ok (.refl s)

theorem enqueueTask_frame (b : Build) (e : Env) (p : Tid) (flags : UInt32) (s : Kernel) :
    Yields (enqueueTask b e p flags s) (Frame s) :=
  (callHook_frame b e _ _ p _).mono fun _ ht => (clock_quiet e s _).toFrame.trans ht

theorem dequeueTask_frame (b : Build) (e : Env) (p : Tid) (flags : UInt32) (s : Kernel) :
    Yields (dequeueTask b e p flags s) (Frame s) :=
  (callHook_frame b e _ _ p _).mono fun _ ht => (clock_quiet e s _).toFrame.trans ht

theorem takeOff_frame (b : Build) (e : Env) (p : Tid) (queued running : Bool) (flags : UInt32)
    (s : Kernel) : Yields (takeOff b e p queued running flags s) (Frame s) := by
  have hdequeue : Yields (applyIf queued (dequeueTask b e p flags) s) (Frame s) :=
    .applyIf (fun _ => dequeueTask_frame b e p flags s) fun _ => .refl s
  refine hdequeue.bind fun t ht => ?_
  exact .applyIf (fun _ => (callHook_frame b e _ _ p t).mono fun _ hu => ht.trans hu) fun _ => ht

theorem putBack_frame (b : Build) (e : Env) (p : Tid) (queued running : Bool) (flags : UInt32)
    (s : Kernel) : Yields (putBack b e p queued running flags s) (Frame s) := by
  have henqueue : Yields (applyIf queued (enqueueTask b e p flags) s) (Frame s) :=
    .applyIf (fun _ => enqueueTask_frame b e p flags s) fun _ => .refl s
  refine henqueue.bind fun t ht => ?_
  exact .applyIf (fun _ => (callHook_frame b e _ _ p t).mono fun _ hu => ht.trans hu) fun _ => ht

end Frames

section Wakeups
variable {b : Build} {s t u : Kernel} {p : Tid}

theorem setState_retains (s : Kernel) (p : Tid) (state : Nat) :
    Retains s (s.setState p state) := (Changed.setTask s p _).retains rfl

theorem setOnRq_retains (s : Kernel) (p : Tid) (onRq : OnRq) : Retains s (s.setOnRq p onRq) :=
  (Changed.setTask s p _).retains rfl

theorem activateTask_retains (b : Build) (e : Env) (p : Tid) (flags : UInt32) (s : Kernel) :
    Yields (activateTask b e p flags s) (Retains s) := by
  refine (enqueueTask_frame b e p _ s).bind fun t ht => ?_
  exact .ok (ht.retains.trans (setOnRq_retains t p _))

theorem deactivateTask_retains (b : Build) (e : Env) (p : Tid) (flags : UInt32) (s : Kernel) :
    Yields (deactivateTask b e p flags s) (Retains s) :=
  (dequeueTask_frame b e p _ _).mono fun _ ht => (setOnRq_retains s p _).frame ht

theorem checkPreemptCurr_frame (b : Build) (e : Env) (p : Tid) (s : Kernel) :
    Yields (checkPreemptCurr b e p s) (Frame s) :=
  (checkPreemptCurr_quiet b e p s).yields.mono fun _ ht => ht.toFrame

theorem ttwuDoWakeup_retains (b : Build) (e : Env) (p : Tid) (s : Kernel) :
    Yields (ttwuDoWakeup b e p s) (Retains s) := by
  refine (checkPreemptCurr_frame b e p s).bind fun t ht => ?_
  have hset := ht.retains.trans (setState_retains t p taskRunning)
  refine .applyIf (fun _ => ?_) fun _ => hset
  exact (callHookIfSet_frame b e _ _ p _).mono fun _ hu => hset.frame hu

theorem selectTaskRq_frame (b : Build) (e : Env) (p : Tid) (s : Kernel) :
    Yields (selectTaskRq b e p s) (Frame s) := by
  unfold selectTaskRq
  split
  · exact callHook_frame b e _ _ p s
  · exact .ok (.refl s)

theorem ttwuQueue_retains (b : Build) (e : Env) (p : Tid) (s : Kernel) :
    Yields (ttwuQueue b e p s) (Retains s) := by
  have hclock := (updateRqClock_quiet e s).toFrame.retains
  refine (activateTask_retains b e p _ _).bind fun t ht => ?_
  exact (ttwuDoWakeup_retains b e p t).mono fun _ hu => (hclock.trans ht).trans hu

theorem tryToWakeUp_retains (b : Build) (e : Env) (p : Tid) (state : Nat) (s : Kernel) :
    Yields (tryToWakeUp b e p state s) (fun a => Retains s a.2) := by
  unfold tryToWakeUp
  split
  · exact .ok (.refl s)
  split
  · exact .ok (setState_retains s p _)
  split
  · have hclock := (updateRqClock_quiet e s).toFrame.retains
    refine (ttwuDoWakeup_retains b e p _).bind fun t ht => ?_
    exact .ok (hclock.trans ht)
  · have hselect : Yields (applyIf b.smp
        (fun s => selectTaskRq b e p (s.setState p taskWaking)) s) (Retains s) :=
      .applyIf (fun _ => (selectTaskRq_frame b e p _).mono fun _ ht =>
        (setState_retains s p _).frame ht) fun _ => .refl s
    refine hselect.bind fun t ht => ?_
    refine (ttwuQueue_retains b e p t).bind fun u hu => ?_
    exact .ok (ht.trans hu)

theorem wakeUpNewTask_retains (b : Build) (e : Env) (p : Tid) (s : Kernel) :
    Yields (wakeUpNewTask b e p s) (Retains s) := by
  have hset := setState_retains s p taskRunning
  have hselect : Yields (applyIf b.smp (selectTaskRq b e p) (s.setState p taskRunning))
      (Retains s) :=
    .applyIf (fun _ => (selectTaskRq_frame b e p _).mono fun _ ht => hset.frame ht)
      fun _ => hset
  refine hselect.bind fun t ht => ?_
  have hclock := ht.frame (updateRqClock_quiet e t).toFrame
  refine (activateTask_retains b e p _ _).bind fun u hu => ?_
  have hactive := hclock.trans hu
  refine (checkPreemptCurr_frame b e p u).bind fun v hv => ?_
  have hchecked := hactive.frame hv
  refine .applyIf (fun _ => ?_) fun _ => hchecked
  exact (callHookIfSet_frame b e _ _ p v).mono fun _ hw => hchecked.frame hw

end Wakeups

section Switches
variable {b : Build} {s t : Kernel} {p prev : Tid}

theorem putPrevTask_frame (b : Build) (e : Env) (p : Tid) (s : Kernel) :
    Yields (putPrevTask b e p s) (Frame s) := callHook_frame b e _ _ p s

theorem balancePass_frame (b : Build) (e : Env) (prev : Tid) (cs : List SchedClass)
    (s : Kernel) : Yields (balancePass b e prev cs s) (Frame s) := by
  induction cs generalizing s with
  | nil => exact .ok (.refl s)
  | cons c cs ih =>
    refine (callHook_frame b e _ _ prev s).bind fun t ht => ?_
    split
    · exact .ok ht
    · exact (ih t).mono fun _ hu => ht.trans hu

theorem putPrevTaskBalance_frame (b : Build) (e : Env) (prev : Tid) (s : Kernel) :
    Yields (putPrevTaskBalance b e prev s) (Frame s) := by
  have hbalance : Yields (applyIf b.smp
      (balancePass b e prev (forClassRange (s.task prev).schedClass .idle)) s) (Frame s) :=
    .applyIf (fun _ => balancePass_frame b e prev _ s) fun _ => .refl s
  refine hbalance.bind fun t ht => ?_
  exact (putPrevTask_frame b e prev t).mono fun _ hu => ht.trans hu

theorem pickNextTaskLottery_frame (e : Env) (s : Kernel) :
    Yields (pickNextTaskLottery e s) (fun a => Frame s a.2) := by
  unfold pickNextTaskLottery
  dsimp only
  split
  · exact .ok (.refl s)
  split
  · exact .ok (.refl s)
  split
  · exact .error _ _
  split
  · exact .ok (.refl s)
  · exact .ok (logSelect_quiet e _ s).toFrame

theorem callPickNextTask_frame (b : Build) (e : Env) (c : SchedClass) (s : Kernel) :
    Yields (callPickNextTask b e c s) (fun a => Frame s a.2) := by
  unfold callPickNextTask
  split
  · split
    · exact pickNextTaskLottery_frame e s
    · exact .ok (upstreamEffect_quiet e _ s (by simp)).toFrame
    next hl _ => exact .ok (upstreamEffect_quiet e _ s hl).toFrame
  · exact .error _ _

theorem pickWalk_frame (b : Build) (e : Env) (cs : List SchedClass) (s : Kernel) :
    Yields (pickWalk b e cs s) (fun a => Frame s a.2) := by
  induction cs generalizing s with
  | nil => exact .error _ _
  | cons c cs ih =>
    refine (callPickNextTask_frame b e c s).bind fun a ha => ?_
    obtain ⟨o,t⟩ := a
    cases o with
    | some p => exact .ok ha
    | none => exact (ih t).mono fun _ hu => ha.trans hu

theorem pickNextTask_frame (b : Build) (e : Env) (prev : Tid) (s : Kernel) :
    Yields (pickNextTask b e prev s) (fun a => Frame s a.2) := by
  have hfair := (upstreamEffect_quiet e .pickNextTask s (c := .fair) (by simp)).toFrame
  unfold pickNextTask pickNextTaskFair
  split
  · cases e.pick .fair (s.rq.queue .fair) with
    | some p => exact .ok hfair
    | none =>
      refine (putPrevTask_frame b e prev _).bind fun t ht => ?_
      exact .ok ((hfair.trans ht).trans (upstreamEffect_quiet e _ t (by simp)).toFrame)
  · refine (putPrevTaskBalance_frame b e prev s).bind fun t ht => ?_
    exact (pickWalk_frame b e _ t).mono fun _ hu => ht.trans hu

theorem pickNextTaskCore_frame (b : Build) (e : Env) (prev : Tid) (s : Kernel) :
    Yields (pickNextTaskCore b e prev s) (fun a => Frame s a.2) :=
  pickNextTaskCore_yields (pickNextTask_frame b e prev s)

theorem beforePick_retains (b : Build) (e : Env) (preempt : Bool) (s : Kernel) :
    Yields (beforePick b e preempt s) (Retains s) := by
  have hclock := ((shiftFlags_quiet s).trans (updateRqClock_quiet e _)).toFrame.retains
  unfold beforePick
  dsimp only
  generalize updateRqClock e _ = t at hclock
  unfold blockPrev
  dsimp only
  split
  · split
    · exact .ok (hclock.trans (setState_retains t _ _))
    · exact (deactivateTask_retains b e _ _ t).mono fun _ hu => hclock.trans hu
  · exact .ok hclock

theorem schedule_retains (b : Build) (e : Env) (preempt : Bool) (s : Kernel) :
    Yields (schedule b e preempt s) (Retains s) := by
  refine (beforePick_retains b e preempt s).bind fun t ht => ?_
  refine (pickNextTaskCore_frame b e _ t).bind fun a ha => ?_
  have hpick := ht.frame ha
  exact .ok ⟨hpick.live,hpick.idle,hpick.keeps⟩

theorem doSchedYield_retains (b : Build) (e : Env) (s : Kernel) :
    Yields (doSchedYield b e s) (Retains s) := by
  refine (callHook_frame b e _ _ _ s).bind fun t ht => ?_
  exact (schedule_retains b e false t).mono fun _ hu => ht.retains.trans hu

theorem taskSchedRuntime_frame (b : Build) (e : Env) (p : Tid) (s : Kernel) :
    Yields (taskSchedRuntime b e p s) (fun a => Frame s a.2) := by
  have hquery : Yields (applyIf (s.taskCurrent p && s.taskOnRqQueued p)
      (fun s => callHook b e (s.task p).schedClass .updateCurr p (updateRqClock e s)) s)
      (Frame s) :=
    .applyIf (fun _ => (callHook_frame b e _ _ p _).mono fun _ ht =>
      (updateRqClock_quiet e s).toFrame.trans ht) fun _ => .refl s
  exact hquery.bind fun t ht => .ok ht

theorem schedulerTick_frame (b : Build) (e : Env) (s : Kernel) :
    Yields (schedulerTick b e s) (Frame s) :=
  (callHook_frame b e _ _ _ _).mono fun _ ht => (updateRqClock_quiet e s).toFrame.trans ht

theorem setCpusAllowed_frame (b : Build) (e : Env) (p : Tid) (s : Kernel) :
    Yields (setCpusAllowed b e p s) (Frame s) := by
  refine (takeOff_frame b e p _ _ _ s).bind fun t ht => ?_
  refine (callHook_frame b e _ _ p t).bind fun u hu => ?_
  exact (putBack_frame b e p _ _ _ u).mono fun _ hv => (ht.trans hu).trans hv

theorem schedMoveTask_frame (b : Build) (e : Env) (p : Tid) (s : Kernel) :
    Yields (schedMoveTask b e p s) (Frame s) := by
  have hclock := (updateRqClock_quiet e s).toFrame
  refine (takeOff_frame b e p _ _ _ _).bind fun t ht => ?_
  refine (callHookIfSet_frame b e _ _ p t).bind fun u hu => ?_
  refine (putBack_frame b e p _ _ _ u).bind fun v hv => ?_
  have hback := ((hclock.trans ht).trans hu).trans hv
  apply Yields.ok
  split
  · exact hback.trans (reschedCurr_quiet v).toFrame
  · exact hback

end Switches

section Steps
variable {b : Build} {s t : Kernel} {r : Ready} {p : Tid} {op : Op}

/-- A task that was not just forked was there before. -/
theorem Adjusted.live (h : Adjusted s op p v) (hn : newPid op ≠ some p) : p ∈ s.live := by
  cases h with
  | born pid => exact absurd pid hn
  | _ => assumption

theorem Retains.adjusts (h : Retains s t) : Adjusts s op t :=
  ⟨h.idle,by rw [h.idle,h.keeps],fun _ hx => .kept (h.live ▸ hx) (h.keeps _)⟩

theorem Changed.adjusts (hc : Changed s p v t) (h : Books b s r) (hv : Adjusted s op p v)
    (hp : p ∈ s.live) : Adjusts s op t := by
  refine ⟨hc.idle,?_,fun x hx => ?_⟩
  · rw [hc.idle,hc.task_other (h.ne_idle hp).symm]
  · rcases eq_or_ne x p with rfl | hne
    · rw [hc.task_self]
      exact hv
    · exact .kept (hc.live ▸ hx) (by rw [hc.task_other hne])

theorem setUserNice_adjusts (e : Env) (nice : Int) (h : Inv b s r) (hp : p ∈ s.live) :
    Yields (setUserNice b e p nice s) (Adjusts s (.setUserNice p nice)) := by
  unfold setUserNice
  split
  · exact .ok (Retains.refl s).adjusts
  next hrange =>
    simp only [not_or,Int.not_lt] at hrange
    obtain ⟨_,hlow,hhigh⟩ := hrange
    have hclock := (updateRqClock_quiet e s).toFrame
    dsimp only
    rw [hclock.task]
    split
    · have hc := Changed.setTask_frame hclock
        (.refl ((updateRqClock e s).setTask p { s.task p with staticPrio := niceToPrio nice }))
      exact .ok (hc.adjusts h.toBooks (.weighed hp hlow hhigh) hp)
    next hpolicy =>
      simp only [Bool.or_eq_true,not_or,Bool.not_eq_true] at hpolicy
      refine (takeOff_frame b e p _ _ _ _).bind fun t ht => ?_
      have hoff := hclock.trans ht
      rw [hoff.task]
      refine (putBack_frame b e p _ _ _ _).bind fun u hu => ?_
      have hc := Changed.setTask_frame hoff hu
      exact (callHook_frame b e _ _ p u).mono fun w hw =>
        (hc.frame hw).adjusts h.toBooks (.reniced hp hlow hhigh hpolicy.1 hpolicy.2) hp

theorem rtMutexSetprio_adjusts (e : Env) (donor : Option Tid) (h : Inv b s r)
    (hp : p ∈ s.live) :
    Yields (rtMutexSetprio b e p donor s) (Adjusts s (.rtMutexSetprio p donor)) := by
  refine (rtMutexSetprio_inherits e donor h hp).yields.mono fun t ht => ?_
  cases ht with
  | same => exact (Retains.refl s).adjusts
  | noted _ _ changed => exact changed.adjusts h.toBooks (.noted hp) hp
  | moved _ _ changed => exact changed.adjusts h.toBooks (.lent hp) hp

theorem schedSetscheduler_adjusts (e : Env) (caller : Caller) (attr : SchedAttr)
    (user pi : Bool) (h : Inv b s r) (hp : p ∈ s.live) (hin : ¬(pi ∧ caller.inInterrupt)) :
    Yields (schedSetscheduler b e caller p attr user pi s)
      (fun a => Adjusts s (.schedSetscheduler caller p attr user pi) a.2) := by
  refine (schedSetscheduler_answer e caller attr user pi h hp hin).yields.mono fun a ha => ?_
  cases ha with
  | refused => exact (Retains.refl s).adjusts
  | stopTask _ _ quiet => exact quiet.toFrame.retains.adjusts
  | busy _ _ _ _ quiet => exact quiet.toFrame.retains.adjusts
  | unchanged _ _ _ changed => exact changed.adjusts h.toBooks (.reset hp) hp
  | committed _ named other _ changed =>
    exact changed.adjusts h.toBooks (.committed hp named other) hp

/-- The child is made from the task that runs; the others do not notice. -/
theorem attach_adjusts (hq : Quiet s t) (hf : freshPid b p s) (hpid : newPid op = some p)
    (hstart : (schedFork (s.task s.rq.curr) p
      { s.task s.rq.curr with piTopTask := none }).1 = 0)
    (hv : settings v = settings (schedFork (s.task s.rq.curr) p
      { s.task s.rq.curr with piTopTask := none }).2) : Adjusts s op (attach p v t) := by
  refine ⟨hq.idle,?_,fun x hx => ?_⟩
  · have hidle : (attach p v t).rq.idle ≠ p := fun he => hf.2.1 (hq.idle ▸ he.symm)
    rw [show (attach p v t).task (attach p v t).rq.idle = t.task t.rq.idle from
      Function.update_of_ne hidle _ _,hq.task,hq.idle]
  · rcases eq_or_ne x p with rfl | hne
    · rw [show (attach x v t).task x = v from Function.update_self ..]
      exact .born hpid hstart hv
    · rw [show (attach p v t).task x = t.task x from Function.update_of_ne hne _ _,hq.task]
      refine .kept ?_ rfl
      rcases List.mem_append.mp hx with hx | hx
      · exact hq.live ▸ hx
      · exact absurd (List.mem_singleton.mp hx) hne

theorem kernelCloneCopy_adjusts (e : Env) (args : KernelCloneArgs) (ce : CopyEnv)
    (hf : freshPid b ce.pid s) : Yields (kernelCloneCopy b e args ce s)
      (fun a => Adjusts s (.kernelClone args ce) a.2) := by
  unfold kernelCloneCopy
  split
  · exact .ok (Retains.refl s).adjusts
  refine (copyProcess_spec b e args ce s).yields.bind fun a ha => ?_
  cases ha with
  | failed quiet _ => exact .error _ _
  | created quiet start =>
    refine .ok ?_
    rw [giveTickets_attach]
    exact attach_adjusts quiet hf rfl start rfl

theorem createIoThread_adjusts (e : Env) (ce : CopyEnv) (hf : freshPid b ce.pid s) :
    Yields (createIoThread b e ce s) (fun a => Adjusts s (.createIoThread ce) a.2) := by
  refine (copyProcess_spec b e _ ce s).yields.mono fun a ha => ?_
  cases ha with
  | failed quiet _ => exact quiet.toFrame.retains.adjusts
  | created quiet start => exact attach_adjusts quiet hf rfl start rfl

theorem releaseTask_adjusts (p : Tid) (s : Kernel) :
    Adjusts s (.releaseTask p) (releaseTask p s) :=
  ⟨rfl,rfl,fun _ hx => .kept (List.mem_of_mem_erase hx) rfl⟩

theorem otherTask_adjusts (hp : p ∉ s.live) (hi : p ≠ s.rq.idle) (v : TaskStruct) :
    Adjusts s (.otherTask p v) (s.setTask p v) := by
  have hsame : ∀ x, x ≠ p → (s.setTask p v).task x = s.task x := fun x hx =>
    Function.update_of_ne hx _ _
  refine ⟨rfl,?_,fun x hx => ?_⟩
  · exact congrArg settings (hsame _ hi.symm)
  · rw [hsame x fun he => hp (he ▸ hx)]
    exact .kept hx rfl

theorem Adjusts.snd {m : Except Fault (α × Kernel)} (h : Yields m (fun a => Adjusts s op a.2)) :
    Yields (m >>= fun a => .ok a.2) (Adjusts s op) := h.bind fun _ ha => .ok ha

/-- Every operation adjusts each task in one of these ways. -/
theorem exec_adjusts (e : Env) (h : Inv b s r) (he : enabled b s op) :
    Yields (exec b e op s) (Adjusts s op) := by
  cases op with
  | setCurrentState state => exact .ok (setState_retains s _ _).adjusts
  | schedule preempt => exact (schedule_retains b e preempt s).mono fun _ ht => ht.adjusts
  | tryToWakeUp p state =>
    exact .snd ((tryToWakeUp_retains b e p state s).mono fun _ ht => ht.adjusts)
  | kernelClone args ce => exact .snd (kernelCloneCopy_adjusts e args ce he)
  | createIoThread ce => exact .snd (createIoThread_adjusts e ce he.2)
  | wakeUpNewTask p => exact (wakeUpNewTask_retains b e p s).mono fun _ ht => ht.adjusts
  | setUserNice p nice => exact setUserNice_adjusts e nice h he
  | rtMutexSetprio p piTask => exact rtMutexSetprio_adjusts e piTask h he
  | schedMoveTask p => exact (schedMoveTask_frame b e p s).mono fun _ ht => ht.retains.adjusts
  | schedSetscheduler caller p attr user pi =>
    exact .snd (schedSetscheduler_adjusts e caller attr user pi h he.1 he.2)
  | schedulerTick => exact (schedulerTick_frame b e s).mono fun _ ht => ht.retains.adjusts
  | schedYield => exact (doSchedYield_retains b e s).mono fun _ ht => ht.adjusts
  | taskSchedRuntime p =>
    exact .snd ((taskSchedRuntime_frame b e p s).mono fun _ ht => ht.retains.adjusts)
  | schedExec => exact (callHook_frame b e _ _ _ s).mono fun _ ht => ht.retains.adjusts
  | setCpusAllowed p => exact (setCpusAllowed_frame b e p s).mono fun _ ht => ht.retains.adjusts
  | releaseTask p => exact .ok (releaseTask_adjusts p s)
  | otherTask p t => exact .ok (otherTask_adjusts he.1 he.2 t)

end Steps

/-- The nice value of a task is one of the forty, and a task of the fair class has no
real-time priority. -/
structure Graded (t : TaskStruct) : Prop where
  level : ∃ nice, minNice ≤ nice ∧ nice ≤ maxNice ∧ t.staticPrio = niceToPrio nice
  ordinary : t.schedClass = .fair → rtPrio t.prio = false

section Grades
variable {b : Build} {s s' t : Kernel} {r : Ready} {p : Tid} {op : Op} {v w : TaskStruct}

theorem rtPrio_false (prio : Int) : rtPrio prio = false ↔ 100 ≤ prio := by
  unfold rtPrio maxRtPrio
  rw [decide_eq_false_iff_not]
  omega

theorem niceToPrio_plain (hl : minNice ≤ nice) (hu : nice ≤ maxNice) :
    rtPrio (niceToPrio nice) = false := by
  rw [rtPrio_false,niceToPrio_of_nice hl hu]
  unfold minNice at hl
  omega

theorem prioToNice_niceToPrio (hl : minNice ≤ nice) (hu : nice ≤ maxNice) :
    prioToNice (niceToPrio nice) = nice := by
  rw [niceToPrio_of_nice hl hu,prioToNice_of_nice hl hu]

theorem Graded.congr (h : Graded w) (hv : settings v = settings w) : Graded v := by
  have hstatic : v.staticPrio = w.staticPrio := congrArg (·.staticPrio) hv
  have hclass : v.schedClass = w.schedClass := congrArg (·.schedClass) hv
  have hprio : v.prio = w.prio := congrArg (·.prio) hv
  exact ⟨by rw [hstatic]; exact h.level,by rw [hclass,hprio]; exact h.ordinary⟩

theorem setschedulerPrio_fair (h : (setschedulerPrio v prio).schedClass = .fair) :
    v.policy ≠ schedLottery ∧ rtPrio prio = false := by
  unfold setschedulerPrio at h
  split at h
  · cases h
  next hl =>
    split at h
    · cases h
    split at h
    · cases h
    next hr => exact ⟨hl,Bool.eq_false_iff.mpr hr⟩

theorem Graded.lent (h : Graded (s.task p)) (donor : Option Tid) (piSe : Tid) :
    Graded (lent s p donor piSe) := by
  refine ⟨?_,fun hc => ?_⟩
  · unfold Proofs.lent
    dsimp only
    rw [setschedulerPrio_fields]
    exact h.level
  · rw [(lent_fields s p donor piSe).2.2.2.2.2.2]
    exact (setschedulerPrio_fair hc).2

/-- A nice value that takes effect makes an ordinary priority. -/
theorem Graded.renice (hd : dlPolicy v.policy = false) (hr : rtPolicy v.policy = false)
    (hl : minNice ≤ nice) (hu : nice ≤ maxNice) (h : Graded v) : Graded (renice v nice) := by
  have hnormal : normalPrio { v with staticPrio := niceToPrio nice } = niceToPrio nice := by
    unfold normalPrio normalPrioOf
    simp only [hd,hr,Bool.false_eq_true,↓reduceIte,prioToNice_niceToPrio hl hu]
  unfold Model.renice effectivePrio
  simp only [hnormal]
  split
  · exact ⟨⟨nice,hl,hu,rfl⟩,fun _ => niceToPrio_plain hl hu⟩
  · exact ⟨⟨nice,hl,hu,rfl⟩,h.ordinary⟩

theorem resetOnFork_static (p : TaskStruct) :
    (resetOnFork p).staticPrio = p.staticPrio ∨ (resetOnFork p).staticPrio = niceToPrio 0 := by
  unfold resetOnFork
  dsimp only
  split
  · exact .inr rfl
  split
  · exact .inr rfl
  · exact .inl rfl

theorem unclassed_static (cur : TaskStruct) (self : Tid) (p : TaskStruct) :
    (unclassed cur self p).staticPrio = p.staticPrio ∨
      (unclassed cur self p).staticPrio = niceToPrio 0 := by
  unfold unclassed
  dsimp only
  split
  · exact resetOnFork_static _
  · exact .inl rfl

theorem Graded.schedFork (h : Graded v) (start : (schedFork cur self v).1 = 0) :
    Graded (schedFork cur self v).2 := by
  obtain ⟨c,hc,hclass⟩ := schedFork_class start
  rw [hc]
  refine ⟨?_,fun hf => ?_⟩
  · rcases unclassed_static cur self v with hs | hs
    · obtain ⟨nice,hl,hu,hn⟩ := h.level
      exact ⟨nice,hl,hu,hs.trans hn⟩
    · exact ⟨0,by decide,by decide,hs⟩
  · cases hf
    rcases hclass with ⟨_,hl⟩ | ⟨_,_,⟨_,hr⟩ | ⟨hplain,_⟩⟩
    · cases hl
    · cases hr
    · exact hplain

theorem Graded.commit (h : Graded v) (e : Env) (prio : Int)
    (hn : attr.schedPolicy = schedLottery) : Graded (commitParams e v attr prio) := by
  cases hk : hasFlag attr.schedFlags schedFlagKeepParams with
  | true =>
    rw [commitParams_keep e v prio hk]
    exact h
  | false =>
    rw [commitParams_lottery e v prio hn hk]
    exact ⟨h.level,fun hc => by cases hc⟩

/-- The boot task is as it was, and all others are graded. -/
structure GradedAll (s : Kernel) : Prop where
  boot : settings (s.task s.rq.idle) = settings bootTask
  tasks : ∀ p ∈ s.live, Graded (s.task p)

theorem bootTask_graded : Graded bootTask :=
  ⟨⟨0,by decide,by decide,by decide⟩,fun hc => by cases hc⟩

theorem GradedAll.curr (hg : GradedAll s) (h : Books b s r) : Graded (s.task s.rq.curr) := by
  rcases h.curr with hi | hl
  · rw [hi]
    exact bootTask_graded.congr hg.boot
  · exact hg.tasks _ hl

theorem Graded.adjusted (hg : GradedAll s) (hc : Graded (s.task s.rq.curr))
    (h : Adjusted s op p v) : Graded v := by
  cases h with
  | kept live same => exact (hg.tasks p live).congr same
  | weighed live low high => exact ⟨⟨_,low,high,rfl⟩,(hg.tasks p live).ordinary⟩
  | reniced live low high deadline realtime =>
    exact (hg.tasks p live).renice deadline realtime low high
  | noted live => exact ⟨(hg.tasks p live).level,(hg.tasks p live).ordinary⟩
  | lent live => exact (hg.tasks p live).lent _ _
  | reset live => exact ⟨(hg.tasks p live).level,(hg.tasks p live).ordinary⟩
  | @committed p _ attr _ _ e live named _ =>
    have hreset : Graded { s.task p with
        schedResetOnFork := requestedReset (s.task p) attr } :=
      ⟨(hg.tasks p live).level,(hg.tasks p live).ordinary⟩
    exact hreset.commit e _ named
  | born _ start same =>
    have hdup : Graded { s.task s.rq.curr with piTopTask := none } := ⟨hc.level,hc.ordinary⟩
    exact (hdup.schedFork start).congr same

theorem GradedAll.retains (hg : GradedAll s) (h : Retains s t) : GradedAll t :=
  ⟨by rw [h.idle,h.keeps,hg.boot],fun x hx => (hg.tasks x (h.live ▸ hx)).congr (h.keeps x)⟩

theorem GradedAll.step (hg : GradedAll s) (h : Inv b s r) (hs : Step b s s') : GradedAll s' := by
  obtain ⟨e,op,he,hrun⟩ := hs
  have hadjusts := exec_adjusts e h he s' hrun
  exact ⟨hadjusts.boot.trans hg.boot,fun x hx =>
    .adjusted hg (hg.curr h.toBooks) (hadjusts.tasks x hx)⟩

theorem reachable_graded (h : Reachable b s) : GradedAll s := by
  induction h with
  | init => exact ⟨rfl,fun _ hx => by cases hx⟩
  | step before last ih =>
    obtain ⟨⟨r,hr⟩,_⟩ := reachable_inv before
    exact ih.step hr last

end Grades

end LotteryScheduler.Proofs
