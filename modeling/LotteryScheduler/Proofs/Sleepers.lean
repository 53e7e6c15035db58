import LotteryScheduler.Proofs.Settings
import LotteryScheduler.Model.WaitLoop

namespace LotteryScheduler.Proofs
open Lib Model

/-- The data of one task was written, and that of no other. -/
structure Written (s : Kernel) (p : Tid) (v : TaskStruct) (t : Kernel) : Prop where
  live : t.live = s.live
  task : t.task = Function.update s.task p v

/-- Which tasks sleep, and in which state, is as it was. -/
structure Poised (s t : Kernel) : Prop where
  live : t.live = s.live
  state : ∀ x, (t.task x).state = (s.task x).state
  onRq : ∀ x, (t.task x).onRq = (s.task x).onRq

/-- What may happen to a task that does nothing itself: it stays as it is, or it is
made to run. -/
structure Passive (p : Tid) (s t : Kernel) : Prop where
  live : p ∈ t.live
  change : ((t.task p).state = (s.task p).state ∧ (t.task p).onRq = (s.task p).onRq) ∨
    ((t.task p).state = taskRunning ∧ (t.task p).onRq = .queued)

section Relations
variable {s t u : Kernel} {p : Tid} {v w : TaskStruct}

theorem Frame.written (h : Frame s t) (p : Tid) : Written s p (s.task p) t :=
  ⟨h.live,by simp [h.task]⟩

theorem Written.setTask (s : Kernel) (p : Tid) (v : TaskStruct) :
    Written s p v (s.setTask p v) := ⟨rfl,rfl⟩

theorem Written.trans (h : Written s p v t) (h' : Written t p w u) : Written s p w u :=
  ⟨h'.live.trans h.live,by rw [h'.task,h.task,Function.update_idem]⟩

theorem Written.self (h : Written s p v t) : t.task p = v := by simp [h.task]

theorem Written.other (h : Written s p v t) (hx : x ≠ p) : t.task x = s.task x := by
  simp [h.task,hx]

theorem Written.frame (h : Written s p v t) (h' : Frame t u) : Written s p v u := by
  have hu := h'.written p
  rw [h.self] at hu
  exact h.trans hu

theorem Changed.written (h : Changed s p v t) : Written s p v t := ⟨h.live,h.task⟩

/-- Writing a task's data that are read from the state of the moment. -/
theorem Written.update (h : Written s p v t) (f : TaskStruct → TaskStruct) :
    Written s p (f v) (t.setTask p (f (t.task p))) := by
  rw [h.self]
  exact h.trans (.setTask t p (f v))

theorem Poised.refl (s : Kernel) : Poised s s := ⟨rfl,fun _ => rfl,fun _ => rfl⟩

theorem Poised.trans (h : Poised s t) (h' : Poised t u) : Poised s u :=
  ⟨h'.live.trans h.live,fun x => (h'.state x).trans (h.state x),
    fun x => (h'.onRq x).trans (h.onRq x)⟩

theorem Frame.poised (h : Frame s t) : Poised s t :=
  ⟨h.live,fun x => by rw [h.task],fun x => by rw [h.task]⟩

theorem Written.poised (h : Written s p v t) (hs : v.state = (s.task p).state)
    (hq : v.onRq = (s.task p).onRq) : Poised s t := by
  refine ⟨h.live,fun x => ?_,fun x => ?_⟩
  · rcases eq_or_ne x p with rfl | hne
    · rw [h.self,hs]
    · rw [h.other hne]
  · rcases eq_or_ne x p with rfl | hne
    · rw [h.self,hq]
    · rw [h.other hne]

theorem Poised.passive (h : Poised s t) (hp : p ∈ s.live) : Passive p s t :=
  ⟨h.live ▸ hp,.inl ⟨h.state p,h.onRq p⟩⟩

/-- A task is passive when another one is written to. -/
theorem Written.passive (h : Written s x v t) (hp : p ∈ s.live) (hne : p ≠ x) : Passive p s t :=
  ⟨h.live ▸ hp,.inl (by rw [h.other hne]; exact ⟨rfl,rfl⟩)⟩

end Relations

section Wakeups
variable {b : Build} {e : Env} {s t : Kernel} {r : Ready} {p : Tid}

theorem activateTask_written (b : Build) (e : Env) (p : Tid) (flags : UInt32) (s : Kernel) :
    Yields (activateTask b e p flags s) (Written s p { s.task p with onRq := .queued }) := by
  refine (enqueueTask_frame b e p _ s).bind fun t ht => .ok ?_
  exact (ht.written p).update fun v => { v with onRq := .queued }

theorem deactivateTask_written (b : Build) (e : Env) (p : Tid) (s : Kernel)
    (hf : flags &&& dequeueSleep ≠ 0) : Yields (deactivateTask b e p flags s)
      (Written s p { s.task p with onRq := .none }) := by
  unfold deactivateTask
  dsimp only
  rw [if_pos hf]
  exact (dequeueTask_frame b e p flags _).mono fun _ ht => (Written.setTask s p _).frame ht

theorem ttwuDoWakeup_written (b : Build) (e : Env) (p : Tid) (s : Kernel) :
    Yields (ttwuDoWakeup b e p s) (Written s p { s.task p with state := taskRunning }) := by
  refine (checkPreemptCurr_frame b e p s).bind fun t ht => ?_
  have hset := (ht.written p).update fun v => { v with state := taskRunning }
  refine .applyIf (fun _ => ?_) fun _ => hset
  exact (callHookIfSet_frame b e _ _ p _).mono fun _ hu => hset.frame hu

theorem ttwuQueue_written (b : Build) (e : Env) (p : Tid) (s : Kernel) :
    Yields (ttwuQueue b e p s)
      (Written s p { s.task p with onRq := .queued, state := taskRunning }) := by
  have hclock := (updateRqClock_quiet e s).toFrame
  refine (activateTask_written b e p _ _).bind fun t ht => ?_
  rw [hclock.task] at ht
  have hactive : Written s p { s.task p with onRq := .queued } t :=
    ⟨ht.live.trans hclock.live,ht.task.trans (by rw [hclock.task])⟩
  refine (ttwuDoWakeup_written b e p t).mono fun u hu => ?_
  rw [hactive.self] at hu
  exact hactive.trans hu

/-- A wakeup that does not find its task in one of the states it asks for. -/
theorem tryToWakeUp_unmatched (b : Build) (e : Env) (hm : ttwuStateMatch s p mask = false) :
    tryToWakeUp b e p mask s = .ok (false,s) := by simp [tryToWakeUp,hm]

/-- One that does leaves it running and queued. -/
theorem tryToWakeUp_written (e : Env) (h : Inv b s r) (hm : ttwuStateMatch s p mask = true) :
    Yields (tryToWakeUp b e p mask s) (fun a =>
      Written s p { s.task p with onRq := .queued, state := taskRunning } a.2) := by
  have hrun : ∀ t, (s.task p).onRq = .queued →
      Written s p { s.task p with state := taskRunning } t →
      Written s p { s.task p with onRq := .queued, state := taskRunning } t := by
    intro t hq ht
    rw [← hq]
    exact ht
  unfold tryToWakeUp
  rw [if_neg (by simp [hm])]
  split
  next hcurr => exact .ok (hrun _ (hcurr ▸ h.currQueued) (.setTask s p _))
  split
  next hq =>
    have hclock := (updateRqClock_quiet e s).toFrame
    refine (ttwuDoWakeup_written b e p _).bind fun t ht => .ok ?_
    rw [hclock.task] at ht
    exact hrun t ((queued_iff s p).mp hq)
      ⟨ht.live.trans hclock.live,ht.task.trans (by rw [hclock.task])⟩
  next =>
    have hselect : Yields (applyIf b.smp
        (fun s => selectTaskRq b e p (s.setState p taskWaking)) s)
        (fun t => ∃ state, Written s p { s.task p with state } t) := by
      refine .applyIf (fun _ => ?_) fun _ => ⟨_,(Frame.refl s).written p⟩
      exact (selectTaskRq_frame b e p _).mono fun _ ht => ⟨_,(Written.setTask s p _).frame ht⟩
    refine hselect.bind fun t hspec => ?_
    obtain ⟨state,ht⟩ := hspec
    refine (ttwuQueue_written b e p t).bind fun u hu => .ok ?_
    rw [ht.self] at hu
    exact ht.trans hu

theorem tryToWakeUp_passive (e : Env) (mask : Nat) (h : Inv b s r) (hp : p ∈ s.live) :
    Yields (tryToWakeUp b e x mask s) (fun a => Passive p s a.2) := by
  cases hm : ttwuStateMatch s x mask with
  | false =>
    rw [tryToWakeUp_unmatched b e hm]
    exact .ok ((Poised.refl s).passive hp)
  | true =>
    refine (tryToWakeUp_written e h hm).mono fun a ha => ?_
    rcases eq_or_ne p x with rfl | hne
    · exact ⟨ha.live ▸ hp,.inr (by rw [ha.self]; exact ⟨rfl,rfl⟩)⟩
    · exact ha.passive hp hne

end Wakeups

section Changes
variable {b : Build} {e : Env} {s t : Kernel} {r : Ready} {p : Tid} {v : TaskStruct}

theorem setschedulerPrio_state (t : TaskStruct) (prio : Int) :
    (setschedulerPrio t prio).state = t.state := by rw [setschedulerPrio_fields]

theorem commitParams_state (e : Env) (t : TaskStruct) (attr : SchedAttr) (prio : Int)
    (hp : attr.schedPolicy = schedLottery) : (commitParams e t attr prio).state = t.state := by
  by_cases hk : hasFlag attr.schedFlags schedFlagKeepParams = true
  · rw [commitParams_keep e t prio hk]
  · rw [commitParams_lottery e t prio hp (by simpa using hk)]

theorem setUserNice_poised (b : Build) (e : Env) (p : Tid) (nice : Int) (s : Kernel) :
    Yields (setUserNice b e p nice s) (Poised s) := by
  have hclock := (updateRqClock_quiet e s).toFrame
  unfold setUserNice
  split
  · exact .ok (.refl s)
  dsimp only
  split
  · exact .ok (hclock.poised.trans ((Written.setTask _ p _).poised rfl rfl))
  · refine (takeOff_frame b e p _ _ _ _).bind fun t ht => ?_
    obtain ⟨prio,hv⟩ := renice_fields (t.task p) nice
    refine (putBack_frame b e p _ _ _ _).bind fun u hu => ?_
    refine (callHook_frame b e _ _ p u).mono fun w hw => ?_
    have hset : Poised t (t.setTask p (renice (t.task p) nice)) :=
      (Written.setTask t p _).poised (by rw [hv]) (by rw [hv])
    exact (((hclock.trans ht).poised.trans hset).trans hu.poised).trans hw.poised

theorem rtMutexSetprio_poised (e : Env) (donor : Option Tid) (h : Inv b s r)
    (hp : p ∈ s.live) : Yields (rtMutexSetprio b e p donor s) (Poised s) := by
  refine (rtMutexSetprio_inherits e donor h hp).yields.mono fun t ht => ?_
  cases ht with
  | same => exact .refl s
  | noted _ _ changed => exact changed.written.poised rfl rfl
  | moved _ _ changed =>
    exact changed.written.poised (setschedulerPrio_state _ _) (lent_fields s p donor _).1

theorem schedSetscheduler_poised (e : Env) (caller : Caller) (attr : SchedAttr)
    (user pi : Bool) (h : Inv b s r) (hp : p ∈ s.live) (hin : ¬(pi ∧ caller.inInterrupt)) :
    Yields (schedSetscheduler b e caller p attr user pi s) (fun a => Poised s a.2) := by
  refine (schedSetscheduler_answer e caller attr user pi h hp hin).yields.mono fun a ha => ?_
  cases ha with
  | refused => exact .refl s
  | stopTask _ _ quiet => exact quiet.toFrame.poised
  | busy _ _ _ _ quiet => exact quiet.toFrame.poised
  | unchanged _ _ _ changed => exact changed.written.poised rfl rfl
  | committed _ named _ _ changed =>
    exact changed.written.poised (commitParams_state e _ attr _ named)
      (commitParams_kept e _ _ named).1

/-- A clone makes its child and writes to nobody else. -/
theorem copyProcess_passive (b : Build) (e : Env) (args : KernelCloneArgs) (ce : CopyEnv)
    (hp : p ∈ s.live) (hne : p ≠ ce.pid) :
    Yields (copyProcess b e args ce s) (fun a => Passive p s a.2) := by
  refine (copyProcess_spec b e args ce s).yields.mono fun a ha => ?_
  cases ha with
  | failed quiet => exact quiet.toFrame.poised.passive hp
  | created quiet =>
    refine ⟨List.mem_append_left _ (quiet.live ▸ hp),.inl ?_⟩
    simp [attach,hne,quiet.task]

theorem kernelCloneCopy_passive (b : Build) (e : Env) (args : KernelCloneArgs) (ce : CopyEnv)
    (hp : p ∈ s.live) (hf : freshPid b ce.pid s) :
    Yields (kernelCloneCopy b e args ce s) (fun a => Passive p s a.2) := by
  have hne : p ≠ ce.pid := fun he => hf.1 (he ▸ hp)
  unfold kernelCloneCopy
  refine .ite (fun _ => .ok ((Poised.refl s).passive hp)) fun _ => ?_
  intro a ha
  obtain ⟨⟨o,t⟩,ht,hret⟩ := bind_eq_ok.mp ha
  have hchild : Passive p s t := copyProcess_passive b e args ce hp hne _ ht
  have hpid : ∀ x, o = .ok x → x = ce.pid := by
    rintro x rfl
    cases (copyProcess_spec b e args ce s).of_ok ht
    rfl
  cases o with
  | error _ => cases hret
  | ok x =>
    obtain rfl := hpid x rfl
    cases hret
    exact ⟨hchild.live,by simpa [giveTickets,Kernel.setTask,hne] using hchild.change⟩

end Changes

/-- What `__schedule` makes of the task it takes the CPU from. One that is preempted stays
as it is; otherwise it falls asleep if it has said so, unless a signal keeps it running. -/
inductive Parked (preempt : Bool) (t : TaskStruct) : TaskStruct → Prop where
  | kept : Parked preempt t t
  | signalled (block : preempt = false) : Parked preempt t { t with state := taskRunning }
  | asleep (block : preempt = false) (said : t.state ≠ taskRunning) :
    Parked preempt t { t with onRq := .none }

section Switches
variable {b : Build} {e : Env} {s t : Kernel} {r : Ready} {p : Tid} {preempt : Bool} {op : Op}

theorem beforePick_parked (b : Build) (e : Env) (preempt : Bool) (s : Kernel) :
    Yields (beforePick b e preempt s) (fun t =>
      ∃ v, Written s s.rq.curr v t ∧ Parked preempt (s.task s.rq.curr) v) := by
  have hq := ((shiftFlags_quiet s).trans (updateRqClock_quiet e _)).toFrame
  unfold beforePick
  dsimp only
  generalize updateRqClock e _ = t at hq
  have hclock : ∀ v u, Written t t.rq.curr v u → Written s s.rq.curr v u := by
    intro v u hu
    exact ⟨hu.live.trans hq.live,by rw [hu.task,hq.task,hq.curr]⟩
  have hcurr : t.task t.rq.curr = s.task s.rq.curr := by rw [hq.task,hq.curr]
  unfold blockPrev
  dsimp only
  split
  next hc =>
    simp only [Bool.and_eq_true,Bool.not_eq_true',decide_eq_true_eq] at hc
    split
    · refine .ok ⟨_,hclock _ _ (.setTask t _ _),?_⟩
      rw [hcurr]
      exact .signalled hc.1
    · refine (deactivateTask_written b e _ t (by decide)).mono fun u hu => ⟨_,hclock _ _ hu,?_⟩
      rw [hcurr] at hc ⊢
      exact .asleep hc.1 hc.2
  next => exact .ok ⟨_,hq.written _,.kept⟩

theorem schedule_parked (b : Build) (e : Env) (preempt : Bool) (s : Kernel) :
    Yields (schedule b e preempt s) (fun t =>
      ∃ v, Written s s.rq.curr v t ∧ Parked preempt (s.task s.rq.curr) v) := by
  refine (beforePick_parked b e preempt s).bind fun t hspec => ?_
  obtain ⟨v,ht,hv⟩ := hspec
  refine (pickNextTaskCore_frame b e _ t).bind fun a ha => .ok ⟨v,?_,hv⟩
  exact ⟨ha.live.trans ht.live,ha.task.trans ht.task⟩

theorem schedule_passive (hp : p ∈ s.live) (hc : preempt = false → s.rq.curr ≠ p) :
    Yields (schedule b e preempt s) (Passive p s) := by
  refine (schedule_parked b e preempt s).mono fun t hspec => ?_
  obtain ⟨v,ht,hv⟩ := hspec
  rcases eq_or_ne p s.rq.curr with rfl | hne
  · cases hv with
    | kept => exact (ht.poised rfl rfl).passive hp
    | signalled block => exact absurd rfl (hc block)
    | asleep block => exact absurd rfl (hc block)
  · exact ht.passive hp hne

/-- A task that does not act itself is left alone or made to run, whatever the operation. -/
theorem exec_passive (e : Env) (h : Inv b s r) (he : enabled b s op) (hp : p ∈ s.live)
    (hown : ¬ownOp p s op) : Yields (exec b e op s) (Passive p s) := by
  have hquiet : ∀ t, Frame s t → Passive p s t := fun t ht => ht.poised.passive hp
  cases op with
  | setCurrentState state => exact .ok ((Written.setTask s _ _).passive hp (Ne.symm hown))
  | schedule preempt =>
    refine schedule_passive hp ?_
    rintro rfl
    exact hown
  | tryToWakeUp x state => exact (tryToWakeUp_passive e state h hp).bind fun _ ha => .ok ha
  | kernelClone args ce =>
    exact (kernelCloneCopy_passive b e args ce hp he).bind fun _ ha => .ok ha
  | createIoThread ce =>
    have hne : p ≠ ce.pid := fun hx => he.2.1 (hx ▸ hp)
    exact (copyProcess_passive b e _ ce hp hne).bind fun _ ha => .ok ha
  | wakeUpNewTask x =>
    intro t ht
    have hn : ¬newSelects b e s x := by
      intro hn
      rw [show exec b e (.wakeUpNewTask x) s = wakeUpNewTask b e x s from rfl,
        wakeUpNewTask_missing e hn] at ht
      cases ht
    have hc := ((wakeUpNewTask_spec e h he.1 he.2 hn).of_ok ht).2.written
    rcases eq_or_ne p x with rfl | hne
    · exact ⟨hc.live ▸ hp,.inr (by rw [hc.self]; exact ⟨rfl,rfl⟩)⟩
    · exact hc.passive hp hne
  | setUserNice x nice =>
    exact (setUserNice_poised b e x nice s).mono fun _ ht => ht.passive hp
  | rtMutexSetprio x donor =>
    exact (rtMutexSetprio_poised e donor h he).mono fun _ ht => ht.passive hp
  | schedMoveTask x => exact (schedMoveTask_frame b e x s).mono hquiet
  | schedSetscheduler caller x attr user pi =>
    exact (schedSetscheduler_poised e caller attr user pi h he.1 he.2).bind
      fun _ ha => .ok (ha.passive hp)
  | schedulerTick => exact (schedulerTick_frame b e s).mono hquiet
  | schedYield =>
    refine (callHook_frame b e _ _ _ s).bind fun t ht => ?_
    have hpt : p ∈ t.live := ht.live ▸ hp
    refine (schedule_passive hpt fun _ => by rw [ht.curr]; exact hown).mono fun u hu => ?_
    exact ⟨hu.live,ht.task ▸ hu.change⟩
  | taskSchedRuntime x =>
    exact (taskSchedRuntime_frame b e x s).bind fun _ ha => .ok (hquiet _ ha)
  | schedExec => exact (callHook_frame b e _ _ _ s).mono hquiet
  | setCpusAllowed x => exact (setCpusAllowed_frame b e x s).mono hquiet
  | releaseTask x =>
    have hne : p ≠ x := fun hx => hown hx.symm
    exact .ok ⟨(List.mem_erase_of_ne hne).mpr hp,.inl ⟨rfl,rfl⟩⟩
  | otherTask x v =>
    have hne : p ≠ x := fun hx => he.1 (hx ▸ hp)
    exact .ok ((Written.setTask s x v).passive hp hne)

end Switches

end LotteryScheduler.Proofs
