import LotteryScheduler.Lib.Journal
import LotteryScheduler.Proofs.Settings

namespace LotteryScheduler.Proofs
open Lib Model

/-- What a line of the log says about the lottery queue. -/
def entry (x : LogRecord) : Entry Tid :=
  match x.op with
  | .e => .enter x.pid
  | .d => .leave x.pid
  | .s => .serve x.pid

/-- The tasks that a log says were selected. -/
def selects (log : List LogRecord) : List Tid := (log.filter (·.op = .s)).map (·.pid)

/-- Neither the links nor the log were touched. -/
structure Still (s t : Kernel) : Prop where
  mem : t.mem = s.mem
  log : t.log = s.log

/-- From `s` to `t` the log tells how the lottery queue went from `q` to `q'`, and that
`picks` were selected on the way. -/
structure Tells (s : Kernel) (q picks : List Tid) (t : Kernel) (q' : List Tid) : Prop where
  ring : Holds s.mem .ltrQueue (q.map .task) → Holds t.mem .ltrQueue (q'.map .task)
  log : ∃ l, t.log = s.log ++ l ∧ replay q (l.map entry) = some q' ∧ selects l = picks

section Telling
variable {s t u : Kernel} {q q₁ q₂ picks picks' : List Tid} {p : Tid}

theorem Still.refl (s : Kernel) : Still s s := ⟨rfl,rfl⟩

theorem Still.trans (h : Still s t) (h' : Still t u) : Still s u :=
  ⟨h'.mem.trans h.mem,h'.log.trans h.log⟩

theorem setTask_still (s : Kernel) (p : Tid) (v : TaskStruct) : Still s (s.setTask p v) :=
  ⟨rfl,rfl⟩

theorem Still.tells (h : Still s t) (q : List Tid) : Tells s q [] t q :=
  ⟨by rw [h.mem]; exact id,[],by rw [h.log,List.append_nil],rfl,rfl⟩

theorem Tells.trans (h : Tells s q picks t q₁) (h' : Tells t q₁ picks' u q₂) :
    Tells s q (picks ++ picks') u q₂ := by
  obtain ⟨l,hl,hq,rfl⟩ := h.log
  obtain ⟨l',hl',hq',rfl⟩ := h'.log
  refine ⟨fun hs => h'.ring (h.ring hs),l ++ l',by rw [hl',hl,List.append_assoc],?_,?_⟩
  · rw [List.map_append]
    exact replay_trans hq hq'
  · simp [selects]

theorem Tells.still (h : Tells s q picks t q₁) (h' : Still t u) : Tells s q picks u q₁ := by
  simpa using h.trans (h'.tells q₁)

theorem Tells.after (h : Still s t) (h' : Tells t q picks u q₁) : Tells s q picks u q₁ :=
  (h.tells q).trans h'

theorem enqueueTaskLottery_tells (e : Env) (hp : p ∉ q) :
    Yields (enqueueTaskLottery e p s) (fun t => Tells s q [] t (q ++ [p])) := by
  intro t ht
  refine ⟨fun hs => ?_,?_⟩
  · obtain ⟨m,hm,hring⟩ := hs.add_tail (show Node.task p ∉ .ltrQueue :: q.map Node.task by simpa using hp)
    simp only [enqueueTaskLottery,hm] at ht
    cases ht
    simpa [Kernel.setLtr,logEvent] using hring
  · unfold enqueueTaskLottery at ht
    split at ht
    · cases ht
    · cases ht
      exact ⟨[⟨p,e.ktimeNs s.log.length,.e⟩],rfl,by simp [entry,replay,play_enter hp],rfl⟩

theorem dequeueTaskLottery_tells (e : Env) (hp : p ∈ q) :
    Yields (dequeueTaskLottery e p s) (fun t => Tells s q [] t (q.erase p)) := by
  intro t ht
  have hinj : Function.Injective Node.task := fun _ _ h => Node.task.inj h
  refine ⟨fun hs => ?_,?_⟩
  · obtain ⟨m,hm,hring,-⟩ := hs.del (List.mem_map_of_mem hp)
    simp only [dequeueTaskLottery,hm] at ht
    cases ht
    rw [List.map_erase hinj]
    exact hring
  · unfold dequeueTaskLottery at ht
    split at ht
    · cases ht
    · cases ht
      exact ⟨[⟨p,e.ktimeNs s.log.length,.d⟩],rfl,by simp [entry,replay,play_leave hp],rfl⟩

theorem logSelect_tells (e : Env) (hp : p ∈ q) : Tells s q [p] (logEvent e p .s s) q :=
  ⟨id,[⟨p,e.ktimeNs s.log.length,.s⟩],rfl,by simp [entry,replay,play_serve hp],rfl⟩

end Telling

section Hooks
variable {b : Build} {e : Env} {s t : Kernel} {p : Tid} {c : SchedClass} {h : Hook}

theorem updateRqClock_still (e : Env) (s : Kernel) : Still s (updateRqClock e s) := by
  unfold updateRqClock
  split
  · exact .refl s
  split
  · exact .refl s
  · exact ⟨rfl,rfl⟩

theorem clock_still (e : Env) (s : Kernel) (c : Prop) [Decidable c] :
    Still s (if c then updateRqClock e s else s) := by
  split
  · exact updateRqClock_still e s
  · exact .refl s

theorem reschedCurr_still (s : Kernel) : Still s (reschedCurr s) := by
  unfold reschedCurr
  split
  · exact .refl s
  · exact ⟨rfl,rfl⟩

theorem taskTickLottery_still (e : Env) (s : Kernel) : Still s (taskTickLottery e s) := by
  unfold taskTickLottery
  split
  · exact .refl s
  dsimp only
  split
  · exact reschedCurr_still s
  · exact .refl s

theorem upstreamEffect_still (e : Env) (c : SchedClass) (h : Hook) (s : Kernel) :
    Still s (upstreamEffect e c h s) := by
  have hcharge : Still s (if (s.task s.rq.curr).schedClass = c then s.chargeCurr (e.charge c h)
      else s) := by
    split
    · exact ⟨rfl,rfl⟩
    · exact .refl s
  unfold upstreamEffect
  dsimp only
  split
  · exact ⟨hcharge.mem,hcharge.log⟩
  · exact hcharge

/-- The other classes know nothing of the lottery queue. -/
theorem upstreamHook_still (e : Env) (c : SchedClass) (h : Hook) (p : Tid) (s : Kernel) :
    Still s (upstreamHook e c h p s) := by
  have heffect := upstreamEffect_still e c h s
  unfold upstreamHook
  dsimp only
  split
  · exact heffect
  · exact ⟨heffect.mem,heffect.log⟩
  · exact ⟨heffect.mem,heffect.log⟩
  · exact heffect

theorem callHook_still (b : Build) (e : Env) (p : Tid) (s : Kernel)
    (hq : c = .lottery → quietHook h = true) : Yields (callHook b e c h p s) (Still s) := by
  unfold callHook
  split
  · split
    · have hquiet := hq rfl
      cases h with
      | taskTick => exact .ok (taskTickLottery_still e s)
      | enqueueTask => cases hquiet
      | dequeueTask => cases hquiet
      | switchedFrom => cases hquiet
      | yieldTask => exact .ok (.refl s)
      | checkPreemptCurr => exact .ok (.refl s)
      | putPrevTask => exact .ok (.refl s)
      | setNextTask => exact .ok (.refl s)
      | switchedTo => exact .ok (.refl s)
      | prioChanged => exact .ok (.refl s)
      | _ => exact .error _ _
    · exact .ok (upstreamHook_still e _ h p s)
  · exact .error _ _

theorem callHookIfSet_still (b : Build) (e : Env) (p : Tid) (s : Kernel)
    (hq : c = .lottery → quietHook h = true) :
    Yields (callHookIfSet b e c h p s) (Still s) := by
  unfold callHookIfSet
  split
  · exact callHook_still b e p s hq
  · exact .ok (.refl s)

end Hooks

section Queueing
variable {b : Build} {e : Env} {s t u : Kernel} {r : Ready} {p : Tid} {q : List Tid}
  {c : SchedClass}

theorem enqueueHook_tells (b : Build) (e : Env) (s : Kernel) (hp : p ∉ q) :
    Yields (callHook b e c .enqueueTask p s) (fun t => ∃ q', Tells s q [] t q') := by
  by_cases hc : c = .lottery
  · subst hc
    exact (enqueueTaskLottery_tells e hp).mono fun _ ht => ⟨_,ht⟩
  · exact (callHook_still b e p s (absurd · hc)).mono fun _ ht => ⟨_,ht.tells q⟩

theorem dequeueHook_tells (b : Build) (e : Env) (s : Kernel) (hp : c = .lottery → p ∈ q)
    (hu : q.Nodup) (hq : c ≠ .lottery → p ∉ q) : Yields (callHook b e c .dequeueTask p s)
      (fun t => ∃ q', Tells s q [] t q' ∧ p ∉ q') := by
  by_cases hc : c = .lottery
  · subst hc
    exact (dequeueTaskLottery_tells e (hp rfl)).mono fun _ ht => ⟨_,ht,hu.not_mem_erase⟩
  · exact (callHook_still b e p s (absurd · hc)).mono fun _ ht => ⟨_,ht.tells q,hq hc⟩

theorem enqueueTask_tells (b : Build) (e : Env) (flags : UInt32) (s : Kernel) (hp : p ∉ q) :
    Yields (enqueueTask b e p flags s) (fun t => ∃ q', Tells s q [] t q') := by
  refine (enqueueHook_tells b e _ hp).mono fun t ht => ?_
  obtain ⟨q',ht⟩ := ht
  exact ⟨q',.after (clock_still e s _) ht⟩

/-- A queued task is in the lottery queue exactly if that is its class. -/
theorem Books.mem_lottery (h : Books b s r) (hp : p ∈ s.live) (hq : (s.task p).onRq = .queued) :
    p ∈ r .lottery ↔ (s.task p).schedClass = .lottery := by
  rw [h.ready]
  exact ⟨fun hm => hm.2.2,fun hc => ⟨hp,hq,hc⟩⟩

theorem Books.dequeueTask_tells (h : Books b s r) (hp : p ∈ s.live)
    (hq : (s.task p).onRq = .queued) (ht : Still s t)
    (hc : (t.task p).schedClass = (s.task p).schedClass) (e : Env) (flags : UInt32) :
    Yields (Model.dequeueTask b e p flags t) (fun u => ∃ q, Tells s (r .lottery) [] u q ∧ p ∉ q) := by
  have hmem := h.mem_lottery hp hq
  have hclock := ht.trans (clock_still e t (flags &&& dequeueNoclock = 0))
  have hclass := congrFun (clock_quiet e t (flags &&& dequeueNoclock = 0)).task p
  unfold dequeueTask
  dsimp only
  rw [hclass,hc]
  refine (dequeueHook_tells b e _ hmem.mpr (h.nodup _) (mt hmem.mp)).mono fun u hu => ?_
  obtain ⟨q,hu,hout⟩ := hu
  exact ⟨q,.after hclock hu,hout⟩

/-- Taken off, a task is not in the lottery queue, unless it was never queued. -/
theorem Books.takeOff_tells (h : Books b s r) (hp : p ∈ s.live) (e : Env) (running : Bool)
    (flags : UInt32) (ht : Still s t) (htask : t.task = s.task) :
    Yields (Model.takeOff b e p (s.taskOnRqQueued p) running flags t) (fun u =>
      ∃ q, Tells s (r .lottery) [] u q ∧ (s.taskOnRqQueued p = true → p ∉ q)) := by
  have hoff : Yields (applyIf (s.taskOnRqQueued p) (dequeueTask b e p flags) t) (fun u =>
      ∃ q, Tells s (r .lottery) [] u q ∧ (s.taskOnRqQueued p = true → p ∉ q)) := by
    refine .applyIf (fun hq => ?_) fun hq => ⟨_,ht.tells _,fun hq' => absurd hq' hq⟩
    refine (h.dequeueTask_tells hp ((queued_iff s p).mp hq) ht (by rw [htask]) e flags).mono ?_
    rintro u ⟨q,hu,hout⟩
    exact ⟨q,hu,fun _ => hout⟩
  refine hoff.bind fun u hspec => ?_
  obtain ⟨q,hu,hout⟩ := hspec
  refine .applyIf (fun _ => ?_) fun _ => ⟨q,hu,hout⟩
  exact (callHook_still b e p u fun _ => rfl).mono fun _ hv => ⟨q,hu.still hv,hout⟩

theorem putBack_tells (b : Build) (e : Env) (p : Tid) (queued running : Bool) (flags : UInt32)
    (s : Kernel) (hp : queued = true → p ∉ q) :
    Yields (putBack b e p queued running flags s) (fun t => ∃ q', Tells s q [] t q') := by
  have hon : Yields (applyIf queued (enqueueTask b e p flags) s)
      (fun t => ∃ q', Tells s q [] t q') :=
    .applyIf (fun hq => enqueueTask_tells b e flags s (hp hq)) fun _ => ⟨q,(Still.refl s).tells q⟩
  refine hon.bind fun t hspec => ?_
  obtain ⟨q',ht⟩ := hspec
  refine .applyIf (fun _ => ?_) fun _ => ⟨q',ht⟩
  exact (callHook_still b e p t fun _ => rfl).mono fun _ hu => ⟨q',ht.still hu⟩

/-- The class change hooks touch no queue unless a task leaves the lottery class. -/
theorem checkClassChanged_still (b : Build) (e : Env) (s : Kernel) (oldprio : Int)
    (hc : c = .lottery → (s.task p).schedClass = .lottery) :
    Yields (checkClassChanged b e p c oldprio s) (Still s) := by
  unfold checkClassChanged
  dsimp only
  split
  next hne =>
    have hfrom : c = .lottery → quietHook .switchedFrom = true := by
      rintro rfl
      exact absurd (hc rfl).symm hne
    refine (callHookIfSet_still b e p s hfrom).bind fun t ht => ?_
    exact (callHook_still b e p t fun _ => rfl).mono fun _ hu => ht.trans hu
  next =>
    split
    · exact callHook_still b e p s fun _ => rfl
    · exact .ok (.refl s)

end Queueing

section Wakeups
variable {b : Build} {e : Env} {s t : Kernel} {r : Ready} {p : Tid} {q : List Tid}

theorem activateTask_tells (b : Build) (e : Env) (flags : UInt32) (s : Kernel) (hp : p ∉ q) :
    Yields (activateTask b e p flags s) (fun t => ∃ q', Tells s q [] t q') := by
  refine (enqueueTask_tells b e _ s hp).bind fun t hspec => ?_
  obtain ⟨q',ht⟩ := hspec
  exact .ok ⟨q',ht.still (setTask_still t p _)⟩

theorem Books.deactivateTask_tells (h : Books b s r) (hp : p ∈ s.live)
    (hq : (s.task p).onRq = .queued) (e : Env) (flags : UInt32) :
    Yields (Model.deactivateTask b e p flags s) (fun t =>
      ∃ q, Tells s (r .lottery) [] t q) := by
  have hclass : ∀ onRq, ((s.setOnRq p onRq).task p).schedClass = (s.task p).schedClass := by
    intro onRq
    simp [Kernel.setOnRq,Kernel.setTask]
  refine (h.dequeueTask_tells hp hq (setTask_still s p _) (hclass _) e flags).mono ?_
  rintro t ⟨q,ht,-⟩
  exact ⟨q,ht⟩

theorem checkPreemptCurr_still (b : Build) (e : Env) (p : Tid) (s : Kernel) :
    Yields (checkPreemptCurr b e p s) (Still s) := by
  have hpreempt : Yields (preemptCurr b e p s) (Still s) := by
    unfold preemptCurr
    dsimp only
    split
    · exact callHook_still b e p s fun _ => rfl
    split
    · exact .ok (reschedCurr_still s)
    · exact .ok (.refl s)
  refine hpreempt.bind fun t ht => .ok ?_
  split
  · exact ⟨ht.mem,ht.log⟩
  · exact ht

theorem ttwuDoWakeup_still (b : Build) (e : Env) (p : Tid) (s : Kernel) :
    Yields (ttwuDoWakeup b e p s) (Still s) := by
  refine (checkPreemptCurr_still b e p s).bind fun t ht => ?_
  have hset := ht.trans (setTask_still t p { t.task p with state := taskRunning })
  refine .applyIf (fun _ => ?_) fun _ => hset
  exact (callHookIfSet_still b e p _ fun _ => rfl).mono fun _ hu => hset.trans hu

theorem selectTaskRq_still (b : Build) (e : Env) (p : Tid) (s : Kernel) :
    Yields (selectTaskRq b e p s) (Still s) := by
  unfold selectTaskRq
  split
  · exact callHook_still b e p s fun _ => rfl
  · exact .ok (.refl s)

theorem ttwuQueue_tells (b : Build) (e : Env) (s : Kernel) (hp : p ∉ q) :
    Yields (ttwuQueue b e p s) (fun t => ∃ q', Tells s q [] t q') := by
  refine (activateTask_tells b e _ _ hp).bind fun t hspec => ?_
  obtain ⟨q',ht⟩ := hspec
  refine (ttwuDoWakeup_still b e p t).mono fun _ hu => ⟨q',?_⟩
  exact .after (updateRqClock_still e s) (ht.still hu)

theorem tryToWakeUp_tells (e : Env) (mask : Nat) (h : Books b s r) :
    Yields (tryToWakeUp b e p mask s) (fun a => ∃ q, Tells s (r .lottery) [] a.2 q) := by
  unfold tryToWakeUp
  split
  · exact .ok ⟨_,(Still.refl s).tells _⟩
  split
  · exact .ok ⟨_,(setTask_still s p _).tells _⟩
  split
  · refine (ttwuDoWakeup_still b e p _).bind fun t ht => ?_
    exact .ok ⟨_,((updateRqClock_still e s).trans ht).tells _⟩
  next hq =>
    have hout := h.not_mem (mt (queued_iff s p).mpr hq) .lottery
    have hselect : Yields (applyIf b.smp
        (fun s => selectTaskRq b e p (s.setState p taskWaking)) s) (Still s) :=
      .applyIf (fun _ => (selectTaskRq_still b e p _).mono fun _ ht =>
        (setTask_still s p _).trans ht) fun _ => .refl s
    refine hselect.bind fun t ht => ?_
    refine (ttwuQueue_tells b e t hout).bind fun u hspec => ?_
    obtain ⟨q,hu⟩ := hspec
    exact .ok ⟨q,.after ht hu⟩

theorem wakeUpNewTask_tells (e : Env) (h : Books b s r) (hp : p ∈ s.live)
    (hs : (s.task p).state = taskNew) :
    Yields (wakeUpNewTask b e p s) (fun t => ∃ q, Tells s (r .lottery) [] t q) := by
  have hfresh := (h.tasks p hp).fresh hs
  have hout := h.not_mem (by rw [hfresh]; simp) .lottery
  have hset := setTask_still s p { s.task p with state := taskRunning }
  have hselect : Yields (applyIf b.smp (selectTaskRq b e p) (s.setState p taskRunning))
      (Still s) :=
    .applyIf (fun _ => (selectTaskRq_still b e p _).mono fun _ ht => hset.trans ht)
      fun _ => hset
  refine hselect.bind fun t ht => ?_
  have hclock := ht.trans (updateRqClock_still e t)
  refine (activateTask_tells b e _ _ hout).bind fun u hspec => ?_
  obtain ⟨q,hu⟩ := hspec
  refine (checkPreemptCurr_still b e p u).bind fun v hv => ?_
  have hchecked := (Tells.after hclock hu).still hv
  refine .applyIf (fun _ => ?_) fun _ => ⟨q,hchecked⟩
  exact (callHookIfSet_still b e p v fun _ => rfl).mono fun _ hw => ⟨q,hchecked.still hw⟩

end Wakeups

section Changes
variable {b : Build} {e : Env} {s t u : Kernel} {r : Ready} {p : Tid} {q q₁ : List Tid}
  {c : SchedClass}

/-- A change of a task's data between the two halves is not in the log. -/
theorem putBack_after (b : Build) (e : Env) (p : Tid) (queued running : Bool) (flags : UInt32)
    (ht : Tells s q [] t q₁) (hu : Still t u) (hp : queued = true → p ∉ q₁) :
    Yields (putBack b e p queued running flags u) (fun v => ∃ q', Tells s q [] v q') := by
  refine (putBack_tells b e p queued running flags u hp).mono fun v hspec => ?_
  obtain ⟨q',hv⟩ := hspec
  refine ⟨q',?_⟩
  exact (ht.still hu).trans hv

theorem setUserNice_tells (e : Env) (nice : Int) (h : Books b s r) (hp : p ∈ s.live) :
    Yields (setUserNice b e p nice s) (fun t => ∃ q, Tells s (r .lottery) [] t q) := by
  have hclock := updateRqClock_still e s
  have htask := (updateRqClock_quiet e s).task
  unfold setUserNice
  split
  · exact .ok ⟨_,(Still.refl s).tells _⟩
  dsimp only
  split
  · exact .ok ⟨_,(hclock.trans (setTask_still _ p _)).tells _⟩
  · have hqueued : (updateRqClock e s).taskOnRqQueued p = s.taskOnRqQueued p := by
      simp [Kernel.taskOnRqQueued,htask]
    rw [hqueued]
    refine (h.takeOff_tells hp e _ _ hclock htask).bind fun t hspec => ?_
    obtain ⟨q,ht,hout⟩ := hspec
    refine (putBack_after b e p _ _ _ ht (setTask_still t p _) hout).bind fun u hspec => ?_
    obtain ⟨q',hu⟩ := hspec
    exact (callHook_still b e p u fun _ => rfl).mono fun _ hv => ⟨q',hu.still hv⟩

theorem setCpusAllowed_tells (e : Env) (h : Books b s r) (hp : p ∈ s.live) :
    Yields (setCpusAllowed b e p s) (fun t => ∃ q, Tells s (r .lottery) [] t q) := by
  refine (h.takeOff_tells hp e _ _ (.refl s) rfl).bind fun t hspec => ?_
  obtain ⟨q,ht,hout⟩ := hspec
  refine (callHook_still b e p t fun _ => rfl).bind fun u hu => ?_
  exact putBack_after b e p _ _ _ ht hu hout

theorem schedMoveTask_tells (e : Env) (h : Books b s r) (hp : p ∈ s.live) :
    Yields (schedMoveTask b e p s) (fun t => ∃ q, Tells s (r .lottery) [] t q) := by
  have hclock := updateRqClock_still e s
  have htask := (updateRqClock_quiet e s).task
  have hqueued : (updateRqClock e s).taskOnRqQueued p = s.taskOnRqQueued p := by
    simp [Kernel.taskOnRqQueued,htask]
  unfold schedMoveTask
  dsimp only
  rw [hqueued]
  refine (h.takeOff_tells hp e _ _ hclock htask).bind fun t hspec => ?_
  obtain ⟨q,ht,hout⟩ := hspec
  refine (callHookIfSet_still b e p t fun _ => rfl).bind fun u hu => ?_
  refine (putBack_after b e p _ _ _ ht hu hout).bind fun v hspec => ?_
  obtain ⟨q',hv⟩ := hspec
  refine .ok ⟨q',?_⟩
  split
  · exact hv.still (reschedCurr_still v)
  · exact hv

/-- The closing half of a change of class that leaves no lottery task behind. -/
theorem reclass_tells (b : Build) (e : Env) (queued running : Bool) (flags : UInt32)
    (oldprio : Int) (v : TaskStruct) (ht : Tells s q [] t q₁) (hp : queued = true → p ∉ q₁)
    (hkeep : c = .lottery → v.schedClass = .lottery) :
    Yields (putBack b e p queued running flags (t.setTask p v) >>=
      checkClassChanged b e p c oldprio) (fun u => ∃ q', Tells s q [] u q') := by
  have hback : Yields (putBack b e p queued running flags (t.setTask p v)) (fun u =>
      (∃ q', Tells s q [] u q') ∧ (u.task p).schedClass = v.schedClass) := by
    intro u hu
    refine ⟨putBack_after b e p queued running flags ht (setTask_still t p v) hp u hu,?_⟩
    rw [(putBack_frame b e p queued running flags _ u hu).task]
    simp [Kernel.setTask]
  refine hback.bind fun u hspec => ?_
  obtain ⟨⟨q',hu⟩,hclass⟩ := hspec
  refine (checkClassChanged_still b e u oldprio ?_).mono fun _ hw => ⟨q',hu.still hw⟩
  rw [hclass]
  exact hkeep

theorem rtMutexSetprio_tells (e : Env) (piTask : Option Tid) (h : Inv b s r) (hp : p ∈ s.live) :
    Yields (rtMutexSetprio b e p piTask s) (fun t => ∃ q, Tells s (r .lottery) [] t q) := by
  unfold rtMutexSetprio
  dsimp only
  split
  · exact .ok ⟨_,(Still.refl s).tells _⟩
  have hok := h.tasks p hp
  have hq := updateRqClock_quiet e s
  obtain ⟨hi,hc⟩ := h.noted (v := { s.task p with piTopTask := piTask }) hp hq
    ⟨hok.lottery,hok.working,hok.settled,hok.fresh,hok.deadline⟩ rfl rfl rfl
  have hstill := (updateRqClock_still e s).trans
    (setTask_still _ p { s.task p with piTopTask := piTask })
  rw [hq.task]
  generalize (updateRqClock e s).setTask p _ = t at *
  split
  · exact .ok ⟨_,hstill.tells _⟩
  split
  · exact .ok ⟨_,hstill.tells _⟩
  have hpt : p ∈ t.live := hc.live ▸ hp
  refine Yields.bind (Q := fun u => Frame t u ∧ ∃ q, Tells t (r .lottery) [] u q ∧
    (t.taskOnRqQueued p = true → p ∉ q)) ?_ fun u hspec => ?_
  · intro u hu
    exact ⟨takeOff_frame b e p _ _ _ t u hu,hi.takeOff_tells hpt e _ _ (.refl t) rfl u hu⟩
  obtain ⟨hf,q,hu,hout⟩ := hspec
  refine Yields.bind (Q := fun _ => True) (fun _ _ => trivial) fun piSe _ => ?_
  refine reclass_tells b e _ _ _ _ _ (Tells.after hstill hu) hout ?_
  rw [hf.task]
  intro hl
  refine (setschedulerPrio_lottery _ _).mp ?_
  exact (hi.tasks p hpt).lottery.mpr hl

theorem commitRequest_tells (e : Env) (attr : SchedAttr) (pi : Bool) (h : Inv b s r)
    (hp : p ∈ s.live) (hother : (s.task p).policy ≠ schedLottery) :
    Yields (commitRequest b e p attr pi s) (fun t => ∃ q, Tells s (r .lottery) [] t q) := by
  have hok := h.tasks p hp
  let v := { s.task p with schedResetOnFork := requestedReset (s.task p) attr }
  obtain ⟨hi,hset⟩ := h.noted (v := v) hp (.refl s)
    ⟨hok.lottery,hok.working,hok.settled,hok.fresh,hok.deadline⟩ rfl rfl rfl
  have hclass : ((s.setTask p v).task p).schedClass ≠ .lottery := by
    rw [hset.task_self]
    exact fun hc => hother (hok.lottery.mpr hc)
  unfold commitRequest
  dsimp only
  refine Yields.bind (Q := fun u => Frame (s.setTask p v) u ∧
    ∃ q, Tells (s.setTask p v) (r .lottery) [] u q ∧
      ((s.setTask p v).taskOnRqQueued p = true → p ∉ q)) ?_ fun u hspec => ?_
  · intro u hu
    exact ⟨takeOff_frame b e p _ _ _ _ u hu,hi.takeOff_tells hp e _ _ (.refl _) rfl u hu⟩
  obtain ⟨hf,q,hu,hout⟩ := hspec
  refine reclass_tells b e _ _ _ _ _ (Tells.after (setTask_still s p v) hu) hout ?_
  rw [hf.task]
  exact fun hl => absurd hl hclass

theorem schedSetscheduler_tells (e : Env) (caller : Caller) (attr : SchedAttr) (user pi : Bool)
    (h : Inv b s r) (hp : p ∈ s.live) : Yields (schedSetscheduler b e caller p attr user pi s)
      (fun a => ∃ q, Tells s (r .lottery) [] a.2 q) := by
  unfold schedSetscheduler
  split
  · exact .error _ _
  split
  · exact .ok ⟨_,(Still.refl s).tells _⟩
  next hpass =>
    have hpass : admission e caller (s.task p) attr user = 0 := by simpa using hpass
    have hpol := admission_lottery hpass
    have hq := updateRqClock_quiet e s
    have hstill := updateRqClock_still e s
    dsimp only
    rw [hq.task]
    split
    · exact .ok ⟨_,hstill.tells _⟩
    split
    · exact .ok ⟨_,(hstill.trans (setTask_still _ p _)).tells _⟩
    next hdiff =>
      have hother : (s.task p).policy ≠ schedLottery := by
        intro hlot
        refine hdiff ⟨hpol.trans hlot.symm,?_⟩
        simpa using changes_lottery hpol (admission_no_clamp hpass)
      split
      · exact .ok ⟨_,hstill.tells _⟩
      split
      · exact .ok ⟨_,hstill.tells _⟩
      have hother' : ((updateRqClock e s).task p).policy ≠ schedLottery := by
        rw [hq.task]
        exact hother
      refine (commitRequest_tells e attr pi (h.quiet hq) (hq.live ▸ hp) hother').bind ?_
      rintro t ⟨q,ht⟩
      exact .ok ⟨q,.after hstill ht⟩

end Changes

section Copies
variable {b : Build} {s t : Kernel} {p : Tid} {q : List Tid}

/-- The links of a task that is queued nowhere are nobody's. -/
theorem attach_tells (child : TaskStruct) (hp : p ∉ q) :
    Tells s q [] (attach p child s) q :=
  ⟨fun hs => hs.update (by simpa using hp) _,[],by simp [attach],rfl,rfl⟩

theorem copyProcess_tells (b : Build) (e : Env) (args : KernelCloneArgs) (ce : CopyEnv)
    (s : Kernel) (hp : ce.pid ∉ q) :
    Yields (copyProcess b e args ce s) (fun a => Tells s q [] a.2 q) := by
  have hexit : ∀ retval, Yields (.ok (.error retval,s) : Except Fault (Except Int Tid × Kernel))
      (fun a => Tells s q [] a.2 q) := fun _ => .ok ((Still.refl s).tells q)
  unfold copyProcess
  dsimp only
  refine .ite (fun _ => hexit _) fun _ => ?_
  refine .ite (fun _ => hexit _) fun _ => ?_
  refine .ite (fun _ => hexit _) fun _ => ?_
  refine .ite (fun _ => hexit _) fun _ => ?_
  refine .ite (fun _ => hexit _) fun _ => ?_
  refine .ite (fun _ => hexit _) fun _ => ?_
  refine .ite (fun _ => hexit _) fun _ => ?_
  cases firstFailure ce copySteps with
  | some retval => exact hexit retval
  | none =>
    refine .ite (fun _ => hexit _) fun _ => ?_
    refine .ite (fun _ => hexit _) fun _ => ?_
    refine .ite (fun _ => hexit _) fun _ => ?_
    refine .ite (fun _ => hexit _) fun _ => ?_
    refine (callHookIfSet_still b e ce.pid s fun _ => rfl).bind fun t ht => ?_
    refine .ite (fun _ => .ok (ht.tells q)) fun _ => ?_
    refine .ite (fun _ => .ok (ht.tells q)) fun _ => ?_
    exact .ok (.after ht (attach_tells _ hp))

theorem kernelCloneCopy_tells (b : Build) (e : Env) (args : KernelCloneArgs) (ce : CopyEnv)
    (s : Kernel) (hp : ce.pid ∉ q) :
    Yields (kernelCloneCopy b e args ce s) (fun a => Tells s q [] a.2 q) := by
  unfold kernelCloneCopy
  refine .ite (fun _ => .ok ((Still.refl s).tells q)) fun _ => ?_
  refine (copyProcess_tells b e args ce s hp).bind fun a ha => ?_
  obtain ⟨o,t⟩ := a
  cases o with
  | error _ => exact .error _ _
  | ok p => exact .ok (ha.still (setTask_still t p _))

end Copies

section Picks
variable {b : Build} {e : Env} {s t : Kernel} {r r' : Ready} {p prev : Tid}
  {q picks : List Tid}

/-- What picking `p` adds to the selects of the log. -/
def lotteryPick (s : Kernel) (p : Tid) : List Tid :=
  if (s.task p).schedClass = .lottery then [p] else []

/-- The links leave no doubt about the queue that the log tells of. -/
theorem Tells.queue (h : Tells s (r .lottery) picks t q) (hs : Represents s r)
    (ht : Represents t r') : q = r' .lottery := by
  have hinj : Function.Injective Node.task := fun _ _ h => Node.task.inj h
  exact List.map_injective_iff.mpr hinj ((h.ring hs.ring).unique ht.ring)

theorem Books.lotteryPick_mem (h : Books b s r) (hp : p ∈ r .lottery) :
    lotteryPick s p = [p] := if_pos ((h.ready _ p).mp hp).2.2

/-- A task that another class found is not a lottery task. -/
theorem Books.lotteryPick_other (h : Books b s r) (hp : FoundIn s r c p) (hc : c ≠ .lottery) :
    lotteryPick s p = [] := by
  refine if_neg fun hl => ?_
  unfold FoundIn at hp
  split at hp
  · rw [hp,h.idleTask.idle] at hl
    cases hl
  · exact hc (((h.ready c p).mp hp).2.2.symm.trans hl)

theorem pickNextTaskLottery_tells (e : Env) (h : Books b s r) :
    Yields (pickNextTaskLottery e s) (fun a => match a.1 with
      | some p => Tells s (r .lottery) [p] a.2 (r .lottery)
      | none => Still s a.2) := by
  intro a ha
  have hspec := ((pickNextTaskLottery_spec e h).of_ok ha).2
  unfold pickNextTaskLottery at ha
  dsimp only at ha
  split at ha
  · cases ha
    exact .refl s
  split at ha
  · cases ha
    exact .refl s
  split at ha
  · cases ha
  split at ha
  · cases ha
    exact .refl s
  · cases ha
    exact logSelect_tells e hspec.1

theorem callPickNextTask_tells (e : Env) (c : SchedClass) (h : Books b s r) :
    Yields (callPickNextTask b e c s) (fun a => match a.1 with
      | some p => Tells s (r .lottery) (lotteryPick s p) a.2 (r .lottery)
      | none => Still s a.2) := by
  intro a ha
  have hspec := ((callPickNextTask_spec e c h).of_ok ha).2
  by_cases hc : c = .lottery
  · subst hc
    have htells := pickNextTaskLottery_tells e h a ha
    obtain ⟨o,t⟩ := a
    cases o with
    | none => exact htells
    | some p =>
      dsimp only
      rw [h.lotteryPick_mem hspec]
      exact htells
  · have hstill : Still s a.2 := by
      unfold callPickNextTask at ha
      split at ha
      · split at ha
        · contradiction
        · cases ha
          exact upstreamEffect_still e _ _ s
        · cases ha
          exact upstreamEffect_still e _ _ s
      · cases ha
    obtain ⟨o,t⟩ := a
    cases o with
    | none => exact hstill
    | some p =>
      dsimp only
      rw [h.lotteryPick_other hspec hc]
      exact hstill.tells _

theorem pickWalk_tells (e : Env) (cs : List SchedClass) (h : Books b s r) :
    Yields (pickWalk b e cs s) (fun a =>
      Tells s (r .lottery) (lotteryPick s a.1) a.2 (r .lottery)) := by
  induction cs generalizing s with
  | nil => exact .error _ _
  | cons c cs ih =>
    refine Yields.bind (Q := fun a => Quiet s a.2 ∧ match a.1 with
      | some p => Tells s (r .lottery) (lotteryPick s p) a.2 (r .lottery)
      | none => Still s a.2) ?_ fun a hspec => ?_
    · intro a ha
      exact ⟨((callPickNextTask_spec e c h).of_ok ha).1,callPickNextTask_tells e c h a ha⟩
    obtain ⟨hq,ha⟩ := hspec
    obtain ⟨o,t⟩ := a
    cases o with
    | some p => exact .ok ha
    | none =>
      have htask : t.task = s.task := hq.task
      refine (ih (h.quiet hq)).mono fun a htells => .after ha ?_
      simpa [lotteryPick,htask] using htells

theorem balancePass_still (b : Build) (e : Env) (prev : Tid) (cs : List SchedClass)
    (s : Kernel) : Yields (balancePass b e prev cs s) (Still s) := by
  induction cs generalizing s with
  | nil => exact .ok (.refl s)
  | cons c cs ih =>
    refine (callHook_still b e prev s fun _ => rfl).bind fun t ht => ?_
    split
    · exact .ok ht
    · exact (ih t).mono fun _ hu => ht.trans hu

theorem putPrevTaskBalance_still (b : Build) (e : Env) (prev : Tid) (s : Kernel) :
    Yields (putPrevTaskBalance b e prev s) (Still s) := by
  have hbalance : Yields (applyIf b.smp
      (balancePass b e prev (forClassRange (s.task prev).schedClass .idle)) s) (Still s) :=
    .applyIf (fun _ => balancePass_still b e prev _ s) fun _ => .refl s
  refine hbalance.bind fun t ht => ?_
  exact (callHook_still b e prev t fun _ => rfl).mono fun _ hu => ht.trans hu

/-- A pick is in the log exactly if it is of a lottery task, on both paths. -/
theorem pickNextTask_tells (e : Env) (h : Books b s r)
    (hn : ¬(b.smp = true ∧ (s.task prev).schedClass = .lottery)) :
    Yields (pickNextTask b e prev s) (fun a =>
      Tells s (r .lottery) (lotteryPick s a.1) a.2 (r .lottery)) := by
  intro a ha
  by_cases hf : fastPath s prev = true
  · have hfound := ((pickNextTask_fast e h hf).of_ok ha).2
    have hother : (if r .fair = [] then SchedClass.idle else .fair) ≠ .lottery := by
      split <;> simp
    rw [h.lotteryPick_other hfound hother]
    have hfair := upstreamEffect_still e .fair .pickNextTask s
    unfold pickNextTask pickNextTaskFair at ha
    rw [if_pos hf] at ha
    cases hpick : e.pick .fair (s.rq.queue .fair) with
    | some p =>
      simp only [hpick] at ha
      cases ha
      exact hfair.tells _
    | none =>
      simp only [hpick] at ha
      obtain ⟨t,ht,hret⟩ := bind_eq_ok.mp ha
      cases hret
      have hput := callHook_still b e prev _ (fun _ => rfl) t ht
      exact ((hfair.trans hput).trans (upstreamEffect_still e _ _ t)).tells _
  · unfold pickNextTask at ha
    rw [if_neg hf] at ha
    obtain ⟨t,ht,hwalk⟩ := bind_eq_ok.mp ha
    have hq := (putPrevTaskBalance_quiet e s hn).of_ok ht
    have htells := pickWalk_tells e _ (h.quiet hq) a hwalk
    refine .after (putPrevTaskBalance_still b e prev s t ht) ?_
    simpa [lotteryPick,hq.task] using htells

end Picks

section Steps
variable {b : Build} {e : Env} {s t : Kernel} {r : Ready} {p : Tid} {op : Op} {preempt : Bool}

theorem beforePick_tells (e : Env) (h : Inv b s r) :
    Yields (beforePick b e preempt s) (fun t => ∃ q, Tells s (r .lottery) [] t q) := by
  have hq := (shiftFlags_quiet s).trans (updateRqClock_quiet e _)
  have hstill : Still s (updateRqClock e { s with
      rq := { s.rq with clockUpdateFlags := s.rq.clockUpdateFlags <<< 1 } }) :=
    ⟨(updateRqClock_still e _).mem,(updateRqClock_still e _).log⟩
  unfold beforePick
  dsimp only
  generalize updateRqClock e _ = t at hq hstill
  have hi := h.quiet hq
  unfold blockPrev
  dsimp only
  split
  next hc =>
    simp only [Bool.and_eq_true,decide_eq_true_eq] at hc
    have hp : t.rq.curr ∈ t.live := by
      refine hi.curr.resolve_left fun hidle => hc.2 ?_
      rw [hidle,hi.idleTask.state]
      rfl
    split
    · exact .ok ⟨_,(hstill.trans (setTask_still t _ _)).tells _⟩
    · refine (hi.toBooks.deactivateTask_tells hp hi.currQueued e _).mono fun u hspec => ?_
      obtain ⟨q,hu⟩ := hspec
      exact ⟨q,.after hstill hu⟩
  next => exact .ok ⟨_,hstill.tells _⟩

theorem schedule_tells (e : Env) (h : Inv b s r) (hn : ¬switchMisses b e s) :
    Yields (schedule b e preempt s) (fun t =>
      ∃ q, Tells s (r .lottery) (lotteryPick t t.rq.curr) t q) := by
  refine Yields.bind (Q := fun t => (∃ r', AtPick b s r' t) ∧
    ∃ q, Tells s (r .lottery) [] t q) ?_ fun t hspec => ?_
  · exact fun t ht => ⟨(beforePick_spec e h).of_ok ht,beforePick_tells e h t ht⟩
  obtain ⟨⟨r',hat⟩,q,ht⟩ := hspec
  obtain rfl := ht.queue h.rep hat.books.rep
  have hprev : ¬(b.smp = true ∧ (t.task s.rq.curr).schedClass = .lottery) := by
    rw [hat.same]
    exact fun hl => hn (.inl hl)
  rw [pickNextTaskCore_alone fun hs => hn (.inr hs)]
  refine Yields.bind (Q := fun a => Quiet t a.2 ∧
    Tells t (r' .lottery) (lotteryPick t a.1) a.2 (r' .lottery)) ?_ fun a hspec => ?_
  · intro a ha
    exact ⟨((pickNextTask_found e hat.books hprev).of_ok ha).1,
      pickNextTask_tells e hat.books hprev a ha⟩
  obtain ⟨hq,ha⟩ := hspec
  obtain ⟨next,u⟩ := a
  have htask : u.task = t.task := hq.task
  have hpick : lotteryPick (switchTo next u) (switchTo next u).rq.curr = lotteryPick t next := by
    simp [lotteryPick,switchTo,htask]
  refine .ok ⟨r' .lottery,?_⟩
  rw [hpick]
  exact (ht.trans ha).still ⟨rfl,rfl⟩

theorem doSchedYield_tells (e : Env) (h : Inv b s r) (hi : s.rq.curr ≠ s.rq.idle)
    (hn : ¬switchMisses b e s) :
    Yields (doSchedYield b e s) (fun t =>
      ∃ q, Tells s (r .lottery) (lotteryPick t t.rq.curr) t q) := by
  refine Yields.bind (Q := fun t => Quiet s t ∧ Still s t) ?_ fun t hspec => ?_
  · intro t ht
    exact ⟨(yieldHook_quiet b e h hi).of_ok ht,callHook_still b e _ s (fun _ => rfl) t ht⟩
  obtain ⟨hq,ht⟩ := hspec
  have hsched : Yields (schedule b e false t) (fun u =>
      ∃ q, Tells t (r .lottery) (lotteryPick u u.rq.curr) u q) :=
    schedule_tells e (h.quiet hq) fun hm => hn ((switchMisses_quiet hq).mp hm)
  refine hsched.mono fun u hspec => ?_
  obtain ⟨q,hu⟩ := hspec
  exact ⟨q,.after ht hu⟩

/-- The lottery task that an operation puts on the CPU, if it is one that picks. -/
def switched (op : Op) (t : Kernel) : List Tid :=
  match op with
  | .schedule _ | .schedYield => lotteryPick t t.rq.curr
  | _ => []

theorem fresh_not_queued (h : Books b s r) (hf : freshPid b p s) : p ∉ r .lottery :=
  fun hm => hf.1 ((h.ready _ p).mp hm).1

theorem tells_snd {m : Except Fault (α × Kernel)}
    (h : Yields m (fun a => ∃ q', Tells s q picks a.2 q')) :
    Yields (m >>= fun a => .ok a.2) (fun t => ∃ q', Tells s q picks t q') :=
  h.bind fun _ ha => .ok ha

/-- Whatever an operation does to the lottery queue is in the log, and a select is in
the log exactly if the operation switched to that task. -/
theorem exec_tells (e : Env) (h : Inv b s r) (he : enabled b s op)
    (hn : ¬hitsNullHook b e s op) :
    Yields (exec b e op s) (fun t => ∃ q, Tells s (r .lottery) (switched op t) t q) := by
  have hbooks := h.toBooks
  cases op with
  | setCurrentState state => exact .ok ⟨_,(setTask_still s _ _).tells _⟩
  | schedule preempt => exact schedule_tells e h hn
  | tryToWakeUp p state => exact tells_snd (tryToWakeUp_tells e state hbooks)
  | kernelClone args ce =>
    refine tells_snd ((kernelCloneCopy_tells b e args ce s ?_).mono fun _ ha => ⟨_,ha⟩)
    exact fresh_not_queued hbooks he
  | createIoThread ce =>
    refine tells_snd ((copyProcess_tells b e _ ce s ?_).mono fun _ ha => ⟨_,ha⟩)
    exact fresh_not_queued hbooks he.2
  | wakeUpNewTask p => exact wakeUpNewTask_tells e hbooks he.1 he.2
  | setUserNice p nice => exact setUserNice_tells e nice hbooks he
  | rtMutexSetprio p piTask => exact rtMutexSetprio_tells e piTask h he
  | schedMoveTask p => exact schedMoveTask_tells e hbooks he
  | schedSetscheduler caller p attr user pi =>
    exact tells_snd (schedSetscheduler_tells e caller attr user pi h he.1)
  | schedulerTick =>
    refine (callHook_still b e _ _ fun _ => rfl).mono fun t ht => ⟨r .lottery,?_⟩
    exact ((updateRqClock_still e s).trans ht).tells _
  | schedYield => exact doSchedYield_tells e h he hn
  | taskSchedRuntime p =>
    have hquery : Yields (applyIf (s.taskCurrent p && s.taskOnRqQueued p) (fun s =>
        callHook b e (s.task p).schedClass .updateCurr p (updateRqClock e s)) s) (Still s) :=
      .applyIf (fun _ => (callHook_still b e p _ fun _ => rfl).mono fun _ ht =>
        (updateRqClock_still e s).trans ht) fun _ => .refl s
    exact tells_snd (hquery.bind fun t ht => .ok ⟨_,ht.tells _⟩)
  | schedExec =>
    exact (callHook_still b e _ s fun _ => rfl).mono fun _ ht => ⟨_,ht.tells _⟩
  | setCpusAllowed p => exact setCpusAllowed_tells e hbooks he.2
  | releaseTask p => exact .ok ⟨_,(Still.mk rfl rfl : Still s (releaseTask p s)).tells _⟩
  | otherTask p t => exact .ok ⟨_,(setTask_still s p t).tells _⟩

/-- One operation of a run, as its books and its log tell of it. -/
theorem Inv.told (h : Inv b s r) (he : enabled b s op) (hrun : exec b e op s = .ok t) :
    ∃ r', Inv b t r' ∧ Tells s (r .lottery) (switched op t) t (r' .lottery) := by
  obtain ⟨⟨r',hr'⟩,-⟩ := h.step ⟨e,op,he,hrun⟩
  by_cases hn : hitsNullHook b e s op
  · obtain ⟨hook,herr⟩ := exec_missing e h he hn
    rw [herr] at hrun
    cases hrun
  obtain ⟨q,hq⟩ := exec_tells e h he hn t hrun
  obtain rfl := hq.queue h.rep hr'.rep
  exact ⟨r',hr',hq⟩

end Steps

end LotteryScheduler.Proofs
