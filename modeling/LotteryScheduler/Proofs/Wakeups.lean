import LotteryScheduler.Proofs.Changes

namespace LotteryScheduler.Proofs
open Lib Model

section Wakeups
variable {b : Build} {s t : Kernel} {r : Ready} {p : Tid}

theorem checkPreemptCurr_quiet (b : Build) (e : Env) (p : Tid) (s : Kernel) :
    Returns (checkPreemptCurr b e p s) (Quiet s) := by
  have hpreempt : Returns (preemptCurr b e p s) (Quiet s) := by
    unfold preemptCurr
    dsimp only
    split
    · exact callHook_quiet e s (provides_of b rfl (fun _ => rfl) (by simp)) rfl
    split
    · exact .ok (reschedCurr_quiet s)
    · exact .ok (.refl s)
  refine hpreempt.bind fun t ht => .ok (ht.trans ?_)
  split
  · exact rqClockSkipUpdate_quiet t
  · exact .refl t

/-- The lottery class has no function to select a CPU with. -/
def selectsCpu (e : Env) (p : Tid) : Prop :=
  e.nrCpusAllowed p > 1 ∧ e.migrationDisabled p = false

instance (e : Env) (p : Tid) : Decidable (selectsCpu e p) := inferInstanceAs (Decidable (_ ∧ _))

theorem selectTaskRq_quiet (b : Build) (e : Env) (s : Kernel)
    (h : ¬(selectsCpu e p ∧ (s.task p).schedClass = .lottery)) :
    Returns (selectTaskRq b e p s) (Quiet s) := by
  unfold selectTaskRq
  split
  next hc =>
    have hsel : selectsCpu e p := by simpa [selectsCpu] using hc
    refine callHook_quiet e s (provides_of b rfl (fun hl => absurd ⟨hsel,hl⟩ h) (by simp)) rfl
  next => exact .ok (.refl s)

theorem selectTaskRq_missing (b : Build) (e : Env) (s : Kernel) (h : selectsCpu e p)
    (hc : (s.task p).schedClass = .lottery) :
    selectTaskRq b e p s = .error (.nullHook .lottery .selectTaskRq) := by
  obtain ⟨hn,hm⟩ := h
  rw [selectTaskRq,if_pos (by simp [hn,hm]),hc]
  exact callHook_missing e s rfl

/-- A task that is not queued is put on its class's queue. -/
theorem Inv.activateTask (h : Inv b s r) (hp : p ∈ s.live) (hq : (s.task p).onRq = .none)
    (hs : (s.task p).state ≠ taskNew) (e : Env) (flags : UInt32) :
    Returns (Model.activateTask b e p flags s) (fun t =>
      Inv b t (r.add p (s.task p).schedClass) ∧
        Changed s p { s.task p with onRq := .queued } t) := by
  have hok := h.tasks p hp
  have hnq : (s.task p).onRq ≠ .queued := by simp [hq]
  apply (enqueueTask_spec b e _ h.rep hok.working (h.not_mem hnq _)).bind
  intro t hspec
  obtain ⟨ht,hf⟩ := hspec
  apply Returns.ok
  have hc : Changed s p { s.task p with onRq := .queued } (t.setOnRq p .queued) := by
    have hset := Changed.setTask t p { t.task p with onRq := .queued }
    rw [hf.task] at hset
    exact .after hf (by rw [Kernel.setOnRq,hf.task]; exact hset)
  have hv : TaskOk { s.task p with onRq := .queued } :=
    ⟨hok.lottery,hok.working,by simp,fun hn => absurd hn hs,hok.deadline⟩
  have hrep := ht.setTask p { t.task p with onRq := .queued } (.inr rfl)
  refine ⟨⟨h.woken (v := { s.task p with onRq := .queued }) hc hrep hp hnq hv rfl,?_⟩,hc⟩
  rw [hc.curr,hc.task]
  rcases eq_or_ne s.rq.curr p with he | hne
  · simp [he]
  · simpa [hne] using h.currQueued

theorem ttwuDoWakeup_spec (e : Env) (h : Inv b s r) (hp : p ∈ s.live) :
    Returns (ttwuDoWakeup b e p s) (fun t => Inv b t r ∧
      Changed s p { s.task p with state := taskRunning } t) := by
  apply (checkPreemptCurr_quiet b e p s).bind
  intro t ht
  have hi := h.quiet ht
  replace hp := ht.live ▸ hp
  have hset : Inv b (t.setState p taskRunning) r :=
    hi.retask hp (hi.tasks p hp).running rfl rfl rfl
  have hc : Changed s p { s.task p with state := taskRunning } (t.setState p taskRunning) := by
    have hset := Changed.setTask t p { t.task p with state := taskRunning }
    rw [ht.task] at hset
    exact .after ht.toFrame (by rw [Kernel.setState,ht.task]; exact hset)
  refine .applyIf (fun _ => ?_) (fun _ => ⟨hset,hc⟩)
  exact (callHookIfSet_quiet b e _ rfl).mono fun u hu => ⟨hset.quiet hu,hc.frame hu.toFrame⟩

theorem taskNew_unmatched (hs : (s.task p).state = taskNew) (hm : mask &&& taskNew = 0) :
    ttwuStateMatch s p mask = false := by
  simp [ttwuStateMatch,hs,Nat.and_comm taskNew mask,hm]

/-- A wakeup in an SMP build asks the class of a sleeping task for a CPU. -/
def wakeSelects (b : Build) (e : Env) (s : Kernel) (p : Tid) (mask : Nat) : Prop :=
  b.smp = true ∧ selectsCpu e p ∧ (s.task p).schedClass = .lottery ∧
    ttwuStateMatch s p mask = true ∧ p ≠ s.rq.curr ∧ (s.task p).onRq = .none

theorem ttwuQueue_spec (e : Env) (h : Inv b s r) (hp : p ∈ s.live)
    (hq : (s.task p).onRq = .none) (hs : (s.task p).state ≠ taskNew) :
    Returns (ttwuQueue b e p s) (fun t => Inv b t (r.add p (s.task p).schedClass) ∧
      Changed s p { s.task p with onRq := .queued, state := taskRunning } t) := by
  have hclock := updateRqClock_quiet e s
  have hi := h.quiet hclock
  replace hp := hclock.live ▸ hp
  have hact := hi.activateTask hp (by rw [hclock.task]; exact hq) (by rw [hclock.task]; exact hs)
    e (enqueueWakeup ||| enqueueNoclock)
  rw [hclock.task] at hact
  apply hact.bind
  intro t hspec
  obtain ⟨ht,hc⟩ := hspec
  apply (ttwuDoWakeup_spec e ht (hc.live ▸ hp)).mono
  intro u hwoken
  obtain ⟨hu,hcu⟩ := hwoken
  rw [hc.task_self] at hcu
  exact ⟨hu,(hc.after hclock.toFrame).trans hcu fun hs _ => hs⟩

theorem tryToWakeUp_spec (e : Env) (mask : Nat) (h : Inv b s r) (hp : p ∈ s.live)
    (hm : mask &&& taskNew = 0) (hn : ¬wakeSelects b e s p mask) :
    Returns (tryToWakeUp b e p mask s) (fun a => Done b s a.2) := by
  have hok := h.tasks p hp
  unfold tryToWakeUp
  split
  · exact .ok (h.done_quiet (.refl s))
  next hmatch =>
    have hmatch : ttwuStateMatch s p mask = true := by simpa using hmatch
    have hs : (s.task p).state ≠ taskNew := by
      intro hnew
      rw [taskNew_unmatched hnew hm] at hmatch
      cases hmatch
    split
    next =>
      have hset := Changed.setTask s p { s.task p with state := taskRunning }
      exact .ok ⟨⟨r,h.retask hp hok.running rfl rfl rfl⟩,hset.evolves rfl⟩
    next hcurr =>
      split
      next =>
        have hclock := updateRqClock_quiet e s
        apply (ttwuDoWakeup_spec e (h.quiet hclock) (hclock.live ▸ hp)).bind
        intro t hspec
        obtain ⟨ht,hc⟩ := hspec
        apply Returns.ok
        exact ⟨⟨r,ht⟩,(hc.after hclock.toFrame).evolves (by rw [hclock.task])⟩
      next hqueued =>
        have hq : (s.task p).onRq = .none := by
          have hsettled := hok.settled
          rw [queued_iff] at hqueued
          cases hon : (s.task p).onRq <;> simp_all
        have hwaking : Returns (applyIf b.smp
            (fun s => selectTaskRq b e p (s.setState p taskWaking)) s) (fun t =>
              Inv b t r ∧ ∃ v, Changed s p v t ∧ v.onRq = .none ∧ v.state ≠ taskNew ∧
                v.schedClass = (s.task p).schedClass ∧ v.tickets = (s.task p).tickets) := by
          refine .applyIf (fun hsmp => ?_) fun _ =>
            ⟨h,_,(Frame.refl s).changed p,hq,hs,rfl,rfl⟩
          have hv : TaskOk { s.task p with state := taskWaking } :=
            ⟨hok.lottery,hok.working,hok.settled,by simp [taskWaking,taskNew],hok.deadline⟩
          have hset := h.retask hp hv rfl rfl rfl
          refine (selectTaskRq_quiet b e (s.setState p taskWaking) ?_).mono fun t ht =>
            ⟨hset.quiet ht,_,(Changed.setTask s p _).frame ht.toFrame,hq,
              by simp [taskWaking,taskNew],rfl,rfl⟩
          rintro ⟨hsel,hl⟩
          simp only [Kernel.setState,Kernel.setTask,Function.update_self] at hl
          exact hn ⟨hsmp,hsel,hl,hmatch,hcurr,hq⟩
        apply hwaking.bind
        intro t hspec
        obtain ⟨ht,v,hc,hvq,hvs,hvc,hvt⟩ := hspec
        apply (ttwuQueue_spec e ht (hc.live ▸ hp) (by rw [hc.task_self]; exact hvq)
          (by rw [hc.task_self]; exact hvs)).bind
        intro u hqueued
        obtain ⟨hu,hcu⟩ := hqueued
        rw [hc.task_self] at hcu
        exact .ok ⟨⟨_,hu⟩,(hc.trans hcu fun hl _ => hvc.trans hl).evolves hvt⟩

/-- The first wakeup in an SMP build asks the class of the new task for a CPU. -/
def newSelects (b : Build) (e : Env) (s : Kernel) (p : Tid) : Prop :=
  b.smp = true ∧ selectsCpu e p ∧ (s.task p).schedClass = .lottery

theorem wakeUpNewTask_spec (e : Env) (h : Inv b s r) (hp : p ∈ s.live)
    (hs : (s.task p).state = taskNew) (hn : ¬newSelects b e s p) :
    Returns (wakeUpNewTask b e p s) (fun t => Done b s t ∧
      Changed s p { s.task p with state := taskRunning, onRq := .queued } t) := by
  have hok := h.tasks p hp
  have hq := hok.fresh hs
  let v := { s.task p with state := taskRunning }
  have hset : Inv b (s.setTask p v) r := h.retask hp hok.running rfl rfl rfl
  have hself : (s.setTask p v).task p = v := by simp [Kernel.setTask]
  have hselect : Returns (applyIf b.smp (selectTaskRq b e p) (s.setTask p v))
      (Quiet (s.setTask p v)) := by
    refine .applyIf (fun hsmp => selectTaskRq_quiet b e _ ?_) fun _ => .refl _
    rintro ⟨hsel,hl⟩
    rw [hself] at hl
    exact hn ⟨hsmp,hsel,hl⟩
  apply hselect.bind
  intro t ht
  have hclock := ht.trans (updateRqClock_quiet e t)
  generalize updateRqClock e t = u at hclock
  have hi := hset.quiet hclock
  have hu : u.task p = v := by rw [hclock.task,hself]
  have hact := hi.activateTask (hclock.live ▸ hp) (by rw [hu]; exact hq)
    (by rw [hu]; simp [v,taskRunning,taskNew]) e enqueueNoclock
  apply hact.bind
  intro w hspec
  obtain ⟨hw,hcw⟩ := hspec
  apply (checkPreemptCurr_quiet b e p w).bind
  intro x hx
  have hcx : Changed s p { s.task p with state := taskRunning, onRq := .queued } x := by
    rw [hu] at hcw
    exact ((Changed.setTask s p v).frame hclock.toFrame).trans (hcw.frame hx.toFrame)
      fun hl _ => hl
  refine .applyIf (fun _ => ?_) fun _ => ⟨⟨⟨_,hw.quiet hx⟩,hcx.evolves rfl⟩,hcx⟩
  apply (callHookIfSet_quiet b e x rfl).mono
  intro y hy
  exact ⟨⟨⟨_,(hw.quiet hx).quiet hy⟩,(hcx.frame hy.toFrame).evolves rfl⟩,hcx.frame hy.toFrame⟩

end Wakeups

section Clocks
variable {b : Build} {s : Kernel} {r : Ready} {p : Tid}

theorem schedulerTick_spec (e : Env) (h : Inv b s r) :
    Returns (schedulerTick b e s) (Done b s) := by
  have hq := updateRqClock_quiet e s
  exact (callHook_quiet e _ (provides_of b rfl (fun _ => rfl) (by simp)) rfl).mono
    fun _ ht => h.done_quiet (hq.trans ht)

/-- The query of a task that runs goes through its class, which has no answer in
the lottery class. -/
theorem taskSchedRuntime_spec (e : Env)
    (hn : ¬(p = s.rq.curr ∧ (s.task p).schedClass = .lottery)) :
    Returns (taskSchedRuntime b e p s) (fun a => Quiet s a.2 ∧
      a.1 = (a.2.se p).sumExecRuntime) := by
  have hquery : Returns (applyIf (s.taskCurrent p && s.taskOnRqQueued p)
      (fun s => callHook b e (s.task p).schedClass .updateCurr p (updateRqClock e s)) s)
      (Quiet s) := by
    refine .applyIf (fun hc => ?_) fun _ => .refl s
    have hcurr : p = s.rq.curr := by
      simp only [Kernel.taskCurrent,Bool.and_eq_true,beq_iff_eq] at hc
      exact hc.1.symm
    have hprovides : b.provides (s.task p).schedClass .updateCurr = true :=
      provides_of b rfl (fun hl => absurd ⟨hcurr,hl⟩ hn) (by simp)
    exact (callHook_quiet e _ hprovides rfl).mono fun _ ht => (updateRqClock_quiet e s).trans ht
  exact hquery.bind fun t ht => .ok ⟨ht,rfl⟩

theorem schedExec_spec (e : Env) (h : Inv b s r)
    (hn : (s.task s.rq.curr).schedClass ≠ .lottery) : Returns (schedExec b e s) (Done b s) :=
  (callHook_quiet e s (provides_of b rfl (fun hl => absurd hl hn) (by simp)) rfl).mono
    fun _ ht => h.done_quiet ht

end Clocks

end LotteryScheduler.Proofs
