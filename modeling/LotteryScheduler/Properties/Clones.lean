import LotteryScheduler.Proofs.Runs

namespace LotteryScheduler.Properties
open Lib Model Proofs

/-- No task that existed before the call and no counter of the runqueue has changed. -/
structure TouchesNoTask (s t : Kernel) : Prop where
  live : t.live = s.live
  tickets : ∀ p, (t.task p).tickets = (s.task p).tickets
  policy : ∀ p, (t.task p).policy = (s.task p).policy
  onRq : ∀ p, (t.task p).onRq = (s.task p).onRq
  mem : t.mem = s.mem
  queue : t.rq.queue = s.rq.queue
  ltr : t.rq.ltr = s.rq.ltr
  nrRunning : t.rq.nrRunning = s.rq.nrRunning

/-- A clone whose copy fails returns the error and does nothing else, and one that succeeds
wakes its task up with the tickets assigned. -/
structure CloneSafe (b : Build) (e : Env) (args : KernelCloneArgs) (ce : CopyEnv) (s : Kernel) :
    Prop where
  failed : ∀ retval t, copyProcess b e args ce s = .ok (.error retval,t) →
    Returns (kernelClone b e args ce s) (fun a => a.1 = retval ∧ TouchesNoTask s a.2)
  created : ∀ p t, copyProcess b e args ce s = .ok (.ok p,t) → ∃ u,
    kernelCloneCopy b e args ce s = .ok (.ok p,u) ∧ (u.task p).tickets = 5 ∧
    (u.task p).onRq = .none ∧
    kernelClone b e args ce s = wakeUpNewTask b e p u >>= fun t => .ok ((p : Int),t)

/-- What one call meets at the error exits of `copy_process`, none of which it takes. -/
structure Clean (b : Build) (args : KernelCloneArgs) (ce : CopyEnv) (s : Kernel) : Prop where
  flags : invalidFlags ce args.flags = false
  signals : ce.sigpending = false
  dup : ce.dupFails = false
  creds : 0 ≤ ce.copyCreds
  nproc : ce.overNproc = false
  threads : s.nrThreads < b.maxThreads
  scheduler : (schedFork (s.task s.rq.curr) ce.pid
    { s.task s.rq.curr with piTopTask := none }).1 = 0
  steps : ∀ st ∈ copySteps, ce.step st = 0
  pidfd : hasFlag args.flags clonePidfd = true →
    0 ≤ ce.getUnusedFd ∧ ce.pidfdFile = 0 ∧ ce.putPidfd = 0
  cgroup : ce.cgroupCanFork = 0
  pidns : ce.pidnsAdding = true
  fatal : ce.fatalSignal = false

section Exits
variable {b : Build} {e : Env} {args : KernelCloneArgs} {ce : CopyEnv} {s : Kernel}

/-- The copy went all the way. -/
def Creates (m : Except Fault (Except Int Tid × Kernel)) : Prop := ∃ p t, m = .ok (.ok p,t)

theorem firstFailure_none (ce : CopyEnv) (steps : List CopyStep) :
    firstFailure ce steps = none ↔ ∀ st ∈ steps, ce.step st = 0 := by
  induction steps with
  | nil => simp [firstFailure]
  | cons st steps ih =>
    unfold firstFailure
    split
    next hne => simp [hne]
    next hz =>
      have hz : ce.step st = 0 := by simpa using hz
      simp [ih,hz]

/-- One error exit. -/
theorem creates_exit {c : Prop} [Decidable c] {retval : Int} {t : Kernel}
    {m : Except Fault (Except Int Tid × Kernel)} :
    Creates (if c then .ok (.error retval,t) else m) ↔ ¬c ∧ Creates m := by
  by_cases hc : c
  · rw [if_pos hc]
    refine ⟨?_,fun h => absurd hc h.1⟩
    rintro ⟨p,u,h⟩
    cases h
  · rw [if_neg hc]
    exact ⟨fun h => ⟨hc,h⟩,And.right⟩

/-- The last exits come after the fair class has been told of the child. -/
theorem creates_bind {m : Except Fault Kernel} {Q : Kernel → Prop} (h : Returns m Q)
    {c : Prop} {f : Kernel → Except Fault (Except Int Tid × Kernel)}
    (hf : ∀ t, Creates (f t) ↔ c) : Creates (m >>= f) ↔ c := by
  obtain ⟨t,rfl,_⟩ := h
  exact hf t

theorem creates_iff : Creates (copyProcess b e args ce s) ↔ Clean b args ce s := by
  unfold copyProcess
  extract_lets cur dup child pidfd
  have hlast : ∀ t, Creates (if !ce.pidnsAdding then .ok (.error (-enomem),t)
      else if ce.fatalSignal then .ok (.error (-eintr),t)
      else .ok (.ok ce.pid,attach ce.pid child.2 t)) ↔
        ce.pidnsAdding = true ∧ ce.fatalSignal = false := by
    intro t
    rw [creates_exit,creates_exit]
    simp [Creates]
  rw [creates_exit,creates_exit,creates_exit,creates_exit,creates_exit,creates_exit,
    creates_exit]
  split
  next retval hstep =>
    constructor
    · rintro ⟨-,-,-,-,-,-,-,p,t,h⟩
      cases h
    · intro h
      rw [(firstFailure_none ce copySteps).mpr h.steps] at hstep
      cases hstep
  next hstep =>
    have hsteps := (firstFailure_none ce copySteps).mp hstep
    have htold : Returns (schedCgroupFork b e ce.pid child.2 s) (Quiet s) :=
      callHookIfSet_quiet b e s rfl
    rw [creates_exit,creates_exit,creates_exit,creates_exit,creates_bind htold hlast]
    constructor
    · rintro ⟨hflags,hsig,hdup,hcreds,hnproc,hthreads,hsched,hfd,hfile,hput,hcgroup,hpid,hfatal⟩
      refine ⟨by simpa using hflags,by simpa using hsig,by simpa using hdup,Int.not_lt.mp hcreds,
        by simpa using hnproc,Nat.not_le.mp hthreads,not_not.mp hsched,hsteps,fun hp => ?_,
        not_not.mp hcgroup,hpid,hfatal⟩
      have hpidfd : pidfd = true := hp
      simp only [hpidfd,true_and,Int.not_lt,ne_eq,not_not] at hfd hfile hput
      exact ⟨hfd,hfile,hput⟩
    · intro h
      refine ⟨by simp [h.flags],by simp [h.signals],by simp [h.dup],Int.not_lt.mpr h.creds,
        by simp [h.nproc],Nat.not_le.mpr h.threads,not_not.mpr h.scheduler,?_,?_,?_,
        not_not.mpr h.cgroup,h.pidns,h.fatal⟩
      · exact fun hp => Int.not_lt.mpr (h.pidfd hp.1).1 hp.2
      · exact fun hp => hp.2 (h.pidfd hp.1).2.1
      · exact fun hp => hp.2 (h.pidfd hp.1).2.2

end Exits

section Clones
variable {b : Build} {e : Env} {args : KernelCloneArgs} {ce : CopyEnv} {s : Kernel}

/-- The first check of `kernel_clone` does not refuse the request. -/
def Accepted (args : KernelCloneArgs) : Prop :=
  ¬(hasFlag args.flags clonePidfd ∧ hasFlag args.flags cloneParentSettid ∧
    args.pidfd = args.parentTid)

theorem kernelCloneCopy_eq (ha : Accepted args) : kernelCloneCopy b e args ce s =
    copyProcess b e args ce s >>= fun a => match a.1 with
      | .error _ => .error .badPointer
      | .ok p => .ok (.ok p,giveTickets p a.2) := by
  unfold kernelCloneCopy
  exact if_neg ha

/-- The tickets are stored through the error pointer before it is looked at. -/
theorem failed_copy_faults (ha : Accepted args)
    (hc : copyProcess b e args ce s = .ok (.error retval,t)) :
    kernelClone b e args ce s = .error .badPointer := by
  unfold kernelClone
  rw [kernelCloneCopy_eq ha,hc]
  rfl

/-- A clone is safe exactly when its copy takes no error exit. -/
theorem clone_safe_iff (ha : Accepted args) :
    CloneSafe b e args ce s ↔ Clean b args ce s := by
  rw [← creates_iff (e := e)]
  obtain ⟨a,hrun,hcopied⟩ := copyProcess_spec b e args ce s
  cases hcopied with
  | @failed t retval quiet why =>
    constructor
    · intro hsafe
      have hreturns := hsafe.failed retval t hrun
      exact absurd (failed_copy_faults ha hrun) (hreturns.ne_error _)
    · rintro ⟨p,u,hcreated⟩
      rw [hrun] at hcreated
      cases hcreated
  | @created t quiet start =>
    refine ⟨fun _ => ⟨_,_,hrun⟩,fun _ => ⟨fun retval u hfailed => ?_,fun p u hcreated => ?_⟩⟩
    · rw [hrun] at hfailed
      cases hfailed
    · rw [hrun] at hcreated
      cases hcreated
      obtain ⟨_,hon,_,_⟩ := schedFork_ok start rfl
      have hcopy : kernelCloneCopy b e args ce s = _ := kernelCloneCopy_eq ha
      rw [hrun] at hcopy
      refine ⟨_,hcopy,?_,?_,?_⟩
      · rw [giveTickets_attach]
        simp [attach]
      · rw [giveTickets_attach]
        simpa [attach] using hon
      · unfold kernelClone
        rw [hcopy]
        rfl

/-- A request without any flag, from a task that has no signal pending. -/
theorem clone_safe_iff_plain : CloneSafe .versatile .quiet { flags := 0 } { pid := 5 } fairWaits ↔
    Clean .versatile { flags := 0 } { pid := 5 } fairWaits :=
  clone_safe_iff (by unfold Accepted; decide)

/-- The same request meets a pending signal. -/
theorem pending_signal_faults : Reachable .versatile fairWaits ∧
    Accepted { flags := 0 } ∧
    (copyProcess .versatile .quiet { flags := 0 } { pid := 5, sigpending := true }
      fairWaits).toOption.map (fun a => a.1.toOption) = some none ∧
    kernelClone .versatile .quiet { flags := 0 } { pid := 5, sigpending := true } fairWaits =
      .error .badPointer ∧
    ¬CloneSafe .versatile .quiet { flags := 0 } { pid := 5, sigpending := true } fairWaits := by
  have hacc : Accepted { flags := 0 } := by
    unfold Accepted
    decide
  have hcopy : copyProcess .versatile .quiet { flags := 0 } { pid := 5, sigpending := true }
      fairWaits = .ok (.error (-513),fairWaits) := by rfl
  have hfault := failed_copy_faults hacc hcopy
  refine ⟨fairWaits_reachable,hacc,by rw [hcopy]; rfl,hfault,fun h => ?_⟩
  exact (h.failed _ _ hcopy).ne_error _ hfault

end Clones

end LotteryScheduler.Properties
