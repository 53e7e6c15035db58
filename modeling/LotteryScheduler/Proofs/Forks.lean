import LotteryScheduler.Proofs.Invariant

namespace LotteryScheduler.Proofs
open Lib Model

section Child
variable {cur p : TaskStruct} {self : Tid}

theorem resetOnFork_kept (p : TaskStruct) :
    (resetOnFork p).onRq = p.onRq ∧ (resetOnFork p).state = p.state ∧
      (resetOnFork p).tickets = p.tickets ∧ (resetOnFork p).prio = (resetOnFork p).normalPrio := by
  unfold resetOnFork
  dsimp only
  split
  · exact ⟨rfl,rfl,rfl,rfl⟩
  split <;> exact ⟨rfl,rfl,rfl,rfl⟩

/-- The child before its class is chosen. -/
def unclassed (cur : TaskStruct) (self : Tid) (p : TaskStruct) : TaskStruct :=
  let fresh := { schedForkInit self p with state := taskNew, prio := cur.normalPrio }
  if fresh.schedResetOnFork then resetOnFork fresh else fresh

theorem unclassed_kept (self : Tid) (hn : cur.normalPrio = p.normalPrio) :
    (unclassed cur self p).onRq = .none ∧ (unclassed cur self p).state = taskNew ∧
      (unclassed cur self p).tickets = p.tickets ∧
      (unclassed cur self p).prio = (unclassed cur self p).normalPrio := by
  unfold unclassed
  dsimp only
  split
  · exact resetOnFork_kept _
  · exact ⟨rfl,rfl,rfl,hn⟩

theorem schedFork_eq (cur : TaskStruct) (self : Tid) (p : TaskStruct) : schedFork cur self p =
    if (unclassed cur self p).policy = schedLottery then
      (0,{ unclassed cur self p with schedClass := .lottery })
    else if dlPrio (unclassed cur self p).prio then (-eagain,unclassed cur self p)
    else if rtPrio (unclassed cur self p).prio then
      (0,{ unclassed cur self p with schedClass := .rt })
    else (0,{ unclassed cur self p with schedClass := .fair }) := rfl

/-- The class of a child: lottery by the policy alone, and otherwise by the priority. -/
theorem schedFork_class (h : (schedFork cur self p).1 = 0) :
    ∃ c, (schedFork cur self p).2 = { unclassed cur self p with schedClass := c } ∧
      (((unclassed cur self p).policy = schedLottery ∧ c = .lottery) ∨
        ((unclassed cur self p).policy ≠ schedLottery ∧
          dlPrio (unclassed cur self p).prio = false ∧
          ((rtPrio (unclassed cur self p).prio = true ∧ c = .rt) ∨
            (rtPrio (unclassed cur self p).prio = false ∧ c = .fair)))) := by
  rw [schedFork_eq] at h ⊢
  split
  next hl => exact ⟨_,rfl,.inl ⟨hl,rfl⟩⟩
  next hl =>
    rw [if_neg hl] at h
    split
    next hd =>
      rw [if_pos hd] at h
      cases h
    next hd =>
      have hd := Bool.eq_false_iff.mpr hd
      split
      next hr => exact ⟨_,rfl,.inr ⟨hl,hd,.inl ⟨hr,rfl⟩⟩⟩
      next hr => exact ⟨_,rfl,.inr ⟨hl,hd,.inr ⟨Bool.eq_false_iff.mpr hr,rfl⟩⟩⟩

/-- A child whose set-up succeeds is a task like any other, and not queued. -/
theorem schedFork_ok (h : (schedFork cur self p).1 = 0) (hn : cur.normalPrio = p.normalPrio) :
    TaskOk (schedFork cur self p).2 ∧ (schedFork cur self p).2.onRq = .none ∧
      (schedFork cur self p).2.state = taskNew ∧
      (schedFork cur self p).2.tickets = p.tickets := by
  obtain ⟨hon,hstate,htickets,hprio⟩ := unclassed_kept self hn
  obtain ⟨c,hc,hclass⟩ := schedFork_class h
  rw [hc]
  refine ⟨?_,hon,hstate,htickets⟩
  rcases hclass with ⟨hl,rfl⟩ | ⟨hl,hd,⟨_,rfl⟩ | ⟨_,rfl⟩⟩
  · exact ⟨by simp [hl],by simp,by simp [hon],fun _ => hon,fun hne => absurd hl hne⟩
  · rw [hprio] at hd
    exact ⟨by simp [hl],by simp,by simp [hon],fun _ => hon,fun _ hp => by simp [hd] at hp⟩
  · rw [hprio] at hd
    exact ⟨by simp [hl],by simp,by simp [hon],fun _ => hon,fun _ hp => by simp [hd] at hp⟩

end Child

section Copies
variable {b : Build} {s : Kernel} {r : Ready} {p : Tid} {child : TaskStruct}

/-- The new task is on no queue, so its links and its data are nobody's. -/
theorem Inv.attach (h : Inv b s r) (hf : freshPid b p s) (hc : TaskOk child)
    (hq : child.onRq = .none) : Inv b (Model.attach p child s) r := by
  obtain ⟨hlive,hidle,hmax⟩ := hf
  have hout : ∀ c, p ∉ r c := fun c hm => hlive ((h.ready c p).mp hm).1
  have hne : ∀ x ∈ s.live, x ≠ p := fun x hx he => hlive (he ▸ hx)
  have hcurr : s.rq.curr ≠ p := by
    rcases h.curr with hi | hl
    · rw [hi]
      exact hidle.symm
    · exact hne _ hl
  have hnode : Node.task p ∉ .ltrQueue :: (r .lottery).map Node.task := by
    simpa using hout .lottery
  refine ⟨⟨⟨h.rep.ring.update hnode _,h.rep.ltrCount,?_,h.rep.upstream,h.rep.idle,h.rep.running,
    h.rep.logged⟩,?_,h.nodup,?_,?_,?_,?_,?_,?_⟩,?_⟩
  · exact (h.rep.setTask p child (.inl (hout _))).ltrTickets
  · intro c x
    rw [h.ready]
    rcases eq_or_ne x p with rfl | hx
    · simp [Model.attach,hlive,hq]
    · simp [Model.attach,hx]
  · refine List.nodup_append.mpr ⟨h.live_nodup,by simp,?_⟩
    intro x hx y hy
    rw [List.mem_singleton.mp hy]
    exact hne x hx
  · intro x hx
    rcases List.mem_append.mp hx with hx | hx
    · exact h.pids x hx
    · rw [List.mem_singleton.mp hx]
      exact hmax
  · intro x hx
    rcases List.mem_append.mp hx with hx | hx
    · simpa [Model.attach,hne x hx] using h.tasks x hx
    · rw [List.mem_singleton.mp hx]
      simpa [Model.attach] using hc
  · simpa [Model.attach,hidle.symm] using h.idle_apart
  · simpa [Model.attach,hidle.symm] using h.idleTask
  · exact h.curr.imp id fun hl => List.mem_append_left _ hl
  · simpa [Model.attach,hcurr] using h.currQueued

theorem attach_evolves (hf : p ∉ s.live) (ht : Ticketed s → child.tickets = 5) :
    Evolves s (attach p child s) := by
  have hne : ∀ x ∈ s.live, x ≠ p := fun x hx he => hf (he ▸ hx)
  refine ⟨fun x hx => ?_,fun x hx _ _ _ => ?_,Nat.le_refl _,fun hk x hx => ?_⟩
  · simp [attach,hne x hx]
  · simp [attach,hne x hx]
  · rcases List.mem_append.mp hx with hx | hx
    · simpa [attach,hne x hx] using hk x hx
    · rw [List.mem_singleton.mp hx]
      simpa [attach] using ht hk

/-- What `copy_process` can answer: an error with nothing but the clocks of the
fair class touched, or the attached child. -/
inductive Copied (ce : CopyEnv) (s : Kernel) : Except Int Tid × Kernel → Prop where
  | failed (quiet : Quiet s t) (why : retval ≠ 0) : Copied ce s (.error retval,t)
  | created (quiet : Quiet s t)
    (start : (schedFork (s.task s.rq.curr) ce.pid
      { s.task s.rq.curr with piTopTask := none }).1 = 0) :
    Copied ce s (.ok ce.pid,attach ce.pid (schedFork (s.task s.rq.curr) ce.pid
      { s.task s.rq.curr with piTopTask := none }).2 t)

theorem firstFailure_ne (h : firstFailure ce steps = some retval) : retval ≠ 0 := by
  induction steps with
  | nil => cases h
  | cons st steps ih =>
    unfold firstFailure at h
    split at h
    next hne =>
      cases h
      exact hne
    next => exact ih h

/-- One error exit before anything was touched. -/
theorem Copied.exit {c : Prop} [Decidable c] {retval : Int}
    {m : Except Fault (Except Int Tid × Kernel)} (hr : c → retval ≠ 0)
    (hm : ¬c → Returns m (Copied ce s)) :
    Returns (if c then .ok (.error retval,s) else m) (Copied ce s) := by
  by_cases hc : c
  · rw [if_pos hc]
    exact .ok (.failed (.refl s) (hr hc))
  · rw [if_neg hc]
    exact hm hc

theorem copyProcess_spec (b : Build) (e : Env) (args : KernelCloneArgs) (ce : CopyEnv)
    (s : Kernel) : Returns (copyProcess b e args ce s) (Copied ce s) := by
  unfold copyProcess
  extract_lets cur dup child pidfd
  refine Copied.exit (fun _ => by decide) fun _ => ?_
  refine Copied.exit (fun _ => by decide) fun _ => ?_
  refine Copied.exit (fun _ => by decide) fun _ => ?_
  refine Copied.exit (fun hc => Int.ne_of_lt hc) fun _ => ?_
  refine Copied.exit (fun _ => by decide) fun _ => ?_
  refine Copied.exit (fun _ => by decide) fun _ => ?_
  refine Copied.exit id fun hstart => ?_
  split
  next hstep => exact .ok (.failed (.refl s) (firstFailure_ne hstep))
  next =>
    refine Copied.exit (fun hc => Int.ne_of_lt hc.2) fun _ => ?_
    refine Copied.exit And.right fun _ => ?_
    refine Copied.exit And.right fun _ => ?_
    refine Copied.exit id fun _ => ?_
    apply (callHookIfSet_quiet b e s rfl).bind
    intro t ht
    split
    · exact .ok (.failed ht (by decide))
    split
    · exact .ok (.failed ht (by decide))
    · exact .ok (.created ht (by simpa using hstart))

theorem freshPid_quiet (hf : freshPid b p s) (hq : Quiet s t) : freshPid b p t :=
  ⟨by rw [hq.live]; exact hf.1,by rw [hq.idle]; exact hf.2.1,hf.2.2⟩

theorem giveTickets_attach (p : Tid) (child : TaskStruct) (s : Kernel) :
    giveTickets p (attach p child s) = attach p { child with tickets := 5 } s := by
  simp [giveTickets,attach,Kernel.setTask]

/-- A clone stores through an error pointer when `copy_process` fails. -/
theorem kernelCloneCopy_spec (e : Env) (args : KernelCloneArgs) (ce : CopyEnv) (h : Inv b s r)
    (hf : freshPid b ce.pid s) :
    kernelCloneCopy b e args ce s = .error .badPointer ∨
      Returns (kernelCloneCopy b e args ce s) (fun a => (∃ r', Inv b a.2 r') ∧ Evolves s a.2) := by
  unfold kernelCloneCopy
  split
  · exact .inr (.ok ⟨⟨r,h⟩,(Frame.refl s).evolves⟩)
  obtain ⟨a,ha,hcopied⟩ := copyProcess_spec b e args ce s
  rw [ha]
  cases hcopied with
  | failed hq _ => exact .inl rfl
  | created hq hstart =>
    right
    refine .ok ?_
    obtain ⟨hok,hon,-,-⟩ := schedFork_ok hstart rfl
    rw [giveTickets_attach]
    have hfresh := freshPid_quiet hf hq
    refine ⟨⟨r,(h.quiet hq).attach hfresh ⟨hok.lottery,hok.working,hok.settled,hok.fresh,
      hok.deadline⟩ hon⟩,(attach_evolves hfresh.1 fun _ => rfl).after hq⟩

/-- An I/O worker inherits the tickets of the task that creates it. -/
theorem createIoThread_spec (e : Env) (ce : CopyEnv) (h : Inv b s r)
    (hi : s.rq.curr ≠ s.rq.idle) (hf : freshPid b ce.pid s) :
    Returns (createIoThread b e ce s) (fun a => (∃ r', Inv b a.2 r') ∧ Evolves s a.2) := by
  apply (copyProcess_spec b e _ ce s).mono
  intro a hcopied
  cases hcopied with
  | failed hq _ => exact ⟨⟨r,h.quiet hq⟩,hq.toFrame.evolves⟩
  | @created t hq hstart =>
    obtain ⟨hok,hon,-,htickets⟩ := schedFork_ok hstart rfl
    have hfresh := freshPid_quiet hf hq
    refine ⟨⟨r,(h.quiet hq).attach hfresh hok hon⟩,(attach_evolves hfresh.1 fun hk => ?_).after hq⟩
    rw [htickets]
    have hcurr := h.curr.resolve_left hi
    rw [← hk _ (hq.live ▸ hcurr),hq.task]

theorem Inv.releaseTask (h : Inv b s r) (hq : (s.task p).onRq = .none) (hc : p ≠ s.rq.curr) :
    Inv b (Model.releaseTask p s) r := by
  have hmem : ∀ x, x ∈ s.live.erase p ↔ x ≠ p ∧ x ∈ s.live := fun x => h.live_nodup.mem_erase_iff
  refine ⟨⟨⟨h.rep.ring,h.rep.ltrCount,h.rep.ltrTickets,h.rep.upstream,h.rep.idle,h.rep.running,
    h.rep.logged⟩,fun c x => ?_,h.nodup,h.live_nodup.erase p,
    fun x hx => h.pids x ((hmem x).mp hx).2,
    fun x hx => h.tasks x ((hmem x).mp hx).2,fun hi => h.idle_apart ((hmem _).mp hi).2,h.idleTask,
    h.curr.imp id fun hl => (hmem _).mpr ⟨hc.symm,hl⟩⟩,h.currQueued⟩
  rw [h.ready]
  simp only [Model.releaseTask,hmem]
  rcases eq_or_ne x p with rfl | hx
  · simp [hq]
  · simp [hx]

theorem releaseTask_evolves (p : Tid) (s : Kernel) : Evolves s (releaseTask p s) := by
  refine ⟨fun _ _ => rfl,fun _ _ _ _ _ => rfl,Nat.le_refl _,fun hk x hx => ?_⟩
  exact hk x (List.mem_of_mem_erase hx)

/-- What happens to a task of another runqueue is not this runqueue's business. -/
theorem Inv.otherTask (h : Inv b s r) (hp : p ∉ s.live) (hi : p ≠ s.rq.idle) (v : TaskStruct) :
    Inv b (s.setTask p v) r := by
  have hne : ∀ x ∈ s.live, x ≠ p := fun x hx he => hp (he ▸ hx)
  have hout : p ∉ r .lottery := fun hm => hp ((h.ready _ _).mp hm).1
  have hcurr : s.rq.curr ≠ p := by
    rcases h.curr with hc | hl
    · rw [hc]
      exact hi.symm
    · exact hne _ hl
  refine ⟨⟨h.rep.setTask p v (.inl hout),fun c x => ?_,h.nodup,h.live_nodup,h.pids,fun x hx => ?_,
    h.idle_apart,?_,h.curr⟩,?_⟩
  · rw [h.ready]
    rcases eq_or_ne x p with rfl | hx
    · simp [Kernel.setTask,hp]
    · simp [Kernel.setTask,hx]
  · simpa [Kernel.setTask,hne x hx] using h.tasks x hx
  · simpa [Kernel.setTask,hi.symm] using h.idleTask
  · simpa [Kernel.setTask,hcurr] using h.currQueued

theorem otherTask_evolves (hp : p ∉ s.live) (v : TaskStruct) : Evolves s (s.setTask p v) := by
  have hne : ∀ x ∈ s.live, x ≠ p := fun x hx he => hp (he ▸ hx)
  refine ⟨fun x hx => ?_,fun _ _ _ _ _ => rfl,Nat.le_refl _,fun hk x hx => ?_⟩
  · simp [Kernel.setTask,hne x hx]
  · simpa [Kernel.setTask,hne x hx] using hk x hx

end Copies

end LotteryScheduler.Proofs
