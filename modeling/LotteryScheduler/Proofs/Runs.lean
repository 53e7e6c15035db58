import LotteryScheduler.Proofs.Forks
import LotteryScheduler.Proofs.Requests
import LotteryScheduler.Proofs.Schedule
import LotteryScheduler.Proofs.Wakeups

namespace LotteryScheduler.Proofs
open Lib Model

/-- The operations that call through a pointer the lottery class leaves NULL. -/
def hitsNullHook (b : Build) (e : Env) (s : Kernel) : Op → Prop
  | .schedule _ | .schedYield => switchMisses b e s
  | .schedExec => b.smp = true ∧ (s.task s.rq.curr).schedClass = .lottery
  | .tryToWakeUp p state => wakeSelects b e s p state
  | .wakeUpNewTask p => newSelects b e s p
  | .taskSchedRuntime p => p = s.rq.curr ∧ (s.task p).schedClass = .lottery
  | .setCpusAllowed p => (s.task p).schedClass = .lottery
  | _ => False

/-- The states in which a task is picked: between two operations, or in the middle
of `__schedule`. -/
inductive PickPoint (b : Build) : Kernel → Prop where
  | between (reach : Reachable b s) : PickPoint b s
  | inside (reach : Reachable b s) (block : beforePick b e preempt s = .ok t) : PickPoint b t

/-- A task of the CPU is queued in this class. -/
def waiting (s : Kernel) (c : SchedClass) (p : Tid) : Prop :=
  p ∈ s.live ∧ (s.task p).onRq = .queued ∧ (s.task p).schedClass = c

section Steps
variable {b : Build} {e : Env} {s s' : Kernel} {r : Ready} {op : Op}

theorem returns_snd {m : Except Fault (α × Kernel)} (h : Returns m (fun a => Done b s a.2)) :
    Returns (m >>= fun a => .ok a.2) (Done b s) := h.bind fun _ ha => .ok ha

theorem setCurrentState_spec (h : Inv b s r) (hi : s.rq.curr ≠ s.rq.idle)
    (hs : state ≠ taskNew) : Done b s (s.setState s.rq.curr state) := by
  have hp := h.curr.resolve_left hi
  have hok := h.tasks _ hp
  have hv : TaskOk { s.task s.rq.curr with state } :=
    ⟨hok.lottery,hok.working,hok.settled,fun hn => absurd hn hs,hok.deadline⟩
  exact ⟨⟨r,h.retask hp hv rfl rfl rfl⟩,(Changed.setTask s _ _).evolves rfl⟩

/-- What one operation does: it stops at the error pointer of a failed clone, or
it completes with the invariant intact. -/
theorem exec_spec (e : Env) (h : Inv b s r) (he : enabled b s op)
    (hn : ¬hitsNullHook b e s op) :
    exec b e op s = .error .badPointer ∨ Returns (exec b e op s) (Done b s) := by
  cases op with
  | kernelClone args ce =>
    rcases kernelCloneCopy_spec e args ce h he with hbad | hdone
    · exact .inl (bind_error hbad)
    · exact .inr (returns_snd hdone)
  | setCurrentState state => exact .inr (.ok (setCurrentState_spec h he.1 he.2))
  | schedule preempt => exact .inr (schedule_spec e h hn)
  | tryToWakeUp p state => exact .inr (returns_snd (tryToWakeUp_spec e state h he.1 he.2 hn))
  | createIoThread ce => exact .inr (returns_snd (createIoThread_spec e ce h he.1 he.2))
  | wakeUpNewTask p => exact .inr ((wakeUpNewTask_spec e h he.1 he.2 hn).mono fun _ ht => ht.1)
  | setUserNice p nice => exact .inr (setUserNice_spec e nice h he)
  | rtMutexSetprio p piTask => exact .inr (rtMutexSetprio_spec e piTask h he)
  | schedMoveTask p => exact .inr (schedMoveTask_spec e h he)
  | schedSetscheduler caller p attr user pi =>
    exact .inr (returns_snd (schedSetscheduler_spec e caller attr user pi h he.1 he.2))
  | schedulerTick => exact .inr (schedulerTick_spec e h)
  | schedYield => exact .inr (doSchedYield_spec e h he hn)
  | taskSchedRuntime p =>
    refine .inr (returns_snd ?_)
    exact (taskSchedRuntime_spec e hn).mono fun _ hq => h.done_quiet hq.1
  | schedExec => exact .inr (schedExec_spec e h fun hl => hn ⟨he.1,hl⟩)
  | setCpusAllowed p => exact .inr (setCpusAllowed_spec e h he.2 hn)
  | releaseTask p =>
    exact .inr (.ok ⟨⟨r,h.releaseTask he.2.2.1 he.2.2.2⟩,releaseTask_evolves p s⟩)
  | otherTask p t => exact .inr (.ok ⟨⟨r,h.otherTask he.1 he.2 t⟩,otherTask_evolves he.1 t⟩)

theorem tryToWakeUp_missing (e : Env) (hw : wakeSelects b e s p state) :
    tryToWakeUp b e p state s = .error (.nullHook .lottery .selectTaskRq) := by
  obtain ⟨hsmp,hsel,hl,hmatch,hcurr,hq⟩ := hw
  have hqueued : s.taskOnRqQueued p = false := by simp [Kernel.taskOnRqQueued,hq]
  unfold tryToWakeUp
  rw [if_neg (by simp [hmatch]),if_neg hcurr,if_neg (by simp [hqueued])]
  refine bind_error ?_
  rw [applyIf,if_pos hsmp]
  refine selectTaskRq_missing b e _ hsel ?_
  simpa [Kernel.setState,Kernel.setTask] using hl

theorem wakeUpNewTask_missing (e : Env) (hw : newSelects b e s p) :
    wakeUpNewTask b e p s = .error (.nullHook .lottery .selectTaskRq) := by
  obtain ⟨hsmp,hsel,hl⟩ := hw
  refine bind_error ?_
  rw [applyIf,if_pos hsmp]
  refine selectTaskRq_missing b e _ hsel ?_
  simpa [Kernel.setState,Kernel.setTask] using hl

theorem setCpusAllowed_missing (e : Env) (h : Inv b s r) (hp : p ∈ s.live)
    (hl : (s.task p).schedClass = .lottery) :
    setCpusAllowed b e p s = .error (.nullHook .lottery .setCpusAllowed) := by
  obtain ⟨t,ht,hoff⟩ := h.takeOff hp e (s.taskCurrent p) (dequeueSave ||| dequeueNoclock)
  unfold setCpusAllowed
  dsimp only
  rw [ht]
  refine bind_error (m := callHook b e (t.task p).schedClass .setCpusAllowed p t) ?_
  rw [hoff.frame.task,hl]
  exact callHook_missing e t rfl

theorem taskSchedRuntime_missing (e : Env) (h : Inv b s r) (hp : p = s.rq.curr)
    (hl : (s.task p).schedClass = .lottery) :
    taskSchedRuntime b e p s = .error (.nullHook .lottery .updateCurr) := by
  have hq : (s.task p).onRq = .queued := hp ▸ h.currQueued
  refine bind_error ?_
  rw [applyIf,if_pos (by simp [Kernel.taskCurrent,Kernel.taskOnRqQueued,hq,← hp]),hl]
  exact callHook_missing e _ rfl

/-- Each of these operations does run into the pointer. -/
theorem exec_missing (e : Env) (h : Inv b s r) (he : enabled b s op)
    (hn : hitsNullHook b e s op) : ∃ hook, exec b e op s = .error (.nullHook .lottery hook) := by
  cases op with
  | schedule preempt => exact schedule_missing e h hn
  | schedYield => exact doSchedYield_missing e h he hn
  | schedExec => exact ⟨.selectTaskRq,by
      unfold exec schedExec
      rw [hn.2]
      exact callHook_missing e s rfl⟩
  | tryToWakeUp p state => exact ⟨_,bind_error (tryToWakeUp_missing e hn)⟩
  | wakeUpNewTask p => exact ⟨_,wakeUpNewTask_missing e hn⟩
  | taskSchedRuntime p => exact ⟨_,bind_error (taskSchedRuntime_missing e h hn.1 hn.2)⟩
  | setCpusAllowed p => exact ⟨_,setCpusAllowed_missing e h he.2 hn⟩
  | _ => exact absurd hn id

/-- An operation that completes keeps the invariant. -/
theorem Inv.step (h : Inv b s r) (hs : Step b s s') : Done b s s' := by
  obtain ⟨e,op,he,hrun⟩ := hs
  by_cases hn : hitsNullHook b e s op
  · obtain ⟨hook,herr⟩ := exec_missing e h he hn
    rw [herr] at hrun
    cases hrun
  rcases exec_spec e h he hn with hbad | hdone
  · rw [hbad] at hrun
    cases hrun
  · exact hdone.of_ok hrun

end Steps

section Runs
variable {b : Build} {s : Kernel} {r : Ready}

theorem schedInit_inv (b : Build) : Inv b schedInit (fun _ => []) where
  rep := ⟨holds_init _ _,rfl,rfl,fun _ _ => rfl,rfl,rfl,⟨fun early he => by
    rw [List.prefix_nil.mp he]
    exact Nat.le_refl _,rfl⟩⟩
  ready c p := by simp [schedInit,initLtrRq,Kernel.setLtr]
  nodup _ := List.nodup_nil
  live_nodup := List.nodup_nil
  pids := nofun
  tasks := nofun
  idle_apart := nofun
  idleTask := ⟨rfl,rfl,rfl,rfl,rfl⟩
  curr := .inl rfl
  currQueued := rfl

/-- Every reachable state satisfies the invariant, and every task holds five tickets. -/
theorem reachable_inv (h : Reachable b s) : (∃ r, Inv b s r) ∧ Ticketed s := by
  induction h with
  | init => exact ⟨⟨_,schedInit_inv b⟩,nofun⟩
  | step _ last ih =>
    obtain ⟨⟨r,hr⟩,hk⟩ := ih
    obtain ⟨hinv,hev⟩ := hr.step last
    exact ⟨hinv,hev.ticketed hk⟩

/-- The total of the tickets does not wrap for any number of tasks. -/
theorem Books.totalTickets (h : Books b s r) (hk : Ticketed s) :
    s.rq.ltr.totalTickets.toNat = 5 * (r .lottery).length := by
  have hfive : ∀ l : List Tid, (∀ p ∈ l, (s.task p).tickets = 5) →
      (l.map fun p => (s.task p).tickets).sum = .ofNat (5 * l.length) := by
    intro l hl
    induction l with
    | nil => rfl
    | cons x l ih =>
      rw [List.map_cons,List.sum_cons,ih fun p hp => hl p (List.mem_cons_of_mem _ hp),
        hl x (by simp),List.length_cons,Nat.mul_succ,Nat.add_comm,UInt32.ofNat_add]
      rfl
  have hmem : ∀ p ∈ r .lottery, (s.task p).tickets = 5 :=
    fun p hp => hk p ((h.ready _ _).mp hp).1
  have hcount := h.lottery_le
  have hpid := h.live_le
  have hmax := b.pidMax_le
  rw [h.rep.ltrTickets,hfive _ hmem,UInt32.toNat_ofNat']
  exact Nat.mod_eq_of_lt (by omega)

theorem Books.stocked (h : Books b s r) (hk : Ticketed s) : Stocked s r := by
  intro hz
  have htotal := h.totalTickets hk
  rw [hz,UInt32.toNat_zero] at htotal
  exact List.eq_nil_of_length_eq_zero (by omega)

theorem PickPoint.books (h : PickPoint b s) : (∃ r, Books b s r) ∧ Ticketed s := by
  cases h with
  | between reach =>
    obtain ⟨⟨r,hr⟩,hk⟩ := reachable_inv reach
    exact ⟨⟨r,hr.toBooks⟩,hk⟩
  | inside reach block =>
    obtain ⟨⟨r,hr⟩,hk⟩ := reachable_inv reach
    obtain ⟨r',hat⟩ := (beforePick_spec _ hr).of_ok block
    exact ⟨⟨r',hat.books⟩,hat.evolves.ticketed hk⟩

theorem Books.none_waiting (h : Books b s r) (c : SchedClass) :
    (∀ p, ¬waiting s c p) ↔ r c = [] := by
  rw [List.eq_nil_iff_forall_not_mem]
  simp only [h.ready,waiting]

end Runs

end LotteryScheduler.Proofs
