import LotteryScheduler.Proofs.Picks
import LotteryScheduler.Proofs.Changes

namespace LotteryScheduler.Proofs
open Lib Model

/-- The state that `__schedule` hands to `pick_next_task`: the books hold, but the
current task may have left its queue. -/
structure AtPick (b : Build) (s : Kernel) (r : Ready) (t : Kernel) : Prop where
  books : Books b t r
  curr : t.rq.curr = s.rq.curr
  evolves : Evolves s t
  same : ∀ p, (t.task p).schedClass = (s.task p).schedClass

section Switch
variable {b : Build} {e : Env} {s t : Kernel} {r : Ready} {p : Tid} {preempt : Bool}

theorem shiftFlags_quiet (s : Kernel) : Quiet s
    { s with rq := { s.rq with clockUpdateFlags := s.rq.clockUpdateFlags <<< 1 } } :=
  ⟨⟨rfl,rfl,rfl,rfl,rfl,rfl,Nat.le_refl _,fun _ _ => rfl⟩,rfl,rfl,rfl,rfl,[],by simp,by simp⟩

/-- A queued task is taken off its queue and marked as sleeping. -/
theorem Books.deactivateTask (h : Books b s r) (hp : p ∈ s.live)
    (hq : (s.task p).onRq = .queued) (e : Env) (flags : UInt32)
    (hs : flags &&& dequeueSleep ≠ 0) :
    Returns (Model.deactivateTask b e p flags s) (fun t =>
      Books b t (r.remove p (s.task p).schedClass) ∧
        Changed s p { s.task p with onRq := .none } t) := by
  have hok := h.tasks p hp
  let v := { s.task p with onRq := .none }
  have hv : TaskOk v := ⟨hok.lottery,hok.working,by simp [v],by simp [v],hok.deadline⟩
  have hself : (s.setTask p v).task p = v := by simp [Kernel.setTask]
  have hrep := h.rep.setTask p v (.inr rfl)
  have hdequeue := dequeueTask_spec (p := p) b e flags hrep
    (by rw [hself]; exact hok.working) (by rw [hself]; exact h.mem_own hp hq)
  unfold Model.deactivateTask
  dsimp only
  rw [if_pos hs]
  apply hdequeue.mono
  intro t hspec
  obtain ⟨ht,hf⟩ := hspec
  have hc := (Changed.setTask s p v).frame hf
  rw [hself] at ht
  exact ⟨h.parked hc ht hp hv (by simp [v]),hc⟩

theorem blockPrev_spec (e : Env) (h : Inv b s r) :
    Returns (blockPrev b e preempt s) (fun t => ∃ r', AtPick b s r' t) := by
  have hstay : AtPick b s r s := ⟨h.toBooks,rfl,(Frame.refl s).evolves,fun _ => rfl⟩
  unfold blockPrev
  dsimp only
  split
  next hc =>
    simp only [Bool.and_eq_true,decide_eq_true_eq] at hc
    have hp : s.rq.curr ∈ s.live := by
      refine h.curr.resolve_left fun hi => hc.2 ?_
      rw [hi,h.idleTask.state]
      rfl
    split
    · have hok := (h.tasks _ hp).running
      have hset := Changed.setTask s s.rq.curr { s.task s.rq.curr with state := taskRunning }
      refine .ok ⟨r,(h.retask hp hok rfl rfl rfl).toBooks,rfl,hset.evolves rfl,fun x => ?_⟩
      rcases eq_or_ne x s.rq.curr with rfl | hne
      · rw [Kernel.setState,hset.task_self]
      · rw [Kernel.setState,hset.task_other hne]
    · apply (h.toBooks.deactivateTask hp h.currQueued e _ (by decide)).mono
      intro t hspec
      obtain ⟨ht,hct⟩ := hspec
      refine ⟨_,ht,hct.curr,hct.evolves rfl,fun x => ?_⟩
      rcases eq_or_ne x s.rq.curr with rfl | hne
      · rw [hct.task_self]
      · rw [hct.task_other hne]
  next => exact .ok ⟨r,hstay⟩

theorem AtPick.after (hq : Quiet s t) (h : AtPick b t r u) : AtPick b s r u := by
  exact ⟨h.books,h.curr.trans hq.curr,h.evolves.after hq,fun p => by rw [h.same,hq.task]⟩

theorem beforePick_spec (e : Env) (h : Inv b s r) :
    Returns (beforePick b e preempt s) (fun t => ∃ r', AtPick b s r' t) := by
  have hq := (shiftFlags_quiet s).trans (updateRqClock_quiet e _)
  apply (blockPrev_spec e (h.quiet hq)).mono
  intro t hspec
  obtain ⟨r',ht⟩ := hspec
  exact ⟨r',ht.after hq⟩

/-- The picked task becomes current; it is queued, or it is the idle task. -/
theorem Books.switchTo (h : Books b s r) (hp : FoundIn s r c p) :
    Inv b (Model.switchTo p s) r := by
  have hmem : p = s.rq.idle ∨ (p ∈ s.live ∧ (s.task p).onRq = .queued) := by
    unfold FoundIn at hp
    split at hp
    · exact .inl hp
    · have hready := (h.ready c p).mp hp
      exact .inr ⟨hready.1,hready.2.1⟩
  refine ⟨⟨⟨h.rep.ring,h.rep.ltrCount,h.rep.ltrTickets,h.rep.upstream,h.rep.idle,h.rep.running,
    h.rep.logged⟩,h.ready,h.nodup,h.live_nodup,h.pids,h.tasks,h.idle_apart,h.idleTask,
    hmem.imp id And.left⟩,?_⟩
  rcases hmem with rfl | hq
  · exact h.idleTask.onRq
  · exact hq.2

theorem switchTo_evolves (h : Evolves s t) (p : Tid) : Evolves s (switchTo p t) :=
  ⟨h.tickets,h.se,h.clock,h.ticketed⟩

/-- The switch of the current task calls through a pointer that the lottery class leaves
NULL: `balance` for a previous lottery task, `pick_task` for the whole core. -/
def switchMisses (b : Build) (e : Env) (s : Kernel) : Prop :=
  (b.smp = true ∧ (s.task s.rq.curr).schedClass = .lottery) ∨ selectsForCore b e

theorem schedule_spec (e : Env) (h : Inv b s r) (hn : ¬switchMisses b e s) :
    Returns (schedule b e preempt s) (Done b s) := by
  apply (beforePick_spec e h).bind
  intro t hspec
  obtain ⟨r',ht⟩ := hspec
  have hprev : ¬(b.smp = true ∧ (t.task s.rq.curr).schedClass = .lottery) := by
    rw [ht.same]
    exact fun hl => hn (.inl hl)
  rw [pickNextTaskCore_alone fun hs => hn (.inr hs)]
  apply (pickNextTask_found e ht.books hprev).bind
  intro a hspec
  obtain ⟨hq,c,hc⟩ := hspec
  apply Returns.ok
  refine ⟨⟨r',(ht.books.quiet hq).switchTo (c := c) ?_⟩,?_⟩
  · simpa [FoundIn,hq.idle] using hc
  · exact switchTo_evolves (ht.evolves.quiet hq) _

/-- The balance hook of a previous lottery task comes before the selection for the core. -/
theorem schedule_missing (e : Env) (h : Inv b s r) (hm : switchMisses b e s) :
    ∃ hook, schedule b e preempt s = .error (.nullHook .lottery hook) := by
  have hbefore : Returns (beforePick b e preempt s) (fun t => ∃ r', AtPick b s r' t) :=
    beforePick_spec e h
  obtain ⟨t,ht,r',hat⟩ := hbefore
  have hpick : ∃ hook, pickNextTaskCore b e s.rq.curr t = .error (.nullHook .lottery hook) := by
    by_cases hs : selectsForCore b e
    · by_cases hl : b.smp = true ∧ (t.task s.rq.curr).schedClass = .lottery
      · refine ⟨.balance,?_⟩
        rw [pickNextTaskCore_select hs]
        exact bind_error (putPrevTaskBalance_missing e t hl.1 hl.2)
      · exact ⟨.pickTask,pickNextTaskCore_missing hs t hl⟩
    · obtain ⟨hsmp,hl⟩ := hm.resolve_right hs
      refine ⟨.balance,?_⟩
      rw [pickNextTaskCore_alone hs]
      exact pickNextTask_missing e hsmp ((hat.same _).trans hl)
  obtain ⟨hook,hpick⟩ := hpick
  refine ⟨hook,?_⟩
  unfold schedule
  dsimp only
  rw [ht]
  exact (bind_error hpick : pickNextTaskCore b e s.rq.curr t >>= _ = _)

theorem yieldHook_quiet (b : Build) (e : Env) (h : Inv b s r) (hi : s.rq.curr ≠ s.rq.idle) :
    Returns (callHook b e (s.task s.rq.curr).schedClass .yieldTask s.rq.curr s) (Quiet s) := by
  have hp := h.curr.resolve_left hi
  exact callHook_quiet e s
    (provides_of b rfl (fun _ => rfl) (fun hc => absurd hc (h.tasks _ hp).working)) rfl

theorem switchMisses_quiet (hq : Quiet s t) : switchMisses b e t ↔ switchMisses b e s := by
  unfold switchMisses
  rw [hq.task,hq.curr]

theorem doSchedYield_spec (e : Env) (h : Inv b s r) (hi : s.rq.curr ≠ s.rq.idle)
    (hn : ¬switchMisses b e s) : Returns (doSchedYield b e s) (Done b s) := by
  apply (yieldHook_quiet b e h hi).bind
  intro t ht
  have hsched : Returns (schedule b e false t) (Done b t) :=
    schedule_spec e (h.quiet ht) fun hm => hn ((switchMisses_quiet ht).mp hm)
  exact hsched.mono fun _ hdone => ⟨hdone.1,hdone.2.after ht⟩

theorem doSchedYield_missing (e : Env) (h : Inv b s r) (hi : s.rq.curr ≠ s.rq.idle)
    (hm : switchMisses b e s) :
    ∃ hook, doSchedYield b e s = .error (.nullHook .lottery hook) := by
  obtain ⟨t,ht,hq⟩ := yieldHook_quiet b e h hi
  unfold doSchedYield
  rw [ht]
  exact schedule_missing e (h.quiet hq) ((switchMisses_quiet hq).mpr hm)

end Switch

end LotteryScheduler.Proofs
