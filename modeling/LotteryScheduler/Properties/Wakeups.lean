import LotteryScheduler.Proofs.Sleepers

namespace LotteryScheduler.Properties
open Lib Model Proofs

/-- What the two parties of a wait loop keep between them: a task sleeps only in the state
it announced and before the wakeup, and after the wakeup it does not go to sleep again. -/
structure Guarded (b : Build) (p : Tid) (state : Nat) (w : WaitState) : Prop where
  reach : Reachable b w.kernel
  live : p ∈ w.kernel.live
  announced : (w.kernel.task p).state = taskRunning ∨ (w.kernel.task p).state = state
  asleep : (w.kernel.task p).onRq ≠ .queued →
    w.waiter = .arm ∧ (w.kernel.task p).state = state ∧ w.waker ≠ .done
  signalled : w.waker ≠ .signal → w.condition = true
  roused : w.waiter = .sleep → w.waker = .done → (w.kernel.task p).state = taskRunning

section Loop
variable {b : Build} {p : Tid} {state : Nat} {w w' : WaitState} {s t : Kernel}

theorem Guarded.onCpu (h : Guarded b p state w) (hc : w.kernel.rq.curr = p) :
    (w.kernel.task p).onRq = .queued := by
  obtain ⟨⟨r,hr⟩,-⟩ := reachable_inv h.reach
  exact hc ▸ hr.currQueued

theorem exec_setCurrentState (hc : s.rq.curr = p)
    (hrun : exec b e (.setCurrentState state) s = .ok t) :
    Written s p { s.task p with state } t := by
  cases hrun
  rw [hc]
  exact .setTask s p _

theorem Guarded.enabled (h : Guarded b p state w) (hc : w.kernel.rq.curr = p)
    (hnew : new ≠ taskNew) : enabled b w.kernel (.setCurrentState new) := by
  obtain ⟨⟨r,hr⟩,-⟩ := reachable_inv h.reach
  exact ⟨hc ▸ hr.ne_idle h.live,hnew⟩

/-- Each statement of the loop keeps the agreement. -/
theorem Guarded.waiter (h : Guarded b p state w) (hs : state ≠ taskNew)
    (hw : WaiterStep b p state w w') : Guarded b p state w' := by
  cases hw with
  | arm pc curr run =>
    have hq := h.onCpu curr
    have hset := exec_setCurrentState curr run
    refine ⟨h.reach.step ⟨_,_,h.enabled curr hs,run⟩,hset.live ▸ h.live,.inr ?_,
      fun hn => absurd ?_ hn,h.signalled,nofun⟩
    · rw [hset.self]
    · rw [hset.self]
      exact hq
  | leave pc curr met run =>
    have hq := h.onCpu curr
    have hset := exec_setCurrentState curr run
    refine ⟨h.reach.step ⟨_,_,h.enabled curr (by decide),run⟩,hset.live ▸ h.live,.inl ?_,
      fun hn => absurd ?_ hn,h.signalled,nofun⟩
    · rw [hset.self]
    · rw [hset.self]
      exact hq
  | stay pc curr unmet =>
    refine ⟨h.reach,h.live,h.announced,fun hn => absurd (h.onCpu curr) hn,h.signalled,?_⟩
    intro _ hdone
    have hmet := h.signalled (by rw [hdone]; simp)
    rw [hmet] at unmet
    cases unmet
  | sleep pc curr run =>
    have hq := h.onCpu curr
    obtain ⟨v,hv,hparked⟩ := schedule_parked b _ false _ _ run
    rw [curr] at hv hparked
    have hreach := h.reach.step ⟨_,.schedule false,trivial,run⟩
    cases hparked with
    | kept =>
      refine ⟨hreach,hv.live ▸ h.live,by rw [hv.self]; exact h.announced,
        fun hn => absurd ?_ hn,h.signalled,nofun⟩
      rw [hv.self]
      exact hq
    | signalled =>
      refine ⟨hreach,hv.live ▸ h.live,.inl (by rw [hv.self]),fun hn => absurd ?_ hn,
        h.signalled,nofun⟩
      rw [hv.self]
      exact hq
    | asleep _ said =>
      refine ⟨hreach,hv.live ▸ h.live,by rw [hv.self]; exact h.announced,fun _ => ?_,
        h.signalled,nofun⟩
      rw [hv.self]
      refine ⟨rfl,h.announced.resolve_left said,fun hdone => said ?_⟩
      exact h.roused pc hdone

/-- So does everything that happens besides. -/
theorem Guarded.other (h : Guarded b p state w) (hs : state ≠ taskRunning)
    (hw : OtherStep b p state w w') : Guarded b p state w' := by
  obtain ⟨⟨r,hr⟩,-⟩ := reachable_inv h.reach
  cases hw with
  | signal pc =>
    refine ⟨h.reach,h.live,h.announced,fun hn => ?_,fun _ => rfl,nofun⟩
    obtain ⟨hpc,hstate,-⟩ := h.asleep hn
    exact ⟨hpc,hstate,by simp⟩
  | wake pc may run =>
    have hreach := h.reach.step ⟨_,_,may,run⟩
    have hmet := h.signalled (by rw [pc]; simp)
    have hwake := run
    simp only [wakeUpState,exec] at hwake
    obtain ⟨⟨woke,t⟩,ht,hret⟩ := bind_eq_ok.mp hwake
    cases hret
    cases hm : ttwuStateMatch w.kernel p state with
    | true =>
      have hv := tryToWakeUp_written _ hr hm _ ht
      refine ⟨hreach,hv.live ▸ h.live,.inl (by rw [hv.self]),fun hn => absurd ?_ hn,
        fun _ => hmet,fun _ _ => by rw [hv.self]⟩
      rw [hv.self]
    | false =>
      rw [tryToWakeUp_unmatched b _ hm] at ht
      cases ht
      have hrun : (w.kernel.task p).state = taskRunning := by
        refine h.announced.resolve_right fun he => ?_
        simp only [ttwuStateMatch,he,Nat.and_self,bne_eq_false_iff_eq] at hm
        exact hs hm
      refine ⟨hreach,h.live,.inl hrun,fun hn => ?_,fun _ => hmet,fun _ _ => hrun⟩
      have hstate := (h.asleep hn).2.1
      exact absurd (hstate.symm.trans hrun) hs
  | other may foreign run =>
    have hreach := h.reach.step ⟨_,_,may,run⟩
    have hpassive := exec_passive _ hr may h.live foreign _ run
    rcases hpassive.change with ⟨hstate,hq⟩ | ⟨hstate,hq⟩
    · refine ⟨hreach,hpassive.live,by rw [hstate]; exact h.announced,fun hn => ?_,h.signalled,?_⟩
      · rw [hstate]
        exact h.asleep (hq ▸ hn)
      · rw [hstate]
        exact h.roused
    · exact ⟨hreach,hpassive.live,.inl hstate,fun hn => absurd hq hn,h.signalled,
        fun _ _ => hstate⟩

theorem waits_guarded (h : Waits b p state w) (hs : state ≠ taskRunning)
    (hnew : state ≠ taskNew) : Guarded b p state w := by
  induction h with
  | start reach live running queued =>
    exact ⟨reach,live,.inl running,fun hn => absurd queued hn,fun hn => absurd rfl hn,nofun⟩
  | waiter _ last ih => exact ih.waiter hnew last
  | other _ last ih => exact ih.other hs last

/-- No wakeup is lost, whatever happens between the statements of the two parties: once the
waker is through, the task is queued in its class, and each statement that it makes from
then on brings it nearer to the end of its loop. -/
theorem no_lost_wakeup (h : Waits b p state w) (hs : state ≠ taskRunning)
    (hnew : state ≠ taskNew) (hdone : w.waker = .done) :
    waiting w.kernel (w.kernel.task p).schedClass p ∧
      (∀ w', WaiterStep b p state w w' → w'.waiter.left < w.waiter.left) ∧
      ∀ w', OtherStep b p state w w' → w'.waiter = w.waiter := by
  have hg := waits_guarded h hs hnew
  refine ⟨⟨hg.live,?_,rfl⟩,fun w' hw => ?_,fun w' hw => ?_⟩
  · by_contra hn
    exact (hg.asleep hn).2.2 hdone
  · cases hw with
    | arm pc => simp [pc,WaiterPc.left]
    | leave pc => simp [pc,WaiterPc.left]
    | stay pc curr unmet =>
      have hmet := hg.signalled (by rw [hdone]; simp)
      rw [hmet] at unmet
      cases unmet
    | sleep pc => simp [pc,WaiterPc.left]
  · cases hw <;> rfl

/-- A lottery task announces that it sleeps, goes to sleep, and is woken. -/
def sleepOps : List (Env × Op) :=
  [(.quiet,.setCurrentState taskInterruptible),(.quiet,.schedule false)]

def wokenOps : List (Env × Op) :=
  lotteryRunsOps ++ sleepOps ++ [(.quiet,wakeUpState 1 taskInterruptible)]

theorem woken_waits : Waits .versatile 1 taskInterruptible
    ⟨after .versatile wokenOps,true,.arm,.done⟩ := by
  have harm := exec_after lotteryRunsOps .quiet (.setCurrentState taskInterruptible)
    (b := .versatile) (by decide +kernel) (by decide +kernel)
  have hsleep := exec_after (lotteryRunsOps ++ [(.quiet,.setCurrentState taskInterruptible)])
    .quiet (.schedule false) (b := .versatile) (by decide +kernel) (by decide +kernel)
  have hwake := exec_after (lotteryRunsOps ++ sleepOps) .quiet (wakeUpState 1 taskInterruptible)
    (b := .versatile) (by decide +kernel) (by decide +kernel)
  have hstart : Waits .versatile 1 taskInterruptible ⟨lotteryRuns,false,.arm,.signal⟩ :=
    .start lotteryRuns_reachable (by decide +kernel) (by decide +kernel) (by decide +kernel)
  have harmed := hstart.waiter (.arm rfl (by decide +kernel) harm.2)
  have htested := harmed.waiter (.stay rfl (by decide +kernel) rfl)
  have hasleep := htested.waiter (.sleep rfl (by decide +kernel) hsleep.2)
  exact (hasleep.other (.signal rfl)).other (.wake rfl hwake.1 hwake.2)

theorem no_lost_wakeup_woken :
    waiting (after .versatile wokenOps) ((after .versatile wokenOps).task 1).schedClass 1 ∧
      (∀ w', WaiterStep .versatile 1 taskInterruptible
        ⟨after .versatile wokenOps,true,.arm,.done⟩ w' → w'.waiter.left < WaiterPc.arm.left) ∧
      ∀ w', OtherStep .versatile 1 taskInterruptible
        ⟨after .versatile wokenOps,true,.arm,.done⟩ w' → w'.waiter = .arm :=
  no_lost_wakeup woken_waits (by decide) (by decide) rfl

end Loop

end LotteryScheduler.Properties
