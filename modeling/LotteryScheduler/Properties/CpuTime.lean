import LotteryScheduler.Proofs.Turns

namespace LotteryScheduler.Properties
open Lib Model Proofs

/-- A task of the CPU in the lottery class. -/
def inLottery (p : Tid) (s : Kernel) : Prop := p ∈ s.live ∧ (s.task p).schedClass = .lottery

/-- One operation of a period that the task spends in the lottery class. -/
def PeriodStep (b : Build) (p : Tid) (op : Op) (s s' : Kernel) : Prop :=
  (∃ e, enabled b s op ∧ exec b e op s = .ok s') ∧ inLottery p s ∧ inLottery p s'

/-- What the task clock of the runqueue gained while the task was the current one. -/
def ranFor (p : Tid) (s s' : Kernel) : Nat :=
  if s.rq.curr = p then s'.rq.clockTask - s.rq.clockTask else 0

/-- An operation of the period: `total` is for how long the task had run by its end. -/
abbrev Moment := Passed Op Kernel

/-- The task is off the CPU: it was switched out, unless it has not run yet. -/
def switchedOut (p : Tid) (m : Moment) : Prop := m.after.rq.curr ≠ p

/-- The same, or `__schedule` has called `put_prev_task` on the task and picked it again. -/
def putPrev (p : Tid) (m : Moment) : Prop :=
  switchedOut p m ∨ (m.before.rq.curr = p ∧ switching m.label = true)

/-- Over a period from `s` the task is at no moment charged for other time than it ran, and
at every moment `out` at which it was switched out it was charged for all of it, as a query
reports. -/
structure FullyCharged (b : Build) (p : Tid) (out : Moment → Prop) (s : Kernel)
    (l : List Moment) : Prop where
  not_beyond : ∀ m ∈ l, (m.after.se p).sumExecRuntime ≤ (s.se p).sumExecRuntime + m.total
  conserved : ∀ m ∈ l, out m →
    (m.after.se p).sumExecRuntime = (s.se p).sumExecRuntime + m.total
  reported : ∀ m ∈ l, switchedOut p m → ∀ e, Returns (taskSchedRuntime b e p m.after)
    (fun a => a.1 = (s.se p).sumExecRuntime + m.total)

section Charge
variable {b : Build} {s s' : Kernel} {p : Tid} {ran : Nat} {l : List Moment}

theorem queried_out (e : Env) (hc : s.rq.curr ≠ p) :
    taskSchedRuntime b e p s = .ok ((s.se p).sumExecRuntime,s) := by
  have hcurr : s.taskCurrent p = false := by simpa [Kernel.taskCurrent] using hc
  unfold taskSchedRuntime
  rw [applyIf,if_neg (by simp [hcurr])]
  rfl

/-- No operation charges a task that is in the lottery class before and after it. -/
theorem period_uncharged (h : Reachable b s)
    (hrun : Run (PeriodStep b p) (ranFor p) s l ran s') : ∀ m ∈ l, m.after.se p = s.se p := by
  have hinv := hrun.invariant (I := fun t => Reachable b t ∧ t.se p = s.se p) ⟨h,rfl⟩ ?_
  · exact fun m hm => (hinv.2 m hm).2
  · rintro op t u ⟨hreach,hsame⟩ ⟨⟨e,he,hexec⟩,ht,hu⟩
    obtain ⟨⟨r,hr⟩,_⟩ := reachable_inv hreach
    have hev := (hr.step ⟨e,op,he,hexec⟩).2
    exact ⟨hreach.step ⟨e,op,he,hexec⟩,(hev.se p ht.1 hu.1 ht.2 hu.2).trans hsame⟩

/-- A period without a charge is right only as long as there is nothing to charge. -/
theorem uncharged_iff {out : Moment → Prop} (hsame : ∀ m ∈ l, m.after.se p = s.se p)
    (hout : ∀ m, switchedOut p m → out m) :
    FullyCharged b p out s l ↔ ∀ m ∈ l, out m → m.total = 0 := by
  constructor
  · intro hc m hm ho
    have hgrown := hc.conserved m hm ho
    rw [hsame m hm] at hgrown
    omega
  · intro hnone
    refine ⟨fun m hm => ?_,fun m hm ho => ?_,fun m hm hs e => ?_⟩
    · rw [hsame m hm]
      exact Nat.le_add_right _ _
    · rw [hsame m hm,hnone m hm ho]
      rfl
    · rw [queried_out e hs,hsame m hm,hnone m hm (hout m hs)]
      exact .ok rfl

/-- A period charges the task in full exactly when the task had run for nothing whenever it
was switched out, that is by the last time it was; and so it is if a `put_prev_task` before
it was picked again counts too. -/
theorem fully_charged_iff (h : Reachable b s)
    (hrun : Run (PeriodStep b p) (ranFor p) s l ran s') :
    (FullyCharged b p (switchedOut p) s l ↔ ∀ m ∈ l, switchedOut p m → m.total = 0) ∧
      (FullyCharged b p (putPrev p) s l ↔ ∀ m ∈ l, putPrev p m → m.total = 0) := by
  have hsame := period_uncharged h hrun
  exact ⟨uncharged_iff hsame fun _ hs => hs,uncharged_iff hsame fun _ hs => .inl hs⟩

/-- A running lottery task meets a tick and goes to sleep, while the clock goes on. -/
def tickAt (clock : Nat) : Env × Op := ({ Env.quiet with schedClock := clock },.schedulerTick)

def sleeps : Env × Op := (.quiet,.setCurrentState taskInterruptible)

def scheduleAt (clock : Nat) : Env × Op :=
  ({ Env.quiet with schedClock := clock },.schedule false)

def ticked : Kernel := after .versatile (lotteryRunsOps ++ [tickAt 1000])

def sleeping : Kernel := after .versatile (lotteryRunsOps ++ [tickAt 1000] ++ [sleeps])

def slept : Kernel :=
  after .versatile (lotteryRunsOps ++ [tickAt 1000] ++ [sleeps] ++ [scheduleAt 1500])

def sleepPeriod : List Moment :=
  [⟨.schedule false,sleeping,slept,1500⟩,⟨.setCurrentState taskInterruptible,ticked,sleeping,1000⟩,
    ⟨.schedulerTick,lotteryRuns,ticked,1000⟩]

theorem PeriodStep.after {b : Build} {p : Tid} {ops : List (Env × Op)} {e : Env} {op : Op}
    (h : completes b ops = true) (h' : completes b (ops ++ [(e,op)]) = true)
    (hs : inLottery p (after b ops)) (ht : inLottery p (after b (ops ++ [(e,op)]))) :
    PeriodStep b p op (after b ops) (after b (ops ++ [(e,op)])) :=
  ⟨⟨e,exec_after _ _ _ h h'⟩,hs,ht⟩

theorem sleep_period :
    Run (PeriodStep .versatile 1) (ranFor 1) lotteryRuns sleepPeriod 1500 slept := by
  have hstart : inLottery 1 lotteryRuns := ⟨by decide +kernel,by decide +kernel⟩
  have hticked : inLottery 1 ticked := ⟨by decide +kernel,by decide +kernel⟩
  have hsleeping : inLottery 1 sleeping := ⟨by decide +kernel,by decide +kernel⟩
  have hout : inLottery 1 slept := ⟨by decide +kernel,by decide +kernel⟩
  have htick : PeriodStep .versatile 1 .schedulerTick lotteryRuns ticked :=
    .after (by decide +kernel) (by decide +kernel) hstart hticked
  have hsleep : PeriodStep .versatile 1 (.setCurrentState taskInterruptible) ticked sleeping :=
    .after (by decide +kernel) (by decide +kernel) hticked hsleeping
  have hswitch : PeriodStep .versatile 1 (.schedule false) sleeping slept :=
    .after (by decide +kernel) (by decide +kernel) hsleeping hout
  have hrun : Run (PeriodStep .versatile 1) (ranFor 1) lotteryRuns _ _ slept :=
    ((Run.refl.tail htick).tail hsleep).tail hswitch
  have hran₁ : 0 + ranFor 1 lotteryRuns ticked = 1000 := by decide +kernel
  have hran₂ : 1000 + ranFor 1 ticked sleeping = 1000 := by decide +kernel
  have hran₃ : 1000 + ranFor 1 sleeping slept = 1500 := by decide +kernel
  rwa [hran₁,hran₂,hran₃] at hrun

theorem fully_charged_iff_period :
    (FullyCharged .versatile 1 (switchedOut 1) lotteryRuns sleepPeriod ↔
        ∀ m ∈ sleepPeriod, switchedOut 1 m → m.total = 0) ∧
      (FullyCharged .versatile 1 (putPrev 1) lotteryRuns sleepPeriod ↔
        ∀ m ∈ sleepPeriod, putPrev 1 m → m.total = 0) :=
  fully_charged_iff lotteryRuns_reachable sleep_period

/-- The task ran for 1500 ns and was switched out, and was charged nothing. -/
theorem lottery_time_lost : Reachable .versatile lotteryRuns ∧
    Run (PeriodStep .versatile 1) (ranFor 1) lotteryRuns sleepPeriod 1500 slept ∧
    slept.rq.curr ≠ 1 ∧ ¬FullyCharged .versatile 1 (switchedOut 1) lotteryRuns sleepPeriod := by
  have hout : slept.rq.curr ≠ 1 := by decide +kernel
  refine ⟨lotteryRuns_reachable,sleep_period,hout,fun h => ?_⟩
  exact absurd (h.conserved _ List.mem_cons_self hout) (by decide +kernel)

end Charge

end LotteryScheduler.Properties
