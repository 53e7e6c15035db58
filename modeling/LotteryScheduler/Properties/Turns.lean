import LotteryScheduler.Proofs.Turns
import LotteryScheduler.Properties.Journals
import LotteryScheduler.Properties.PickOrder
import LotteryScheduler.Properties.Policies
import LotteryScheduler.Properties.Wakeups

namespace LotteryScheduler.Properties
open Lib Model Proofs

/-- What can bring the CPU to the lottery class: the running task is given a policy, or a
priority is lent to somebody. -/
def disturbs (s : Kernel) : Op → Prop
  | .schedSetscheduler _ p _ _ _ => p = s.rq.curr
  | op => lends op

instance (s : Kernel) : DecidablePred (disturbs s)
  | .schedSetscheduler _ p _ _ _ => inferInstanceAs (Decidable (p = s.rq.curr))
  | .rtMutexSetprio p donor => inferInstanceAs (Decidable (lends (.rtMutexSetprio p donor)))
  | .setCurrentState _ | .schedule _ | .tryToWakeUp _ _ | .kernelClone _ _ | .createIoThread _
  | .wakeUpNewTask _ | .setUserNice _ _ | .schedMoveTask _ | .schedulerTick | .schedYield
  | .taskSchedRuntime _ | .schedExec | .setCpusAllowed _ | .releaseTask _ | .otherTask _ _ =>
    inferInstanceAs (Decidable False)

/-- Something holds of each operation of a schedule and the state it meets. -/
def along (b : Build) (P : Kernel → Op → Prop) : List (Env × Op) → Kernel → Prop
  | [], _ => True
  | (e,op) :: ops, s => P s op ∧
    match exec b e op s with
    | .error _ => True
    | .ok t => along b P ops t

instance decidableAlong (b : Build) (P : Kernel → Op → Prop) [∀ s, DecidablePred (P s)] :
    (ops : List (Env × Op)) → (s : Kernel) → Decidable (along b P ops s)
  | [], _ => isTrue trivial
  | (e,op) :: ops, s =>
    match h : exec b e op s with
    | .error _ => decidable_of_iff (P s op) (by simp [along,h])
    | .ok t =>
      have : Decidable (along b P ops t) := decidableAlong b P ops t
      decidable_of_iff (P s op ∧ along b P ops t) (by simp [along,h])

/-- The CPU is with another class, and nobody has a lent priority. -/
structure Elsewhere (b : Build) (s : Kernel) : Prop where
  reach : Reachable b s
  unlent : NoneLent s
  elsewhere : ¬lotteryHasCpu s

section Steps
variable {b : Build} {e : Env} {s t : Kernel} {r : Ready} {p : Tid} {op : Op} {v cur : TaskStruct}

theorem unclassed_unlent (h : v.piTopTask = none) : (unclassed cur p v).piTopTask = none := by
  unfold unclassed
  dsimp only
  split
  · unfold resetOnFork
    dsimp only
    split
    · exact h
    split <;> exact h
  · exact h

theorem Adjusted.unlent (h : Adjusted s op p v) (hs : p ∈ s.live → (s.task p).piTopTask = none)
    (hop : ¬lends op) : v.piTopTask = none := by
  cases h with
  | kept live same => exact (congrArg (·.piTopTask) same).trans (hs live)
  | weighed live => exact hs live
  | @reniced _ nice live =>
    obtain ⟨prio,hv⟩ := renice_fields (s.task p) nice
    rw [hv]
    exact hs live
  | noted => exact not_not.mp hop
  | @lent _ donor piSe =>
    rw [(lent_fields s p donor piSe).2.2.2.2.1]
    exact not_not.mp hop
  | reset live => exact hs live
  | @committed p _ attr _ _ e live named _ =>
    cases hk : hasFlag attr.schedFlags schedFlagKeepParams with
    | true =>
      rw [committed,commitParams_keep e _ _ hk]
      exact hs live
    | false =>
      rw [committed,commitParams_lottery e _ _ named hk]
      exact hs live
  | born _ start same =>
    obtain ⟨c,hc,-⟩ := schedFork_class start
    refine (congrArg (·.piTopTask) same).trans ?_
    rw [hc]
    exact unclassed_unlent rfl

theorem NoneLent.step (hn : NoneLent s) (e : Env) (h : Inv b s r) (he : enabled b s op)
    (hop : ¬lends op) : Yields (exec b e op s) NoneLent := by
  intro t ht p hp
  exact Adjusted.unlent ((exec_adjusts e h he t ht).tasks p hp) (hn p) hop

/-- Only a request about a task makes a lottery task of it. -/
theorem Adjusted.enlists (h : Adjusted s op p v) (he : enabled b s op) (hp : p ∈ s.live)
    (hs : (s.task p).policy ≠ schedLottery) (hv : v.policy = schedLottery) :
    ∃ caller attr user pi, op = .schedSetscheduler caller p attr user pi := by
  cases h with
  | kept _ same => exact absurd ((congrArg (·.policy) same).symm.trans hv) hs
  | @reniced _ nice =>
    obtain ⟨prio,hren⟩ := renice_fields (s.task p) nice
    rw [hren] at hv
    exact absurd hv hs
  | @lent _ donor piSe =>
    rw [(lent_fields s p donor piSe).2.2.1] at hv
    exact absurd hv hs
  | committed => exact ⟨_,_,_,_,rfl⟩
  | born pid =>
    cases op with
    | kernelClone _ ce =>
      cases pid
      exact absurd hp he.1
    | createIoThread ce =>
      cases pid
      exact absurd hp he.2.1
    | _ => cases pid
  | _ => exact absurd hv hs

theorem NoneLent.plain (hn : NoneLent s) (h : Reachable b s) (hp : p ∈ s.live) :
    (s.task p).schedClass = .fair ∨ (s.task p).schedClass = .lottery := by
  obtain ⟨⟨r,hr⟩,-⟩ := reachable_inv h
  have hplaced := (reachable_placed h).each p hp
  rcases hplaced.policy with hnormal | hl
  · left
    rw [hplaced.placed hnormal,hplaced.unlent hnormal (hn p hp)]
    exact plainClass_fair hplaced.normal
  · exact .inr ((hr.tasks p hp).lottery.mp hl)

/-- Without real-time, deadline and stop tasks the shortcut of the pick is open at every
`__schedule` of another class's task, whatever waits in the lottery queue. -/
theorem fastPath_elsewhere (h : Inv b s r)
    (hplain : ∀ p ∈ s.live, (s.task p).schedClass = .fair ∨ (s.task p).schedClass = .lottery)
    (hc : ¬lotteryHasCpu s) (ht : beforePick b e preempt s = .ok t) :
    fastPath t s.rq.curr = true := by
  have hprev : (s.task s.rq.curr).schedClass ≤ .fair := by
    rcases h.curr with hi | hl
    · rw [hi,h.idleTask.idle]
      decide
    · rw [(hplain _ hl).resolve_right hc]
      decide
  obtain ⟨r',hat⟩ := (beforePick_spec e h).of_ok ht
  have hkept := beforePick_retains b e preempt s t ht
  have hnone : ∀ c, c ≠ .fair → c ≠ .lottery → r' c = [] := by
    intro c hf hl
    rw [List.eq_nil_iff_forall_not_mem]
    intro x hx
    obtain ⟨hlive,-,hclass⟩ := (hat.books.ready c x).mp hx
    rw [hat.same] at hclass
    rcases hplain x (hkept.live ▸ hlive) with hx | hx
    · exact hf (hclass.symm.trans hx)
    · exact hl (hclass.symm.trans hx)
  rw [fastPath_iff hat.books,hat.same]
  exact ⟨hprev,hnone _ (by decide) (by decide),hnone _ (by decide) (by decide),
    hnone _ (by decide) (by decide)⟩

/-- So the pick does not look at the lottery queue. -/
theorem schedule_elsewhere (e : Env) (preempt : Bool) (h : Inv b s r)
    (hplain : ∀ p ∈ s.live, (s.task p).schedClass = .fair ∨ (s.task p).schedClass = .lottery)
    (hc : ¬lotteryHasCpu s) : Yields (schedule b e preempt s) (fun t => ¬lotteryHasCpu t) := by
  refine Yields.bind (Q := fun t => (∃ r', AtPick b s r' t) ∧ fastPath t s.rq.curr = true) ?_
    fun t hspec => ?_
  · exact fun t ht => ⟨(beforePick_spec e h).of_ok ht,fastPath_elsewhere h hplain hc ht⟩
  obtain ⟨⟨r',hat⟩,hfast⟩ := hspec
  refine (pickNextTaskCore_yields (pickNextTask_fast e hat.books hfast).yields).bind
    fun a hspec => .ok ?_
  obtain ⟨hq,hf⟩ := hspec
  have hclass := found_class hat.books hf
  change ((switchTo a.1 a.2).task a.1).schedClass ≠ .lottery
  rw [show (switchTo a.1 a.2).task = t.task from hq.task,hclass]
  split <;> decide

theorem doSchedYield_elsewhere (e : Env) (h : Inv b s r) (hi : s.rq.curr ≠ s.rq.idle)
    (hplain : ∀ p ∈ s.live, (s.task p).schedClass = .fair ∨ (s.task p).schedClass = .lottery)
    (hc : ¬lotteryHasCpu s) : Yields (doSchedYield b e s) (fun t => ¬lotteryHasCpu t) := by
  refine (yieldHook_quiet b e h hi).yields.bind fun t ht => ?_
  refine schedule_elsewhere e false (h.quiet ht) ?_ ?_
  · rw [ht.live,ht.task]
    exact hplain
  · unfold lotteryHasCpu
    rw [ht.task,ht.curr]
    exact hc

/-- What brings the CPU to the lottery class has to disturb. -/
theorem Elsewhere.step (h : Elsewhere b s) (he : enabled b s op) (hop : ¬disturbs s op)
    (hrun : exec b e op s = .ok t) : Elsewhere b t := by
  obtain ⟨⟨r,hr⟩,-⟩ := reachable_inv h.reach
  have hlends : ¬lends op := by
    intro hl
    cases op with
    | rtMutexSetprio p donor => exact hop hl
    | _ => exact hl
  have hplain : ∀ p ∈ s.live, (s.task p).schedClass = .fair ∨ (s.task p).schedClass = .lottery :=
    fun p hp => NoneLent.plain h.unlent h.reach hp
  refine ⟨h.reach.step ⟨e,op,he,hrun⟩,NoneLent.step h.unlent e hr he hlends t hrun,?_⟩
  cases hs : switching op with
  | true =>
    cases op with
    | schedule preempt => exact schedule_elsewhere e preempt hr hplain h.elsewhere t hrun
    | schedYield => exact doSchedYield_elsewhere e hr he hplain h.elsewhere t hrun
    | _ => cases hs
  | false =>
    intro hc
    unfold lotteryHasCpu at hc
    rw [exec_curr e hr he hs t hrun] at hc
    obtain ⟨⟨r',hr'⟩,-⟩ := hr.step ⟨e,op,he,hrun⟩
    have hadj := exec_adjusts e hr he t hrun
    rcases hr.curr with hi | hl
    · rw [hi,← hadj.idle,hr'.idleTask.idle] at hc
      cases hc
    · have hlive : s.rq.curr ∈ t.live := by
        by_cases hrel : op = .releaseTask s.rq.curr
        · subst hrel
          exact absurd rfl he.2.2.2
        · exact exec_live e hr he hl hrel t hrun
      have hpol := (hr'.tasks _ hlive).lottery.mpr hc
      have hold : (s.task s.rq.curr).policy ≠ schedLottery :=
        fun hp => h.elsewhere ((hr.tasks _ hl).lottery.mp hp)
      obtain ⟨_,_,_,_,rfl⟩ := Adjusted.enlists (hadj.tasks _ hlive) he hl hold hpol
      exact hop rfl

end Steps

section Runs
variable {b : Build} {e : Env} {s t : Kernel} {r : Ready} {p : Tid} {op : Op}
  {ops : List (Env × Op)}

/-- A lottery task runs, and the CPU is taken from it. -/
theorem schedule_held (e : Env) (preempt : Bool) (h : Inv b s r) (hk : Ticketed s)
    (hn : ¬switchMisses b e s) (hc : lotteryHasCpu s) :
    Yields (schedule b e preempt s) (fun t => lotteryHasCpu t ∨ ∀ p, ¬waiting t .lottery p) := by
  refine (beforePick_spec e h).yields.bind fun t hspec => ?_
  obtain ⟨r',hat⟩ := hspec
  have hprev : (t.task s.rq.curr).schedClass = .lottery := (hat.same _).trans hc
  have hsmp : ¬(b.smp = true ∧ (t.task s.rq.curr).schedClass = .lottery) :=
    fun hm => hn (.inl ⟨hm.1,hc⟩)
  rw [pickNextTaskCore_alone fun hs => hn (.inr hs)]
  refine (pickNextTask_slow e hat.books (fastPath_lottery hprev) hsmp).yields.bind fun a hspec => .ok ?_
  obtain ⟨hq,-,hf⟩ := hspec
  have htop := hf (hat.books.stocked (hat.evolves.ticketed hk))
  have htask : (switchTo a.1 a.2).task = t.task := hq.task
  have hlive : (switchTo a.1 a.2).live = t.live := hq.live
  by_cases hempty : r' .lottery = []
  · right
    unfold waiting
    rw [htask,hlive]
    exact (hat.books.none_waiting .lottery).mpr hempty
  · left
    rw [top_lottery hempty] at htop
    have hclass := found_class hat.books htop
    unfold lotteryHasCpu
    rw [htask]
    exact hclass

/-- A task of the lottery class loses the CPU to another class only if nobody of its own
class is queued. -/
theorem lottery_held (h : Inv b s r) (hk : Ticketed s) (he : enabled b s op)
    (hrun : exec b e op s = .ok t) (hc : lotteryHasCpu s) :
    lotteryHasCpu t ∨ ∀ p, ¬waiting t .lottery p := by
  by_cases hn : hitsNullHook b e s op
  · obtain ⟨hook,herr⟩ := exec_missing e h he hn
    rw [herr] at hrun
    cases hrun
  have hi : s.rq.curr ≠ s.rq.idle := by
    intro hi
    rw [lotteryHasCpu,hi,h.idleTask.idle] at hc
    cases hc
  have hl := h.curr.resolve_left hi
  cases hs : switching op with
  | true =>
    cases op with
    | schedule preempt => exact schedule_held e preempt h hk hn hc t hrun
    | schedYield =>
      have hyield : Yields (doSchedYield b e s)
          (fun t => lotteryHasCpu t ∨ ∀ p, ¬waiting t .lottery p) := by
        refine (yieldHook_quiet b e h hi).yields.bind fun u hu => ?_
        have hsame : lotteryHasCpu u ↔ lotteryHasCpu s := by
          unfold lotteryHasCpu
          rw [hu.task,hu.curr]
        refine schedule_held e false (h.quiet hu) (hu.toFrame.evolves.ticketed hk) ?_ (hsame.mpr hc)
        exact fun hm => hn ((switchMisses_quiet hu).mp hm)
      exact hyield t hrun
    | _ => cases hs
  | false =>
    left
    have hlive : s.rq.curr ∈ t.live := by
      by_cases hrel : op = .releaseTask s.rq.curr
      · subst hrel
        exact absurd rfl he.2.2.2
      · exact exec_live e h he hl hrel t hrun
    have hpolicy := Adjusted.stays ((exec_adjusts e h he t hrun).tasks _ hlive) he hl
      ((h.tasks _ hl).lottery.mpr hc)
    obtain ⟨⟨r',hr'⟩,-⟩ := h.step ⟨e,op,he,hrun⟩
    unfold lotteryHasCpu
    rw [exec_curr e h he hs t hrun]
    exact (hr'.tasks _ hlive).lottery.mp hpolicy

/-- The lottery class in turn keeps the CPU as long as it can: a run that takes the CPU from
it to another class passes a state in which no lottery task is queued. -/
theorem lottery_lets_go (h : Reachable b s) (hr : runOps b ops s = .ok t) (hc : lotteryHasCpu s)
    (hc' : ¬lotteryHasCpu t) :
    ∃ ops₁ ops₂ u, ops = ops₁ ++ ops₂ ∧ runOps b ops₁ s = .ok u ∧ ¬lotteryHasCpu u ∧
      ∀ p, ¬waiting u .lottery p := by
  induction ops generalizing s with
  | nil =>
    cases hr
    exact absurd hc hc'
  | cons eop ops ih =>
    obtain ⟨e,op⟩ := eop
    simp only [runOps] at hr
    split at hr
    next he =>
      obtain ⟨u,hu,hr⟩ := bind_eq_ok.mp hr
      obtain ⟨⟨r,hinv⟩,hk⟩ := reachable_inv h
      by_cases hcu : lotteryHasCpu u
      · obtain ⟨ops₁,ops₂,v,rfl,hrun,hv⟩ := ih (h.step ⟨e,op,he,hu⟩) hr hcu
        exact ⟨(e,op) :: ops₁,ops₂,v,rfl,by rw [runOps_cons he hu]; exact hrun,hv⟩
      · have hnone := (lottery_held hinv hk he hu hc).resolve_left hcu
        exact ⟨[(e,op)],ops,u,rfl,by rw [runOps_cons he hu]; rfl,hcu,hnone⟩
    next => cases hr

/-- The only lottery task goes to sleep. -/
theorem lottery_lets_go_sleeps : ∃ ops₁ ops₂ u, sleepOps = ops₁ ++ ops₂ ∧
    runOps .versatile ops₁ lotteryRuns = .ok u ∧ ¬lotteryHasCpu u ∧
    ∀ p, ¬waiting u .lottery p :=
  lottery_lets_go lotteryRuns_reachable
    (runOps_rest lotteryRunsOps sleepOps (by decide +kernel) (by decide +kernel))
    (by decide +kernel) (by decide +kernel)

end Runs

end LotteryScheduler.Properties
