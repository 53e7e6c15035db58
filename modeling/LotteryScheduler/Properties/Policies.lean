import LotteryScheduler.Proofs.Sleepers

namespace LotteryScheduler.Properties
open Lib Model Proofs

/-- The class of a priority outside the lottery policy. -/
def plainClass (prio : Int) : SchedClass :=
  if dlPrio prio then .dl else if rtPrio prio then .rt else .fair

/-- A task of one of the two policies that can be had, with an ordinary priority of its own. -/
structure Grounded (t : TaskStruct) : Prop where
  policy : t.policy = schedNormal ∨ t.policy = schedLottery
  normal : rtPrio t.normalPrio = false

/-- A task of the normal policy is in the class of its priority, and has no other priority
than its own unless somebody lends it one. -/
structure Placed (t : TaskStruct) : Prop extends Grounded t where
  placed : t.policy = schedNormal → t.schedClass = plainClass t.prio
  unlent : t.policy = schedNormal → t.piTopTask = none → t.prio = t.normalPrio

section Tasks
variable {s : Kernel} {p : Tid} {t v w cur : TaskStruct} {prio : Int}

theorem setschedulerPrio_plain (h : t.policy = schedNormal) (prio : Int) :
    (setschedulerPrio t prio).schedClass = plainClass prio := by
  have hne : t.policy ≠ schedLottery := by rw [h]; decide
  unfold setschedulerPrio plainClass
  rw [if_neg hne]
  split
  · rfl
  split <;> rfl

theorem plainClass_fair (h : rtPrio prio = false) : plainClass prio = .fair := by
  have hd : dlPrio prio = false := by
    rw [rtPrio_false] at h
    rw [Bool.eq_false_iff,ne_eq,dlPrio_iff]
    omega
  simp [plainClass,h,hd]

theorem plainClass_cases (prio : Int) :
    plainClass prio = .fair ∨ plainClass prio = .rt ∨ plainClass prio = .dl := by
  unfold plainClass
  split
  · simp
  split <;> simp

theorem Grounded.congr (h : Grounded w) (hv : settings v = settings w) : Grounded v := by
  have hpolicy : v.policy = w.policy := congrArg (·.policy) hv
  have hnormal : v.normalPrio = w.normalPrio := congrArg (·.normalPrio) hv
  exact ⟨hpolicy ▸ h.policy,hnormal ▸ h.normal⟩

theorem Placed.congr (h : Placed w) (hv : settings v = settings w) : Placed v := by
  have hpolicy : v.policy = w.policy := congrArg (·.policy) hv
  have hclass : v.schedClass = w.schedClass := congrArg (·.schedClass) hv
  have hprio : v.prio = w.prio := congrArg (·.prio) hv
  have hnormal : v.normalPrio = w.normalPrio := congrArg (·.normalPrio) hv
  have htop : v.piTopTask = w.piTopTask := congrArg (·.piTopTask) hv
  refine ⟨h.toGrounded.congr hv,fun hn => ?_,fun hn ht => ?_⟩
  · rw [hclass,hprio]
    exact h.placed (hpolicy ▸ hn)
  · rw [hprio,hnormal]
    exact h.unlent (hpolicy ▸ hn) (htop ▸ ht)

theorem Placed.renice (h : Placed v) (hl : minNice ≤ nice) (hu : nice ≤ maxNice) :
    Placed (renice v nice) := by
  have hplain : dlPolicy v.policy = false ∧ rtPolicy v.policy = false := by
    rcases h.policy with hp | hp <;> rw [hp] <;> decide
  have hnormal : normalPrio { v with staticPrio := niceToPrio nice } = niceToPrio nice := by
    unfold normalPrio normalPrioOf
    simp only [hplain,Bool.false_eq_true,↓reduceIte,prioToNice_niceToPrio hl hu]
  have hnew := niceToPrio_plain hl hu
  unfold Model.renice effectivePrio
  simp only [hnormal]
  split
  next hr =>
    have hr : rtPrio v.prio = false := by simpa using hr
    refine ⟨⟨h.policy,hnew⟩,fun hn => ?_,fun _ _ => rfl⟩
    rw [plainClass_fair hnew,← plainClass_fair hr]
    exact h.placed hn
  next hr =>
    refine ⟨⟨h.policy,hnew⟩,h.placed,fun hn ht => absurd ?_ hr⟩
    rw [h.unlent hn ht,h.normal]
    rfl

theorem Placed.commit (h : Placed v) (hg : Graded v) (e : Env) (prio : Int)
    (hn : attr.schedPolicy = schedLottery) : Placed (commitParams e v attr prio) := by
  cases hk : hasFlag attr.schedFlags schedFlagKeepParams with
  | true =>
    rw [commitParams_keep e v prio hk]
    exact h
  | false =>
    obtain ⟨nice,hl,hu,hs⟩ := hg.level
    have hne : schedLottery ≠ schedNormal := by decide
    rw [commitParams_lottery e v prio hn hk]
    refine ⟨⟨.inr rfl,?_⟩,fun hc => absurd hc hne,fun hc => absurd hc hne⟩
    rw [hs,prioToNice_niceToPrio hl hu]
    exact niceToPrio_plain hl hu

/-- What a lent priority makes of a task: the class follows it, and without a lender it
is the task's own. -/
theorem Placed.lent (h : Placed (s.task p)) (donor : Option Tid) (piSe : Tid) :
    Placed (lent s p donor piSe) := by
  obtain ⟨-,-,hpolicy,hnormal,htop,-,hprio⟩ := lent_fields s p donor piSe
  refine ⟨⟨hpolicy ▸ h.policy,by rw [hnormal]; exact h.normal⟩,fun hn => ?_,fun _ ht => ?_⟩
  · rw [hprio]
    exact setschedulerPrio_plain (t := { s.task p with
      piTopTask := donor
      dl := { (s.task p).dl with piSe }
      rtTimeout := boostTimeout (s.task p) _ (s.task p).prio }) (hpolicy.symm.trans hn) _
  · rw [htop] at ht
    rw [hprio,hnormal,ht]
    rfl

theorem resetOnFork_grounded (h : Grounded t) (hg : Graded t) : Grounded (resetOnFork t) := by
  have hzero : rtPrio (niceToPrio 0) = false := by decide
  obtain ⟨nice,hl,hu,hn⟩ := hg.level
  have hplain := niceToPrio_plain hl hu
  rw [← hn] at hplain
  unfold resetOnFork
  dsimp only
  split
  · exact ⟨.inl rfl,hzero⟩
  split
  · exact ⟨h.policy,hzero⟩
  · exact ⟨h.policy,hplain⟩

theorem Placed.schedFork (h : Grounded v) (hg : Graded v) (hn : cur.normalPrio = v.normalPrio)
    (start : (schedFork cur self v).1 = 0) : Placed (schedFork cur self v).2 := by
  obtain ⟨c,hc,hclass⟩ := schedFork_class start
  have hprio := (unclassed_kept self hn).2.2.2
  have hground : Grounded (unclassed cur self v) := by
    unfold unclassed
    dsimp only
    split
    · exact resetOnFork_grounded ⟨h.policy,h.normal⟩ ⟨hg.level,fun _ => by
        rw [hn]
        exact h.normal⟩
    · exact ⟨h.policy,h.normal⟩
  rw [hc]
  refine ⟨⟨hground.policy,hground.normal⟩,fun hp => ?_,fun _ _ => hprio⟩
  dsimp only at hp ⊢
  have hplain := hprio ▸ hground.normal
  rcases hclass with ⟨hl,-⟩ | ⟨-,-,⟨hr,-⟩ | ⟨-,rfl⟩⟩
  · rw [hl] at hp
    cases hp
  · rw [hplain] at hr
    cases hr
  · rw [plainClass_fair hplain]

end Tasks

/-- What holds of all tasks between two operations. -/
structure PlacedAll (s : Kernel) : Prop extends GradedAll s where
  each : ∀ p ∈ s.live, Placed (s.task p)

section Runs
variable {b : Build} {s t : Kernel} {r : Ready} {p : Tid} {op : Op} {v : TaskStruct}

theorem PlacedAll.curr (hg : PlacedAll s) (h : Books b s r) : Grounded (s.task s.rq.curr) := by
  rcases h.curr with hi | hl
  · have hboot : Grounded bootTask := ⟨.inl rfl,by decide⟩
    rw [hi]
    exact hboot.congr hg.boot
  · exact (hg.each _ hl).toGrounded

theorem Placed.adjusted (hg : PlacedAll s) (hi : Inv b s r) (h : Adjusted s op p v)
    (hn : ∀ donor, op ≠ .rtMutexSetprio p donor) : Placed v := by
  cases h with
  | kept live same => exact (hg.each p live).congr same
  | weighed live =>
    have h := hg.each p live
    exact ⟨⟨h.policy,h.normal⟩,h.placed,h.unlent⟩
  | reniced live low high => exact (hg.each p live).renice low high
  | noted => exact absurd rfl (hn _)
  | lent => exact absurd rfl (hn _)
  | reset live =>
    have h := hg.each p live
    exact ⟨⟨h.policy,h.normal⟩,h.placed,h.unlent⟩
  | @committed p _ attr _ _ e live named _ =>
    have h := hg.each p live
    have hreset : Placed { s.task p with
        schedResetOnFork := requestedReset (s.task p) attr } :=
      ⟨⟨h.policy,h.normal⟩,h.placed,h.unlent⟩
    have hgraded : Graded { s.task p with
        schedResetOnFork := requestedReset (s.task p) attr } :=
      ⟨(hg.tasks p live).level,(hg.tasks p live).ordinary⟩
    exact hreset.commit hgraded e _ named
  | born _ start same =>
    have hcurr := hg.curr hi.toBooks
    have hgraded := hg.toGradedAll.curr hi.toBooks
    have hchild : Placed (Model.schedFork (s.task s.rq.curr) p
        { s.task s.rq.curr with piTopTask := none }).2 :=
      .schedFork ⟨hcurr.policy,hcurr.normal⟩ ⟨hgraded.level,hgraded.ordinary⟩ rfl start
    exact hchild.congr same

/-- A task gives up a lent priority when it gives up the lender. -/
theorem Placed.inherits (h : Placed (s.task p)) (hi : Inherits b p donor s r t) :
    Placed (t.task p) := by
  cases hi with
  | same => exact h
  | noted prio _ changed =>
    rw [changed.task_self]
    refine ⟨⟨h.policy,h.normal⟩,h.placed,fun _ ht => ?_⟩
    dsimp only at ht ⊢
    rw [← prio,ht]
    rfl
  | moved _ _ changed =>
    rw [changed.task_self]
    exact h.lent donor _

theorem PlacedAll.step (hg : PlacedAll s) (h : Inv b s r) (hs : Step b s t) : PlacedAll t := by
  refine ⟨hg.toGradedAll.step h hs,fun p hp => ?_⟩
  obtain ⟨e,op,he,hrun⟩ := hs
  have hadjusts := exec_adjusts e h he t hrun
  by_cases hn : ∀ donor, op ≠ .rtMutexSetprio p donor
  · exact .adjusted hg h (hadjusts.tasks p hp) hn
  · obtain ⟨donor,rfl⟩ := not_forall_not.mp hn
    exact (hg.each p he).inherits ((rtMutexSetprio_inherits e donor h he).of_ok hrun)

theorem reachable_placed (h : Reachable b s) : PlacedAll s := by
  induction h with
  | init => exact ⟨reachable_graded (Reachable.init (b := b)),nofun⟩
  | step before last ih =>
    obtain ⟨⟨r,hr⟩,-⟩ := reachable_inv before
    exact ih.step hr last

/-- Of the seven policies only two are ever had. A task of the normal policy is in the fair
class unless a better priority is lent to it, and nothing but a lender brings a task into
the real-time or the deadline class. -/
theorem two_policies (h : Reachable b s) (hp : p ∈ s.live) :
    ((s.task p).policy = schedNormal ∨ (s.task p).policy = schedLottery) ∧
      ((s.task p).schedClass = .lottery ↔ (s.task p).policy = schedLottery) ∧
      ((s.task p).schedClass = .fair ∨ (s.task p).schedClass = .lottery ∨
        (((s.task p).schedClass = .rt ∨ (s.task p).schedClass = .dl) ∧
          ∃ d, (s.task p).piTopTask = some d)) := by
  obtain ⟨⟨r,hr⟩,-⟩ := reachable_inv h
  have hplaced := (reachable_placed h).each p hp
  have hlottery := (hr.tasks p hp).lottery
  refine ⟨hplaced.policy,hlottery.symm,?_⟩
  rcases hplaced.policy with hn | hl
  · have hclass := hplaced.placed hn
    rw [hclass]
    rcases plainClass_cases (s.task p).prio with hc | hc
    · exact .inl hc
    · refine .inr (.inr ⟨hc,Option.ne_none_iff_exists'.mp fun ht => ?_⟩)
      rw [hplaced.unlent hn ht,plainClass_fair hplaced.normal] at hc
      rcases hc with hc | hc <;> cases hc
  · exact .inr (.inl (hlottery.mp hl))

theorem two_policies_fair :
    ((lotteryRunsAlongFair.task 2).policy = schedNormal ∨
      (lotteryRunsAlongFair.task 2).policy = schedLottery) ∧
      ((lotteryRunsAlongFair.task 2).schedClass = .lottery ↔
        (lotteryRunsAlongFair.task 2).policy = schedLottery) ∧
      ((lotteryRunsAlongFair.task 2).schedClass = .fair ∨
        (lotteryRunsAlongFair.task 2).schedClass = .lottery ∨
        (((lotteryRunsAlongFair.task 2).schedClass = .rt ∨
          (lotteryRunsAlongFair.task 2).schedClass = .dl) ∧
          ∃ d, (lotteryRunsAlongFair.task 2).piTopTask = some d)) :=
  two_policies lotteryRunsAlongFair_reachable (by decide +kernel)

/-- Only its release takes a task away. -/
theorem exec_live (e : Env) (h : Inv b s r) (he : enabled b s op) (hp : p ∈ s.live)
    (hn : op ≠ .releaseTask p) : Yields (exec b e op s) (fun t => p ∈ t.live) := by
  by_cases hown : ownOp p s op
  · cases op with
    | setCurrentState state => exact .ok hp
    | schedule preempt => exact (schedule_retains b e preempt s).mono fun _ ht => ht.live ▸ hp
    | schedYield => exact (doSchedYield_retains b e s).mono fun _ ht => ht.live ▸ hp
    | releaseTask x =>
      obtain rfl : x = p := hown
      exact absurd rfl hn
    | _ => exact absurd hown id
  · exact (exec_passive e h he hp hown).mono fun _ ht => ht.live

/-- No operation makes another task of a lottery task. -/
theorem Adjusted.stays (h : Adjusted s op p v) (he : enabled b s op) (hp : p ∈ s.live)
    (hl : (s.task p).policy = schedLottery) : v.policy = schedLottery := by
  cases h with
  | kept _ same => exact (congrArg (·.policy) same).trans hl
  | @reniced p nice =>
    obtain ⟨prio,hv⟩ := renice_fields (s.task p) nice
    rw [hv]
    exact hl
  | @lent p donor piSe => exact (lent_fields s p donor piSe).2.2.1.trans hl
  | committed _ _ other => exact absurd hl other
  | born pid =>
    cases op with
    | kernelClone _ ce =>
      cases pid
      exact absurd hp he.1
    | createIoThread ce =>
      cases pid
      exact absurd hp he.2.1
    | _ => cases pid
  | _ => exact hl

/-- The lottery policy is for good: whatever the operations, a task that has it keeps it,
its class and its tickets until it is released. -/
theorem lottery_for_good (h : Reachable b s) (hr : runOps b ops s = .ok t) (hp : p ∈ s.live)
    (hl : (s.task p).policy = schedLottery) (hstay : ∀ x ∈ ops, x.2 ≠ .releaseTask p) :
    p ∈ t.live ∧ (t.task p).policy = schedLottery ∧ (t.task p).schedClass = .lottery ∧
      (t.task p).tickets = 5 := by
  have hreach := h.runOps hr
  suffices p ∈ t.live ∧ (t.task p).policy = schedLottery by
    obtain ⟨⟨r,hinv⟩,hk⟩ := reachable_inv hreach
    exact ⟨this.1,this.2,(hinv.tasks p this.1).lottery.mp this.2,hk p this.1⟩
  clear hreach
  induction ops generalizing s with
  | nil =>
    cases hr
    exact ⟨hp,hl⟩
  | cons eop ops ih =>
    obtain ⟨e,op⟩ := eop
    simp only [runOps] at hr
    split at hr
    next he =>
      obtain ⟨u,hu,hr⟩ := bind_eq_ok.mp hr
      obtain ⟨⟨r,hinv⟩,-⟩ := reachable_inv h
      have hlive := exec_live e hinv he hp (hstay (e,op) List.mem_cons_self) u hu
      have hadjusted := (exec_adjusts e hinv he u hu).tasks p hlive
      refine ih (h.step ⟨e,op,he,hu⟩) hr hlive (Adjusted.stays hadjusted he hp hl) ?_
      exact fun x hx => hstay x (List.mem_cons_of_mem _ hx)
    next => cases hr

/-- A lottery task gets another nice value, is asked to be an ordinary task, and yields. -/
def triesToLeave : List (Env × Op) :=
  [(.quiet,.setUserNice 1 5),
    (.quiet,.schedSetscheduler .plain 1 { schedPolicy := schedNormal } true true),
    (.quiet,.schedYield)]

theorem lottery_for_good_yields :
    1 ∈ (after .versatile (lotteryRunsOps ++ triesToLeave)).live ∧
      ((after .versatile (lotteryRunsOps ++ triesToLeave)).task 1).policy = schedLottery ∧
      ((after .versatile (lotteryRunsOps ++ triesToLeave)).task 1).schedClass = .lottery ∧
      ((after .versatile (lotteryRunsOps ++ triesToLeave)).task 1).tickets = 5 :=
  lottery_for_good lotteryRuns_reachable
    (runOps_rest lotteryRunsOps triesToLeave (by decide +kernel) (by decide +kernel))
    (by decide +kernel) (by decide +kernel) (by simp [triesToLeave])

end Runs

end LotteryScheduler.Properties
