import LotteryScheduler.Model.Syscalls
import LotteryScheduler.Properties.Policies

namespace LotteryScheduler.Properties
open Lib Model Proofs

section Nice

/-- A run in which nobody but the tasks themselves changes nice values: they do it without
the capability, under this limit. -/
inductive NiceRun (b : Build) (rlimit : Nat) (s : Kernel) : Kernel → Prop where
  | refl : NiceRun b rlimit s s
  | other (before : NiceRun b rlimit s t) (may : enabled b t op)
    (plain : ∀ p nice, op ≠ .setUserNice p nice) (run : exec b e op t = .ok u) :
    NiceRun b rlimit s u
  | nice (before : NiceRun b rlimit s t) (running : t.rq.curr ≠ t.rq.idle)
    (unprivileged : caller.capSysNice = false) (limit : caller.rlimitNice ≤ rlimit)
    (run : sysNice b e caller security increment t = .ok (retval,u)) : NiceRun b rlimit s u

variable {b : Build} {e : Env} {s t : Kernel} {r : Ready} {p : Tid} {op : Op}
  {v w cur : TaskStruct} {caller : Caller} {nice floor : Int} {rlimit : Nat}

theorem canNice_bound (hcap : caller.capSysNice = false) (hl : minNice ≤ nice)
    (hu : nice ≤ maxNice) (h : canNice caller nice = true) : 20 - nice ≤ caller.rlimitNice := by
  simp only [minNice,maxNice] at hl hu
  have hlimit : niceToRlimit nice = 20 - nice := by
    unfold niceToRlimit maxNice
    rw [toInt32_of_range (by omega) (by omega)]
    omega
  rw [canNice,hcap,hlimit,Bool.or_false,decide_eq_true_eq] at h
  omega

theorem taskNice_of_static (h : v.staticPrio = niceToPrio nice) (hl : minNice ≤ nice)
    (hu : nice ≤ maxNice) : taskNice v = nice := by
  rw [taskNice,h]
  exact prioToNice_niceToPrio hl hu

theorem taskNice_settings (h : settings v = settings w) : taskNice v = taskNice w := by
  have hstatic : v.staticPrio = w.staticPrio := congrArg (·.staticPrio) h
  rw [taskNice,hstatic,taskNice]

theorem schedFork_nice (start : (schedFork cur p v).1 = 0) :
    taskNice (schedFork cur p v).2 = taskNice v ∨ taskNice (schedFork cur p v).2 = 0 := by
  obtain ⟨c,hc,-⟩ := schedFork_class start
  rw [hc]
  rcases unclassed_static cur p v with hs | hs
  · exact .inl (congrArg prioToNice hs)
  · exact .inr (taskNice_of_static hs (by decide) (by decide))

/-- An operation gives no nice value but the parent's and zero, unless it is about nice
values. -/
theorem Adjusted.nice_cases (h : Adjusted s op p v) :
    taskNice v = 0 ∨ taskNice v = taskNice (s.task s.rq.curr) ∨
      (p ∈ s.live ∧ taskNice v = taskNice (s.task p)) ∨ op = .setUserNice p (taskNice v) := by
  cases h with
  | kept live same => exact .inr (.inr (.inl ⟨live,taskNice_settings same⟩))
  | @weighed p nice live low high =>
    have hv : taskNice { s.task p with staticPrio := niceToPrio nice } = nice :=
      taskNice_of_static rfl low high
    rw [hv]
    exact .inr (.inr (.inr rfl))
  | @reniced p nice live low high =>
    obtain ⟨prio,hren⟩ := renice_fields (s.task p) nice
    have hv : taskNice (renice (s.task p) nice) = nice :=
      taskNice_of_static (by rw [hren]) low high
    rw [hv]
    exact .inr (.inr (.inr rfl))
  | noted live => exact .inr (.inr (.inl ⟨live,rfl⟩))
  | lent live =>
    refine .inr (.inr (.inl ⟨live,?_⟩))
    unfold lent taskNice
    dsimp only
    rw [setschedulerPrio_fields]
  | reset live => exact .inr (.inr (.inl ⟨live,rfl⟩))
  | @committed p _ attr _ _ e live named _ =>
    refine .inr (.inr (.inl ⟨live,?_⟩))
    cases hk : hasFlag attr.schedFlags schedFlagKeepParams with
    | true => rw [committed,commitParams_keep e _ _ hk]; rfl
    | false => rw [committed,commitParams_lottery e _ _ named hk]; rfl
  | born _ start same =>
    have hv := taskNice_settings same
    rcases schedFork_nice start with hn | hn
    · exact .inr (.inl (hv.trans hn))
    · exact .inl (hv.trans hn)

/-- What no operation changes but `set_user_nice`, it keeps above a floor. -/
theorem exec_floor (h : Reachable b s) (he : enabled b s op) (hrun : exec b e op s = .ok t)
    (hzero : floor ≤ 0) (hfloor : ∀ p ∈ s.live, floor ≤ taskNice (s.task p))
    (hset : ∀ p nice, op = .setUserNice p nice → floor ≤ nice) :
    ∀ p ∈ t.live, floor ≤ taskNice (t.task p) := by
  obtain ⟨⟨r,hr⟩,-⟩ := reachable_inv h
  have hg := reachable_graded h
  intro p hp
  rcases Adjusted.nice_cases ((exec_adjusts e hr he t hrun).tasks p hp) with
    hv | hv | ⟨hl,hv⟩ | hop
  · rw [hv]
    exact hzero
  · rw [hv]
    rcases hr.curr with hi | hl
    · have hboot : taskNice (s.task s.rq.idle) = taskNice bootTask := taskNice_settings hg.boot
      rw [hi,hboot]
      exact hzero
    · exact hfloor _ hl
  · rw [hv]
    exact hfloor p hl
  · exact hset p _ hop

/-- The nice value that `sys_nice` asks for is above the caller's or within its limit. -/
theorem sysNice_asks (hcap : caller.capSysNice = false) (hstart : floor ≤ taskNice v)
    (hzero : floor ≤ 0) (hlimit : floor ≤ 20 - caller.rlimitNice)
    (h : ¬(max (-niceWidth) (min increment niceWidth) < 0 ∧ canNice caller (max minNice
      (min (taskNice v + max (-niceWidth) (min increment niceWidth)) maxNice)) = false)) :
    floor ≤ max minNice
      (min (taskNice v + max (-niceWidth) (min increment niceWidth)) maxNice) := by
  generalize hinc : max (-niceWidth) (min increment niceWidth) = inc at h ⊢
  by_cases hneg : inc < 0
  · have hmay : canNice caller (max minNice (min (taskNice v + inc) maxNice)) = true := by
      simpa [hneg] using h
    have hcan := canNice_bound hcap (by simp only [minNice,maxNice]; omega)
      (by simp only [minNice,maxNice]; omega) hmay
    omega
  · simp only [minNice,maxNice]
    omega

/-- `sys_nice` answers without an effect, or it is one call of `set_user_nice`. -/
theorem sysNice_cases (hcap : caller.capSysNice = false) (hstart : floor ≤ taskNice (s.task s.rq.curr))
    (hzero : floor ≤ 0) (hlimit : floor ≤ 20 - caller.rlimitNice)
    (hrun : sysNice b e caller security increment s = .ok (retval,t)) :
    t = s ∨ ∃ nice, floor ≤ nice ∧ exec b e (.setUserNice s.rq.curr nice) s = .ok t := by
  unfold sysNice at hrun
  dsimp only at hrun
  split at hrun
  · cases hrun
    exact .inl rfl
  next hmay =>
    split at hrun
    · cases hrun
      exact .inl rfl
    · obtain ⟨u,hu,hrun⟩ := bind_eq_ok.mp hrun
      cases hrun
      exact .inr ⟨_,sysNice_asks hcap hstart hzero hlimit (by simpa using hmay),hu⟩

/-- No run of unprivileged tasks takes a nice value below those it started with and below
what the limit of the tasks allows, whatever else the scheduler does meanwhile. -/
theorem nice_floor (h : Reachable b s) (hrun : NiceRun b rlimit s t) (hzero : floor ≤ 0)
    (hlimit : floor ≤ 20 - rlimit) (hfloor : ∀ p ∈ s.live, floor ≤ taskNice (s.task p)) :
    ∀ p ∈ t.live, floor ≤ taskNice (t.task p) := by
  suffices Reachable b t ∧ ∀ p ∈ t.live, floor ≤ taskNice (t.task p) from this.2
  induction hrun with
  | refl => exact ⟨h,hfloor⟩
  | other _ may plain run ih =>
    have hnice := exec_floor ih.1 may run hzero ih.2 fun p nice hop => absurd hop (plain p nice)
    exact ⟨ih.1.step ⟨_,_,may,run⟩,hnice⟩
  | @nice t _ _ _ _ _ u _ running unprivileged limit run ih =>
    obtain ⟨⟨r,hr⟩,-⟩ := reachable_inv ih.1
    have hlive := hr.curr.resolve_left running
    rcases sysNice_cases unprivileged (ih.2 _ hlive) hzero (by omega) run with
      rfl | ⟨nice,hasked,hset⟩
    · exact ih
    have he : enabled b t (.setUserNice t.rq.curr nice) := hlive
    refine ⟨ih.1.step ⟨_,_,he,hset⟩,exec_floor ih.1 he hset hzero ih.2 ?_⟩
    intro p new hop
    cases hop
    exact hasked

/-- A task that was cloned runs and makes itself less important. -/
def fairRuns : Kernel := after .versatile (spawn 1 ++ [(.quiet,.schedule true)])

theorem fairRuns_reachable : Reachable .versatile fairRuns := .after (by decide +kernel)

def niced : Kernel :=
  ((sysNice .versatile .quiet .plain 0 5 fairRuns).toOption.getD (0,fairRuns)).2

theorem niced_run : NiceRun .versatile 0 fairRuns niced := by
  have hrun : sysNice .versatile .quiet .plain 0 5 fairRuns = .ok _ :=
    ok_getD (by decide +kernel) (0,fairRuns)
  exact .nice .refl (by decide +kernel) rfl (Nat.le_refl 0) hrun

theorem nice_floor_niced : 0 ≤ taskNice (niced.task 1) :=
  nice_floor fairRuns_reachable niced_run (by decide) (by decide) (by decide +kernel) 1
    (by decide +kernel)

end Nice

section Sysrq
variable {b : Build} {e : Tid → Env} {s t : Kernel} {r : Ready} {p : Tid} {caller : Caller}
  {kthread : Tid → Bool} {ps : List Tid} {nice : Int}

/-- Which tasks wait where is as it was. -/
def SameWaiting (s t : Kernel) : Prop := ∀ c p, waiting t c p ↔ waiting s c p

/-- A nice value is written to one task, which stays in its class and on its queue. -/
theorem setUserNice_written (b : Build) (e : Env) (p : Tid) (hl : minNice ≤ nice)
    (hu : nice ≤ maxNice) (s : Kernel) : Yields (setUserNice b e p nice s) (fun t =>
      ∃ v, Written s p v t ∧ v.onRq = (s.task p).onRq ∧ v.schedClass = (s.task p).schedClass ∧
        v.policy = (s.task p).policy ∧ taskNice v = nice) := by
  have hclock := (updateRqClock_quiet e s).toFrame
  have hstatic : prioToNice (niceToPrio nice) = nice := prioToNice_niceToPrio hl hu
  unfold setUserNice
  split
  next hsame =>
    have hnice : taskNice (s.task p) = nice := by
      rcases hsame with hn | hn | hn <;> omega
    exact .ok ⟨_,(Frame.refl s).written p,rfl,rfl,rfl,hnice⟩
  dsimp only
  split
  · refine .ok ⟨_,(hclock.written p).trans (Written.setTask _ p _),?_⟩
    rw [hclock.task]
    exact ⟨rfl,rfl,rfl,hstatic⟩
  · refine (takeOff_frame b e p _ _ _ _).bind fun t ht => ?_
    obtain ⟨prio,hv⟩ := renice_fields (t.task p) nice
    refine (putBack_frame b e p _ _ _ _).bind fun u hu => ?_
    refine (callHook_frame b e _ _ p u).mono fun w hw => ?_
    have hoff := hclock.trans ht
    have hset := ((hoff.written p).trans (Written.setTask t p _)).frame hu
    refine ⟨_,hset.frame hw,?_⟩
    rw [hv,hoff.task]
    exact ⟨rfl,rfl,rfl,hstatic⟩

/-- The request that should bring a task back to the normal policy is refused. -/
theorem normal_refused (b : Build) (e : Env) (caller : Caller) (p : Tid) (s : Kernel) :
    schedSetscheduler b e caller p { schedPolicy := schedNormal } false false s =
      .ok (-einval,s) := by
  have hrequest : admission e caller (s.task p) { schedPolicy := schedNormal } false =
      -einval := by
    have hknown : hasFlag 0 (~~~(schedFlagAll ||| schedFlagSugov)) = false := by decide
    simp [admission,checkRequest,effectivePolicy,validPolicy,ltrPolicy,fairPolicy,dlPolicy,
      rtPolicy,schedNormal,schedFifo,schedRr,schedDeadline,schedLottery,maxRtPrio,einval,hknown]
  unfold schedSetscheduler
  rw [if_neg (by simp),if_pos (by rw [hrequest]; decide),hrequest]

/-- What becomes of one task: kernel threads and tasks with a lent real-time priority are
left alone. -/
def NormalizedTask (kthread : Tid → Bool) (s t : Kernel) (p : Tid) : Prop :=
  if kthread p ∨ rtPrio (s.task p).prio then t.task p = s.task p
  else taskNice (t.task p) = max (taskNice (s.task p)) 0

theorem NormalizedTask.skipped (h : kthread p ∨ rtPrio (s.task p).prio) :
    NormalizedTask kthread s s p := by rw [NormalizedTask,if_pos h]

/-- What becomes of all tasks when the loop goes over some of them. -/
structure NormalizedAll (b : Build) (kthread : Tid → Bool) (ps : List Tid) (s t : Kernel) :
    Prop where
  inv : ∃ r, Inv b t r
  live : t.live = s.live
  kept : ∀ x, (t.task x).onRq = (s.task x).onRq ∧ (t.task x).schedClass = (s.task x).schedClass ∧
    (t.task x).policy = (s.task x).policy
  others : ∀ x, x ∉ ps → t.task x = s.task x
  each : ∀ x ∈ ps, NormalizedTask kthread s t x

theorem normalizeTask_spec (e : Env) (h : Inv b s r) (hp : p ∈ s.live) :
    Returns (normalizeTask b e caller (kthread p) p s) (NormalizedAll b kthread [p] s) := by
  have hsame : NormalizedTask kthread s s p → NormalizedAll b kthread [p] s s := by
    intro hdone
    refine ⟨⟨r,h⟩,rfl,fun _ => ⟨rfl,rfl,rfl⟩,fun _ _ => rfl,fun x hx => ?_⟩
    rw [List.mem_singleton.mp hx]
    exact hdone
  unfold normalizeTask
  dsimp only
  split
  next hk => exact .ok (hsame (.skipped (.inl hk)))
  next hk =>
    split
    next hplain =>
      simp only [Bool.and_eq_true,Bool.not_eq_true'] at hplain
      have hn : ¬(kthread p = true ∨ rtPrio (s.task p).prio = true) := by simp [hk,hplain]
      refine .applyIf (fun hneg => ?_) fun hpos => hsame ?_
      · obtain ⟨t,ht,hdone⟩ := setUserNice_spec e 0 h hp
        obtain ⟨v,hw,hq,hc,hpolicy,hnice⟩ :=
          setUserNice_written b e p (by decide : minNice ≤ 0) (by decide) s t ht
        refine ⟨t,ht,hdone.1,hw.live,fun x => ?_,fun x hx => hw.other (by simpa using hx),
          fun x hx => ?_⟩
        · rcases eq_or_ne x p with rfl | hne
          · rw [hw.self]
            exact ⟨hq,hc,hpolicy⟩
          · rw [hw.other hne]
            exact ⟨rfl,rfl,rfl⟩
        · rw [List.mem_singleton.mp hx,NormalizedTask,if_neg hn,hw.self,hnice]
          omega
      · rw [NormalizedTask,if_neg hn]
        omega
    next hboosted =>
      have hrt : rtPrio (s.task p).prio = true := by
        by_contra hr
        refine hboosted ?_
        rw [Bool.not_eq_true,rtPrio_false] at hr
        have hd : dlPrio (s.task p).prio = false := by
          rw [Bool.eq_false_iff,ne_eq,dlPrio_iff]
          omega
        simp [hd,rtPrio_false,hr]
      rw [normal_refused]
      exact .ok (hsame (.skipped (.inr hrt)))

theorem normalizeRtTasks_spec (h : Inv b s r) (hps : ∀ p ∈ ps, p ∈ s.live) (hu : ps.Nodup) :
    Returns (normalizeRtTasks b e caller kthread ps s) (NormalizedAll b kthread ps s) := by
  induction ps generalizing s r with
  | nil => exact .ok ⟨⟨r,h⟩,rfl,fun _ => ⟨rfl,rfl,rfl⟩,fun _ _ => rfl,fun _ hx => by cases hx⟩
  | cons p ps ih =>
    obtain ⟨hp,hu⟩ := List.nodup_cons.mp hu
    refine (normalizeTask_spec (e p) h (hps p List.mem_cons_self)).bind fun t ht => ?_
    obtain ⟨r',hr'⟩ := ht.inv
    have hlive : ∀ x ∈ ps, x ∈ t.live :=
      fun x hx => ht.live ▸ hps x (List.mem_cons_of_mem p hx)
    refine (ih hr' hlive hu).mono fun u hrest => ?_
    refine ⟨hrest.inv,hrest.live.trans ht.live,fun x => ?_,fun x hx => ?_,fun x hx => ?_⟩
    · obtain ⟨hq,hc,hpolicy⟩ := hrest.kept x
      obtain ⟨hq',hc',hpolicy'⟩ := ht.kept x
      exact ⟨hq.trans hq',hc.trans hc',hpolicy.trans hpolicy'⟩
    · rw [List.mem_cons,not_or] at hx
      exact (hrest.others x hx.2).trans (ht.others x (by simpa using hx.1))
    · rcases List.mem_cons.mp hx with rfl | hx
      · have hdone := ht.each x List.mem_cons_self
        unfold NormalizedTask at hdone ⊢
        rw [hrest.others x hp]
        exact hdone
      · have hdone := hrest.each x hx
        unfold NormalizedTask at hdone ⊢
        rw [ht.others x (by rintro hm; rw [List.mem_singleton.mp hm] at hx; exact hp hx)] at hdone
        exact hdone

/-- What is meant to take tasks out of the real-time classes in an emergency does not: it
completes, no task changes its policy, its class or whether it waits, those with a lent
real-time priority keep it, and all that the others lose is a nice value below zero. -/
theorem normalize_keeps_classes (h : Reachable b s) :
    Returns (normalizeRtTasks b e caller kthread s.live s) (fun t =>
      t.live = s.live ∧ SameWaiting s t ∧ ∀ p ∈ s.live,
        (t.task p).schedClass = (s.task p).schedClass ∧ (t.task p).policy = (s.task p).policy ∧
          (t.task p).onRq = (s.task p).onRq ∧ NormalizedTask kthread s t p) := by
  obtain ⟨⟨r,hr⟩,-⟩ := reachable_inv h
  refine (normalizeRtTasks_spec hr (fun p hp => hp) hr.live_nodup).mono fun t ht => ?_
  refine ⟨ht.live,fun c p => ?_,fun p hp => ?_⟩
  · unfold waiting
    rw [ht.live,(ht.kept p).1,(ht.kept p).2.1]
  · obtain ⟨hq,hc,hpolicy⟩ := ht.kept p
    exact ⟨hc,hpolicy,hq,ht.each p hp⟩

/-- A task that the kernel has made important waits. -/
def important : Kernel := after .versatile (spawn 1 ++ [(.quiet,.setUserNice 1 (-5))])

theorem important_reachable : Reachable .versatile important := .after (by decide +kernel)

theorem normalize_keeps_classes_important :
    Returns (normalizeRtTasks .versatile (fun _ => .quiet) .plain (fun _ => false)
      important.live important) (fun t =>
        t.live = important.live ∧ SameWaiting important t ∧ ∀ p ∈ important.live,
          (t.task p).schedClass = (important.task p).schedClass ∧
            (t.task p).policy = (important.task p).policy ∧
            (t.task p).onRq = (important.task p).onRq ∧
            NormalizedTask (fun _ => false) important t p) :=
  normalize_keeps_classes important_reachable

end Sysrq

end LotteryScheduler.Properties
