import LotteryScheduler.Proofs.Runs

namespace LotteryScheduler.Properties
open Lib Model Proofs

/-- The shortcut of `__pick_next_task` misses no task: it is taken only when nothing
above the fair class is queued, it finds its task in the class of the walk, and
the idle task is the last resort. -/
structure FastPathSound (b : Build) (s : Kernel) (prev : Tid) : Prop where
  higher_empty : fastPath s prev = true → ∀ c p, c > .fair → ¬waiting s c p
  same_class : fastPath s prev = true → ∀ e e' p t q u,
    pickNextTask b e prev s = .ok (p,t) → pickWalk b e' forEachClass s = .ok (q,u) →
      (s.task p).schedClass = (s.task q).schedClass
  idle_last : ∀ e t, pickNextTask b e prev s = .ok (s.rq.idle,t) → ∀ c p, ¬waiting s c p

/-- The walk returns a lottery task only when no other class has one queued. -/
def WalkPrefersOthers (b : Build) (s : Kernel) : Prop :=
  ∀ e p t, pickWalk b e forEachClass s = .ok (p,t) → (s.task p).schedClass = .lottery →
    ∀ c x, c ≠ .lottery → ¬waiting s c x

/-- A task of another class that is queued while a lottery task runs asks for a
reschedule. -/
def PreemptsLottery (b : Build) (s : Kernel) (p : Tid) : Prop :=
  (s.task s.rq.curr).schedClass = .lottery → (s.task p).schedClass ∈ [.stop,.dl,.rt,.fair] →
    ∀ e, Returns (checkPreemptCurr b e p s) (fun t => t.rq.needResched = true)

/-- The counter of the runqueue stands for all queued tasks, and its readers agree. -/
structure CountsEveryTask (s : Kernel) : Prop where
  nrRunning : s.rq.nrRunning.toNat = (queuedTasks s).length
  idle : idleCpu s = true → s.rq.curr = s.rq.idle ∧ queuedTasks s = []
  single : singleTaskRunning s = true ↔ (queuedTasks s).length = 1

section Classes
variable {b : Build} {e : Env} {s t : Kernel} {r : Ready} {p prev : Tid} {c : SchedClass}

theorem found_class (h : Books b s r) (hf : FoundIn s r c p) : (s.task p).schedClass = c := by
  unfold FoundIn at hf
  split at hf
  next hc =>
    rw [hf,hc]
    exact h.idleTask.idle
  next => exact ((h.ready c p).mp hf).2.2

theorem top_lottery (h : r .lottery ≠ []) : r.top = .lottery := by
  unfold Ready.top Ready.workClasses
  rw [List.find?_cons_of_pos (by simpa using h)]
  rfl

theorem walk_top (e : Env) (h : Books b s r) (hs : Stocked s r) :
    Returns (pickWalk b e forEachClass s) (fun a => FoundIn s r r.top a.1) :=
  (pickWalk_spec e Ready.workClasses (by decide) h).mono fun _ ha => ha.2.2 hs

theorem nrRunning_eq (h : Books b s r) : s.rq.nrRunning.toNat = r.counted := by
  have hlt := h.count_lt
  unfold Ready.count at hlt
  rw [h.rep.running,UInt32.toNat_ofNat',Nat.mod_eq_of_lt (by omega)]

/-- The guard compares two counters, so it sees every class that is counted. -/
theorem fastPath_iff (h : Books b s r) : fastPath s prev = true ↔
    (s.task prev).schedClass ≤ .fair ∧ r .rt = [] ∧ r .dl = [] ∧ r .stop = [] := by
  have hlt := h.count_lt
  have hfair : (cfsHNrRunning s).toNat = (r .fair).length := by
    unfold Ready.count Ready.counted at hlt
    rw [cfsHNrRunning,h.rep.upstream .fair (by simp),UInt32.toNat_ofNat',
      Nat.mod_eq_of_lt (by omega)]
  have heq : s.rq.nrRunning = cfsHNrRunning s ↔ r.counted = (r .fair).length := by
    rw [← UInt32.toNat_inj,nrRunning_eq h,hfair]
  have hzero : r.counted = (r .fair).length ↔ r .rt = [] ∧ r .dl = [] ∧ r .stop = [] := by
    simp only [Ready.counted,← List.length_eq_zero_iff]
    omega
  simp only [fastPath,Bool.and_eq_true,decide_eq_true_eq,beq_iff_eq,heq,hzero]

/-- A pick that does not leave a lottery task out finds the highest waiting class. -/
theorem pick_top (h : Books b s r) (hs : Stocked s r)
    (hl : fastPath s prev = true → r .lottery = [])
    (hp : pickNextTask b e prev s = .ok (p,t)) : FoundIn s r r.top p := by
  cases hf : fastPath s prev with
  | true =>
    obtain ⟨_,hrt,hdl,hstop⟩ := (fastPath_iff h).mp hf
    have htop : r.top = if r .fair = [] then .idle else .fair := by
      by_cases hfair : r .fair = [] <;>
        simp [Ready.top,Ready.workClasses,hl hf,hrt,hdl,hstop,hfair]
    rw [htop]
    exact ((pickNextTask_fast e h hf).of_ok hp).2
  | false =>
    have hn : ¬(b.smp = true ∧ (s.task prev).schedClass = .lottery) := by
      rintro ⟨hsmp,hc⟩
      rw [pickNextTask_missing e hsmp hc] at hp
      cases hp
    exact ((pickNextTask_slow e h hf hn).of_ok hp).2.2 hs

theorem idle_top (h : Books b s r) (hf : FoundIn s r r.top s.rq.idle) (c : SchedClass) :
    r c = [] := by
  have htop : r.top = .idle := by rw [← found_class h hf,h.idleTask.idle]
  rcases Ready.top_cases h.rep.idle with ⟨hne,_⟩ | ⟨_,hnone⟩
  · rw [htop,h.rep.idle] at hne
    contradiction
  · exact hnone c

end Classes

section FastPath
variable {b : Build} {s : Kernel} {r : Ready} {prev : Tid}

/-- A shortcut that is only taken without lottery tasks is sound. -/
theorem fast_path_sound (h : Books b s r) (hs : Stocked s r)
    (hl : fastPath s prev = true → r .lottery = []) : FastPathSound b s prev where
  higher_empty hf c p hc := by
    obtain ⟨_,hrt,hdl,hstop⟩ := (fastPath_iff h).mp hf
    have hlot := hl hf
    refine (h.none_waiting c).mpr ?_ p
    cases c <;> first | assumption | exact absurd hc (by decide)
  same_class hf e e' p t q u hp hq := by
    have hpick := found_class h (pick_top h hs hl hp)
    have hwalk := found_class h ((walk_top e' h hs).of_ok hq)
    rw [hpick,hwalk]
  idle_last e t hp c x := (h.none_waiting c).mpr (idle_top h (pick_top h hs hl hp) c) x

/-- What keeps the shortcut from being taken. -/
theorem fastPath_false (h : Books b s r) : fastPath s prev = false ↔
    (s.task prev).schedClass > .fair ∨ ∃ c p, c > .fair ∧ c ≠ .lottery ∧ waiting s c p := by
  rw [Bool.eq_false_iff,ne_eq,fastPath_iff h]
  constructor
  · intro hf
    by_contra hn
    simp only [not_or,not_exists,not_and] at hn
    have hnone : ∀ c, c > .fair → c ≠ .lottery → r c = [] := fun c hc hl =>
      (h.none_waiting c).mp fun p => hn.2 c p hc hl
    refine hf ⟨Nat.not_lt.mp hn.1,?_,?_,?_⟩
    · exact hnone .rt (by decide) (by decide)
    · exact hnone .dl (by decide) (by decide)
    · exact hnone .stop (by decide) (by decide)
  · rintro (hgt | ⟨c,p,hc,hne,hw⟩) ⟨hprev,hrt,hdl,hstop⟩
    · exact absurd hgt (Nat.not_lt.mpr hprev)
    · have hmem : r c ≠ [] := fun he => (h.none_waiting c).mpr he p hw
      cases c <;> contradiction

/-- The shortcut is sound exactly when no lottery task is queued, or when the class
of the previous task or a queued task of another higher class rules it out. -/
theorem fast_path_sound_iff (h : PickPoint b s) : FastPathSound b s prev ↔
    (∀ p, ¬waiting s .lottery p) ∨ (s.task prev).schedClass > .fair ∨
      ∃ c p, c > .fair ∧ c ≠ .lottery ∧ waiting s c p := by
  obtain ⟨⟨r,hr⟩,hk⟩ := h.books
  have hs := hr.stocked hk
  rw [← fastPath_false hr]
  constructor
  · intro hsound
    cases hf : fastPath s prev with
    | true => exact .inl fun p => hsound.higher_empty hf .lottery p (by decide)
    | false => exact .inr rfl
  · rintro (hnone | hf)
    · exact fast_path_sound hr hs fun _ => (hr.none_waiting _).mp hnone
    · exact fast_path_sound hr hs fun ht => absurd (ht.symm.trans hf) (by decide)

theorem fast_path_sound_iff_waiting : FastPathSound .versatile lotteryWaits 0 ↔
    (∀ p, ¬waiting lotteryWaits .lottery p) ∨
      (lotteryWaits.task 0).schedClass > .fair ∨
      ∃ c p, c > .fair ∧ c ≠ .lottery ∧ waiting lotteryWaits c p :=
  fast_path_sound_iff (.between lotteryWaits_reachable)

/-- The boot task runs, a lottery task is queued, and the shortcut picks the boot task. -/
theorem fast_path_skips_lottery : Reachable .versatile lotteryWaits ∧
    waiting lotteryWaits .lottery 1 ∧
    (pickNextTask .versatile .quiet 0 lotteryWaits).toOption.map Prod.fst =
      some lotteryWaits.rq.idle ∧
    ¬FastPathSound .versatile lotteryWaits 0 := by
  have hw : waiting lotteryWaits .lottery 1 :=
    ⟨by decide +kernel,by decide +kernel,by decide +kernel⟩
  refine ⟨lotteryWaits_reachable,hw,by decide +kernel,fun h => ?_⟩
  exact h.higher_empty (by decide +kernel) .lottery 1 (by decide) hw

end FastPath

section Order
variable {b : Build} {s : Kernel} {p : Tid}

/-- The lottery class has the highest address: the walk asks it first. -/
theorem walk_prefers_iff (h : PickPoint b s) : WalkPrefersOthers b s ↔
    (∀ p, ¬waiting s .lottery p) ∨ ∀ c p, c ≠ .lottery → ¬waiting s c p := by
  obtain ⟨⟨r,hr⟩,hk⟩ := h.books
  have hs := hr.stocked hk
  constructor
  · intro hwalk
    rw [hr.none_waiting]
    by_cases hl : r .lottery = []
    · exact .inl hl
    · obtain ⟨⟨p,t⟩,hp,hf⟩ := walk_top .quiet hr hs
      exact .inr fun c x => hwalk _ p t hp ((found_class hr hf).trans (top_lottery hl)) c x
  · rintro (hnone | hnone) e p t hp hc
    · have htop := (found_class hr ((walk_top e hr hs).of_ok hp)).symm.trans hc
      rcases Ready.top_cases hr.rep.idle with ⟨hne,_⟩ | ⟨hidle,_⟩
      · rw [htop] at hne
        exact absurd ((hr.none_waiting _).mp hnone) hne
      · rw [hidle] at htop
        cases htop
    · exact hnone

/-- No class has a higher address than lottery, so nothing is asked for. -/
theorem lottery_unpreempted (e : Env) (hcurr : (s.task s.rq.curr).schedClass = .lottery)
    (hp : (s.task p).schedClass ∈ [.stop,.dl,.rt,.fair]) :
    Returns (checkPreemptCurr b e p s) (fun t => t.rq.needResched = s.rq.needResched) := by
  have hne : (s.task p).schedClass ≠ .lottery := by
    intro he
    rw [he] at hp
    simp at hp
  have hle : ¬(s.task p).schedClass > .lottery := by
    cases (s.task p).schedClass <;> decide
  unfold checkPreemptCurr preemptCurr
  simp only [hcurr,if_neg hne,if_neg hle]
  apply Returns.ok
  split <;> rfl

theorem preempts_lottery_iff (b : Build) (s : Kernel) (p : Tid) : PreemptsLottery b s p ↔
    (s.task s.rq.curr).schedClass ≠ .lottery ∨
      (s.task p).schedClass ∉ [.stop,.dl,.rt,.fair] ∨ s.rq.needResched = true := by
  by_cases hcurr : (s.task s.rq.curr).schedClass = .lottery
  · by_cases hp : (s.task p).schedClass ∈ [.stop,.dl,.rt,.fair]
    · simp only [PreemptsLottery,hcurr,hp,ne_eq,not_true_eq_false,false_or,forall_const]
      constructor
      · intro h
        obtain ⟨t,ht,hset⟩ := h .quiet
        rw [← (lottery_unpreempted .quiet hcurr hp).of_ok ht]
        exact hset
      · intro h e
        exact (lottery_unpreempted e hcurr hp).mono fun t ht => ht.trans h
    · simp [PreemptsLottery,hp]
  · simp [PreemptsLottery,hcurr]

/-- The walk returns a lottery task last only where it has no rival, and no task of
another class preempts a lottery task in any state. -/
theorem lottery_lowest_iff (h : PickPoint b s) :
    (WalkPrefersOthers b s ↔
      (∀ p, ¬waiting s .lottery p) ∨ ∀ c p, c ≠ .lottery → ¬waiting s c p) ∧
    ∀ t p, PreemptsLottery b t p ↔ (t.task t.rq.curr).schedClass ≠ .lottery ∨
      (t.task p).schedClass ∉ [.stop,.dl,.rt,.fair] ∨ t.rq.needResched = true :=
  ⟨walk_prefers_iff h,preempts_lottery_iff b⟩

theorem lottery_lowest_iff_along_fair :
    (WalkPrefersOthers .versatile lotteryRunsAlongFair ↔
      (∀ p, ¬waiting lotteryRunsAlongFair .lottery p) ∨
        ∀ c p, c ≠ .lottery → ¬waiting lotteryRunsAlongFair c p) ∧
    ∀ t p, PreemptsLottery .versatile t p ↔ (t.task t.rq.curr).schedClass ≠ .lottery ∨
      (t.task p).schedClass ∉ [.stop,.dl,.rt,.fair] ∨ t.rq.needResched = true :=
  lottery_lowest_iff (.between lotteryRunsAlongFair_reachable)

/-- A lottery task runs with a fair task queued: the walk returns the lottery task
and the fair task preempts nothing. -/
theorem lottery_outranks_fair : Reachable .versatile lotteryRunsAlongFair ∧
    ¬WalkPrefersOthers .versatile lotteryRunsAlongFair ∧
    ¬PreemptsLottery .versatile lotteryRunsAlongFair 2 := by
  refine ⟨lotteryRunsAlongFair_reachable,fun h => ?_,fun h => ?_⟩
  · have hfair : waiting lotteryRunsAlongFair .fair 2 :=
      ⟨by decide +kernel,by decide +kernel,by decide +kernel⟩
    have hwalk : ∃ p t, pickWalk .versatile .quiet forEachClass lotteryRunsAlongFair =
        .ok (p,t) ∧ p = 1 := by
      refine ⟨_,_,rfl,?_⟩
      decide +kernel
    obtain ⟨p,t,hp,rfl⟩ := hwalk
    exact h _ 1 t hp (by decide +kernel) .fair 2 (by decide) hfair
  · obtain ⟨t,ht,hset⟩ := h (by decide +kernel) (by decide +kernel) .quiet
    have hclear : (checkPreemptCurr .versatile .quiet 2 lotteryRunsAlongFair).toOption.map
        (·.rq.needResched) = some false := by decide +kernel
    rw [ht] at hclear
    simp only [Except.toOption,Option.map_some,Option.some.injEq] at hclear
    rw [hset] at hclear
    cases hclear

end Order

section Counting
variable {b : Build} {s : Kernel}

/-- The lottery class leaves the counter alone, so it counts every task exactly
while no lottery task is queued. -/
theorem counts_every_task_iff (h : PickPoint b s) :
    CountsEveryTask s ↔ ∀ p, ¬waiting s .lottery p := by
  obtain ⟨⟨r,hr⟩,_⟩ := h.books
  have hlen := hr.length_queued
  have hcount := nrRunning_eq hr
  rw [hr.none_waiting]
  constructor
  · intro hc
    have hall := hc.nrRunning
    rw [hcount,hlen] at hall
    unfold Ready.count at hall
    exact List.eq_nil_of_length_eq_zero (by omega)
  · intro hl
    have hall : s.rq.nrRunning.toNat = (queuedTasks s).length := by
      rw [hcount,hlen,Ready.count,hl]
      rfl
    refine ⟨hall,fun hi => ?_,?_⟩
    · unfold idleCpu at hi
      split at hi
      · cases hi
      next hcurr =>
        split at hi
        · cases hi
        next hzero =>
          simp only [ne_eq,not_not] at hcurr hzero
          rw [hzero,UInt32.toNat_zero] at hall
          exact ⟨hcurr,List.eq_nil_of_length_eq_zero hall.symm⟩
    · rw [← hall]
      simp only [singleTaskRunning,beq_iff_eq,← UInt32.toNat_inj]
      rfl

theorem counts_every_task_iff_waiting : CountsEveryTask lotteryWaits ↔
    ∀ p, ¬waiting lotteryWaits .lottery p :=
  counts_every_task_iff (.between lotteryWaits_reachable)

/-- A lottery task is queued and the CPU reports that it is idle. -/
theorem lottery_not_counted : Reachable .versatile lotteryWaits ∧
    idleCpu lotteryWaits = true ∧
    queuedTasks lotteryWaits = [1] ∧
    ¬CountsEveryTask lotteryWaits := by
  have hq : queuedTasks lotteryWaits = [1] := by decide +kernel
  have hidle : idleCpu lotteryWaits = true := by decide +kernel
  refine ⟨lotteryWaits_reachable,hidle,hq,fun h => ?_⟩
  have hnone := (h.idle hidle).2
  rw [hq] at hnone
  cases hnone

end Counting

end LotteryScheduler.Properties
