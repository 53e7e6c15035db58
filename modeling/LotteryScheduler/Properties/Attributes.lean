import LotteryScheduler.Proofs.Runs

namespace LotteryScheduler.Properties
open Lib Model Proofs

/-- The task is back among the ordinary ones, with this nice value, without a warning. -/
def SetsNormal (b : Build) (e : Env) (caller : Caller) (p : Tid) (nice : Int) (s : Kernel) :
    Prop :=
  Returns (schedSetNormal b e caller p nice s) (fun a => a.1 = false ∧
    (a.2.task p).policy = schedNormal ∧ (a.2.task p).schedClass = .fair ∧
    taskNice (a.2.task p) = nice ∧ ∃ q : List Tid, Holds a.2.mem .ltrQueue (q.map .task) ∧ p ∉ q)

/-- What is reported of a task is what was asked for, and its priorities agree. -/
structure RoundTrips (getparamDl : TaskStruct → SchedAttr → SchedAttr) (attr : SchedAttr)
    (t : TaskStruct) : Prop where
  policy : (schedGetattr getparamDl t).schedPolicy = attr.schedPolicy
  nice : rtPolicy attr.schedPolicy = false → dlPolicy attr.schedPolicy = false →
    (schedGetattr getparamDl t).schedNice = attr.schedNice
  effective : t.prio = t.normalPrio
  normal : t.normalPrio = normalPrioOf t.policy t.rtPriority (prioToNice t.staticPrio)

section Normal
variable {b : Build} {e : Env} {caller : Caller} {s : Kernel} {r : Ready} {p : Tid} {nice : Int}

/-- The request is made for the lottery policy: when it is granted the task is in that
policy, and when it is not there is a warning. -/
theorem set_normal_never (h : Inv b s r) (hp : p ∈ s.live) :
    ¬SetsNormal b e caller p nice s := by
  rintro ⟨a,ha,hquiet,hpolicy,-⟩
  unfold schedSetNormal schedSetattrNocheck warnOnRefusal at ha
  obtain ⟨⟨retval,s'⟩,hret,ha⟩ := bind_eq_ok.mp ha
  cases ha
  have hzero : retval = 0 := by simpa using hquiet
  subst hzero
  obtain ⟨-,-,⟨hsame,ht⟩ | ⟨-,-,ht⟩⟩ := schedSetscheduler_succeeded h hp hret
  · have hkept : (s'.task p).policy = schedLottery := by rw [ht]; exact hsame
    exact absurd (hpolicy.symm.trans hkept) (by decide)
  · have hplain : hasFlag (0 : UInt64) schedFlagKeepParams = false := by decide
    have hset : (s'.task p).policy = schedLottery := by
      rw [ht,committed,commitParams_lottery e _ _ rfl hplain]
    exact absurd (hpolicy.symm.trans hset) (by decide)

theorem set_normal_never_waiting : ¬SetsNormal .versatile .quiet .plain 1 0 lotteryWaits := by
  obtain ⟨⟨r,hr⟩,_⟩ := reachable_inv lotteryWaits_reachable
  exact set_normal_never hr (by decide +kernel)

/-- A task of the fair class is sent to the lottery class. -/
theorem set_normal_sets_lottery : Reachable .versatile fairWaits ∧
    (schedSetNormal .versatile .quiet .plain 1 0 fairWaits).toOption.map
      (fun a => (a.1,(a.2.task 1).policy,(a.2.task 1).schedClass)) =
        some (false,schedLottery,.lottery) ∧
    ¬SetsNormal .versatile .quiet .plain 1 0 fairWaits := by
  have hset : (schedSetNormal .versatile .quiet .plain 1 0 fairWaits).toOption.map
      (fun a => (a.1,(a.2.task 1).policy,(a.2.task 1).schedClass)) =
        some (false,schedLottery,.lottery) := by decide +kernel
  refine ⟨fairWaits_reachable,hset,?_⟩
  rintro ⟨a,ha,-,hpolicy,-⟩
  rw [ha] at hset
  simp only [Except.toOption,Option.map_some,Option.some.injEq,Prod.mk.injEq,hpolicy] at hset
  exact absurd hset.2.1 (by decide)

end Normal

section RoundTrip
variable {b : Build} {e : Env} {caller : Caller} {s s' : Kernel} {r : Ready} {p : Tid}
  {attr : SchedAttr} {user pi : Bool}

/-- Nobody who waits for the task has a better priority than the requested one. -/
def Unboosting (s : Kernel) (p : Tid) (attr : SchedAttr) (pi : Bool) : Prop :=
  pi = true → ∀ d, (s.task p).piTopTask = some d → niceToPrio attr.schedNice ≤ (s.task d).prio

theorem newPrio_lottery (hn : attr.schedPolicy = schedLottery) :
    newPrio s p attr pi = niceToPrio attr.schedNice ↔ Unboosting s p attr pi := by
  have hprio : normalPrioOf (effectivePolicy (s.task p) attr) attr.schedPriority attr.schedNice =
      niceToPrio attr.schedNice := by
    unfold effectivePolicy
    rw [hn,if_neg (by decide)]
    rfl
  unfold newPrio Unboosting
  dsimp only
  rw [hprio]
  cases pi with
  | false => simp
  | true =>
    cases hd : (s.task p).piTopTask with
    | none => simp [rtEffectivePrio]
    | some d =>
      simp only [↓reduceIte,rtEffectivePrio,true_implies,Option.some.injEq,forall_eq']
      exact min_eq_left_iff

/-- A change of policy leaves attributes that agree exactly when it asks for the nice
value that the task already has: the value of the request goes into the priority, and
the one that is reported stays. -/
theorem round_trips_iff (h : Inv b s r) (hp : p ∈ s.live)
    (hchange : effectivePolicy (s.task p) attr ≠ (s.task p).policy)
    (hk : hasFlag attr.schedFlags schedFlagKeepParams = false)
    (hret : schedSetscheduler b e caller p attr user pi s = .ok (0,s'))
    (getparamDl : TaskStruct → SchedAttr → SchedAttr) :
    RoundTrips getparamDl attr (s'.task p) ↔
      attr.schedNice = taskNice (s.task p) ∧ Unboosting s p attr pi := by
  obtain ⟨-,-,⟨hsame,-⟩ | ⟨-,hnamed,ht⟩⟩ := schedSetscheduler_succeeded h hp hret
  · exact absurd ((schedSetscheduler_lottery hret).trans hsame.symm) hchange
  · have hprio : newPrio s p attr pi = _ ↔ _ := newPrio_lottery hnamed
    rw [committed,commitParams_lottery e _ _ hnamed hk] at ht
    have hnice : taskNice (s'.task p) = taskNice (s.task p) := by rw [ht]; rfl
    have hpolicy : (s'.task p).policy = schedLottery := by rw [ht]
    have heffective : (s'.task p).prio = newPrio s p attr pi := by rw [ht]
    have hnormal : (s'.task p).normalPrio = niceToPrio (taskNice (s'.task p)) := by rw [ht]; rfl
    have hreport : (schedGetattr getparamDl (s'.task p)).schedNice = taskNice (s.task p) := by
      rw [← hnice]
      unfold schedGetattr getParams
      simp only [hpolicy,lottery_plain,Bool.false_eq_true,↓reduceIte]
    constructor
    · intro hround
      have hasked := hround.nice (by rw [hnamed]; decide) (by rw [hnamed]; decide)
      rw [hreport] at hasked
      refine ⟨hasked.symm,hprio.mp ?_⟩
      rw [← heffective,hround.effective,hnormal,hnice,hasked]
    · rintro ⟨hasked,hwait⟩
      have hagree := hprio.mpr hwait
      refine ⟨?_,fun _ _ => hreport.trans hasked.symm,?_,?_⟩
      · unfold schedGetattr getParams
        simp only [hpolicy,hnamed,lottery_plain,Bool.false_eq_true,↓reduceIte]
        split <;> rfl
      · rw [heffective,hagree,hasked,hnormal,hnice]
      · rw [hnormal,hpolicy]
        rfl

/-- A request for the lottery policy that also asks for the best nice value. -/
def bestNice : SchedAttr := { schedPolicy := schedLottery, schedNice := -20 }

/-- What it answers for a task of nice value 0. -/
def betterNice : Int × Kernel :=
  (schedSetscheduler .versatile .quiet .plain 1 bestNice true true fairWaits).toOption.getD
    (0,schedInit)

theorem betterNice_zero : schedSetscheduler .versatile .quiet .plain 1 bestNice true true
    fairWaits = .ok (0,betterNice.2) := by
  have hzero : betterNice = (0,betterNice.2) := Prod.ext (by decide +kernel) rfl
  exact (ok_getD (by decide +kernel) _).trans (congrArg Except.ok hzero)

theorem round_trips_iff_better :
    RoundTrips (fun _ attr => attr) bestNice (betterNice.2.task 1) ↔
      bestNice.schedNice = taskNice (fairWaits.task 1) ∧
        Unboosting fairWaits 1 bestNice true := by
  obtain ⟨⟨r,hr⟩,_⟩ := reachable_inv fairWaits_reachable
  exact round_trips_iff hr (by decide +kernel) (by decide +kernel) (by decide) betterNice_zero _

/-- The nice value asked for is lost, but the priority is the one it stands for. -/
theorem nice_lost : Reachable .versatile fairWaits ∧
    schedSetscheduler .versatile .quiet .plain 1 bestNice true true fairWaits =
      .ok (0,betterNice.2) ∧
    (fairWaits.task 1).piTopTask = none ∧
    (betterNice.2.task 1).prio = 100 ∧ (betterNice.2.task 1).normalPrio = 120 ∧
    ¬RoundTrips (fun _ attr => attr) bestNice (betterNice.2.task 1) := by
  have hprio : (betterNice.2.task 1).prio = 100 := by decide +kernel
  have hnormal : (betterNice.2.task 1).normalPrio = 120 := by decide +kernel
  refine ⟨fairWaits_reachable,betterNice_zero,by decide +kernel,hprio,hnormal,fun h => ?_⟩
  have hagree := h.effective
  rw [hprio,hnormal] at hagree
  cases hagree

end RoundTrip

end LotteryScheduler.Properties
