import LotteryScheduler.Proofs.Runs
import Mathlib.Logic.Relation

namespace LotteryScheduler.Properties
open Lib Model Proofs

/-- The class that schedules the tasks of a policy. -/
def classOfPolicy (policy : Int) : SchedClass :=
  if ltrPolicy policy then .lottery
  else if dlPolicy policy then .dl
  else if rtPolicy policy then .rt
  else .fair

/-- A request that asks for nothing impossible. -/
structure WellFormed (e : Env) (t : TaskStruct) (attr : SchedAttr) : Prop where
  policy : attr.schedPolicy < 0 ∨ validPolicy attr.schedPolicy = true
  priority : (attr.schedPriority : Int) ≤ maxRtPrio - 1
  realtime : attr.schedPriority ≠ 0 ↔ rtPolicy (effectivePolicy t attr) = true
  deadline : dlPolicy (effectivePolicy t attr) = true →
    e.checkparamDl attr = true ∧ e.dlOverflow t (effectivePolicy t attr) attr = false

/-- An ordinary task, not boosted by a waiter, and a request with known flags that
clamps no utilization. The lottery class does not keep the two priorities equal. -/
structure Ordinary (s : Kernel) (p : Tid) (attr : SchedAttr) : Prop where
  live : p ∈ s.live
  not_stop : s.rq.stop ≠ some p
  not_boosted : (s.task p).policy ≠ schedLottery → (s.task p).prio = (s.task p).normalPrio
  known_flags : hasFlag attr.schedFlags (~~~(schedFlagAll ||| schedFlagSugov)) = false
  no_clamp : hasFlag attr.schedFlags schedFlagUtilClamp = false

/-- What a refused request leaves: the task, the counters and the queues. -/
structure Untouched (s s' : Kernel) (p : Tid) : Prop where
  task : s'.task p = s.task p
  nrRunning : s'.rq.nrRunning = s.rq.nrRunning
  ltr : s'.rq.ltr = s.rq.ltr
  queue : s'.rq.queue = s.rq.queue
  links : s'.mem = s.mem

/-- A kernel-internal call grants every well-formed request, and refuses every other
without a trace. -/
structure AdmitsExactly (b : Build) (e : Env) (caller : Caller) (p : Tid) (attr : SchedAttr)
    (pi : Bool) (s : Kernel) : Prop where
  granted : WellFormed e (s.task p) attr →
    Returns (schedSetscheduler b e caller p attr false pi s) (fun a => a.1 = 0 ∧
      (hasFlag attr.schedFlags schedFlagKeepParams = false →
        (a.2.task p).policy = effectivePolicy (s.task p) attr ∧
          (a.2.task p).schedClass = classOfPolicy (effectivePolicy (s.task p) attr)))
  refused : ¬WellFormed e (s.task p) attr →
    Returns (schedSetscheduler b e caller p attr false pi s) (fun a =>
      a.1 < 0 ∧ Untouched s a.2 p)
  atomic : ∀ user a, schedSetscheduler b e caller p attr user pi s = .ok a → a.1 ≠ 0 →
    Untouched s a.2 p

/-- The task did not move to a later class, nor to a better priority. -/
def NoEscalation (p : Tid) (s s' : Kernel) : Prop :=
  ¬(s'.task p).schedClass > (s.task p).schedClass ∧ (s.task p).prio ≤ (s'.task p).prio

/-- The requests that move no task into the lottery class. -/
def KeepsClass (t : TaskStruct) (attr : SchedAttr) : Prop :=
  t.policy = schedLottery ∨ hasFlag attr.schedFlags schedFlagKeepParams = true

/-- A user's call that succeeds and moves no task into the lottery class. -/
def PlainCall (b : Build) (p : Tid) (s s' : Kernel) : Prop :=
  ∃ e caller attr, KeepsClass (s.task p) attr ∧
    schedSetscheduler b e caller p attr true true s = .ok (0,s')

section Checks
variable {b : Build} {e : Env} {caller : Caller} {s s' : Kernel} {r : Ready} {p : Tid}
  {t : TaskStruct} {attr : SchedAttr} {pi : Bool}

/-- The last test of the condition refuses whatever is not for the lottery policy. -/
theorem checkRequest_other (e : Env) (h : effectivePolicy t attr ≠ schedLottery) :
    checkRequest e t attr = -einval := by
  have hltr : ltrPolicy (effectivePolicy t attr) = false := by simpa [ltrPolicy] using h
  unfold checkRequest
  dsimp only
  split
  · rfl
  split
  · rfl
  split
  · rfl
  rw [if_pos (by simp [hltr])]

theorem checkRequest_refuses (h : checkRequest e t attr ≠ 0) : checkRequest e t attr = -einval := by
  unfold checkRequest at *
  dsimp only at *
  grind

/-- A lottery request passes exactly when it is well formed. -/
theorem checkRequest_wellFormed (hl : effectivePolicy t attr = schedLottery)
    (hf : hasFlag attr.schedFlags (~~~(schedFlagAll ||| schedFlagSugov)) = false) :
    checkRequest e t attr = 0 ↔ WellFormed e t attr := by
  have hvalid : attr.schedPolicy < 0 ∨ validPolicy attr.schedPolicy = true := by
    unfold effectivePolicy at hl
    split at hl
    next hneg => exact .inl hneg
    next =>
      rw [hl]
      exact .inr (by decide)
  have hpass : ¬(attr.schedPolicy ≥ 0 ∧ (!validPolicy schedLottery) = true) := by
    simp [show validPolicy schedLottery = true by decide]
  have hltr : ltrPolicy schedLottery = true := by decide
  unfold checkRequest
  dsimp only
  rw [hl,if_neg hpass,if_neg (by simp [hf])]
  by_cases hprio : (attr.schedPriority : Int) > maxRtPrio - 1
  · rw [if_pos hprio]
    exact ⟨fun h => absurd h (by decide),fun h => absurd h.priority (by omega)⟩
  rw [if_neg hprio]
  by_cases hzero : attr.schedPriority = 0
  · rw [if_neg (by simp [lottery_plain,hltr,hzero])]
    refine ⟨fun _ => ⟨hvalid,by omega,?_,?_⟩,fun _ => rfl⟩
    · simp [hl,hzero,lottery_plain]
    · simp [hl,lottery_plain]
  · rw [if_pos (by simp [lottery_plain,hzero])]
    refine ⟨fun h => absurd h (by decide),fun h => absurd (h.realtime.mp hzero) ?_⟩
    simp [hl,lottery_plain]

theorem admission_internal (hc : hasFlag attr.schedFlags schedFlagUtilClamp = false) :
    admission e caller t attr false = checkRequest e t attr := by
  unfold admission
  dsimp only
  by_cases hr : checkRequest e t attr = 0
  · simp [hr,hc]
  · rw [if_pos hr]

/-- A request that fails its checks leaves everything as it was. -/
theorem schedSetscheduler_refused (hin : ¬(pi ∧ caller.inInterrupt))
    (hc : checkRequest e (s.task p) attr ≠ 0) (user : Bool) :
    schedSetscheduler b e caller p attr user pi s = .ok (-einval,s) := by
  have hadm : admission e caller (s.task p) attr user = -einval := by
    unfold admission
    dsimp only
    rw [if_pos hc,checkRequest_refuses hc]
  unfold schedSetscheduler
  rw [if_neg hin,hadm,if_pos (by decide)]

/-- Only an unboosted deadline task has a deadline priority, and it may leave. -/
theorem leaves_deadline (hok : TaskOk t) (hb : t.prio = t.normalPrio)
    (hl : t.policy ≠ schedLottery) (hd : dlPrio t.prio = true) :
    e.dlOverflow t schedLottery attr = false := by
  rw [hb] at hd
  exact e.dlOverflow_leave _ _ _ lottery_plain.2.2.1 (hok.deadline hl hd)

theorem lottery_granted (h : Inv b s r) (ho : Ordinary s p attr)
    (hin : ¬(pi ∧ caller.inInterrupt)) (hl : effectivePolicy (s.task p) attr = schedLottery)
    (hw : WellFormed e (s.task p) attr) :
    Returns (schedSetscheduler b e caller p attr false pi s) (fun a => a.1 = 0 ∧
      (hasFlag attr.schedFlags schedFlagKeepParams = false →
        (a.2.task p).policy = schedLottery ∧ (a.2.task p).schedClass = .lottery)) := by
  have hok := h.tasks p ho.live
  have hpass : admission e caller (s.task p) attr false = 0 := by
    rw [admission_internal ho.no_clamp]
    exact (checkRequest_wellFormed hl ho.known_flags).mpr hw
  apply (schedSetscheduler_answer e caller attr false pi h ho.live hin).mono
  intro a ha
  cases ha with
  | refused why => exact absurd hpass why
  | stopTask _ stop _ => exact absurd stop ho.not_stop
  | unchanged _ same _ changed =>
    refine ⟨rfl,fun _ => ?_⟩
    rw [changed.task_self]
    exact ⟨same,hok.lottery.mp same⟩
  | busy _ other deadline full _ =>
    rw [leaves_deadline hok (ho.not_boosted other) other deadline] at full
    cases full
  | committed _ named _ _ changed =>
    refine ⟨rfl,fun hk => ?_⟩
    rw [changed.task_self,committed,commitParams_lottery e _ _ named hk]
    exact ⟨rfl,rfl⟩

theorem untouched_quiet (hq : Quiet s s') (p : Tid) : Untouched s s' p :=
  ⟨by rw [hq.task],hq.running,hq.ltr,hq.queue,hq.mem⟩

/-- No answer but zero comes with a change, whoever calls. -/
theorem refusal_atomic (h : Inv b s r) (hp : p ∈ s.live) (hin : ¬(pi ∧ caller.inInterrupt))
    (hret : schedSetscheduler b e caller p attr user pi s = .ok a) (hne : a.1 ≠ 0) :
    Untouched s a.2 p := by
  have hans := (schedSetscheduler_answer e caller attr user pi h hp hin).of_ok hret
  cases hans with
  | refused => exact untouched_quiet (.refl s) p
  | stopTask _ _ quiet => exact untouched_quiet quiet p
  | busy _ _ _ _ quiet => exact untouched_quiet quiet p
  | unchanged => exact absurd rfl hne
  | committed => exact absurd rfl hne

/-- A call that keeps the class keeps the priority too. -/
theorem class_kept (h : Inv b s r) (hp : p ∈ s.live)
    (hret : schedSetscheduler b e caller p attr true true s = .ok (0,s'))
    (hk : KeepsClass (s.task p) attr) :
    (s'.task p).schedClass = (s.task p).schedClass ∧ (s'.task p).prio = (s.task p).prio := by
  obtain ⟨_,_,⟨_,ht⟩ | ⟨hother,_,ht⟩⟩ := schedSetscheduler_succeeded h hp hret
  · rw [ht]
    exact ⟨rfl,rfl⟩
  · rw [ht,committed,commitParams_keep e _ _ (hk.resolve_left hother)]
    exact ⟨rfl,rfl⟩

/-- Every other call that succeeds moves its task to the last class of the table. -/
theorem moves_to_lottery (h : Inv b s r) (hp : p ∈ s.live)
    (hret : schedSetscheduler b e caller p attr true true s = .ok (0,s'))
    (hk : ¬KeepsClass (s.task p) attr) :
    (s.task p).schedClass ≠ .lottery ∧ (s'.task p).schedClass = .lottery := by
  obtain ⟨hother,hflag⟩ := not_or.mp hk
  refine ⟨fun hc => hother ((h.tasks p hp).lottery.mpr hc),?_⟩
  obtain ⟨_,_,⟨hsame,_⟩ | ⟨_,hnamed,ht⟩⟩ := schedSetscheduler_succeeded h hp hret
  · exact absurd hsame hother
  · rw [ht,committed,commitParams_lottery e _ _ hnamed (by simpa using hflag)]

/-- A kernel-internal request for a real-time policy is refused whatever its priority. -/
theorem schedFifo_refused (b : Build) (e : Env) (p : Tid) (s : Kernel)
    (hin : caller.inInterrupt = false) (schedPriority : Nat) :
    schedSetschedulerNocheck b e caller p schedFifo schedPriority s = .ok (-einval,s) := by
  have hother : ∀ t nice, effectivePolicy t
      { schedPolicy := schedFifo, schedPriority, schedNice := nice } ≠ schedLottery := by
    intro t nice
    rw [effectivePolicy,if_neg (by change ¬schedFifo < 0; decide)]
    change schedFifo ≠ schedLottery
    decide
  unfold schedSetschedulerNocheck schedSetschedulerParam
  dsimp only
  rw [if_neg (by decide)]
  refine schedSetscheduler_refused (by simp [hin]) ?_ false
  rw [checkRequest_other e (hother _ _)]
  decide

end Checks

section Admits
variable {b : Build} {e : Env} {caller : Caller} {s : Kernel} {r : Ready} {p : Tid}
  {attr : SchedAttr} {pi : Bool}

theorem other_fails (h : effectivePolicy (s.task p) attr ≠ schedLottery) :
    checkRequest e (s.task p) attr ≠ 0 := by
  rw [checkRequest_other e h]
  decide

theorem ill_formed_fails (ho : Ordinary s p attr) (hw : ¬WellFormed e (s.task p) attr) :
    checkRequest e (s.task p) attr ≠ 0 := by
  by_cases hl : effectivePolicy (s.task p) attr = schedLottery
  · intro hz
    exact hw ((checkRequest_wellFormed hl ho.known_flags).mp hz)
  · exact other_fails hl

/-- A request of one of the two kinds is answered as the checks promise. -/
theorem admits_exactly (h : Inv b s r) (ho : Ordinary s p attr) (hin : ¬(pi ∧ caller.inInterrupt))
    (hcond : ¬WellFormed e (s.task p) attr ∨ effectivePolicy (s.task p) attr = schedLottery) :
    AdmitsExactly b e caller p attr pi s where
  granted hw := by
    have hl := hcond.resolve_left (not_not.mpr hw)
    rw [hl]
    exact lottery_granted h ho hin hl hw
  refused hw := by
    rw [schedSetscheduler_refused hin (ill_formed_fails ho hw)]
    exact .ok ⟨show -einval < 0 by decide,untouched_quiet (.refl s) p⟩
  atomic user a := refusal_atomic h ho.live hin

/-- The call behaves as its checks promise exactly when the request is ill formed or
for the lottery policy; so the two calls that ask for a real-time policy always warn. -/
theorem admits_exactly_iff (h : Inv b s r) (ho : Ordinary s p attr)
    (hin : ¬(pi ∧ caller.inInterrupt)) :
    (AdmitsExactly b e caller p attr pi s ↔
      ¬WellFormed e (s.task p) attr ∨ effectivePolicy (s.task p) attr = schedLottery) ∧
    ∀ caller : Caller, caller.inInterrupt = false →
      schedSetFifo b e caller p s = .ok (true,s) ∧ schedSetFifoLow b e caller p s = .ok (true,s) := by
  refine ⟨⟨fun hadmits => ?_,admits_exactly h ho hin⟩,fun caller hout => ?_⟩
  · by_contra hn
    obtain ⟨hw,hl⟩ := not_or.mp hn
    have hrefused := schedSetscheduler_refused (b := b) hin (other_fails (e := e) hl) false
    have hgrant := (hadmits.granted (not_not.mp hw)).of_ok hrefused
    exact absurd hgrant.1 (show ¬(-einval = 0) by decide)
  · unfold schedSetFifo schedSetFifoLow
    rw [schedFifo_refused b e p s hout,schedFifo_refused b e p s hout]
    exact ⟨rfl,rfl⟩

theorem ordinary_first {attr : SchedAttr}
    (hf : hasFlag attr.schedFlags (~~~(schedFlagAll ||| schedFlagSugov)) = false)
    (hc : hasFlag attr.schedFlags schedFlagUtilClamp = false) :
    Ordinary fairWaits 1 attr :=
  ⟨by decide +kernel,by decide +kernel,fun _ => by decide +kernel,hf,hc⟩

theorem admits_exactly_lottery :
    (AdmitsExactly .versatile .quiet .plain 1 { schedPolicy := schedLottery } false fairWaits ↔
      ¬WellFormed .quiet (fairWaits.task 1) { schedPolicy := schedLottery } ∨
        effectivePolicy (fairWaits.task 1) { schedPolicy := schedLottery } = schedLottery) ∧
    ∀ caller : Caller, caller.inInterrupt = false →
      schedSetFifo .versatile .quiet caller 1 fairWaits = .ok (true,fairWaits) ∧
      schedSetFifoLow .versatile .quiet caller 1 fairWaits = .ok (true,fairWaits) := by
  obtain ⟨⟨r,hr⟩,_⟩ := reachable_inv fairWaits_reachable
  exact admits_exactly_iff hr (ordinary_first (by decide) (by decide)) (by decide)

/-- A well-formed request for the FIFO policy is refused. -/
theorem fifo_refused :
    Ordinary fairWaits 1 { schedPolicy := schedFifo, schedPriority := 50 } ∧
    WellFormed .quiet (fairWaits.task 1) { schedPolicy := schedFifo, schedPriority := 50 } ∧
    ¬AdmitsExactly .versatile .quiet .plain 1 { schedPolicy := schedFifo, schedPriority := 50 }
      false fairWaits := by
  have hw : WellFormed .quiet (fairWaits.task 1)
      { schedPolicy := schedFifo, schedPriority := 50 } :=
    ⟨.inr (by decide),by decide,by decide +kernel,by decide +kernel⟩
  refine ⟨ordinary_first (by decide) (by decide),hw,fun h => ?_⟩
  obtain ⟨a,ha,hzero,_⟩ := h.granted hw
  have hret : (schedSetscheduler .versatile .quiet .plain 1
      { schedPolicy := schedFifo, schedPriority := 50 } false false
        fairWaits).toOption.map Prod.fst = some (-22) := by decide +kernel
  rw [ha] at hret
  simp only [Except.toOption,Option.map_some,Option.some.injEq,hzero] at hret
  cases hret

end Admits

section Escalation
variable {b : Build} {e : Env} {caller : Caller} {s s' t : Kernel} {r : Ready} {p : Tid}
  {attr : SchedAttr}

theorem NoEscalation.refl (p : Tid) (s : Kernel) : NoEscalation p s s :=
  ⟨Nat.lt_irrefl _,Int.le_refl _⟩

/-- Calls that keep the class keep class and priority in any number. -/
theorem plain_calls_keep (h : Inv b s r) (hp : p ∈ s.live)
    (hrun : Relation.ReflTransGen (PlainCall b p) s t) :
    (∃ r, Inv b t r) ∧ p ∈ t.live ∧
      (t.task p).schedClass = (s.task p).schedClass ∧ (t.task p).prio = (s.task p).prio := by
  induction hrun with
  | refl => exact ⟨⟨r,h⟩,hp,rfl,rfl⟩
  | tail _ last ih =>
    obtain ⟨⟨r',hr'⟩,hlive,hclass,hprio⟩ := ih
    obtain ⟨e,caller,attr,hk,hcall⟩ := last
    obtain ⟨hinv,hsame,_⟩ := schedSetscheduler_succeeded hr' hlive hcall
    obtain ⟨hc,hpr⟩ := class_kept hr' hlive hcall hk
    exact ⟨hinv,hsame ▸ hlive,hc.trans hclass,hpr.trans hprio⟩

/-- A successful call of a user, whatever its rights, escalates exactly when it moves
the task into the lottery class; calls that do not never escalate in any number. -/
theorem no_escalation_iff (h : Inv b s r) (hp : p ∈ s.live)
    (hret : schedSetscheduler b e caller p attr true true s = .ok (0,s')) :
    (NoEscalation p s s' ↔ KeepsClass (s.task p) attr) ∧
    ∀ t, Relation.ReflTransGen (PlainCall b p) s t → NoEscalation p s t := by
  refine ⟨⟨fun hno => ?_,fun hk => ?_⟩,fun t hrun => ?_⟩
  · by_contra hk
    obtain ⟨hold,hnew⟩ := moves_to_lottery h hp hret hk
    apply hno.1
    rw [hnew]
    cases hc : (s.task p).schedClass <;> first | decide | contradiction
  · obtain ⟨hclass,hprio⟩ := class_kept h hp hret hk
    rw [NoEscalation,hclass,hprio]
    exact NoEscalation.refl p s
  · obtain ⟨_,_,hclass,hprio⟩ := plain_calls_keep h hp hrun
    rw [NoEscalation,hclass,hprio]
    exact NoEscalation.refl p s

/-- What the request of an ordinary user for the lottery policy answers. -/
def answered : Int × Kernel :=
  (schedSetscheduler .versatile .quiet .plain 1 { schedPolicy := schedLottery } true true
    fairWaits).toOption.getD (0,schedInit)

theorem answered_zero :
    schedSetscheduler .versatile .quiet .plain 1 { schedPolicy := schedLottery } true true
      fairWaits = .ok (0,answered.2) := by
  have hzero : answered = (0,answered.2) := Prod.ext (by decide +kernel) rfl
  exact (ok_getD (by decide +kernel) _).trans (congrArg Except.ok hzero)

theorem no_escalation_iff_lottery : (NoEscalation 1 fairWaits answered.2 ↔
      KeepsClass (fairWaits.task 1) { schedPolicy := schedLottery }) ∧
    ∀ t, Relation.ReflTransGen (PlainCall .versatile 1) fairWaits t →
      NoEscalation 1 fairWaits t := by
  obtain ⟨⟨r,hr⟩,_⟩ := reachable_inv fairWaits_reachable
  exact no_escalation_iff hr (by decide +kernel) answered_zero

/-- A user without any rights moves its task from the fair class to the lottery class. -/
theorem lottery_escalates :
    schedSetscheduler .versatile .quiet .plain 1 { schedPolicy := schedLottery } true true
      fairWaits = .ok (0,answered.2) ∧
    (fairWaits.task 1).schedClass = .fair ∧
    (answered.2.task 1).schedClass = .lottery ∧
    ¬NoEscalation 1 fairWaits answered.2 :=
  ⟨answered_zero,by decide +kernel,by decide +kernel,fun h => h.1 (by decide +kernel)⟩

end Escalation

end LotteryScheduler.Properties
