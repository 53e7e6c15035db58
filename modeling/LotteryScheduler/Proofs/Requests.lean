import LotteryScheduler.Proofs.Changes

namespace LotteryScheduler.Proofs
open Lib Model

section Admission
variable {e : Env} {caller : Caller} {t : TaskStruct} {attr : SchedAttr} {user : Bool}

theorem checkRequest_lottery (h : checkRequest e t attr = 0) :
    effectivePolicy t attr = schedLottery := by
  unfold checkRequest at h
  dsimp only at h
  split at h
  · cases h
  split at h
  · cases h
  split at h
  · cases h
  split at h
  · cases h
  next hc =>
    simp only [Bool.or_eq_true,not_or,Bool.not_eq_true',Bool.not_eq_false] at hc
    simpa [ltrPolicy] using hc.2

/-- Whatever else it asks, a request that is let through is for the lottery policy. -/
theorem admission_lottery (h : admission e caller t attr user = 0) :
    effectivePolicy t attr = schedLottery := by
  refine checkRequest_lottery (e := e) ?_
  unfold admission at h
  dsimp only at h
  by_contra hr
  rw [if_pos hr] at h
  exact hr h

theorem admission_no_clamp (h : admission e caller t attr user = 0) :
    hasFlag attr.schedFlags schedFlagUtilClamp = false := by
  unfold admission at h
  dsimp only at h
  split at h
  · contradiction
  split at h
  next hc => exact absurd h hc.2.2
  split at h
  · cases h
  split at h
  next hc => exact absurd h hc.2
  split at h
  · cases h
  next hc => simpa using hc

theorem lottery_plain : fairPolicy schedLottery = false ∧ rtPolicy schedLottery = false ∧
    dlPolicy schedLottery = false ∧ idlePolicy schedLottery = false := by decide

/-- Asking for the policy the task has is never a change in the lottery class. -/
theorem changes_lottery (hp : effectivePolicy t attr = schedLottery)
    (hc : hasFlag attr.schedFlags schedFlagUtilClamp = false) : changes e t attr = false := by
  simp [changes,hp,hc,lottery_plain]

/-- The data of a task after an accepted request that does not keep its parameters. -/
theorem commitParams_lottery (e : Env) (t : TaskStruct) (prio : Int)
    (hp : attr.schedPolicy = schedLottery)
    (hk : hasFlag attr.schedFlags schedFlagKeepParams = false) :
    commitParams e t attr prio =
      { t with
        policy := schedLottery
        rtPriority := attr.schedPriority
        normalPrio := niceToPrio (prioToNice t.staticPrio)
        schedClass := .lottery
        prio } := by
  have hne : schedLottery ≠ setparamPolicy := by decide
  simp [commitParams,hk,setschedulerParams,hp,hne,lottery_plain,setschedulerPrio,normalPrio,
    normalPrioOf]

theorem commitParams_keep (e : Env) (t : TaskStruct) (prio : Int)
    (hk : hasFlag attr.schedFlags schedFlagKeepParams = true) :
    commitParams e t attr prio = t := by
  simp [commitParams,hk]

theorem TaskOk.commit (h : TaskOk t) (e : Env) (prio : Int)
    (hp : attr.schedPolicy = schedLottery) : TaskOk (commitParams e t attr prio) := by
  by_cases hk : hasFlag attr.schedFlags schedFlagKeepParams = true
  · rw [commitParams_keep e t prio hk]
    exact h
  · rw [commitParams_lottery e t prio hp (by simpa using hk)]
    exact ⟨by simp,by simp,h.settled,h.fresh,fun hn => absurd rfl hn⟩

theorem commitParams_kept (e : Env) (t : TaskStruct) (prio : Int)
    (hp : attr.schedPolicy = schedLottery) :
    (commitParams e t attr prio).onRq = t.onRq ∧
      (commitParams e t attr prio).tickets = t.tickets := by
  by_cases hk : hasFlag attr.schedFlags schedFlagKeepParams = true
  · rw [commitParams_keep e t prio hk]
    exact ⟨rfl,rfl⟩
  · rw [commitParams_lottery e t prio hp (by simpa using hk)]
    exact ⟨rfl,rfl⟩

end Admission

section Requests
variable {b : Build} {s : Kernel} {r : Ready} {p : Tid} {attr : SchedAttr} {pi : Bool}

/-- The data an accepted request leaves in the task. -/
def committed (e : Env) (s : Kernel) (p : Tid) (attr : SchedAttr) (pi : Bool) : TaskStruct :=
  commitParams e { s.task p with schedResetOnFork := requestedReset (s.task p) attr } attr
    (newPrio s p attr pi)

theorem commitRequest_spec (e : Env) (pi : Bool) (h : Inv b s r) (hp : p ∈ s.live)
    (ha : attr.schedPolicy = schedLottery) (hl : (s.task p).policy ≠ schedLottery) :
    Returns (commitRequest b e p attr pi s) (fun s' =>
      Inv b s' (r.move p (s.taskOnRqQueued p) (s.task p).schedClass
        (committed e s p attr pi).schedClass) ∧
      Changed s p (committed e s p attr pi) s') := by
  let v := { s.task p with schedResetOnFork := requestedReset (s.task p) attr }
  have hok := h.tasks p hp
  have hv : TaskOk v := ⟨hok.lottery,hok.working,hok.settled,hok.fresh,hok.deadline⟩
  obtain ⟨hi,hset⟩ := h.noted hp (.refl s) hv rfl rfl rfl
  have hself : (s.setTask p v).task p = v := hset.task_self
  have hkept := commitParams_kept e v (newPrio s p attr pi) ha
  have hclass : v.schedClass ≠ .lottery := fun hc => hl (hok.lottery.mpr hc)
  unfold commitRequest
  dsimp only
  rw [hself]
  apply (hi.takeOff hp e _ _).bind
  intro t ht
  rw [ht.frame.task,hself]
  have hclose := hi.reclass hp ht (hv.commit e _ ha) (by rw [hself]; exact hkept.1)
    (by rw [hself]; exact hkept.2) (by rw [hself]; exact fun hc => absurd hc hclass) e
  rw [hself] at hclose
  apply (hclose _ _ _).mono
  intro w hspec
  obtain ⟨hw,hc⟩ := hspec
  rw [hset.queued rfl] at hw
  exact ⟨hw,hset.trans hc fun hs _ => hs⟩

/-- What one call of `__sched_setscheduler` can answer, with the state it leaves. -/
inductive Answer (b : Build) (e : Env) (caller : Caller) (p : Tid) (attr : SchedAttr)
    (user pi : Bool) (s : Kernel) (r : Ready) : Int × Kernel → Prop where
  | refused (why : admission e caller (s.task p) attr user ≠ 0) :
    Answer b e caller p attr user pi s r (admission e caller (s.task p) attr user,s)
  | stopTask (pass : admission e caller (s.task p) attr user = 0) (stop : s.rq.stop = some p)
    (quiet : Quiet s s') : Answer b e caller p attr user pi s r (-einval,s')
  | unchanged (pass : admission e caller (s.task p) attr user = 0)
    (same : (s.task p).policy = schedLottery) (inv : Inv b s' r)
    (changed : Changed s p { s.task p with
      schedResetOnFork := requestedReset (s.task p) attr } s') :
    Answer b e caller p attr user pi s r (0,s')
  | busy (pass : admission e caller (s.task p) attr user = 0)
    (other : (s.task p).policy ≠ schedLottery) (deadline : dlPrio (s.task p).prio = true)
    (full : e.dlOverflow (s.task p) schedLottery attr = true) (quiet : Quiet s s') :
    Answer b e caller p attr user pi s r (-ebusy,s')
  | committed (pass : admission e caller (s.task p) attr user = 0)
    (named : attr.schedPolicy = schedLottery) (other : (s.task p).policy ≠ schedLottery)
    (inv : Inv b s' (r.move p (s.taskOnRqQueued p) (s.task p).schedClass
      (committed e s p attr pi).schedClass))
    (changed : Changed s p (committed e s p attr pi) s') :
    Answer b e caller p attr user pi s r (0,s')

theorem committed_quiet (e : Env) (hq : Quiet s t) :
    committed e t p attr pi = committed e s p attr pi := by
  simp [committed,newPrio,rtEffectivePrio,hq.task]

/-- A request that gets to the point of no return names the lottery policy itself. -/
theorem named_lottery (hp : effectivePolicy t attr = schedLottery)
    (ht : t.policy ≠ schedLottery) : attr.schedPolicy = schedLottery := by
  unfold effectivePolicy at hp
  split at hp
  · exact absurd hp ht
  · exact hp

theorem schedSetscheduler_answer (e : Env) (caller : Caller) (attr : SchedAttr)
    (user pi : Bool) (h : Inv b s r) (hp : p ∈ s.live) (hin : ¬(pi ∧ caller.inInterrupt)) :
    Returns (schedSetscheduler b e caller p attr user pi s)
      (Answer b e caller p attr user pi s r) := by
  unfold schedSetscheduler
  rw [if_neg hin]
  split
  next hw => exact .ok (.refused hw)
  next hpass =>
    have hpass : admission e caller (s.task p) attr user = 0 := by simpa using hpass
    have hpol := admission_lottery hpass
    have hq := updateRqClock_quiet e s
    have hi := h.quiet hq
    dsimp only
    rw [hq.task,hq.stop]
    split
    next hs => exact .ok (.stopTask hpass hs hq)
    split
    next hsame =>
      have hlot : (s.task p).policy = schedLottery := hsame.1 ▸ hpol
      let v := { s.task p with schedResetOnFork := requestedReset (s.task p) attr }
      have hok := h.tasks p hp
      have hv : TaskOk v := ⟨hok.lottery,hok.working,hok.settled,hok.fresh,hok.deadline⟩
      obtain ⟨hinv,hc⟩ := h.noted hp hq hv rfl rfl rfl
      exact .ok (.unchanged hpass hlot hinv hc)
    next hdiff =>
      have hother : (s.task p).policy ≠ schedLottery := by
        intro hlot
        refine hdiff ⟨hpol.trans hlot.symm,?_⟩
        simpa using changes_lottery hpol (admission_no_clamp hpass)
      have hnamed := named_lottery hpol hother
      rw [hpol,if_neg (by simp [lottery_plain])]
      split
      next hbusy =>
        simp only [lottery_plain,Bool.false_or,Bool.and_eq_true] at hbusy
        exact .ok (.busy hpass hother hbusy.1 hbusy.2 hq)
      next =>
        have hcommit := commitRequest_spec e pi hi (hq.live ▸ hp) hnamed
          (by rw [hq.task]; exact hother)
        rw [committed_quiet e hq] at hcommit
        apply hcommit.bind
        intro t hspec
        obtain ⟨ht,hc⟩ := hspec
        apply Returns.ok
        simp only [Kernel.taskOnRqQueued,hq.task] at ht
        exact .committed hpass hnamed hother ht (hc.after hq.toFrame)

theorem schedSetscheduler_spec (e : Env) (caller : Caller) (attr : SchedAttr)
    (user pi : Bool) (h : Inv b s r) (hp : p ∈ s.live) (hin : ¬(pi ∧ caller.inInterrupt)) :
    Returns (schedSetscheduler b e caller p attr user pi s) (fun a => Done b s a.2) := by
  apply (schedSetscheduler_answer e caller attr user pi h hp hin).mono
  intro a ha
  cases ha with
  | refused => exact h.done_quiet (.refl s)
  | stopTask _ _ hq => exact h.done_quiet hq
  | busy _ _ _ _ hq => exact h.done_quiet hq
  | unchanged _ _ hi hc => exact ⟨⟨r,hi⟩,hc.evolves rfl⟩
  | committed _ hn _ hi hc =>
    exact ⟨⟨_,hi⟩,hc.evolves (commitParams_kept e _ _ hn).2⟩

/-- Only a request for the lottery policy succeeds. -/
theorem schedSetscheduler_lottery {user : Bool}
    (hret : schedSetscheduler b e caller p attr user pi s = .ok (0,s')) :
    effectivePolicy (s.task p) attr = schedLottery := by
  have hpass : admission e caller (s.task p) attr user = 0 := by
    by_contra hne
    unfold schedSetscheduler at hret
    split at hret
    · cases hret
    · exact hne (congrArg Prod.fst (Except.ok.inj hret))
  exact admission_lottery hpass

/-- What a call that succeeds leaves of its task. -/
theorem schedSetscheduler_succeeded {user : Bool} (h : Inv b s r) (hp : p ∈ s.live)
    (hret : schedSetscheduler b e caller p attr user pi s = .ok (0,s')) :
    (∃ r', Inv b s' r') ∧ s'.live = s.live ∧
      (((s.task p).policy = schedLottery ∧ s'.task p = { s.task p with
        schedResetOnFork := requestedReset (s.task p) attr }) ∨
      ((s.task p).policy ≠ schedLottery ∧ attr.schedPolicy = schedLottery ∧
        s'.task p = committed e s p attr pi)) := by
  have hin : ¬(pi = true ∧ caller.inInterrupt) := by
    intro hin
    rw [schedSetscheduler,if_pos hin] at hret
    cases hret
  have hans := (schedSetscheduler_answer e caller attr user pi h hp hin).of_ok hret
  generalize ha : ((0,s') : Int × Kernel) = a at hans
  cases hans with
  | refused why => exact absurd (congrArg Prod.fst ha).symm why
  | stopTask => cases ha
  | busy => cases ha
  | unchanged _ same inv changed =>
    cases ha
    exact ⟨⟨_,inv⟩,changed.live,.inl ⟨same,changed.task_self⟩⟩
  | committed _ named other inv changed =>
    cases ha
    exact ⟨⟨_,inv⟩,changed.live,.inr ⟨other,named,changed.task_self⟩⟩

end Requests

end LotteryScheduler.Proofs
