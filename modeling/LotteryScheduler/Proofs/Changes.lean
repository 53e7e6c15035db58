import LotteryScheduler.Proofs.Invariant

namespace LotteryScheduler.Proofs
open Lib Model

section Priorities

theorem toInt32_of_range (hl : -2147483648 ≤ n) (hu : n < 2147483648) : toInt32 n = n := by
  unfold toInt32 Int.bmod
  dsimp only
  split <;> omega

theorem niceToPrio_of_nice (hl : minNice ≤ nice) (hu : nice ≤ maxNice) :
    niceToPrio nice = nice + 120 := by
  unfold minNice maxNice at *
  exact toInt32_of_range (by unfold defaultPrio; omega) (by unfold defaultPrio; omega)

theorem prioToNice_of_nice (hl : minNice ≤ nice) (hu : nice ≤ maxNice) :
    prioToNice (nice + 120) = nice := by
  unfold minNice maxNice at *
  unfold prioToNice defaultPrio
  rw [Int.add_sub_cancel]
  exact toInt32_of_range (by omega) (by omega)

theorem dlPrio_iff (prio : Int) : dlPrio prio = true ↔ prio < 0 := decide_eq_true_iff

end Priorities

section Tasks
variable {t : TaskStruct}

theorem setschedulerPrio_fields (t : TaskStruct) (prio : Int) :
    setschedulerPrio t prio =
      { t with schedClass := (setschedulerPrio t prio).schedClass, prio } := by
  unfold setschedulerPrio
  split
  · rfl
  split
  · rfl
  split <;> rfl

theorem setschedulerPrio_lottery (t : TaskStruct) (prio : Int) :
    t.policy = schedLottery ↔ (setschedulerPrio t prio).schedClass = .lottery := by
  unfold setschedulerPrio
  split
  · simpa
  split
  · simpa
  split <;> simpa

theorem setschedulerPrio_working (t : TaskStruct) (prio : Int) :
    (setschedulerPrio t prio).schedClass ≠ .idle := by
  unfold setschedulerPrio
  split
  · simp
  split
  · simp
  split <;> simp

/-- A class computed by `__setscheduler_prio` agrees with the policy by construction. -/
theorem TaskOk.setschedulerPrio (h : TaskOk t) (prio : Int) :
    TaskOk (setschedulerPrio t prio) := by
  have hclass := setschedulerPrio_lottery t prio
  have hwork := setschedulerPrio_working t prio
  rw [setschedulerPrio_fields]
  exact ⟨hclass,hwork,h.settled,h.fresh,h.deadline⟩

theorem renice_fields (t : TaskStruct) (nice : Int) : ∃ prio,
    renice t nice = { t with
      staticPrio := niceToPrio nice
      normalPrio := normalPrio { t with staticPrio := niceToPrio nice }
      prio } := by
  unfold renice effectivePrio
  dsimp only
  split
  · exact ⟨_,rfl⟩
  · exact ⟨_,rfl⟩

theorem TaskOk.renice (h : TaskOk t) (hd : dlPolicy t.policy = false)
    (hr : rtPolicy t.policy = false) (hl : minNice ≤ nice) (hu : nice ≤ maxNice) :
    TaskOk (renice t nice) := by
  obtain ⟨prio,he⟩ := renice_fields t nice
  rw [he]
  refine ⟨h.lottery,h.working,h.settled,h.fresh,fun _ hp => ?_⟩
  have hnice : normalPrio { t with staticPrio := niceToPrio nice } = nice + 120 := by
    unfold normalPrio normalPrioOf
    rw [niceToPrio_of_nice hl hu]
    simp only [hd,hr,Bool.false_eq_true,↓reduceIte,prioToNice_of_nice hl hu]
    exact niceToPrio_of_nice hl hu
  unfold minNice at hl
  rw [hnice] at hp
  have hlow := (dlPrio_iff (nice + 120)).mp hp
  omega

end Tasks

section Requeue
variable {b : Build} {s t : Kernel} {r : Ready} {p : Tid} {v : TaskStruct}

/-- After the opening half of a change: `p` is off its queue if it was queued. -/
structure TakenOff (s : Kernel) (r : Ready) (p : Tid) (t : Kernel) : Prop where
  frame : Frame s t
  rep : Represents t (if s.taskOnRqQueued p then r.remove p (s.task p).schedClass else r)

theorem queued_iff (s : Kernel) (p : Tid) :
    s.taskOnRqQueued p = true ↔ (s.task p).onRq = .queued := by
  simp [Kernel.taskOnRqQueued]

theorem Books.takeOff (h : Books b s r) (hp : p ∈ s.live) (e : Env) (running : Bool)
    (flags : UInt32) :
    Returns (takeOff b e p (s.taskOnRqQueued p) running flags s) (TakenOff s r p) := by
  refine (takeOff_spec b e _ running flags h.rep (h.tasks p hp).working ?_).mono
    fun _ h => ⟨h.2,h.1⟩
  exact fun hq => h.mem_own hp ((queued_iff s p).mp hq)

/-- A task that was taken off is put back with other data: the invariant holds
again, and the task is in the queue of the class it has now. -/
theorem Inv.putBack (h : Inv b s r) (hp : p ∈ s.live) (ht : TakenOff s r p t)
    (hv : TaskOk v) (hvq : v.onRq = (s.task p).onRq) (hvt : v.tickets = (s.task p).tickets)
    (e : Env) (running : Bool) (flags : UInt32) :
    Returns (putBack b e p (s.taskOnRqQueued p) running flags (t.setTask p v)) (fun u =>
      Inv b u (r.move p (s.taskOnRqQueued p) (s.task p).schedClass v.schedClass) ∧
        Changed s p v u) := by
  have hself : (t.setTask p v).task p = v := by simp [Kernel.setTask]
  have hrep := ht.rep.setTask p v (.inr (by rw [hvt,ht.frame.task]))
  have hout : s.taskOnRqQueued p = true → p ∉
      (if s.taskOnRqQueued p then r.remove p (s.task p).schedClass else r)
        ((t.setTask p v).task p).schedClass := by
    intro hq
    rw [if_pos hq,Ready.mem_remove (h.nodup _),h.ready]
    grind
  have hwork : ((t.setTask p v).task p).schedClass ≠ .idle := by
    rw [hself]
    exact hv.working
  apply (putBack_spec b e _ running flags hrep hwork hout).mono
  intro u hspec
  obtain ⟨hu,hf⟩ := hspec
  have hc : Changed s p v u := .setTask_frame ht.frame hf
  rw [hself] at hu
  refine ⟨h.moved hc ?_ hp hv hvq,hc⟩
  unfold Ready.move
  split at hu
  next hq => simpa [hq] using hu
  next hq => simpa [hq] using hu

theorem TakenOff.quiet (ht : TakenOff s r p t) (hq : Quiet t u) : TakenOff s r p u :=
  ⟨ht.frame.trans hq.toFrame,ht.rep.quiet hq⟩

theorem setTask_self (s : Kernel) (p : Tid) : s.setTask p (s.task p) = s := by
  simp [Kernel.setTask]

/-- The closing half when nothing was changed in between. -/
theorem Inv.putBack_same (h : Inv b s r) (hp : p ∈ s.live) (ht : TakenOff s r p t)
    (e : Env) (running : Bool) (flags : UInt32) :
    Returns (Model.putBack b e p (s.taskOnRqQueued p) running flags t) (fun u =>
      (∃ r', Inv b u r') ∧ Changed s p (s.task p) u) := by
  have hput := h.putBack hp ht (h.tasks p hp) rfl rfl e running flags
  rw [← ht.frame.task,setTask_self] at hput
  exact hput.mono fun _ hu => ⟨⟨_,hu.1⟩,ht.frame.task ▸ hu.2⟩

theorem callSwitchedFrom_quiet (b : Build) (e : Env) (s : Kernel) (hc : c ≠ .lottery) :
    Returns (callHookIfSet b e c .switchedFrom p s) (Quiet s) := by
  unfold callHookIfSet
  split
  · unfold callHook
    rw [if_pos ‹_›]
    cases c with
    | lottery => contradiction
    | _ => exact .ok (upstreamHook_quiet e s hc (by simp) (by simp))
  · exact .ok (.refl s)

/-- The class change hooks move nothing unless a task leaves the lottery class. -/
theorem checkClassChanged_quiet (b : Build) (e : Env) (s : Kernel) (oldprio : Int)
    (hc : c = .lottery → (s.task p).schedClass = .lottery) :
    Returns (checkClassChanged b e p c oldprio s) (Quiet s) := by
  unfold checkClassChanged
  dsimp only
  split
  next hne =>
    refine (callSwitchedFrom_quiet b e s ?_).bind fun t ht => ?_
    · rintro rfl
      exact hne (hc rfl).symm
    · exact (callHook_quiet e t (provides_of b rfl (fun _ => rfl) (by simp)) rfl).mono
        fun _ hu => ht.trans hu
  next =>
    split
    · exact callHook_quiet e s (provides_of b rfl (fun _ => rfl) (by simp)) rfl
    · exact .ok (.refl s)

/-- The closing half of a change of class. A task that was in the lottery class has to
stay in it: `switched_from_lottery` would unlink it again. -/
theorem Inv.reclass (h : Inv b s r) (hp : p ∈ s.live) (ht : TakenOff s r p t)
    (hv : TaskOk v) (hvq : v.onRq = (s.task p).onRq) (hvt : v.tickets = (s.task p).tickets)
    (hkeep : (s.task p).schedClass = .lottery → v.schedClass = .lottery)
    (e : Env) (running : Bool) (flags : UInt32) (oldprio : Int) :
    Returns (Model.putBack b e p (s.taskOnRqQueued p) running flags (t.setTask p v) >>=
      checkClassChanged b e p (s.task p).schedClass oldprio) (fun u =>
        Inv b u (r.move p (s.taskOnRqQueued p) (s.task p).schedClass v.schedClass) ∧
          Changed s p v u) := by
  apply (h.putBack hp ht hv hvq hvt e running flags).bind
  intro u hspec
  obtain ⟨hu,hc⟩ := hspec
  have hstays : (s.task p).schedClass = .lottery → (u.task p).schedClass = .lottery := by
    intro hl
    rw [hc.task_self]
    exact hkeep hl
  apply (checkClassChanged_quiet b e u oldprio hstays).mono
  intro w hw
  exact ⟨hu.quiet hw,hc.frame hw.toFrame⟩

/-- Data that no queue depends on is replaced after a reading of the clock. -/
theorem Inv.noted (h : Inv b s r) (hp : p ∈ s.live) (hq : Quiet s t) (hv : TaskOk v)
    (hvq : v.onRq = (s.task p).onRq) (hvc : v.schedClass = (s.task p).schedClass)
    (hvt : v.tickets = (s.task p).tickets) :
    Inv b (t.setTask p v) r ∧ Changed s p v (t.setTask p v) := by
  rw [← hq.task] at hvq hvc hvt
  exact ⟨(h.quiet hq).retask (hq.live ▸ hp) hv hvq hvc hvt,
    .after hq.toFrame (Changed.setTask t p v)⟩

theorem Changed.queued (hc : Changed s p v t) (hv : v.onRq = (s.task p).onRq) :
    t.taskOnRqQueued p = s.taskOnRqQueued p := by
  simp [Kernel.taskOnRqQueued,hc.task_self,hv]

end Requeue

/-- The invariant holds after an operation, and the tasks evolved as they may. -/
def Done (b : Build) (s s' : Kernel) : Prop := (∃ r, Inv b s' r) ∧ Evolves s s'

section Inheritance

/-- The data of a task whose priority is set on behalf of `piTask`. -/
def lent (s : Kernel) (p : Tid) (piTask : Option Tid) (piSe : Tid) : TaskStruct :=
  let prio := rtEffectivePrio s piTask (s.task p).normalPrio
  setschedulerPrio { s.task p with
    piTopTask := piTask
    dl := { (s.task p).dl with piSe }
    rtTimeout := boostTimeout (s.task p) prio (s.task p).prio } prio

theorem lent_fields (s : Kernel) (p : Tid) (piTask : Option Tid) (piSe : Tid) :
    (lent s p piTask piSe).onRq = (s.task p).onRq ∧
      (lent s p piTask piSe).tickets = (s.task p).tickets ∧
      (lent s p piTask piSe).policy = (s.task p).policy ∧
      (lent s p piTask piSe).normalPrio = (s.task p).normalPrio ∧
      (lent s p piTask piSe).piTopTask = piTask ∧ (lent s p piTask piSe).dl.piSe = piSe ∧
      (lent s p piTask piSe).prio = rtEffectivePrio s piTask (s.task p).normalPrio := by
  unfold lent
  dsimp only
  rw [setschedulerPrio_fields]
  exact ⟨rfl,rfl,rfl,rfl,rfl,rfl,rfl⟩

theorem TaskOk.lent (h : TaskOk (s.task p)) (piTask : Option Tid) (piSe : Tid) :
    TaskOk (lent s p piTask piSe) := by
  apply TaskOk.setschedulerPrio
  exact ⟨h.lottery,h.working,h.settled,h.fresh,h.deadline⟩

/-- What one call of `rt_mutex_setprio` does: nothing, or it notes the new donor, or it
takes the task off and puts it back with the donor's priority. -/
inductive Inherits (b : Build) (p : Tid) (piTask : Option Tid) (s : Kernel) (r : Ready) :
    Kernel → Prop where
  | same (top : (s.task p).piTopTask = piTask)
    (prio : rtEffectivePrio s piTask (s.task p).normalPrio = (s.task p).prio) :
    Inherits b p piTask s r s
  | noted (prio : rtEffectivePrio s piTask (s.task p).normalPrio = (s.task p).prio)
    (inv : Inv b t r) (changed : Changed s p { s.task p with piTopTask := piTask } t) :
    Inherits b p piTask s r t
  | moved (entity : boostEntity b s p piTask (rtEffectivePrio s piTask (s.task p).normalPrio)
      (s.task p).prio = .ok piSe)
    (inv : Inv b t (r.move p (s.taskOnRqQueued p) (s.task p).schedClass
      (lent s p piTask piSe).schedClass))
    (changed : Changed s p (lent s p piTask piSe) t) : Inherits b p piTask s r t

end Inheritance

section Operations
variable {b : Build} {s t u : Kernel} {r : Ready} {p : Tid} {piTask : Option Tid}

theorem Inv.done_quiet (h : Inv b s r) (hq : Quiet s t) : Done b s t :=
  ⟨⟨r,h.quiet hq⟩,hq.toFrame.evolves⟩

theorem setUserNice_spec (e : Env) (nice : Int) (h : Inv b s r) (hp : p ∈ s.live) :
    Returns (setUserNice b e p nice s) (Done b s) := by
  unfold setUserNice
  split
  · exact .ok (h.done_quiet (.refl s))
  next hrange =>
    simp only [not_or,Int.not_lt] at hrange
    have hq := updateRqClock_quiet e s
    replace hp := hq.live ▸ hp
    have hi := h.quiet hq
    have hok := hi.tasks p hp
    dsimp only
    split
    next =>
      have hv : TaskOk { (updateRqClock e s).task p with staticPrio := niceToPrio nice } :=
        ⟨hok.lottery,hok.working,hok.settled,hok.fresh,hok.deadline⟩
      obtain ⟨hinv,hc⟩ := hi.noted hp (.refl _) hv rfl rfl rfl
      exact .ok ⟨⟨r,hinv⟩,(hc.after hq.toFrame).evolves (by rw [hq.task])⟩
    next hpolicy =>
      simp only [Bool.or_eq_true,not_or,Bool.not_eq_true] at hpolicy
      obtain ⟨prio,hren⟩ := renice_fields ((updateRqClock e s).task p) nice
      have hv := hok.renice hpolicy.1 hpolicy.2 hrange.2.1 hrange.2.2
      apply (hi.takeOff hp e _ _).bind
      intro t ht
      rw [ht.frame.task]
      apply (hi.putBack hp ht hv (by rw [hren]) (by rw [hren]) e _ _).bind
      intro u hspec
      obtain ⟨hu,hc⟩ := hspec
      refine (callHook_quiet e u (provides_of b rfl (fun _ => rfl) (by simp)) rfl).mono
        fun w hw => ⟨⟨_,hu.quiet hw⟩,?_⟩
      exact (((hc.frame hw.toFrame).after hq.toFrame)).evolves (by rw [hren,hq.task])

theorem schedMoveTask_spec (e : Env) (h : Inv b s r) (hp : p ∈ s.live) :
    Returns (schedMoveTask b e p s) (Done b s) := by
  have hq := updateRqClock_quiet e s
  have hi := h.quiet hq
  replace hp := hq.live ▸ hp
  apply (hi.takeOff hp e _ _).bind
  intro t ht
  apply (callHookIfSet_quiet b e t rfl).bind
  intro u hu
  apply (hi.putBack_same hp (ht.quiet hu) e _ _).bind
  intro w hspec
  obtain ⟨⟨r',hw⟩,hc⟩ := hspec
  apply Returns.ok
  have hlast : Quiet w (if (updateRqClock e s).taskCurrent p then reschedCurr w else w) := by
    split
    · exact reschedCurr_quiet w
    · exact .refl w
  exact ⟨⟨_,hw.quiet hlast⟩,((hc.frame hlast.toFrame).after hq.toFrame).evolves (by rw [hq.task])⟩

theorem setCpusAllowed_spec (e : Env) (h : Inv b s r) (hp : p ∈ s.live)
    (hc : (s.task p).schedClass ≠ .lottery) : Returns (setCpusAllowed b e p s) (Done b s) := by
  apply (h.takeOff hp e _ _).bind
  intro t ht
  have hprovides : b.provides (t.task p).schedClass .setCpusAllowed = true := by
    rw [ht.frame.task]
    exact provides_of b rfl (fun hl => absurd hl hc) (by simp)
  apply (callHook_quiet e t hprovides rfl).bind
  intro u hu
  exact (h.putBack_same hp (ht.quiet hu) e _ _).mono fun w hw => ⟨hw.1,hw.2.evolves rfl⟩

/-- The donor is read only when there is one. -/
theorem boostEntity_ok (b : Build) (s : Kernel) (p : Tid) (piTask : Option Tid)
    (prio oldprio : Int)
    (h : piTask = none → dlPrio prio = true → dlPrio (s.task p).normalPrio = true) :
    ∃ x, boostEntity b s p piTask prio oldprio = .ok x := by
  unfold boostEntity
  cases piTask with
  | none =>
    split
    next hdl => exact ⟨p,by simp [boostedByDonor,h rfl hdl]⟩
    next => split <;> exact ⟨_,rfl⟩
  | some d =>
    split
    · split <;> exact ⟨_,rfl⟩
    · split <;> exact ⟨_,rfl⟩

/-- The entity in force depends on priorities and deadlines only. -/
theorem boostEntity_congr (b : Build) (piTask : Option Tid) (prio oldprio : Int)
    (hp : ∀ x, (t.task x).prio = (s.task x).prio) (hd : ∀ x, (t.task x).dl = (s.task x).dl)
    (hn : (t.task p).normalPrio = (s.task p).normalPrio) :
    boostEntity b t p piTask prio oldprio = boostEntity b s p piTask prio oldprio := by
  unfold boostEntity boostedByDonor
  rw [hn,hd p]
  cases piTask with
  | none => rfl
  | some d => simp only [hp d,hd d]

/-- The entity in force is found after the donor was noted and the task taken off. -/
theorem boostEntity_noted (hc : Changed s p { s.task p with piTopTask := piTask } t)
    (hu : u.task = t.task) (prio oldprio : Int) :
    boostEntity b u p piTask prio oldprio = boostEntity b s p piTask prio oldprio := by
  have hfields : ∀ x, (u.task x).prio = (s.task x).prio ∧ (u.task x).dl = (s.task x).dl := by
    intro x
    rw [hu]
    rcases eq_or_ne x p with rfl | hne
    · rw [hc.task_self]
      exact ⟨rfl,rfl⟩
    · rw [hc.task_other hne]
      exact ⟨rfl,rfl⟩
  exact boostEntity_congr b piTask prio oldprio (fun x => (hfields x).1) (fun x => (hfields x).2)
    (by rw [hu,hc.task_self])

theorem rtMutexSetprio_inherits (e : Env) (piTask : Option Tid) (h : Inv b s r)
    (hp : p ∈ s.live) : Returns (rtMutexSetprio b e p piTask s) (Inherits b p piTask s r) := by
  unfold rtMutexSetprio
  dsimp only
  split
  next hsame => exact .ok (.same hsame.1 hsame.2.1)
  have hq := updateRqClock_quiet e s
  have hok := h.tasks p hp
  let v := { s.task p with piTopTask := piTask }
  have hv : TaskOk v := ⟨hok.lottery,hok.working,hok.settled,hok.fresh,hok.deadline⟩
  obtain ⟨hi,hc⟩ := h.noted hp hq hv rfl rfl rfl
  have hclock : (updateRqClock e s).rq.idle = s.rq.idle := hq.idle
  rw [show { (updateRqClock e s).task p with piTopTask := piTask } = v by rw [hq.task]]
  split
  next hprio => exact .ok (.noted hprio.1 hi hc)
  rw [if_neg (by rw [show ((updateRqClock e s).setTask p v).rq.idle = s.rq.idle from hclock]
                 exact h.ne_idle hp)]
  generalize (updateRqClock e s).setTask p v = t at *
  have hpt : p ∈ t.live := hc.live ▸ hp
  apply (hi.takeOff hpt e _ _).bind
  intro u hu
  obtain ⟨piSe,hse⟩ := boostEntity_ok b s p piTask (rtEffectivePrio s piTask (s.task p).normalPrio)
    (s.task p).prio (by
      rintro rfl hdl
      exact hdl)
  rw [boostEntity_noted hc hu.frame.task,hse]
  refine Returns.bind (Q := fun x => piSe = x) ⟨piSe,rfl,rfl⟩ ?_
  rintro _ rfl
  have hlent : setschedulerPrio { u.task p with
      dl := { (u.task p).dl with piSe }
      rtTimeout := boostTimeout (u.task p) (rtEffectivePrio s piTask (s.task p).normalPrio)
        (s.task p).prio } (rtEffectivePrio s piTask (s.task p).normalPrio) =
      lent s p piTask piSe := by
    rw [hu.frame.task,hc.task_self]
    rfl
  rw [hlent]
  obtain ⟨hon,htickets,hpolicy,-⟩ := lent_fields s p piTask piSe
  have hnew : TaskOk (lent s p piTask piSe) := hok.lent piTask piSe
  have hself : t.task p = v := hc.task_self
  have hkeep : v.schedClass = .lottery → (lent s p piTask piSe).schedClass = .lottery :=
    fun hl => hnew.lottery.mp (hpolicy.trans (hok.lottery.mpr hl))
  rw [← hself] at hkeep
  apply (hi.reclass hpt hu hnew (by rw [hself]; exact hon) (by rw [hself]; exact htickets) hkeep
    e _ _ _).mono
  intro w hspec
  obtain ⟨hw,hcw⟩ := hspec
  rw [hc.queued rfl,hself] at hw
  exact .moved hse hw (hc.trans hcw fun hs _ => hs)

theorem rtMutexSetprio_spec (e : Env) (piTask : Option Tid) (h : Inv b s r) (hp : p ∈ s.live) :
    Returns (rtMutexSetprio b e p piTask s) (Done b s) := by
  apply (rtMutexSetprio_inherits e piTask h hp).mono
  intro t ht
  cases ht with
  | same => exact h.done_quiet (.refl s)
  | noted _ inv changed => exact ⟨⟨r,inv⟩,changed.evolves rfl⟩
  | moved _ inv changed => exact ⟨⟨_,inv⟩,changed.evolves (lent_fields s p piTask _).2.1⟩

end Operations

end LotteryScheduler.Proofs
