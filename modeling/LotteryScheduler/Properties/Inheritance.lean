import LotteryScheduler.Proofs.Settings
import LotteryScheduler.Properties.PickOrder
import LotteryScheduler.Properties.TicketDraw
import Mathlib.Logic.Relation

namespace LotteryScheduler.Properties
open Lib Model Proofs

/-- A lottery task that nobody lends a priority to. -/
structure Unlent (s : Kernel) (p : Tid) : Prop where
  live : p ∈ s.live
  lottery : (s.task p).policy = schedLottery
  normal : maxRtPrio ≤ (s.task p).normalPrio
  prio : (s.task p).prio = (s.task p).normalPrio
  own_entity : (s.task p).dl.piSe = p

/-- A call that sets the priority of `p` for some donor or for none. A donor on another
runqueue may change in any way between two calls. -/
inductive Lending (b : Build) (p : Tid) : Kernel → Kernel → Prop where
  | setprio (call : rtMutexSetprio b e p donor s = .ok t) : Lending b p s t
  | donor (apart : x ∉ s.live) (work : x ≠ s.rq.idle) (v : TaskStruct) :
    Lending b p s (s.setTask x v)

/-- What a call with this donor leaves: `s` is the state before all calls, `t` the one
before this call. -/
structure Lent (p : Tid) (donor : Option Tid) (s t u : Kernel) : Prop where
  prio_none : donor = none → (u.task p).prio = (s.task p).normalPrio
  prio_some : ∀ d, donor = some d → (u.task p).prio = min (s.task p).normalPrio (t.task d).prio
  normal : (u.task p).normalPrio = (s.task p).normalPrio
  top : (u.task p).piTopTask = donor
  lottery : (u.task p).schedClass = .lottery
  own_entity : dlPrio (u.task p).prio = false → (u.task p).dl.piSe = p
  restored : donor = none → (u.task p).prio = (s.task p).prio ∧
    (u.task p).dl.piSe = (s.task p).dl.piSe
  nrRunning : u.rq.ltr.nrRunning = s.rq.ltr.nrRunning
  totalTickets : u.rq.ltr.totalTickets = s.rq.ltr.totalTickets
  order : ∃ q q' : List Tid, Holds s.mem .ltrQueue (q.map .task) ∧
    Holds u.mem .ltrQueue (q'.map .task) ∧ q'.Perm q ∧ q'.erase p = q.erase p
  queues : ∀ c, c ≠ .lottery → u.rq.queue c = s.rq.queue c
  live : u.live = s.live
  queued : ∀ x ∈ s.live, (u.task x).onRq = (s.task x).onRq

/-- What a sequence of calls keeps: the books hold, `p` may have gone to the end of the
lottery queue, and a foreign entity is in force only under a deadline priority. -/
structure OnLoan (b : Build) (p : Tid) (s : Kernel) (r : Ready) (t : Kernel) (r' : Ready) :
    Prop where
  inv : Inv b t r'
  others : ∀ c, c ≠ .lottery → r' c = r c
  perm : (r' .lottery).Perm (r .lottery)
  erase : (r' .lottery).erase p = (r .lottery).erase p
  live : t.live = s.live
  tickets : ∀ x ∈ s.live, (t.task x).tickets = (s.task x).tickets
  queued : ∀ x ∈ s.live, (t.task x).onRq = (s.task x).onRq
  policy : (t.task p).policy = schedLottery
  normal : (t.task p).normalPrio = (s.task p).normalPrio
  own_entity : dlPrio (t.task p).prio = false → (t.task p).dl.piSe = p

section Loans
variable {b : Build} {s t u : Kernel} {r r' r'' : Ready} {p : Tid}

theorem Unlent.onLoan (hu : Unlent s p) (h : Inv b s r) : OnLoan b p s r s r :=
  ⟨h,fun _ _ => rfl,.refl _,rfl,rfl,fun _ _ => rfl,fun _ _ => rfl,hu.lottery,rfl,
    fun _ => hu.own_entity⟩

/-- One task's data was replaced, and the task is where it was or at the end. -/
theorem OnLoan.changed (ho : OnLoan b p s r t r') (hc : Changed t p v u) (hi : Inv b u r'')
    (hothers : ∀ c, c ≠ .lottery → r'' c = r' c) (hperm : (r'' .lottery).Perm (r' .lottery))
    (herase : (r'' .lottery).erase p = (r' .lottery).erase p)
    (hv : v.tickets = (t.task p).tickets ∧ v.onRq = (t.task p).onRq ∧
      v.policy = (t.task p).policy ∧ v.normalPrio = (t.task p).normalPrio)
    (hse : dlPrio v.prio = false → v.dl.piSe = p) : OnLoan b p s r u r'' := by
  obtain ⟨htickets,hon,hpolicy,hnormal⟩ := hv
  refine ⟨hi,fun c hl => (hothers c hl).trans (ho.others c hl),hperm.trans ho.perm,
    herase.trans ho.erase,hc.live.trans ho.live,fun x hx => ?_,fun x hx => ?_,?_,?_,?_⟩
  · rcases eq_or_ne x p with rfl | hne
    · rw [hc.task_self,htickets,ho.tickets x hx]
    · rw [hc.task_other hne,ho.tickets x hx]
  · rcases eq_or_ne x p with rfl | hne
    · rw [hc.task_self,hon,ho.queued x hx]
    · rw [hc.task_other hne,ho.queued x hx]
  · rw [hc.task_self,hpolicy,ho.policy]
  · rw [hc.task_self,hnormal,ho.normal]
  · rw [hc.task_self]
    exact hse

theorem OnLoan.apart (ho : OnLoan b p s r t r') (hp : p ∈ s.live) (hx : x ∉ t.live)
    (hi : x ≠ t.rq.idle) (v : TaskStruct) : OnLoan b p s r (t.setTask x v) r' := by
  have hother : ∀ y ∈ s.live, (t.setTask x v).task y = t.task y := by
    intro y hy
    have hne : y ≠ x := fun he => hx (by rw [ho.live,← he]; exact hy)
    simp [Kernel.setTask,hne]
  refine ⟨ho.inv.otherTask hx hi v,ho.others,ho.perm,ho.erase,ho.live,fun y hy => ?_,
    fun y hy => ?_,?_,?_,?_⟩
  · rw [hother y hy,ho.tickets y hy]
  · rw [hother y hy,ho.queued y hy]
  · rw [hother p hp,ho.policy]
  · rw [hother p hp,ho.normal]
  · rw [hother p hp]
    exact ho.own_entity

/-- The entity in force after a loan that gives no deadline priority is the task's own:
it was before, or this call puts it back. -/
theorem boostEntity_own (hown : dlPrio oldprio = false → (t.task p).dl.piSe = p)
    (hprio : dlPrio prio = false)
    (he : boostEntity b t p donor prio oldprio = .ok piSe) : piSe = p := by
  unfold boostEntity at he
  rw [if_neg (by simp [hprio])] at he
  split at he
  next => exact (Except.ok.inj he).symm
  next hold =>
    rw [← Except.ok.inj he]
    exact hown (by simpa using hold)

/-- One call keeps the sequence going, whoever the donor is. -/
theorem OnLoan.setprio (ho : OnLoan b p s r t r') (hp : p ∈ s.live) (e : Env)
    (donor : Option Tid) : Returns (rtMutexSetprio b e p donor t) (fun u =>
      (∃ r'', OnLoan b p s r u r'') ∧ (u.task p).piTopTask = donor ∧
        (u.task p).prio = rtEffectivePrio t donor (s.task p).normalPrio) := by
  have hpt : p ∈ t.live := ho.live ▸ hp
  have hclass := (ho.inv.tasks p hpt).lottery.mp ho.policy
  rw [← ho.normal]
  apply (rtMutexSetprio_inherits e donor ho.inv hpt).mono
  intro u hu
  cases hu with
  | same top prio => exact ⟨⟨r',ho⟩,top,prio.symm⟩
  | noted prio inv changed =>
    refine ⟨⟨r',ho.changed changed inv (fun _ _ => rfl) (.refl _) rfl ⟨rfl,rfl,rfl,rfl⟩
      ho.own_entity⟩,?_,?_⟩
    · rw [changed.task_self]
    · rw [changed.task_self]
      exact prio.symm
  | @moved piSe u entity inv changed =>
    obtain ⟨hon,htickets,hpolicy,hnormal,htop,hse,hprio⟩ := lent_fields t p donor piSe
    have hlottery : (lent t p donor piSe).schedClass = .lottery :=
      ((ho.inv.tasks p hpt).lent donor piSe).lottery.mp (hpolicy.trans ho.policy)
    rw [hclass,hlottery] at inv
    refine ⟨⟨_,ho.changed changed inv ?_ ?_ ?_ ⟨htickets,hon,hpolicy,hnormal⟩ ?_⟩,?_,?_⟩
    · exact fun c hc => Ready.move_of_ne hc _
    · refine Ready.move_perm fun hq => ?_
      rw [← hclass]
      exact ho.inv.mem_own hpt ((queued_iff t p).mp hq)
    · exact Ready.move_erase (ho.inv.nodup _) _
    · intro hplain
      rw [hse]
      rw [hprio] at hplain
      exact boostEntity_own ho.own_entity hplain entity
    · rw [changed.task_self,htop]
    · rw [changed.task_self,hprio]

theorem OnLoan.run (hu : Unlent s p) (h : Inv b s r)
    (hrun : Relation.ReflTransGen (Lending b p) s t) : ∃ r', OnLoan b p s r t r' := by
  induction hrun with
  | refl => exact ⟨r,hu.onLoan h⟩
  | tail _ last ih =>
    obtain ⟨r',ho⟩ := ih
    cases last with
    | setprio call => exact ((ho.setprio hu.live _ _).of_ok call).1
    | donor apart work v => exact ⟨r',ho.apart hu.live apart work v⟩

theorem OnLoan.lent (hu : Unlent s p) (h : Inv b s r) (ho : OnLoan b p s r u r')
    (htop : (u.task p).piTopTask = donor)
    (hprio : (u.task p).prio = rtEffectivePrio t donor (s.task p).normalPrio) :
    Lent p donor s t u := by
  have hplive : p ∈ u.live := ho.live ▸ hu.live
  have hnone : donor = none → (u.task p).prio = (s.task p).normalPrio := by
    rintro rfl
    exact hprio
  refine ⟨hnone,?_,ho.normal,htop,(ho.inv.tasks p hplive).lottery.mp ho.policy,ho.own_entity,
    fun hn => ?_,?_,?_,⟨_,_,h.rep.ring,ho.inv.rep.ring,ho.perm,ho.erase⟩,?_,ho.live,ho.queued⟩
  · rintro d rfl
    exact hprio
  · have hback := hnone hn
    refine ⟨hback.trans hu.prio.symm,?_⟩
    rw [hu.own_entity]
    apply ho.own_entity
    rw [hback]
    have hnormal := hu.normal
    unfold maxRtPrio at hnormal
    rw [Bool.eq_false_iff,ne_eq,dlPrio_iff]
    omega
  · rw [ho.inv.rep.ltrCount,h.rep.ltrCount,ho.perm.length_eq]
  · rw [ho.inv.rep.ltrTickets,h.rep.ltrTickets,← (ho.perm.map _).sum_eq]
    refine congrArg List.sum (List.map_congr_left fun x hx => ?_)
    have hready := (ho.inv.ready _ _).mp hx
    exact ho.tickets x (ho.live ▸ hready.1)
  · intro c hc
    rw [ho.inv.rep.upstream c hc,h.rep.upstream c hc,ho.others c hc]

/-- After every call of every sequence, whoever the donors are, the task has the better
of its own and the donor's priority, and nothing else has changed; a call without a
donor brings it back to where it was. -/
theorem boost_reversible (h : Inv b s r) (hu : Unlent s p)
    (hrun : Relation.ReflTransGen (Lending b p) s t) (e : Env) (donor : Option Tid) :
    Returns (rtMutexSetprio b e p donor t) (Lent p donor s t) := by
  obtain ⟨r',ho⟩ := OnLoan.run hu h hrun
  apply (ho.setprio hu.live e donor).mono
  intro u hspec
  obtain ⟨⟨r'',hou⟩,htop,hprio⟩ := hspec
  exact hou.lent hu h htop hprio

/-- A FIFO task of another runqueue. -/
def fifoTask : TaskStruct :=
  { bootTask with
    prio := 49
    normalPrio := 49
    rtPriority := 50
    schedClass := .rt
    policy := schedFifo
    dl := { piSe := 9 } }

/-- The waiting lottery task holds a lock that the FIFO task asks for. -/
def lockContended : Kernel :=
  (rtMutexSetprio .versatile .quiet 1 (some 9) (lotteryWaits.setTask 9 fifoTask)).toOption.getD
    lotteryWaits

theorem lockContended_lending :
    Relation.ReflTransGen (Lending .versatile 1) lotteryWaits lockContended := by
  have hdonor : Lending .versatile 1 lotteryWaits (lotteryWaits.setTask 9 fifoTask) :=
    .donor (by decide +kernel) (by decide +kernel) fifoTask
  exact (Relation.ReflTransGen.single hdonor).tail (.setprio (ok_getD (by decide +kernel) _))

/-- The lock is given back. -/
theorem boost_reversible_waiting :
    Returns (rtMutexSetprio .versatile .quiet 1 none lockContended)
      (Lent 1 none lotteryWaits lockContended) := by
  obtain ⟨⟨r,hr⟩,_⟩ := reachable_inv lotteryWaits_reachable
  exact boost_reversible hr ⟨by decide +kernel,by decide +kernel,by decide +kernel,
    by decide +kernel,by decide +kernel⟩ lockContended_lending .quiet none

end Loans

section Holders
variable {b : Build} {e : Env} {s t u : Kernel} {r : Ready} {p q prev : Tid}

/-- Past the shortcut the lottery class is asked first. -/
theorem pickNextTask_lottery (hf : fastPath s prev = false)
    (ht : putPrevTaskBalance b e prev s = .ok t)
    (hpick : pickNextTaskLottery e t = .ok (some q,u)) : pickNextTask b e prev s = .ok (q,u) := by
  have hcall : callPickNextTask b e .lottery t = .ok (some q,u) := by
    unfold callPickNextTask
    rw [if_pos (provides_of b rfl (fun _ => rfl) (by simp))]
    exact hpick
  unfold pickNextTask
  rw [if_neg (by simp [hf]),ht]
  change pickWalk b e (.lottery :: [.stop,.dl,.rt,.fair,.idle]) t = _
  rw [pickWalk,hcall]
  rfl

end Holders

end LotteryScheduler.Properties
