import LotteryScheduler.Proofs.Books
import Mathlib.Data.List.Perm.Subperm

namespace LotteryScheduler.Proofs
open Lib Model

/-- What holds of every task between two changes of its scheduling data. -/
structure TaskOk (t : TaskStruct) : Prop where
  lottery : t.policy = schedLottery ↔ t.schedClass = .lottery
  working : t.schedClass ≠ .idle
  settled : t.onRq ≠ .migrating
  fresh : t.state = taskNew → t.onRq = .none
  deadline : t.policy ≠ schedLottery → dlPrio t.normalPrio = true → dlPolicy t.policy = true

/-- What holds of the boot task. -/
structure IdleOk (t : TaskStruct) : Prop where
  idle : t.schedClass = .idle
  policy : t.policy = schedNormal
  state : t.state = taskRunning
  onRq : t.onRq = .queued
  prio : dlPrio t.normalPrio = false

/-- The queues hold exactly the queued tasks, each in the queue of its class. -/
structure Books (b : Build) (s : Kernel) (r : Ready) : Prop where
  rep : Represents s r
  ready : ∀ c p, p ∈ r c ↔
    p ∈ s.live ∧ (s.task p).onRq = .queued ∧ (s.task p).schedClass = c
  nodup : ∀ c, (r c).Nodup
  live_nodup : s.live.Nodup
  pids : ∀ p ∈ s.live, p < b.pidMax
  tasks : ∀ p ∈ s.live, TaskOk (s.task p)
  idle_apart : s.rq.idle ∉ s.live
  idleTask : IdleOk (s.task s.rq.idle)
  curr : s.rq.curr = s.rq.idle ∨ s.rq.curr ∈ s.live

/-- The invariant between two operations: the current task is queued besides. -/
structure Inv (b : Build) (s : Kernel) (r : Ready) : Prop extends Books b s r where
  currQueued : (s.task s.rq.curr).onRq = .queued

/-- Every task holds the tickets that a fork hands out. -/
def Ticketed (s : Kernel) : Prop := ∀ p ∈ s.live, (s.task p).tickets = 5

/-- One task's data was replaced and what is behind the hooks may have moved. -/
structure Changed (s : Kernel) (p : Tid) (v : TaskStruct) (s' : Kernel) : Prop where
  live : s'.live = s.live
  task : s'.task = Function.update s.task p v
  curr : s'.rq.curr = s.rq.curr
  idle : s'.rq.idle = s.rq.idle
  stop : s'.rq.stop = s.rq.stop
  clock : s.rq.clockTask ≤ s'.rq.clockTask
  se : ∀ x, (s.task x).schedClass = .lottery → (s'.task x).schedClass = .lottery →
    s'.se x = s.se x

/-- What an operation leaves of the tasks that exist before and after it. -/
structure Evolves (s s' : Kernel) : Prop where
  tickets : ∀ p ∈ s.live, (s'.task p).tickets = (s.task p).tickets
  se : ∀ p ∈ s.live, p ∈ s'.live → (s.task p).schedClass = .lottery →
    (s'.task p).schedClass = .lottery → s'.se p = s.se p
  clock : s.rq.clockTask ≤ s'.rq.clockTask
  ticketed : Ticketed s → Ticketed s'

theorem TaskOk.running {v : TaskStruct} (h : TaskOk v) :
    TaskOk { v with state := taskRunning } :=
  ⟨h.lottery,h.working,h.settled,nofun,h.deadline⟩

/-- The tasks that are queued, whatever their class. -/
def queuedTasks (s : Kernel) : List Tid := s.live.filter s.taskOnRqQueued

section Changes
variable {b : Build} {s t u : Kernel} {r : Ready} {p : Tid} {v w : TaskStruct}

theorem Changed.task_self (h : Changed s p v t) : t.task p = v := by simp [h.task]

theorem Changed.task_other (h : Changed s p v t) (hx : x ≠ p) : t.task x = s.task x := by
  simp [h.task,hx]

theorem Frame.changed (h : Frame s t) (p : Tid) : Changed s p (s.task p) t where
  live := h.live
  task := by simp [h.task]
  curr := h.curr
  idle := h.idle
  stop := h.stop
  clock := h.clock
  se x hx _ := h.se x hx

theorem Changed.setTask (s : Kernel) (p : Tid) (v : TaskStruct) : Changed s p v (s.setTask p v) :=
  ⟨rfl,rfl,rfl,rfl,rfl,Nat.le_refl _,fun _ _ _ => rfl⟩

/-- Changes of one task compose when it is in the lottery class in between if it
is before and after. -/
theorem Changed.trans (h : Changed s p v t) (h' : Changed t p w u)
    (hv : (s.task p).schedClass = .lottery → w.schedClass = .lottery → v.schedClass = .lottery) :
    Changed s p w u where
  live := h'.live.trans h.live
  task := by rw [h'.task,h.task,Function.update_idem]
  curr := h'.curr.trans h.curr
  idle := h'.idle.trans h.idle
  stop := h'.stop.trans h.stop
  clock := Nat.le_trans h.clock h'.clock
  se x hx hx' := by
    have ht : (t.task x).schedClass = .lottery := by
      rcases eq_or_ne x p with rfl | hne
      · rw [h.task_self]
        exact hv hx (h'.task_self ▸ hx')
      · rw [h.task_other hne]
        exact hx
    exact (h'.se x ht hx').trans (h.se x hx ht)

theorem Changed.frame (h : Changed s p v t) (h' : Frame t u) : Changed s p v u := by
  have hc := h'.changed p
  rw [h.task_self] at hc
  exact h.trans hc fun _ hw => hw

theorem Changed.setTask_frame (h : Frame s t) (h' : Frame (t.setTask p v) u) :
    Changed s p v u := by
  have hc := h.changed p
  refine (hc.trans (Changed.setTask t p v) fun hs _ => hs).frame h'

theorem Changed.evolves (h : Changed s p v t) (hv : v.tickets = (s.task p).tickets) :
    Evolves s t := by
  have htickets : ∀ x, (t.task x).tickets = (s.task x).tickets := by
    intro x
    rcases eq_or_ne x p with rfl | hne
    · rw [h.task_self,hv]
    · rw [h.task_other hne]
  refine ⟨fun x _ => htickets x,fun x _ _ => h.se x,h.clock,fun hk x hx => ?_⟩
  rw [htickets]
  exact hk x (h.live ▸ hx)

theorem Evolves.after (hq : Quiet s t) (h : Evolves t u) : Evolves s u := by
  refine ⟨fun p hp => ?_,fun p hp hu hc hcu => ?_,Nat.le_trans hq.clock h.clock,fun hk => ?_⟩
  · rw [h.tickets p (hq.live ▸ hp),hq.task]
  · exact (h.se p (hq.live ▸ hp) hu (by rw [hq.task]; exact hc) hcu).trans (hq.se p hc)
  · exact h.ticketed fun p hp => by rw [hq.task]; exact hk p (hq.live ▸ hp)

theorem Evolves.quiet (h : Evolves s t) (hq : Quiet t u) : Evolves s u := by
  refine ⟨fun p hp => ?_,fun p hp hu hc hcu => ?_,Nat.le_trans h.clock hq.clock,fun hk p hp => ?_⟩
  · rw [hq.task,h.tickets p hp]
  · rw [hq.task] at hcu
    exact (hq.se p hcu).trans (h.se p hp (hq.live ▸ hu) hc hcu)
  · rw [hq.task]
    exact h.ticketed hk p (hq.live ▸ hp)

theorem Frame.evolves (h : Frame s t) : Evolves s t := (h.changed 0).evolves rfl

theorem Books.frame (h : Books b s r) (hf : Frame s t) (hr : Represents t r) : Books b t r where
  rep := hr
  ready := by simpa [hf.live,hf.task] using h.ready
  nodup := h.nodup
  live_nodup := hf.live ▸ h.live_nodup
  pids := hf.live ▸ h.pids
  tasks := by simpa [hf.live,hf.task] using h.tasks
  idle_apart := by simpa [hf.live,hf.idle] using h.idle_apart
  idleTask := by simpa [hf.task,hf.idle] using h.idleTask
  curr := by simpa [hf.curr,hf.idle,hf.live] using h.curr

theorem Books.quiet (h : Books b s r) (hq : Quiet s t) : Books b t r :=
  h.frame hq.toFrame (h.rep.quiet hq)

theorem Inv.quiet (h : Inv b s r) (hq : Quiet s t) : Inv b t r :=
  ⟨h.toBooks.quiet hq,by simpa [hq.task,hq.curr] using h.currQueued⟩

theorem Books.ne_idle (h : Books b s r) (hp : p ∈ s.live) : p ≠ s.rq.idle :=
  fun he => h.idle_apart (he ▸ hp)

/-- The books after a change of one task, given where it is queued afterwards. -/
theorem Books.update {r' : Ready} (h : Books b s r) (hc : Changed s p v t)
    (hr : Represents t r') (hp : p ∈ s.live) (hv : TaskOk v) (hn : ∀ c, (r' c).Nodup)
    (hother : ∀ c x, x ≠ p → (x ∈ r' c ↔ x ∈ r c))
    (hself : ∀ c, p ∈ r' c ↔ v.onRq = .queued ∧ v.schedClass = c) : Books b t r' where
  rep := hr
  ready c x := by
    rcases eq_or_ne x p with rfl | hne
    · simp [hself,hc.task_self,hc.live,hp]
    · rw [hother c x hne,h.ready,hc.task_other hne,hc.live]
  nodup := hn
  live_nodup := hc.live ▸ h.live_nodup
  pids := hc.live ▸ h.pids
  tasks x hx := by
    rcases eq_or_ne x p with rfl | hne
    · rw [hc.task_self]
      exact hv
    · rw [hc.task_other hne]
      exact h.tasks x (hc.live ▸ hx)
  idle_apart := by simpa [hc.live,hc.idle] using h.idle_apart
  idleTask := by
    rw [hc.idle,hc.task_other (h.ne_idle hp).symm]
    exact h.idleTask
  curr := by simpa [hc.curr,hc.idle,hc.live] using h.curr

theorem Books.mem_own (h : Books b s r) (hp : p ∈ s.live) (hq : (s.task p).onRq = .queued) :
    p ∈ r (s.task p).schedClass := (h.ready _ _).mpr ⟨hp,hq,rfl⟩

theorem Books.not_mem (h : Books b s r) (hq : (s.task p).onRq ≠ .queued) (c : SchedClass) :
    p ∉ r c := fun hm => hq ((h.ready c p).mp hm).2.1

/-- A task that was not queued is queued in its class. -/
theorem Books.woken (h : Books b s r) (hc : Changed s p v t)
    (hr : Represents t (r.add p v.schedClass)) (hp : p ∈ s.live)
    (hq : (s.task p).onRq ≠ .queued) (hv : TaskOk v) (hvq : v.onRq = .queued) :
    Books b t (r.add p v.schedClass) := by
  refine h.update hc hr hp hv (Ready.nodup_add h.nodup (h.not_mem hq _)) ?_ ?_
  · intro c x hx
    simp [Ready.mem_add,hx]
  · intro c
    simp [Ready.mem_add,h.not_mem hq,hvq,eq_comm]

/-- A queued task leaves the queue of its class. -/
theorem Books.parked (h : Books b s r) (hc : Changed s p v t)
    (hr : Represents t (r.remove p (s.task p).schedClass)) (hp : p ∈ s.live)
    (hv : TaskOk v) (hvq : v.onRq ≠ .queued) :
    Books b t (r.remove p (s.task p).schedClass) := by
  refine h.update hc hr hp hv (Ready.nodup_remove h.nodup) ?_ ?_
  · intro c x hx
    simp [Ready.mem_remove (h.nodup _),hx]
  · intro c
    simp only [Ready.mem_remove (h.nodup _),h.ready,hvq]
    grind

/-- A task changes without moving on or off the queues; it may change its class. -/
theorem Books.moved (h : Books b s r) (hc : Changed s p v t)
    (hr : Represents t (r.move p (s.taskOnRqQueued p) (s.task p).schedClass v.schedClass))
    (hp : p ∈ s.live) (hv : TaskOk v) (hvq : v.onRq = (s.task p).onRq) :
    Books b t (r.move p (s.taskOnRqQueued p) (s.task p).schedClass v.schedClass) := by
  by_cases hq : (s.task p).onRq = .queued
  · have hmem : ∀ c x, x ∈ r.move p (s.taskOnRqQueued p) (s.task p).schedClass v.schedClass c ↔
        (x ∈ r c ∧ ¬(x = p ∧ c = (s.task p).schedClass)) ∨ (x = p ∧ c = v.schedClass) := by
      intro c x
      simp [Ready.move,Kernel.taskOnRqQueued,hq,Ready.mem_add,Ready.mem_remove (h.nodup _)]
    refine h.update hc hr hp hv ?_ ?_ ?_
    · simp only [Ready.move,Kernel.taskOnRqQueued,hq,beq_self_eq_true,↓reduceIte]
      refine Ready.nodup_add (Ready.nodup_remove h.nodup) ?_
      rw [Ready.mem_remove (h.nodup _),h.ready]
      grind
    · intro c x hx
      simp [hmem,hx]
    · intro c
      rw [hmem,h.ready,hvq]
      grind
  · have hsame : r.move p (s.taskOnRqQueued p) (s.task p).schedClass v.schedClass = r := by
      simp [Ready.move,Kernel.taskOnRqQueued,hq]
    rw [hsame] at hr ⊢
    refine h.update hc hr hp hv h.nodup (fun _ _ _ => Iff.rfl) fun c => ?_
    rw [h.ready,hvq]
    simp [hq]

theorem Inv.moved (h : Inv b s r) (hc : Changed s p v t)
    (hr : Represents t (r.move p (s.taskOnRqQueued p) (s.task p).schedClass v.schedClass))
    (hp : p ∈ s.live) (hv : TaskOk v) (hvq : v.onRq = (s.task p).onRq) :
    Inv b t (r.move p (s.taskOnRqQueued p) (s.task p).schedClass v.schedClass) := by
  refine ⟨h.toBooks.moved hc hr hp hv hvq,?_⟩
  rw [hc.curr]
  rcases eq_or_ne s.rq.curr p with he | hne
  · rw [he,hc.task_self,hvq,← he]
    exact h.currQueued
  · rw [hc.task_other hne]
    exact h.currQueued

/-- A change that shows in no queue. -/
theorem Books.retask (h : Books b s r) (hp : p ∈ s.live) (hv : TaskOk v)
    (hvq : v.onRq = (s.task p).onRq) (hvc : v.schedClass = (s.task p).schedClass)
    (hvt : v.tickets = (s.task p).tickets) : Books b (s.setTask p v) r := by
  refine h.update (Changed.setTask s p v) (h.rep.setTask p v (.inr hvt)) hp hv h.nodup
    (fun _ _ _ => Iff.rfl) fun c => ?_
  rw [h.ready,hvq,hvc]
  simp [hp]

theorem Inv.retask (h : Inv b s r) (hp : p ∈ s.live) (hv : TaskOk v)
    (hvq : v.onRq = (s.task p).onRq) (hvc : v.schedClass = (s.task p).schedClass)
    (hvt : v.tickets = (s.task p).tickets) : Inv b (s.setTask p v) r := by
  refine ⟨h.toBooks.retask hp hv hvq hvc hvt,?_⟩
  have hq := h.currQueued
  simp only [Kernel.setTask]
  rcases eq_or_ne s.rq.curr p with he | hne
  · rw [he,Function.update_self,hvq,← he]
    exact hq
  · rw [Function.update_of_ne hne]
    exact hq

theorem Changed.after (hf : Frame s t) (hc : Changed t p v u) : Changed s p v u :=
  (hf.changed p).trans hc fun hs _ => hs

end Changes

section Counting
variable {b : Build} {s : Kernel} {r : Ready}

theorem Books.live_le (h : Books b s r) : s.live.length ≤ b.pidMax := by
  have hsub : s.live ⊆ List.range b.pidMax := fun p hp => List.mem_range.mpr (h.pids p hp)
  simpa using (List.subperm_of_subset h.live_nodup hsub).length_le

/-- The classes partition the queued tasks. -/
theorem Books.all_perm (h : Books b s r) : r.all.Perm (queuedTasks s) := by
  have hdisj : ∀ c d, c ≠ d → ∀ x ∈ r c, ∀ y ∈ r d, x ≠ y := by
    intro c d hcd x hx y hy he
    have hc := ((h.ready c x).mp hx).2.2
    have hd := ((h.ready d y).mp hy).2.2
    exact hcd (by rw [← hc,← hd,he])
  have hnodup : r.all.Nodup := by
    simp only [Ready.all,List.nodup_append]
    refine ⟨⟨⟨⟨h.nodup _,h.nodup _,?_⟩,h.nodup _,?_⟩,h.nodup _,?_⟩,h.nodup _,?_⟩
    all_goals
      intro x hx y hy
      grind
  refine (List.perm_ext_iff_of_nodup hnodup (h.live_nodup.filter _)).mpr fun x => ?_
  simp only [Ready.all,List.mem_append,h.ready,List.mem_filter,Kernel.taskOnRqQueued,
    beq_iff_eq]
  constructor
  · grind
  · rintro ⟨hl,hq⟩
    have hwork := (h.tasks x hl).working
    cases hc : (s.task x).schedClass <;> simp_all

theorem Books.length_queued (h : Books b s r) : (queuedTasks s).length = r.count := by
  rw [← h.all_perm.length_eq,Ready.length_all]

theorem Books.count_le (h : Books b s r) : r.count ≤ s.live.length := by
  rw [← h.length_queued]
  exact List.length_filter_le _ _

theorem Books.lottery_le (h : Books b s r) : (r .lottery).length ≤ s.live.length := by
  have hcount := h.count_le
  unfold Ready.count at hcount
  omega

theorem Books.count_lt (h : Books b s r) : r.count < 2 ^ 32 := by
  have hlive := h.count_le
  have hpid := h.live_le
  have hmax := b.pidMax_le
  omega

end Counting

end LotteryScheduler.Proofs
