import LotteryScheduler.Proofs.Runs

namespace LotteryScheduler.Properties
open Lib Model Proofs

/-- The tasks of the CPU, the boot task among them. -/
def present (s : Kernel) (p : Tid) : Prop := p = s.rq.idle ∨ p ∈ s.live

/-- The lottery queue is linked through these tasks and its counters are theirs. -/
structure Tallied (s : Kernel) (q : List Tid) : Prop where
  linked : Holds s.mem .ltrQueue (q.map .task)
  nrRunning : s.rq.ltr.nrRunning.toNat = q.length
  totalTickets : s.rq.ltr.totalTickets.toNat =
    (q.map fun p => (s.task p).tickets.toNat).sum % 2 ^ 32

/-- The lottery runqueue accounts for exactly the queued tasks of its policy. -/
structure Accounted (s : Kernel) (q : List Tid) : Prop extends Tallied s q where
  each_once : q.Nodup
  by_policy : ∀ p, p ∈ q ↔
    present s p ∧ (s.task p).onRq = .queued ∧ (s.task p).policy = schedLottery
  by_class : ∀ p, present s p →
    ((s.task p).policy = schedLottery ↔ (s.task p).schedClass = .lottery)
  never_under : ∀ early, early <+: s.log → dequeues early ≤ enqueues early
  open_count : enqueues s.log = dequeues s.log + q.length

section Accounting
variable {b : Build} {s s' : Kernel} {r : Ready} {p : Tid}

theorem toNat_sum (l : List UInt32) : l.sum.toNat = (l.map UInt32.toNat).sum % 2 ^ 32 := by
  induction l with
  | nil => rfl
  | cons x l ih =>
    rw [List.sum_cons,UInt32.toNat_add,ih,List.map_cons,List.sum_cons,Nat.add_mod_mod]

/-- The counters agree with any queue that the pid allocator can fill. -/
theorem tallied_of (h : Represents s r) (hn : (r .lottery).length < 2 ^ 32) :
    Tallied s (r .lottery) where
  linked := h.ring
  nrRunning := by rw [h.ltrCount,UInt32.toNat_ofNat',Nat.mod_eq_of_lt hn]
  totalTickets := by
    rw [h.ltrTickets,toNat_sum,List.map_map]
    rfl

theorem idle_not_lottery (h : IdleOk t) : t.policy ≠ schedLottery ∧ t.schedClass ≠ .lottery := by
  rw [h.policy,h.idle]
  decide

theorem books_accounted (h : Books b s r) : Accounted s (r .lottery) where
  toTallied := by
    have hcount := h.count_lt
    unfold Ready.count at hcount
    exact tallied_of h.rep (by omega)
  each_once := h.nodup _
  by_policy p := by
    rw [h.ready]
    constructor
    · rintro ⟨hl,hq,hc⟩
      exact ⟨.inr hl,hq,(h.tasks p hl).lottery.mpr hc⟩
    · rintro ⟨rfl | hl,hq,hp⟩
      · exact absurd hp (idle_not_lottery h.idleTask).1
      · exact ⟨hl,hq,(h.tasks p hl).lottery.mp hp⟩
  by_class p hp := by
    rcases hp with rfl | hl
    · obtain ⟨hpol,hclass⟩ := idle_not_lottery h.idleTask
      simp [hpol,hclass]
    · exact (h.tasks p hl).lottery
  never_under := h.rep.logged.never_under
  open_count := h.rep.logged.open_count

/-- A task that is not queued is appended whatever its own links hold. -/
theorem enqueue_any_links (h : Books b s r) (hp : p ∉ r .lottery) (e : Env)
    (links : ListHead Node) :
    Returns (enqueueTaskLottery e p { s with mem := Function.update s.mem (.task p) links })
      (fun t => Tallied t (r .lottery ++ [p])) := by
  have hnode : Node.task p ∉ .ltrQueue :: (r .lottery).map Node.task := by simpa using hp
  have hrep : Represents { s with mem := Function.update s.mem (.task p) links } r :=
    ⟨h.rep.ring.update hnode links,h.rep.ltrCount,h.rep.ltrTickets,h.rep.upstream,h.rep.idle,
      h.rep.running,h.rep.logged⟩
  have hlen : (r .lottery ++ [p]).length < 2 ^ 32 := by
    have hcount := h.lottery_le
    have hpid := h.live_le
    have hmax := b.pidMax_le
    rw [List.length_append,List.length_singleton]
    omega
  apply (enqueueTaskLottery_spec e hrep hp).mono
  intro t hspec
  obtain ⟨ht,_⟩ := hspec
  have htally := tallied_of ht (by rw [Ready.add_self]; exact hlen)
  rw [Ready.add_self] at htally
  exact htally

/-- After every operation of every run, the lottery runqueue is in order; no
operation changes the tickets of a task, and enqueueing reads no old links. -/
theorem lottery_accounting (h : Reachable b s) : ∃ q, Accounted s q ∧
    (∀ s', Step b s s' → ∀ p ∈ s.live, (s'.task p).tickets = (s.task p).tickets) ∧
    ∀ e p links, p ∉ q →
      Returns (enqueueTaskLottery e p { s with mem := Function.update s.mem (.task p) links })
        (fun t => Tallied t (q ++ [p])) := by
  obtain ⟨⟨r,hr⟩,_⟩ := reachable_inv h
  refine ⟨r .lottery,books_accounted hr.toBooks,fun s' hs => (hr.step hs).2.tickets,?_⟩
  exact fun e p links hp => enqueue_any_links hr.toBooks hp e links

theorem lottery_accounting_running : ∃ q, Accounted lotteryRuns q ∧
    (∀ s', Step .versatile lotteryRuns s' →
      ∀ p ∈ lotteryRuns.live,
        (s'.task p).tickets = (lotteryRuns.task p).tickets) ∧
    ∀ e p links, p ∉ q → Returns (enqueueTaskLottery e p { lotteryRuns with
      mem := Function.update lotteryRuns.mem (.task p) links })
        (fun t => Tallied t (q ++ [p])) :=
  lottery_accounting lotteryRuns_reachable

end Accounting

end LotteryScheduler.Properties
