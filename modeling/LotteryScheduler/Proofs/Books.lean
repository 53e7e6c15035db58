import LotteryScheduler.Proofs.Ready
import Mathlib.Data.List.Nodup

namespace LotteryScheduler.Proofs
open Lib Model

section Log

def enqueues (log : List LogRecord) : Nat := log.countP (·.op = .e)

def dequeues (log : List LogRecord) : Nat := log.countP (·.op = .d)

/-- No moment of the log has more dequeues than enqueues before it, and at its end
`n` enqueues are open. -/
structure Balanced (log : List LogRecord) (n : Nat) : Prop where
  never_under : ∀ early, early <+: log → dequeues early ≤ enqueues early
  open_count : enqueues log = dequeues log + n

theorem Balanced.append (h : Balanced log n) (x : LogRecord)
    (hx : dequeues (log ++ [x]) ≤ enqueues (log ++ [x]))
    (hn : enqueues (log ++ [x]) = dequeues (log ++ [x]) + m) : Balanced (log ++ [x]) m := by
  refine ⟨fun early he => ?_,hn⟩
  rcases List.prefix_concat_iff.mp he with rfl | he
  · exact hx
  · exact h.never_under early he

theorem Balanced.enqueue (h : Balanced log n) : Balanced (log ++ [⟨p,ns,.e⟩]) (n + 1) := by
  have hn := h.open_count
  apply h.append <;> simp [enqueues,dequeues] at * <;> omega

theorem Balanced.dequeue (h : Balanced log (n + 1)) : Balanced (log ++ [⟨p,ns,.d⟩]) n := by
  have hn := h.open_count
  apply h.append <;> simp [enqueues,dequeues] at * <;> omega

theorem Balanced.selects (h : Balanced log n) (hl : ∀ x ∈ l, x.op = .s) :
    Balanced (log ++ l) n := by
  induction l generalizing log with
  | nil => simpa using h
  | cons x l ih =>
    have hx : x.op = .s := hl x (by simp)
    have hn := h.open_count
    rw [List.append_cons]
    refine ih ?_ (fun y hy => hl y (List.mem_cons_of_mem _ hy))
    apply h.append <;> simp [enqueues,dequeues,hx] at * <;> omega

end Log

/-- The runqueue holds exactly these tasks, in these orders, and its counters agree. -/
structure Represents (s : Kernel) (r : Ready) : Prop where
  ring : Holds s.mem .ltrQueue ((r .lottery).map .task)
  ltrCount : s.rq.ltr.nrRunning = .ofNat (r .lottery).length
  ltrTickets : s.rq.ltr.totalTickets = ((r .lottery).map fun p => (s.task p).tickets).sum
  upstream : ∀ c, c ≠ .lottery → s.rq.queue c = r c
  idle : r .idle = []
  running : s.rq.nrRunning = .ofNat r.counted
  logged : Balanced s.log (r .lottery).length

/-- What no function behind a hook touches. -/
structure Frame (s s' : Kernel) : Prop where
  live : s'.live = s.live
  task : s'.task = s.task
  curr : s'.rq.curr = s.rq.curr
  idle : s'.rq.idle = s.rq.idle
  stop : s'.rq.stop = s.rq.stop
  threads : s'.nrThreads = s.nrThreads
  clock : s.rq.clockTask ≤ s'.rq.clockTask
  se : ∀ p, (s.task p).schedClass = .lottery → s'.se p = s.se p

/-- What the hooks that move no task leave alone besides. -/
structure Quiet (s s' : Kernel) : Prop extends Frame s s' where
  mem : s'.mem = s.mem
  queue : s'.rq.queue = s.rq.queue
  ltr : s'.rq.ltr = s.rq.ltr
  running : s'.rq.nrRunning = s.rq.nrRunning
  log : ∃ l, s'.log = s.log ++ l ∧ ∀ x ∈ l, x.op = .s

section Frames
variable {s t u : Kernel}

theorem Frame.refl (s : Kernel) : Frame s s :=
  ⟨rfl,rfl,rfl,rfl,rfl,rfl,Nat.le_refl _,fun _ _ => rfl⟩

theorem Frame.trans (h : Frame s t) (h' : Frame t u) : Frame s u where
  live := h'.live.trans h.live
  task := h'.task.trans h.task
  curr := h'.curr.trans h.curr
  idle := h'.idle.trans h.idle
  stop := h'.stop.trans h.stop
  threads := h'.threads.trans h.threads
  clock := Nat.le_trans h.clock h'.clock
  se p hp := (h'.se p (by rw [h.task]; exact hp)).trans (h.se p hp)

theorem Quiet.refl (s : Kernel) : Quiet s s :=
  ⟨.refl s,rfl,rfl,rfl,rfl,[],by simp,by simp⟩

theorem Quiet.trans (h : Quiet s t) (h' : Quiet t u) : Quiet s u := by
  obtain ⟨l,hl,hs⟩ := h.log
  obtain ⟨l',hl',hs'⟩ := h'.log
  refine ⟨h.toFrame.trans h'.toFrame,h'.mem.trans h.mem,h'.queue.trans h.queue,
    h'.ltr.trans h.ltr,h'.running.trans h.running,l ++ l',by rw [hl',hl,List.append_assoc],?_⟩
  intro x hx
  exact (List.mem_append.mp hx).elim (hs x) (hs' x)

theorem Represents.quiet (h : Represents s r) (hq : Quiet s t) : Represents t r where
  ring := hq.mem ▸ h.ring
  ltrCount := by rw [hq.ltr,h.ltrCount]
  ltrTickets := by rw [hq.ltr,hq.task,h.ltrTickets]
  upstream c hc := by rw [hq.queue,h.upstream c hc]
  idle := h.idle
  running := by rw [hq.running,h.running]
  logged := by
    obtain ⟨l,hl,hs⟩ := hq.log
    rw [hl]
    exact h.logged.selects hs

/-- A task's data can change as long as its tickets do not, or it is not queued. -/
theorem Represents.setTask (h : Represents s r) (p : Tid) (v : TaskStruct)
    (hp : p ∉ r .lottery ∨ v.tickets = (s.task p).tickets) :
    Represents (s.setTask p v) r := by
  refine ⟨h.ring,h.ltrCount,?_,h.upstream,h.idle,h.running,h.logged⟩
  refine h.ltrTickets.trans (congrArg List.sum (List.map_congr_left fun x hx => ?_))
  rcases eq_or_ne x p with rfl | hne
  · simpa [Kernel.setTask] using (hp.resolve_left (fun hn => hn hx)).symm
  · simp [Kernel.setTask,hne]

end Frames

section Hooks
variable {b : Build} {e : Env} {s : Kernel} {p : Tid} {c : SchedClass} {h : Hook}

theorem updateRqClock_quiet (e : Env) (s : Kernel) : Quiet s (updateRqClock e s) := by
  unfold updateRqClock
  split
  · exact .refl s
  split
  · exact .refl s
  · refine ⟨⟨rfl,rfl,rfl,rfl,rfl,rfl,?_,fun _ _ => rfl⟩,rfl,rfl,rfl,rfl,[],by simp [updateRqClockTask],by simp⟩
    simp [updateRqClockTask]

theorem setNeedResched_quiet (s : Kernel) : Quiet s s.setNeedResched :=
  ⟨⟨rfl,rfl,rfl,rfl,rfl,rfl,Nat.le_refl _,fun _ _ => rfl⟩,rfl,rfl,rfl,rfl,[],
    by simp [Kernel.setNeedResched],by simp⟩

theorem reschedCurr_quiet (s : Kernel) : Quiet s (reschedCurr s) := by
  unfold reschedCurr
  split
  · exact .refl s
  · exact setNeedResched_quiet s

theorem rqClockSkipUpdate_quiet (s : Kernel) : Quiet s (rqClockSkipUpdate s) :=
  ⟨⟨rfl,rfl,rfl,rfl,rfl,rfl,Nat.le_refl _,fun _ _ => rfl⟩,rfl,rfl,rfl,rfl,[],
    by simp [rqClockSkipUpdate],by simp⟩

theorem taskTickLottery_quiet (e : Env) (s : Kernel) : Quiet s (taskTickLottery e s) := by
  unfold taskTickLottery
  split
  · exact .refl s
  dsimp only
  split
  · exact reschedCurr_quiet s
  · exact .refl s

/-- Charging the current task of another class leaves the lottery tasks alone. -/
theorem chargeCurr_quiet (hc : (s.task s.rq.curr).schedClass ≠ .lottery) (n : Nat) :
    Quiet s (s.chargeCurr n) := by
  refine ⟨⟨rfl,rfl,rfl,rfl,rfl,rfl,Nat.le_refl _,fun x hx => ?_⟩,rfl,rfl,rfl,rfl,[],
    by simp [Kernel.chargeCurr],by simp⟩
  have hne : x ≠ s.rq.curr := fun he => hc (he ▸ hx)
  simp [Kernel.chargeCurr,hne]

theorem upstreamEffect_quiet (e : Env) (h : Hook) (s : Kernel) (hc : c ≠ .lottery) :
    Quiet s (upstreamEffect e c h s) := by
  have hcharge : Quiet s (if (s.task s.rq.curr).schedClass = c then s.chargeCurr (e.charge c h)
      else s) := by
    split
    next hcurr => exact chargeCurr_quiet (hcurr ▸ hc) _
    next => exact .refl s
  unfold upstreamEffect
  dsimp only
  split
  · exact hcharge.trans (setNeedResched_quiet _)
  · exact hcharge

/-- The hooks that move no task from or to a queue. -/
def quietHook : Hook → Bool
  | .enqueueTask | .dequeueTask | .switchedFrom | .pickNextTask => false
  | _ => true

theorem upstreamHook_quiet (e : Env) (s : Kernel) (hc : c ≠ .lottery)
    (he : h ≠ .enqueueTask) (hd : h ≠ .dequeueTask) : Quiet s (upstreamHook e c h p s) := by
  have heffect := upstreamEffect_quiet e h s hc
  cases c <;> cases h <;> first | exact heffect | contradiction

/-- Every hook that the core calls untested exists, apart from the ones that the
lottery class lacks and the two that are never called on the idle class. -/
theorem provides_of (b : Build) (ht : h.tested = false)
    (hl : c = .lottery → lotterySchedClass.contains h = true)
    (hi : c = .idle → h ≠ .enqueueTask ∧ h ≠ .yieldTask) : b.provides c h = true := by
  unfold Build.provides
  split
  · exact hl rfl
  · refine b.upstream_complete c h ‹_› ht ?_
    rintro ⟨rfl,hh⟩
    exact hh.elim (hi rfl).1 (hi rfl).2

theorem callHook_quiet (e : Env) (s : Kernel) (hp : b.provides c h = true)
    (hq : quietHook h = true) : Returns (callHook b e c h p s) (Quiet s) := by
  unfold callHook
  rw [if_pos hp]
  split
  · cases h with
    | taskTick => exact .ok (taskTickLottery_quiet e s)
    | yieldTask => exact .ok (.refl s)
    | checkPreemptCurr => exact .ok (.refl s)
    | putPrevTask => exact .ok (.refl s)
    | setNextTask => exact .ok (.refl s)
    | switchedTo => exact .ok (.refl s)
    | prioChanged => exact .ok (.refl s)
    | _ => simp [Build.provides,lotterySchedClass,quietHook] at hp hq
  · refine .ok (upstreamHook_quiet e s ‹_› ?_ ?_)
    · rintro rfl
      cases hq
    · rintro rfl
      cases hq

theorem callHookIfSet_quiet (b : Build) (e : Env) (s : Kernel) (hq : quietHook h = true) :
    Returns (callHookIfSet b e c h p s) (Quiet s) := by
  unfold callHookIfSet
  split
  · exact callHook_quiet e s ‹_› hq
  · exact .ok (.refl s)

theorem callHook_missing (e : Env) (s : Kernel) (hp : b.provides c h = false) :
    callHook b e c h p s = .error (.nullHook c h) := by
  simp [callHook,hp]

end Hooks

section Moves
variable {b : Build} {e : Env} {s : Kernel} {r : Ready} {p : Tid} {c : SchedClass}

theorem enqueueTaskLottery_spec (e : Env) (h : Represents s r) (hp : p ∉ r .lottery) :
    Returns (enqueueTaskLottery e p s)
      (fun s' => Represents s' (r.add p .lottery) ∧ Frame s s') := by
  have hnode : Node.task p ∉ .ltrQueue :: (r .lottery).map Node.task := by
    simpa using hp
  obtain ⟨m,hm,hring⟩ := h.ring.add_tail hnode
  refine ⟨_,by simp only [enqueueTaskLottery,hm]; rfl,?_,?_⟩
  · refine ⟨?_,?_,?_,?_,?_,?_,?_⟩
    · simpa [Kernel.setLtr,logEvent] using hring
    · simp [Kernel.setLtr,logEvent,h.ltrCount]
    · simp [Kernel.setLtr,logEvent,h.ltrTickets]
    · intro d hd
      rw [Ready.add_of_ne hd]
      exact h.upstream d hd
    · rw [Ready.add_of_ne (by decide)]
      exact h.idle
    · rw [Ready.counted_add_lottery]
      exact h.running
    · rw [Ready.add_self,List.length_append]
      exact h.logged.enqueue
  · exact ⟨rfl,rfl,rfl,rfl,rfl,rfl,Nat.le_refl _,fun _ _ => rfl⟩

theorem sum_erase_tickets {l : List Tid} (f : Tid → UInt32) (hp : p ∈ l) :
    ((l.erase p).map f).sum = (l.map f).sum - f p := by
  induction l with
  | nil => simp at hp
  | cons x l ih =>
    rcases eq_or_ne x p with rfl | hne
    · rw [List.erase_cons_head,List.map_cons,List.sum_cons]
      grind
    · rw [List.erase_cons_tail (by simpa using hne)]
      simp only [List.map_cons,List.sum_cons,ih ((List.mem_cons.mp hp).resolve_left hne.symm)]
      grind

theorem dequeueTaskLottery_spec (e : Env) (h : Represents s r) (hp : p ∈ r .lottery) :
    Returns (dequeueTaskLottery e p s)
      (fun s' => Represents s' (r.remove p .lottery) ∧ Frame s s' ∧
        s'.mem (.task p) = ⟨.poison1,.poison2⟩) := by
  obtain ⟨m,hm,hring,hpoison⟩ := h.ring.del (List.mem_map_of_mem hp)
  have hlen : (r .lottery).length = ((r .lottery).erase p).length + 1 := by
    rw [List.length_erase_of_mem hp]
    have := List.length_pos_of_mem hp
    omega
  have hinj : Function.Injective Node.task := fun _ _ h => Node.task.inj h
  refine ⟨_,by simp only [dequeueTaskLottery,hm]; rfl,?_,?_,hpoison⟩
  · refine ⟨?_,?_,?_,?_,?_,?_,?_⟩
    · rw [Ready.remove_self,List.map_erase hinj]
      exact hring
    · rw [Ready.remove_self]
      simp [Kernel.setLtr,logEvent,h.ltrCount,hlen]
    · rw [Ready.remove_self,sum_erase_tickets _ hp]
      simp [Kernel.setLtr,logEvent,h.ltrTickets]
    · intro d hd
      rw [Ready.remove_of_ne hd]
      exact h.upstream d hd
    · rw [Ready.remove_of_ne (by decide)]
      exact h.idle
    · rw [Ready.counted_remove_lottery]
      exact h.running
    · have hlog := h.logged
      rw [hlen] at hlog
      rw [Ready.remove_self]
      exact hlog.dequeue
  · exact ⟨rfl,rfl,rfl,rfl,rfl,rfl,Nat.le_refl _,fun _ _ => rfl⟩

theorem enqueueUpstream_spec (h : Represents s r) (hc : c ≠ .lottery) (hi : c ≠ .idle) :
    Represents (addNrRunning (s.setQueue c (s.rq.queue c ++ [p])) 1) (r.add p c) := by
  refine ⟨?_,?_,?_,?_,?_,?_,?_⟩
  · rw [Ready.add_of_ne hc.symm]
    exact h.ring
  · rw [Ready.add_of_ne hc.symm]
    exact h.ltrCount
  · rw [Ready.add_of_ne hc.symm]
    exact h.ltrTickets
  · intro d hd
    rcases eq_or_ne d c with rfl | hne
    · simp [addNrRunning,Kernel.setQueue,h.upstream d hd]
    · simp [addNrRunning,Kernel.setQueue,hne,Ready.add_of_ne hne,h.upstream d hd]
  · rw [Ready.add_of_ne hi.symm]
    exact h.idle
  · simp [addNrRunning,Kernel.setQueue,h.running,Ready.counted_add hc hi]
  · rw [Ready.add_of_ne hc.symm]
    exact h.logged

theorem dequeueUpstream_spec (h : Represents s r) (hc : c ≠ .lottery) (hi : c ≠ .idle)
    (hp : p ∈ r c) :
    Represents (subNrRunning (s.setQueue c ((s.rq.queue c).erase p)) 1) (r.remove p c) := by
  have hcount := Ready.counted_remove hc hi hp
  refine ⟨?_,?_,?_,?_,?_,?_,?_⟩
  · rw [Ready.remove_of_ne hc.symm]
    exact h.ring
  · rw [Ready.remove_of_ne hc.symm]
    exact h.ltrCount
  · rw [Ready.remove_of_ne hc.symm]
    exact h.ltrTickets
  · intro d hd
    rcases eq_or_ne d c with rfl | hne
    · simp [subNrRunning,Kernel.setQueue,h.upstream d hd]
    · simp [subNrRunning,Kernel.setQueue,hne,Ready.remove_of_ne hne,h.upstream d hd]
  · rw [Ready.remove_of_ne hi.symm]
    exact h.idle
  · simp [subNrRunning,Kernel.setQueue,h.running,← hcount]
  · rw [Ready.remove_of_ne hc.symm]
    exact h.logged

/-- Queueing through a class's own function, for a class with a queue. -/
theorem enqueueHook_spec (b : Build) (e : Env) (h : Represents s r) (hi : c ≠ .idle)
    (hp : p ∉ r c) : Returns (callHook b e c .enqueueTask p s)
      (fun s' => Represents s' (r.add p c) ∧ Frame s s') := by
  unfold callHook
  rw [if_pos (provides_of b rfl (fun _ => rfl) (fun hc => absurd hc hi))]
  rcases eq_or_ne c .lottery with rfl | hc
  · exact enqueueTaskLottery_spec e h hp
  · have hq := upstreamEffect_quiet e .enqueueTask s hc
    have hr := enqueueUpstream_spec (p := p) (h.quiet hq) hc hi
    have hf : ∀ t : Kernel, Frame t (addNrRunning (t.setQueue c (t.rq.queue c ++ [p])) 1) :=
      fun _ => ⟨rfl,rfl,rfl,rfl,rfl,rfl,Nat.le_refl _,fun _ _ => rfl⟩
    cases c with
    | idle => contradiction
    | lottery => contradiction
    | _ => exact .ok ⟨hr,hq.toFrame.trans (hf _)⟩

theorem dequeueHook_spec (b : Build) (e : Env) (h : Represents s r) (hi : c ≠ .idle)
    (hp : p ∈ r c) : Returns (callHook b e c .dequeueTask p s)
      (fun s' => Represents s' (r.remove p c) ∧ Frame s s') := by
  unfold callHook
  rw [if_pos (provides_of b rfl (fun _ => rfl) (fun hc => absurd hc hi))]
  rcases eq_or_ne c .lottery with rfl | hc
  · exact (dequeueTaskLottery_spec e h hp).mono fun _ h => ⟨h.1,h.2.1⟩
  · have hq := upstreamEffect_quiet e .dequeueTask s hc
    have hr := dequeueUpstream_spec (h.quiet hq) hc hi hp
    have hf : ∀ t : Kernel, Frame t (subNrRunning (t.setQueue c ((t.rq.queue c).erase p)) 1) :=
      fun _ => ⟨rfl,rfl,rfl,rfl,rfl,rfl,Nat.le_refl _,fun _ _ => rfl⟩
    cases c with
    | idle => contradiction
    | lottery => contradiction
    | _ => exact .ok ⟨hr,hq.toFrame.trans (hf _)⟩

theorem clock_quiet (e : Env) (s : Kernel) (c : Prop) [Decidable c] :
    Quiet s (if c then updateRqClock e s else s) := by
  split
  · exact updateRqClock_quiet e s
  · exact .refl s

theorem enqueueTask_spec (b : Build) (e : Env) (flags : UInt32) (h : Represents s r)
    (hi : (s.task p).schedClass ≠ .idle) (hp : p ∉ r (s.task p).schedClass) :
    Returns (enqueueTask b e p flags s)
      (fun s' => Represents s' (r.add p (s.task p).schedClass) ∧ Frame s s') := by
  have hq := clock_quiet e s (flags &&& enqueueNoclock = 0)
  unfold enqueueTask
  dsimp only
  rw [hq.task]
  exact (enqueueHook_spec b e (h.quiet hq) hi hp).mono fun _ h => ⟨h.1,hq.toFrame.trans h.2⟩

theorem dequeueTask_spec (b : Build) (e : Env) (flags : UInt32) (h : Represents s r)
    (hi : (s.task p).schedClass ≠ .idle) (hp : p ∈ r (s.task p).schedClass) :
    Returns (dequeueTask b e p flags s)
      (fun s' => Represents s' (r.remove p (s.task p).schedClass) ∧ Frame s s') := by
  have hq := clock_quiet e s (flags &&& dequeueNoclock = 0)
  unfold dequeueTask
  dsimp only
  rw [hq.task]
  exact (dequeueHook_spec b e (h.quiet hq) hi hp).mono fun _ h => ⟨h.1,hq.toFrame.trans h.2⟩

theorem putPrevTask_quiet (b : Build) (e : Env) (p : Tid) (s : Kernel) :
    Returns (putPrevTask b e p s) (Quiet s) :=
  callHook_quiet e s (provides_of b rfl (fun _ => rfl) (fun _ => by decide)) rfl

theorem setNextTask_quiet (b : Build) (e : Env) (p : Tid) (s : Kernel) :
    Returns (setNextTask b e p s) (Quiet s) :=
  callHook_quiet e s (provides_of b rfl (fun _ => rfl) (fun _ => by decide)) rfl

/-- The opening half: a queued task leaves its class's queue, nothing else moves. -/
theorem takeOff_spec (b : Build) (e : Env) (queued running : Bool) (flags : UInt32)
    (h : Represents s r) (hi : (s.task p).schedClass ≠ .idle)
    (hp : queued = true → p ∈ r (s.task p).schedClass) :
    Returns (takeOff b e p queued running flags s) (fun s' =>
      Represents s' (if queued then r.remove p (s.task p).schedClass else r) ∧ Frame s s') := by
  have hdequeue : Returns (applyIf queued (dequeueTask b e p flags) s) (fun s' =>
      Represents s' (if queued then r.remove p (s.task p).schedClass else r) ∧ Frame s s') := by
    refine .applyIf (fun hq => ?_) (fun hq => ?_)
    · rw [if_pos hq]
      exact dequeueTask_spec b e flags h hi (hp hq)
    · rw [if_neg hq]
      exact ⟨h,.refl s⟩
  apply hdequeue.bind
  intro t hspec
  obtain ⟨ht,hf⟩ := hspec
  apply Returns.applyIf
  · intro _
    exact (putPrevTask_quiet b e p t).mono fun _ hq => ⟨ht.quiet hq,hf.trans hq.toFrame⟩
  · intro _
    exact ⟨ht,hf⟩

/-- The closing half: the task enters the queue of the class it now has. -/
theorem putBack_spec (b : Build) (e : Env) (queued running : Bool) (flags : UInt32)
    (h : Represents s r) (hi : (s.task p).schedClass ≠ .idle)
    (hp : queued = true → p ∉ r (s.task p).schedClass) :
    Returns (putBack b e p queued running flags s) (fun s' =>
      Represents s' (if queued then r.add p (s.task p).schedClass else r) ∧ Frame s s') := by
  have henqueue : Returns (applyIf queued (enqueueTask b e p flags) s) (fun s' =>
      Represents s' (if queued then r.add p (s.task p).schedClass else r) ∧ Frame s s') := by
    refine .applyIf (fun hq => ?_) (fun hq => ?_)
    · rw [if_pos hq]
      exact enqueueTask_spec b e flags h hi (hp hq)
    · rw [if_neg hq]
      exact ⟨h,.refl s⟩
  apply henqueue.bind
  intro t hspec
  obtain ⟨ht,hf⟩ := hspec
  apply Returns.applyIf
  · intro _
    exact (setNextTask_quiet b e p t).mono fun _ hq => ⟨ht.quiet hq,hf.trans hq.toFrame⟩
  · intro _
    exact ⟨ht,hf⟩

end Moves

end LotteryScheduler.Proofs
