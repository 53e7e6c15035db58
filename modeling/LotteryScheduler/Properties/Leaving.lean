import LotteryScheduler.Properties.Accounting

namespace LotteryScheduler.Properties
open Lib Model Proofs

/-- The task is on the lottery queue no more. It was unlinked once if it was queued and
not at all otherwise, and the counters followed. -/
structure LeftOnce (p : Tid) (q : List Tid) (s t : Kernel) : Prop where
  linked : Holds t.mem .ltrQueue ((q.erase p).map .task)
  nrRunning : t.rq.ltr.nrRunning.toNat + (if p ∈ q then 1 else 0) = s.rq.ltr.nrRunning.toNat
  totalTickets : t.rq.ltr.totalTickets.toNat +
    (if p ∈ q then (s.task p).tickets.toNat else 0) = s.rq.ltr.totalTickets.toNat
  unlinks : dequeues t.log = dequeues s.log + (if p ∈ q then 1 else 0)

/-- What the functions of the other classes leave alone. -/
structure Aside (s t : Kernel) : Prop where
  task : t.task = s.task
  mem : t.mem = s.mem
  ltr : t.rq.ltr = s.rq.ltr
  unlinks : dequeues t.log = dequeues s.log

section Hooks
variable {b : Build} {e : Env} {s t u : Kernel} {p : Tid} {q : List Tid} {c : SchedClass}
  {h : Hook}

theorem Aside.refl (s : Kernel) : Aside s s := ⟨rfl,rfl,rfl,rfl⟩

theorem Aside.trans (h : Aside s t) (h' : Aside t u) : Aside s u :=
  ⟨h'.task.trans h.task,h'.mem.trans h.mem,h'.ltr.trans h.ltr,h'.unlinks.trans h.unlinks⟩

theorem quiet_aside (h : Quiet s t) : Aside s t := by
  refine ⟨h.task,h.mem,h.ltr,?_⟩
  obtain ⟨l,hl,hs⟩ := h.log
  have hnone : dequeues l = 0 := by
    refine List.countP_eq_zero.mpr fun x hx => ?_
    simp [hs x hx]
  rw [hl,dequeues,List.countP_append]
  exact (congrArg (dequeues s.log + ·) hnone).trans (Nat.add_zero _)

theorem upstreamHook_aside (e : Env) (h : Hook) (s : Kernel) (hc : c ≠ .lottery) :
    Aside s (upstreamHook e c h p s) := by
  have heffect := quiet_aside (upstreamEffect_quiet e h s hc)
  have hadd : ∀ t : Kernel, Aside t (addNrRunning (t.setQueue c (t.rq.queue c ++ [p])) 1) :=
    fun _ => ⟨rfl,rfl,rfl,rfl⟩
  have hsub : ∀ t : Kernel, Aside t (subNrRunning (t.setQueue c ((t.rq.queue c).erase p)) 1) :=
    fun _ => ⟨rfl,rfl,rfl,rfl⟩
  cases c with
  | lottery => contradiction
  | idle => exact heffect
  | _ =>
    cases h with
    | enqueueTask => exact heffect.trans (hadd _)
    | dequeueTask => exact heffect.trans (hsub _)
    | _ => exact heffect

theorem callHook_aside (e : Env) (s : Kernel) (hp : b.provides c h = true) (hc : c ≠ .lottery) :
    Returns (callHook b e c h p s) (Aside s) := by
  unfold callHook
  rw [if_pos hp]
  have haside := upstreamHook_aside (p := p) e h s hc
  cases c with
  | lottery => contradiction
  | _ => exact .ok haside

theorem putBack_aside (b : Build) (e : Env) (queued running : Bool) (flags : UInt32)
    (hc : (s.task p).schedClass ≠ .lottery) (hi : (s.task p).schedClass ≠ .idle) :
    Returns (putBack b e p queued running flags s) (Aside s) := by
  have henqueue : Returns (applyIf queued (enqueueTask b e p flags) s) (Aside s) := by
    refine .applyIf (fun _ => ?_) fun _ => .refl s
    have hclock := clock_quiet e s (flags &&& enqueueNoclock = 0)
    unfold enqueueTask
    dsimp only
    rw [hclock.task]
    have hprovides := provides_of b (h := .enqueueTask) rfl (fun hl => absurd hl hc)
      (fun hl => absurd hl hi)
    exact (callHook_aside e _ hprovides hc).mono fun _ ht => (quiet_aside hclock).trans ht
  apply henqueue.bind
  intro t ht
  refine .applyIf (fun _ => ?_) fun _ => ht
  exact (setNextTask_quiet b e p t).mono fun _ hu => ht.trans (quiet_aside hu)

theorem dequeueTaskLottery_unlinks (e : Env) (hring : Holds s.mem .ltrQueue (q.map .task))
    (hp : p ∈ q) : Returns (dequeueTaskLottery e p s)
      (fun t => t.task = s.task ∧ t.mem (.task p) = ⟨.poison1,.poison2⟩) := by
  obtain ⟨m,hm,_,hpoison⟩ := hring.del (List.mem_map_of_mem hp)
  unfold dequeueTaskLottery
  rw [hm]
  exact .ok ⟨rfl,hpoison⟩

/-- A queued task of the class is unlinked by the opening half. -/
theorem takeOff_unlinks (b : Build) (e : Env) (running : Bool) (flags : UInt32)
    (hring : Holds s.mem .ltrQueue (q.map .task)) (hc : (s.task p).schedClass = .lottery)
    (hp : p ∈ q) : Returns (takeOff b e p true running flags s)
      (fun t => t.task = s.task ∧ t.mem (.task p) = ⟨.poison1,.poison2⟩) := by
  have hclock := clock_quiet e s (flags &&& dequeueNoclock = 0)
  have hdequeue : Returns (applyIf true (dequeueTask b e p flags) s)
      (fun t => t.task = s.task ∧ t.mem (.task p) = ⟨.poison1,.poison2⟩) := by
    refine .applyIf (fun _ => ?_) fun hn => absurd rfl hn
    unfold dequeueTask callHook
    dsimp only
    rw [hclock.task,hc,if_pos (provides_of b rfl (fun _ => rfl) (by simp))]
    refine (dequeueTaskLottery_unlinks e (hclock.mem ▸ hring) hp).mono fun t ht => ?_
    exact ⟨ht.1.trans hclock.task,ht.2⟩
  apply hdequeue.bind
  rintro t ⟨htask,hpoison⟩
  refine .applyIf (fun _ => ?_) fun _ => ⟨htask,hpoison⟩
  exact (putPrevTask_quiet b e p t).mono fun _ hu =>
    ⟨hu.task.trans htask,by rw [hu.mem]; exact hpoison⟩

theorem takeOff_aside (b : Build) (e : Env) (running : Bool) (flags : UInt32) (s : Kernel) :
    Returns (takeOff b e p false running flags s) (Aside s) := by
  have hstay : Returns (applyIf false (dequeueTask b e p flags) s) (Aside s) := .ok (.refl s)
  apply hstay.bind
  intro t ht
  refine .applyIf (fun _ => ?_) fun _ => ht
  exact (putPrevTask_quiet b e p t).mono fun _ hu => ht.trans (quiet_aside hu)

/-- The opening half for a task that may be queued or not. -/
theorem takeOff_either (b : Build) (e : Env) (running : Bool) (flags : UInt32)
    (hring : Holds s.mem .ltrQueue (q.map .task)) (hc : (s.task p).schedClass = .lottery) :
    Returns (takeOff b e p (decide (p ∈ q)) running flags s) (fun t =>
      t.task = s.task ∧ (p ∈ q → t.mem (.task p) = ⟨.poison1,.poison2⟩) ∧
        (p ∉ q → Aside s t)) := by
  by_cases hp : p ∈ q
  · rw [decide_eq_true hp]
    refine (takeOff_unlinks b e running flags hring hc hp).mono fun t ht => ?_
    exact ⟨ht.1,fun _ => ht.2,fun hn => absurd hp hn⟩
  · rw [decide_eq_false hp]
    refine (takeOff_aside b e running flags s).mono fun t ht => ?_
    exact ⟨ht.task,fun hm => absurd hm hp,fun _ => ht⟩

end Hooks

section Sequence
variable {b : Build} {e : Env} {s t u : Kernel} {p : Tid} {q : List Tid} {attr : SchedAttr}
  {pi : Bool}

theorem setschedulerParams_policy (e : Env) (t : TaskStruct)
    (hset : attr.schedPolicy ≠ setparamPolicy) :
    (setschedulerParams e t attr).policy = attr.schedPolicy := by
  unfold setschedulerParams
  rw [if_neg hset]
  dsimp only
  split
  · rfl
  split <;> rfl

/-- The class that the sequence gives a task is not lottery unless its policy is. -/
theorem commitParams_class (e : Env) (t : TaskStruct) (prio : Int)
    (hk : hasFlag attr.schedFlags schedFlagKeepParams = false)
    (hset : attr.schedPolicy ≠ setparamPolicy) (hnew : attr.schedPolicy ≠ schedLottery) :
    (commitParams e t attr prio).schedClass ≠ .lottery ∧
      (commitParams e t attr prio).schedClass ≠ .idle := by
  unfold commitParams
  rw [if_neg (by simp [hk])]
  refine ⟨fun hl => hnew ?_,setschedulerPrio_working _ _⟩
  rw [← setschedulerParams_policy e t hset]
  exact (setschedulerPrio_lottery _ prio).mpr hl

/-- The sequence up to `check_class_changed`: a queued task is unlinked by then, and a
task that is not queued still has the links it came with. -/
structure AtClassChange (p : Tid) (q : List Tid) (s u : Kernel) : Prop where
  out : (u.task p).schedClass ≠ .lottery
  working : (u.task p).schedClass ≠ .idle
  queued : p ∈ q → u.mem (.task p) = ⟨.poison1,.poison2⟩
  mem : p ∉ q → u.mem = s.mem
  ltr : p ∉ q → u.rq.ltr = s.rq.ltr
  unlinks : p ∉ q → dequeues u.log = dequeues s.log

theorem commitRequest_class_change (e : Env) (pi : Bool)
    (hring : Holds s.mem .ltrQueue (q.map .task)) (hc : (s.task p).schedClass = .lottery)
    (hq : (s.task p).onRq = .queued ↔ p ∈ q)
    (hk : hasFlag attr.schedFlags schedFlagKeepParams = false)
    (hset : attr.schedPolicy ≠ setparamPolicy) (hnew : attr.schedPolicy ≠ schedLottery) :
    ∃ u, AtClassChange p q s u ∧
      commitRequest b e p attr pi s = checkClassChanged b e p .lottery (s.task p).prio u := by
  let v := { s.task p with schedResetOnFork := requestedReset (s.task p) attr }
  have hself : (s.setTask p v).task p = v := by simp [Kernel.setTask]
  have hqueued : (s.setTask p v).taskOnRqQueued p = decide (p ∈ q) := by
    simp [Kernel.taskOnRqQueued,hself,v,← hq]
    rfl
  have hoff := takeOff_either (s := s.setTask p v) b e (p := p) (q := q)
  unfold commitRequest
  dsimp only
  rw [hself,hqueued]
  refine (hoff _ _ hring (by rw [hself]; exact hc)).reaches fun t ht => ?_
  obtain ⟨htask,hpoison,haside⟩ := ht
  rw [htask,hself]
  obtain ⟨hout,hwork⟩ := commitParams_class e v (newPrio s p attr pi) hk hset hnew
  generalize commitParams e v attr (newPrio s p attr pi) = w at hout hwork
  have hw : (t.setTask p w).task p = w := by simp [Kernel.setTask]
  refine (putBack_aside b e _ _ _ (by rw [hw]; exact hout) (by rw [hw]; exact hwork)).reaches
    fun u hu => ?_
  have hclass : u.task p = w := by rw [hu.task,hw]
  refine ⟨u,⟨by rw [hclass]; exact hout,by rw [hclass]; exact hwork,fun hp => ?_,fun hp => ?_,
    fun hp => ?_,fun hp => ?_⟩,?_⟩
  · rw [hu.mem]
    exact hpoison hp
  · exact hu.mem.trans (haside hp).mem
  · exact hu.ltr.trans (haside hp).ltr
  · exact hu.unlinks.trans (haside hp).unlinks
  · rw [show v.schedClass = .lottery from hc]

/-- The class that is left asks whether the node is still linked; another class is
entered after that. -/
theorem checkClassChanged_lottery (b : Build) (e : Env) (oldprio : Int)
    (hc : (s.task p).schedClass ≠ .lottery) :
    checkClassChanged b e p .lottery oldprio s =
      switchedFromLottery e p s >>= callHook b e (s.task p).schedClass .switchedTo p := by
  unfold checkClassChanged
  dsimp only
  rw [if_pos hc.symm]
  rfl

theorem switchedTo_aside (e : Env) (s : Kernel) (hc : c ≠ .lottery) :
    Returns (callHook b e c .switchedTo p s) (Aside s) :=
  callHook_aside e s (provides_of b rfl (fun hl => absurd hl hc) (by simp)) hc

/-- The poisoned links of a task that was unlinked do not point to it. -/
theorem AtClassChange.faults (hu : AtClassChange p q s u) (hp : p ∈ q) (e : Env) :
    switchedFromLottery e p u = .error .badPointer := by
  obtain ⟨hlinked,hdel⟩ := unlinked_entry (hu.queued hp)
  unfold switchedFromLottery dequeueTaskLottery
  rw [if_pos (by simp [hlinked]),hdel]

/-- A task that is not queued and is not unlinked has left. -/
theorem AtClassChange.leftOnce (hu : AtClassChange p q s u) (ht : Tallied s q) (hp : p ∉ q)
    (ha : Aside u t) : LeftOnce p q s t := by
  refine ⟨?_,?_,?_,?_⟩
  · rw [ha.mem,hu.mem hp,List.erase_of_not_mem hp]
    exact ht.linked
  · rw [ha.ltr,hu.ltr hp,if_neg hp,Nat.add_zero]
  · rw [ha.ltr,hu.ltr hp,if_neg hp,Nat.add_zero]
  · rw [ha.unlinks,hu.unlinks hp,if_neg hp,Nat.add_zero]

theorem switchedFromLottery_unlinks (hself : listEmpty s.mem (.task p) = false)
    (hrun : switchedFromLottery e p s = .ok t) : dequeues t.log = dequeues s.log + 1 := by
  unfold switchedFromLottery dequeueTaskLottery at hrun
  rw [if_pos (by simp [hself])] at hrun
  split at hrun
  · cases hrun
  · cases hrun
    simp [dequeues,logEvent,Kernel.setLtr]

/-- The sequence ends well exactly for a task that is not queued and whose node points
to itself: the second test takes every other node for a linked one. -/
theorem leaves_once_iff (ht : Tallied s q) (hc : (s.task p).schedClass = .lottery)
    (hq : (s.task p).onRq = .queued ↔ p ∈ q)
    (hk : hasFlag attr.schedFlags schedFlagKeepParams = false)
    (hset : attr.schedPolicy ≠ setparamPolicy) (hnew : attr.schedPolicy ≠ schedLottery) :
    Returns (commitRequest b e p attr pi s) (LeftOnce p q s) ↔
      p ∉ q ∧ listEmpty s.mem (.task p) = true := by
  obtain ⟨u,hu,heq⟩ := commitRequest_class_change (b := b) e pi ht.linked hc hq hk hset hnew
  rw [heq,checkClassChanged_lottery b e _ hu.out]
  by_cases hp : p ∈ q
  · rw [hu.faults hp e]
    refine ⟨fun h => absurd rfl (h.ne_error .badPointer),fun h => absurd hp h.1⟩
  · rw [← hu.mem hp]
    cases hself : listEmpty u.mem (.task p) with
    | true =>
      refine ⟨fun _ => ⟨hp,rfl⟩,fun _ => ?_⟩
      have hstay : switchedFromLottery e p u = .ok u := by
        unfold switchedFromLottery
        exact if_neg (by simp [hself])
      rw [hstay]
      exact (switchedTo_aside e u hu.out).mono fun t ha => hu.leftOnce ht hp ha
    | false =>
      refine ⟨fun h => ?_,fun h => absurd h.2 (by simp)⟩
      obtain ⟨t,hrun,hleft⟩ := h
      obtain ⟨w,hw,hrun⟩ := bind_eq_ok.mp hrun
      have htwice := switchedFromLottery_unlinks hself hw
      have hto := (switchedTo_aside e w hu.out).of_ok hrun
      have hcount := hleft.unlinks
      rw [hto.unlinks,htwice,hu.unlinks hp,if_neg hp] at hcount
      omega

/-- The queue of the sample run with one lottery task. -/
theorem lotteryWaits_tallied : Tallied lotteryWaits [1] :=
  ⟨⟨⟨by decide +kernel,by decide +kernel,by decide +kernel,by decide +kernel⟩,by decide⟩,
    by decide +kernel,by decide +kernel⟩

theorem leaves_once_iff_waiting :
    Returns (commitRequest .versatile .quiet 1 { schedPolicy := schedNormal } true lotteryWaits)
      (LeftOnce 1 [1] lotteryWaits) ↔
    1 ∉ [1] ∧ listEmpty lotteryWaits.mem (.task 1) = true :=
  leaves_once_iff lotteryWaits_tallied (by decide +kernel) (by decide +kernel) (by decide)
    (by decide) (by decide)

/-- A queued lottery task is to become a normal one: it is unlinked, and then its
poisoned node is taken for a linked one. -/
theorem queued_leaves_twice : Reachable .versatile lotteryWaits ∧
    (lotteryWaits.task 1).schedClass = .lottery ∧ (lotteryWaits.task 1).onRq = .queued ∧
    commitRequest .versatile .quiet 1 { schedPolicy := schedNormal } true lotteryWaits =
      .error .badPointer ∧
    ¬Returns (commitRequest .versatile .quiet 1 { schedPolicy := schedNormal } true lotteryWaits)
      (LeftOnce 1 [1] lotteryWaits) := by
  have hfault : commitRequest .versatile .quiet 1 { schedPolicy := schedNormal } true
      lotteryWaits = .error .badPointer := by rfl
  refine ⟨lotteryWaits_reachable,by decide +kernel,by decide +kernel,hfault,fun h => ?_⟩
  exact h.ne_error .badPointer hfault

end Sequence

end LotteryScheduler.Properties
