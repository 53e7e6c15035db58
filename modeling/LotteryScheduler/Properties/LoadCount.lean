import LotteryScheduler.Lib.Census
import LotteryScheduler.Model.LoadCount
import LotteryScheduler.Proofs.Sleepers

namespace LotteryScheduler.Properties
open Lib Model Proofs

/-- A task that has blocked and that nothing has woken. A new one does not count. -/
def blocked (s : Kernel) (p : Tid) : Bool :=
  (s.task p).onRq == .none && (s.task p).state != taskNew

/-- The number of blocked tasks with a mark. -/
def blockedCount (s : Kernel) (mark : Tid → Bool) : Nat :=
  s.live.countP fun p => blocked s p && mark p

/-- A task is blocked or not as before, and in the same state if it is. -/
structure Rests (s t : Kernel) (p : Tid) : Prop where
  same : blocked t p = blocked s p
  state : blocked s p = true → (t.task p).state = (s.task p).state

/-- The counters are the numbers of the tasks they are for, and a blocked task is in the load
or not by the state it blocked in. -/
structure Counts (freezer : Bool) (s : Kernel) (c : LoadCount) : Prop where
  load : c.nrUninterruptible = .ofNat (blockedCount s c.contributesToLoad)
  iowait : c.nrIowait = blockedCount s c.inIowait
  marked : ∀ p ∈ s.live, blocked s p = true → ∃ frozen, (freezer = false → frozen = false) ∧
    c.contributesToLoad p = contributes (s.task p).state frozen

/-- What `__schedule` writes: the current task leaves its queue exactly when it blocks. -/
inductive CpuTaken (e : Env) (preempt : Bool) (s t : Kernel) : Prop where
  | blocked (block : blocks e preempt s = true)
    (written : Written s s.rq.curr { s.task s.rq.curr with onRq := .none } t)
  | kept (block : blocks e preempt s = false)
    (written : Written s s.rq.curr { s.task s.rq.curr with state } t)

section Changes
variable {s t : Kernel} {p : Tid} {c : LoadCount} {freezer frozen : Bool}

theorem Rests.counted (h : Rests s t p) (mark : Tid → Bool) :
    (blocked t p && mark p) = (blocked s p && mark p) := by rw [h.same]

theorem blockedCount_stays (hl : t.live = s.live) (hr : ∀ x ∈ s.live, Rests s t x)
    (mark : Tid → Bool) : blockedCount t mark = blockedCount s mark := by
  unfold blockedCount
  rw [hl]
  apply List.countP_congr
  intro x hx
  rw [(hr x hx).counted mark]

/-- One task blocks or wakes up. -/
theorem blockedCount_moves (mark mark' : Tid → Bool) (hn : s.live.Nodup) (hp : p ∈ s.live)
    (hl : t.live = s.live) (hr : ∀ x ∈ s.live, x ≠ p → Rests s t x)
    (hm : ∀ x, x ≠ p → mark' x = mark x) :
    blockedCount t mark' + (blocked s p && mark p).toNat =
      blockedCount s mark + (blocked t p && mark' p).toNat := by
  unfold blockedCount
  rw [hl]
  apply countP_change hn hp
  intro x hx hne
  rw [hm x hne,(hr x hx hne).counted mark]

theorem Counts.stays (h : Counts freezer s c) (hl : t.live = s.live) (hr : ∀ x ∈ s.live, Rests s t x) :
    Counts freezer t c := by
  refine ⟨?_,?_,fun x hx hb => ?_⟩
  · rw [h.load,blockedCount_stays hl hr]
  · rw [h.iowait,blockedCount_stays hl hr]
  · rw [hl] at hx
    rw [(hr x hx).same] at hb
    rw [(hr x hx).state hb]
    exact h.marked x hx hb

theorem Counts.blocks (h : Counts freezer s c) (hn : s.live.Nodup) (hp : p ∈ s.live)
    (hl : t.live = s.live) (hr : ∀ x ∈ s.live, x ≠ p → Rests s t x)
    (hs : blocked s p = false) (ht : blocked t p = true)
    (hstate : (t.task p).state = (s.task p).state)
    (hthaw : freezer = false → frozen = false) :
    Counts freezer t (countBlock p (s.task p).state frozen c) := by
  have hload := blockedCount_moves c.contributesToLoad
    (countBlock p (s.task p).state frozen c).contributesToLoad hn hp hl hr
    fun x hx => by simp [countBlock,hx]
  have hwait := blockedCount_moves c.inIowait c.inIowait hn hp hl hr fun _ _ => rfl
  have hself : (countBlock p (s.task p).state frozen c).contributesToLoad p =
      contributes (s.task p).state frozen := by simp [countBlock]
  rw [hs,ht,hself] at hload
  rw [hs,ht] at hwait
  refine ⟨?_,?_,fun x hx hb => ?_⟩
  · change (if contributes (s.task p).state frozen then c.nrUninterruptible + 1
      else c.nrUninterruptible) = _
    rw [h.load]
    cases hc : contributes (s.task p).state frozen with
    | false =>
      rw [hc] at hload
      exact congrArg UInt32.ofNat hload.symm
    | true =>
      rw [hc] at hload
      exact (UInt32.ofNat_add _ 1).symm.trans (congrArg UInt32.ofNat hload.symm)
  · change (if c.inIowait p then c.nrIowait + 1 else c.nrIowait) = _
    rw [h.iowait]
    cases hc : c.inIowait p with
    | false =>
      rw [hc] at hwait
      exact congrArg Nat.cast hwait.symm
    | true =>
      rw [hc] at hwait
      exact congrArg Nat.cast hwait.symm
  · rcases eq_or_ne x p with rfl | hne
    · refine ⟨frozen,hthaw,?_⟩
      rw [hself,hstate]
    · rw [hl] at hx
      rw [(hr x hx hne).same] at hb
      rw [(hr x hx hne).state hb]
      simpa [countBlock,hne] using h.marked x hx hb

theorem Counts.wakes (h : Counts freezer s c) (hn : s.live.Nodup) (hp : p ∈ s.live)
    (hl : t.live = s.live) (hr : ∀ x ∈ s.live, x ≠ p → Rests s t x)
    (hs : blocked s p = true) (ht : blocked t p = false) : Counts freezer t (countActivate p c) := by
  have hload := blockedCount_moves c.contributesToLoad c.contributesToLoad hn hp hl hr
    fun _ _ => rfl
  have hwait := blockedCount_moves c.inIowait c.inIowait hn hp hl hr fun _ _ => rfl
  rw [hs,ht] at hload hwait
  refine ⟨?_,?_,fun x hx hb => ?_⟩
  · change (if c.contributesToLoad p then c.nrUninterruptible - 1 else c.nrUninterruptible) =
      .ofNat (blockedCount t c.contributesToLoad)
    rw [h.load]
    cases hc : c.contributesToLoad p with
    | false =>
      rw [hc] at hload
      exact congrArg UInt32.ofNat hload.symm
    | true =>
      rw [hc] at hload
      change _ + 1 = _ + 0 at hload
      rw [if_pos rfl,← Nat.add_zero (blockedCount s _),← hload,UInt32.ofNat_add]
      exact UInt32.add_sub_cancel _ _
  · change (if c.inIowait p then c.nrIowait - 1 else c.nrIowait) = (blockedCount t c.inIowait : Int)
    rw [h.iowait]
    cases hc : c.inIowait p with
    | false =>
      rw [hc] at hwait
      exact congrArg Nat.cast hwait.symm
    | true =>
      rw [hc] at hwait
      change _ + 1 = _ + 0 at hwait
      rw [if_pos rfl]
      omega
  · rcases eq_or_ne x p with rfl | hne
    · rw [ht] at hb
      cases hb
    · rw [hl] at hx
      rw [(hr x hx hne).same] at hb
      rw [(hr x hx hne).state hb]
      exact h.marked x hx hb

/-- Whatever the bits of a task that is not there yet. -/
theorem Counts.copies (h : Counts freezer s c) (hp : p ∉ s.live) (cur : Tid) :
    Counts freezer s (countCopy cur p c) := by
  have hne : ∀ x ∈ s.live, x ≠ p := fun x hx he => hp (he ▸ hx)
  have hsame : ∀ mark : Tid → Bool, ∀ v,
      blockedCount s (Function.update mark p v) = blockedCount s mark := by
    intro mark v
    apply List.countP_congr
    intro x hx
    rw [Function.update_of_ne (hne x hx)]
  refine ⟨?_,?_,fun x hx hb => ?_⟩
  · rw [show (countCopy cur p c).nrUninterruptible = _ from h.load]
    exact congrArg UInt32.ofNat (hsame _ _).symm
  · rw [show (countCopy cur p c).nrIowait = _ from h.iowait]
    exact congrArg Nat.cast (hsame _ _).symm
  · simpa [countCopy,hne x hx] using h.marked x hx hb

/-- A new task does not count as a sleeper. -/
theorem Counts.born (h : Counts freezer s c) (hl : t.live = s.live ++ [p]) (ht : blocked t p = false)
    (hr : ∀ x ∈ s.live, Rests s t x) : Counts freezer t c := by
  have hsame : ∀ mark : Tid → Bool, blockedCount t mark = blockedCount s mark := by
    intro mark
    unfold blockedCount
    rw [hl,List.countP_append,List.countP_singleton,ht]
    exact List.countP_congr fun x hx => by rw [(hr x hx).counted mark]
  refine ⟨?_,?_,fun x hx hb => ?_⟩
  · rw [h.load,hsame]
  · rw [h.iowait,hsame]
  · rw [hl,List.mem_append,List.mem_singleton] at hx
    rcases hx with hx | rfl
    · rw [(hr x hx).same] at hb
      rw [(hr x hx).state hb]
      exact h.marked x hx hb
    · rw [ht] at hb
      cases hb

/-- A dead task is not in the load. -/
theorem Counts.dies (h : Counts freezer s c) (hp : p ∈ s.live) (hd : (s.task p).state = taskDead)
    (hw : c.inIowait p = false) : Counts freezer (releaseTask p s) c := by
  have hload : (blocked s p && c.contributesToLoad p) = false := by
    by_contra hc
    simp only [Bool.not_eq_false,Bool.and_eq_true] at hc
    obtain ⟨frozen,-,hmark⟩ := h.marked p hp hc.1
    rw [hmark,hd] at hc
    cases hc.2
  refine ⟨?_,?_,fun x hx => h.marked x (List.mem_of_mem_erase hx)⟩
  · rw [h.load]
    exact congrArg UInt32.ofNat (countP_leave hp hload).symm
  · rw [h.iowait]
    exact congrArg Nat.cast (countP_leave hp (by rw [hw,Bool.and_false])).symm

end Changes

section Steps
variable {b : Build} {e : Env} {s t u : Kernel} {r : Ready} {p : Tid} {c : LoadCount} {freezer frozen : Bool} {op : Op}
variable {w w' : LoadState}

theorem Poised.rests (h : Poised s t) (x : Tid) : Rests s t x :=
  ⟨by simp only [blocked,h.state,h.onRq],fun _ => h.state x⟩

theorem Written.rests (h : Written s p v t) (hx : x ≠ p) : Rests s t x := by
  have hsame := h.other hx
  exact ⟨by simp only [blocked,hsame],fun _ => by rw [hsame]⟩

theorem Poised.counts (h : Poised s t) (hc : Counts freezer s c) : Counts freezer t c :=
  hc.stays h.live fun x _ => Poised.rests h x

/-- A task that is awake before and after. -/
theorem Written.counts (h : Written s p v t) (hc : Counts freezer s c) (hs : blocked s p = false)
    (ht : blocked t p = false) : Counts freezer t c := by
  refine hc.stays h.live fun x _ => ?_
  rcases eq_or_ne x p with rfl | hne
  · refine ⟨by rw [hs,ht],fun hb => ?_⟩
    rw [hs] at hb
    cases hb
  · exact Written.rests h hne

theorem queued_awake (h : (s.task p).onRq = .queued) : blocked s p = false := by
  simp [blocked,h]

theorem blockPrev_taken (b : Build) (e : Env) (preempt : Bool) (h : Frame s u) :
    Yields (blockPrev b e preempt u) (CpuTaken e preempt s) := by
  have hfrom : ∀ v t, Written u u.rq.curr v t → Written s s.rq.curr v t := by
    intro v t ht
    exact ⟨ht.live.trans h.live,by rw [ht.task,h.task,h.curr]⟩
  have hcurr : u.task u.rq.curr = s.task s.rq.curr := by rw [h.task,h.curr]
  unfold blockPrev
  dsimp only
  split
  next hsaid =>
    simp only [Bool.and_eq_true,Bool.not_eq_true',decide_eq_true_eq,hcurr] at hsaid
    split
    next hsignal =>
      rw [hcurr] at hsignal
      have hset : Written u u.rq.curr { s.task s.rq.curr with state := taskRunning }
          (u.setState u.rq.curr taskRunning) := by
        rw [← hcurr]
        exact .setTask u _ _
      exact .ok (.kept (by simp [blocks,hsignal]) (hfrom _ _ hset))
    next hsignal =>
      rw [hcurr] at hsignal
      refine (deactivateTask_written b e _ u (by decide)).mono fun t ht => ?_
      rw [hcurr] at ht
      exact .blocked (by simp [blocks,hsaid,hsignal]) (hfrom _ _ ht)
  next hsaid =>
    refine .ok (.kept ?_ (h.written _))
    simp only [Bool.and_eq_true,Bool.not_eq_true',decide_eq_true_eq,not_and,not_not,hcurr] at hsaid
    cases preempt with
    | true => rfl
    | false => simp [blocks,hsaid rfl]

theorem schedule_taken (b : Build) (e : Env) (preempt : Bool) (s : Kernel) :
    Yields (schedule b e preempt s) (CpuTaken e preempt s) := by
  have hq := ((shiftFlags_quiet s).trans (updateRqClock_quiet e _)).toFrame
  refine (blockPrev_taken b e preempt hq).bind fun t ht => ?_
  refine (pickNextTaskCore_frame b e _ t).bind fun a ha => .ok ?_
  cases ht with
  | blocked block written => exact .blocked block ⟨ha.live.trans written.live,ha.task.trans written.task⟩
  | kept block written => exact .kept block ⟨ha.live.trans written.live,ha.task.trans written.task⟩

/-- Blocking in `__schedule` is counted, and only that. -/
theorem schedule_counts (preempt : Bool) (hthaw : freezer = false → frozen = false) (h : Inv b s r) (hc : Counts freezer s c)
    (ht : CpuTaken e preempt s t) : Counts freezer t (if blocks e preempt s then
      countBlock s.rq.curr (s.task s.rq.curr).state frozen c else c) := by
  have hawake := queued_awake h.currQueued
  cases ht with
  | blocked block written =>
    rw [if_pos block]
    have hstate : (s.task s.rq.curr).state ≠ taskRunning := by
      simp only [blocks,Bool.and_eq_true,bne_iff_ne] at block
      exact block.1.2
    have hlive : s.rq.curr ∈ s.live := by
      refine h.curr.resolve_left fun hi => hstate ?_
      rw [hi]
      exact h.idleTask.state
    have hnew : (s.task s.rq.curr).state ≠ taskNew := by
      intro hn
      have hnone := (h.tasks _ hlive).fresh hn
      rw [h.currQueued] at hnone
      cases hnone
    refine hc.blocks h.live_nodup hlive written.live (fun x _ hx => Written.rests written hx)
      hawake ?_ ?_ hthaw
    · simp [blocked,written.self,hnew]
    · rw [written.self]
  | kept block written =>
    rw [if_neg (by simp [block])]
    exact Written.counts written hc hawake (queued_awake (by rw [written.self]; exact h.currQueued))

/-- The full path of a wakeup is the one that ends a sleep. -/
theorem tryToWakeUp_counts (e : Env) (h : Inv b s r) (hp : p ∈ s.live)
    (hm : mask &&& taskNew = 0) (hc : Counts freezer s c) :
    Yields (tryToWakeUp b e p mask s) (fun a =>
      Counts freezer a.2 (if activates p mask s then countActivate p c else c)) := by
  cases hmatch : ttwuStateMatch s p mask with
  | false =>
    rw [tryToWakeUp_unmatched b e hmatch]
    exact .ok (by simpa [activates,hmatch] using hc)
  | true =>
    refine (tryToWakeUp_written e h hmatch).mono fun a ha => ?_
    have hafter : blocked a.2 p = false := queued_awake (by rw [ha.self])
    by_cases hq : (s.task p).onRq = .queued
    · have hidle : activates p mask s = false := by
        simp [activates,(queued_iff s p).mpr hq]
      rw [if_neg (by simp [hidle])]
      exact Written.counts ha hc (queued_awake hq) hafter
    · have hne : p ≠ s.rq.curr := by
        rintro rfl
        exact hq h.currQueued
      have hqueued : s.taskOnRqQueued p = false := by
        rw [Bool.eq_false_iff]
        exact fun hc => hq ((queued_iff s p).mp hc)
      have hwakes : activates p mask s = true := by simp [activates,hmatch,hne,hqueued]
      have hnone : (s.task p).onRq = .none := by
        have hsettled := (h.tasks p hp).settled
        cases ho : (s.task p).onRq with
        | none => rfl
        | queued => exact absurd ho hq
        | migrating => exact absurd ho hsettled
      have hnew : (s.task p).state ≠ taskNew := by
        intro hn
        rw [ttwuStateMatch,hn,Nat.and_comm,hm] at hmatch
        cases hmatch
      rw [if_pos hwakes]
      exact hc.wakes h.live_nodup hp ha.live (fun x _ hx => Written.rests ha hx)
        (by simp [blocked,hnone,hnew]) hafter

theorem copyProcess_counts (e : Env) (args : KernelCloneArgs) (ce : CopyEnv)
    (hf : freshPid b ce.pid s) (hc : Counts freezer s c) : Yields (copyProcess b e args ce s)
      (fun a => Counts freezer a.2 (countCopy s.rq.curr ce.pid c)) := by
  have hcopy := hc.copies hf.1 s.rq.curr
  refine (copyProcess_spec b e args ce s).yields.mono fun a ha => ?_
  cases ha with
  | failed quiet => exact Poised.counts quiet.toFrame.poised hcopy
  | @created t quiet start =>
    obtain ⟨-,-,hstate,-⟩ := schedFork_ok start rfl
    have hnew : blocked (attach ce.pid (schedFork (s.task s.rq.curr) ce.pid
        { s.task s.rq.curr with piTopTask := none }).2 t) ce.pid = false := by
      simp [blocked,attach,hstate]
    refine hcopy.born (p := ce.pid) ?_ hnew fun x hx => ?_
    · simp [attach,quiet.live]
    · have hne : x ≠ ce.pid := fun he => hf.1 (he ▸ hx)
      have hsame : (attach ce.pid (schedFork (s.task s.rq.curr) ce.pid
          { s.task s.rq.curr with piTopTask := none }).2 t).task x = s.task x := by
        simp [attach,hne,quiet.task]
      exact ⟨by simp only [blocked,hsame],fun _ => by rw [hsame]⟩

theorem kernelCloneCopy_counts (e : Env) (args : KernelCloneArgs) (ce : CopyEnv)
    (hf : freshPid b ce.pid s) (hc : Counts freezer s c) : Yields (kernelCloneCopy b e args ce s)
      (fun a => Counts freezer a.2 (countCopy s.rq.curr ce.pid c)) := by
  unfold kernelCloneCopy
  refine .ite (fun _ => .ok (hc.copies hf.1 s.rq.curr)) fun _ => ?_
  refine (copyProcess_counts e args ce hf hc).bind fun a ha => ?_
  obtain ⟨res,t⟩ := a
  cases res with
  | error _ => exact .error _ _
  | ok p => exact .ok (Poised.counts ((Written.setTask t p _).poised rfl rfl) ha)

theorem counts_snd {m : Except Fault (α × Kernel)} (h : Yields m (fun a => Counts freezer a.2 c)) :
    Yields (m >>= fun a => .ok a.2) (fun t => Counts freezer t c) := h.bind fun _ ha => .ok ha

/-- Every operation keeps the counters right, whatever it meets. -/
theorem exec_counts (e : Env) (hthaw : freezer = false → frozen = false) (h : Inv b s r) (he : enabled b s op)
    (hw : exitsOutside ⟨s,c⟩ op) (hc : Counts freezer s c) :
    Yields (exec b e op s) (fun t => Counts freezer t (countOp e frozen s c op)) := by
  have hframe : ∀ t, Frame s t → Counts freezer t c := fun t ht => Poised.counts ht.poised hc
  cases op with
  | setCurrentState state =>
    have hcurr := queued_awake h.currQueued
    refine .ok (Written.counts (.setTask s _ _) hc hcurr (queued_awake ?_))
    simp [Kernel.setState,Kernel.setTask,h.currQueued]
  | schedule preempt =>
    exact (schedule_taken b e preempt s).mono fun _ ht => schedule_counts preempt hthaw h hc ht
  | tryToWakeUp p mask => exact counts_snd (tryToWakeUp_counts e h he.1 he.2 hc)
  | kernelClone args ce => exact counts_snd (kernelCloneCopy_counts e args ce he hc)
  | createIoThread ce =>
    exact counts_snd (copyProcess_counts e _ ce he.2 hc)
  | wakeUpNewTask p =>
    intro t ht
    have hn : ¬newSelects b e s p := by
      intro hn
      rw [show exec b e (.wakeUpNewTask p) s = wakeUpNewTask b e p s from rfl,
        wakeUpNewTask_missing e hn] at ht
      cases ht
    have hwritten := ((wakeUpNewTask_spec e h he.1 he.2 hn).of_ok ht).2.written
    refine Written.counts hwritten hc ?_ (queued_awake (by rw [hwritten.self]))
    simp [blocked,he.2]
  | setUserNice p nice => exact (setUserNice_poised b e p nice s).mono fun _ ht => Poised.counts ht hc
  | rtMutexSetprio p donor =>
    exact (rtMutexSetprio_poised e donor h he).mono fun _ ht => Poised.counts ht hc
  | schedMoveTask p => exact (schedMoveTask_frame b e p s).mono hframe
  | schedSetscheduler caller p attr user pi =>
    exact counts_snd ((schedSetscheduler_poised e caller attr user pi h he.1 he.2).mono
      fun _ ha => Poised.counts ha hc)
  | schedulerTick => exact (schedulerTick_frame b e s).mono hframe
  | schedYield =>
    refine (yieldHook_quiet b e h he).yields.bind fun t ht => ?_
    refine (schedule_taken b e false t).mono fun u hu => ?_
    have hcounts := schedule_counts false hthaw (h.quiet ht) (hframe t ht.toFrame) hu
    have hblocks : blocks e false t = blocks e false s := by rw [blocks,blocks,ht.task,ht.curr]
    rw [hblocks,ht.task,ht.curr] at hcounts
    exact hcounts
  | taskSchedRuntime p => exact counts_snd ((taskSchedRuntime_frame b e p s).mono fun _ ha => hframe _ ha)
  | schedExec => exact (callHook_frame b e _ _ _ s).mono hframe
  | setCpusAllowed p => exact (setCpusAllowed_frame b e p s).mono hframe
  | releaseTask p => exact .ok (hc.dies he.1 he.2.1 hw)
  | otherTask p v =>
    refine .ok (hc.stays rfl fun x hx => ?_)
    exact Written.rests (.setTask s p v) fun hx' => he.1 (hx' ▸ hx)

/-- The running task may change its own bit. -/
theorem Counts.marksAwake (h : Counts freezer s c) (hp : blocked s p = false) (v : Bool) :
    Counts freezer s { c with inIowait := Function.update c.inIowait p v } := by
  refine ⟨h.load,?_,h.marked⟩
  rw [show LoadCount.nrIowait _ = c.nrIowait from rfl,h.iowait]
  apply congrArg Nat.cast
  apply List.countP_congr
  intro x _
  rcases eq_or_ne x p with rfl | hne
  · simp [hp]
  · simp [hne]

end Steps

section Runs
variable {b : Build} {freezer : Bool} {w w' : LoadState}

theorem LoadStep.counts (hs : Reachable b w.kernel) (hc : Counts freezer w.kernel w.load)
    (h : LoadStep b freezer w w') :
    Reachable b w'.kernel ∧ Counts freezer w'.kernel w'.load := by
  obtain ⟨⟨r,hr⟩,-⟩ := reachable_inv hs
  have hawake := queued_awake hr.currQueued
  obtain ⟨ev,hmay,hrun⟩ := h
  cases ev with
  | op e frozen op =>
    obtain ⟨henabled,hout,hthaw⟩ := hmay
    obtain ⟨s,hexec,hret⟩ := bind_eq_ok.mp hrun
    cases hret
    exact ⟨hs.step ⟨e,op,henabled,hexec⟩,exec_counts e hthaw hr henabled hout hc s hexec⟩
  | prepare =>
    cases hrun
    exact ⟨hs,hc.marksAwake hawake true⟩
  | finish token =>
    cases hrun
    exact ⟨hs,hc.marksAwake hawake token⟩

theorem loadReach_counts (h : LoadReach b freezer w) :
    Reachable b w.kernel ∧ Counts freezer w.kernel w.load := by
  induction h with
  | init => exact ⟨.init,rfl,rfl,nofun⟩
  | step _ last ih => exact LoadStep.counts ih.1 ih.2 last

theorem contributes_thawed (h : contributes state frozen = true) :
    contributes state false = true := by
  simp only [contributes,Bool.and_eq_true,Bool.not_false,and_true] at h ⊢
  exact h.1

/-- Neither counter drifts in any run in which no task is released inside `io_schedule`:
`nr_iowait` is the number of the tasks that block on input or output, and
`nr_uninterruptible` that of the tasks that block uninterruptibly, less the idle and the
frozen ones. -/
theorem load_counts_sleepers (h : LoadReach b freezer w) :
    w.load.nrIowait = blockedCount w.kernel w.load.inIowait ∧
      w.load.nrUninterruptible.toNat = blockedCount w.kernel w.load.contributesToLoad ∧
      (∀ p ∈ w.kernel.live, blocked w.kernel p = true → w.load.contributesToLoad p = true →
        contributes (w.kernel.task p).state false = true) ∧
      (freezer = false → w.load.nrUninterruptible.toNat =
        blockedCount w.kernel fun p => contributes (w.kernel.task p).state false) := by
  obtain ⟨hreach,hc⟩ := loadReach_counts h
  obtain ⟨⟨r,hr⟩,-⟩ := reachable_inv hreach
  have hbound : blockedCount w.kernel w.load.contributesToLoad < 2 ^ 32 := by
    have hcount : blockedCount w.kernel w.load.contributesToLoad ≤ w.kernel.live.length :=
      List.countP_le_length
    have hlive := hr.live_le
    have hmax := b.pidMax_le
    omega
  have hload : w.load.nrUninterruptible.toNat =
      blockedCount w.kernel w.load.contributesToLoad := by
    rw [hc.load,UInt32.toNat_ofNat',Nat.mod_eq_of_lt hbound]
  refine ⟨hc.iowait,hload,fun p hp hb hm => ?_,fun hthaw => ?_⟩
  · obtain ⟨frozen,-,hmark⟩ := hc.marked p hp hb
    exact contributes_thawed (hmark ▸ hm)
  · rw [hload]
    apply List.countP_congr
    intro p hp
    cases hb : blocked w.kernel p with
    | false => rfl
    | true =>
      obtain ⟨frozen,hf,hmark⟩ := hc.marked p hp hb
      rw [hmark,hf hthaw]

/-- A lottery task blocks uninterruptibly for its input. -/
def inputOps : List LoadEvent :=
  lotteryRunsOps.map (fun x => .op x.1 false x.2) ++
    [.prepare,.op .quiet false (.setCurrentState taskUninterruptible),
      .op .quiet false (.schedule false)]

def waitsForInput : LoadState :=
  (runLoad .versatile false inputOps ⟨schedInit,.start⟩).toOption.getD ⟨schedInit,.start⟩

theorem waitsForInput_reach : LoadReach .versatile false waitsForInput :=
  LoadReach.init.runLoad (ok_getD (by decide +kernel) _)

theorem load_counts_sleepers_input :
    waitsForInput.load.nrIowait = blockedCount waitsForInput.kernel waitsForInput.load.inIowait ∧
      waitsForInput.load.nrUninterruptible.toNat =
        blockedCount waitsForInput.kernel waitsForInput.load.contributesToLoad ∧
      (∀ p ∈ waitsForInput.kernel.live, blocked waitsForInput.kernel p = true →
        waitsForInput.load.contributesToLoad p = true →
        contributes (waitsForInput.kernel.task p).state false = true) ∧
      (false = false → waitsForInput.load.nrUninterruptible.toNat =
        blockedCount waitsForInput.kernel fun p =>
          contributes (waitsForInput.kernel.task p).state false) :=
  load_counts_sleepers waitsForInput_reach

example : waitsForInput.load.nrIowait = 1 ∧ waitsForInput.load.nrUninterruptible = 1 := by
  decide +kernel

end Runs

end LotteryScheduler.Properties
