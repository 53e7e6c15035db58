import LotteryScheduler.Model.Launcher
import LotteryScheduler.Proofs.Threads
import LotteryScheduler.Properties.Accounting
import LotteryScheduler.Properties.Admission
import LotteryScheduler.Properties.Clones
import LotteryScheduler.Properties.Policies
import LotteryScheduler.Properties.ResetOnFork
import LotteryScheduler.Properties.Syscalls

namespace LotteryScheduler.Properties
open Lib Model Proofs

/-- `nr_threads` counts the tasks, and its limit is kept: the limit is a constant here, and
no two calls of `copy_process` overlap. -/
structure Counted (b : Build) (s : Kernel) : Prop where
  count : s.nrThreads = s.live.length
  limit : s.nrThreads ≤ b.maxThreads

section Threads
variable {b : Build} {s t : Kernel} {r : Ready} {p : Tid} {op : Op}

theorem Counted.peopled (h : Counted b s) (hp : Peopled s t) : Counted b t :=
  ⟨by rw [hp.threads,hp.live,h.count],hp.threads ▸ h.limit⟩

end Threads

/-- A fork that no signal, limit or missing resource stops. -/
structure Unhindered (ce : CopyEnv) : Prop where
  signals : ce.sigpending = false
  dup : ce.dupFails = false
  creds : 0 ≤ ce.copyCreds
  nproc : ce.overNproc = false
  steps : ∀ st, ce.step st = 0
  cgroup : ce.cgroupCanFork = 0
  pidns : ce.pidnsAdding = true
  fatal : ce.fatalSignal = false

/-- A child of the lottery policy that waits for its first turn. -/
structure Launched (s : Kernel) (p : Tid) : Prop where
  policy : (s.task p).policy = schedLottery
  schedClass : (s.task p).schedClass = .lottery
  tickets : (s.task p).tickets = 5
  state : (s.task p).state = taskRunning
  queued : (s.task p).onRq = .queued

/-- The current task has forked these, in this order, and still runs. -/
structure Forked (b : Build) (kids : List Tid) (s : Kernel) (r : Ready) (t : Kernel) : Prop where
  reach : Reachable b t
  books : ∃ r', Inv b t r' ∧ r' .lottery = r .lottery ++ kids
  live : t.live = s.live ++ kids
  curr : t.rq.curr = s.rq.curr
  idle : t.rq.idle = s.rq.idle
  threads : t.nrThreads = s.nrThreads + kids.length
  others : ∀ x, x ∉ kids → t.task x = s.task x
  children : ∀ p ∈ kids, Launched t p

section Forks
variable {b : Build} {e : Env} {s t u : Kernel} {r r' : Ready} {p : Tid} {ce : CopyEnv}
variable {cur v : TaskStruct} {f : ForkEnv} {kids kids' : List Tid}

theorem unclassed_lottery (cur : TaskStruct) (self : Tid) (hv : v.policy = schedLottery) :
    (unclassed cur self v).policy = schedLottery := by
  cases hr : v.schedResetOnFork with
  | false =>
    rw [unclassed_inherit cur self hr]
    exact hv
  | true =>
    obtain ⟨fresh,hpolicy,-,heq⟩ := unclassed_reset cur self hr
    rw [heq]
    exact (resetOnFork_policy fresh).1.mpr (hpolicy.trans hv)

/-- The child of a lottery task is set up for the lottery class, whatever the reset flag. -/
theorem schedFork_child (cur : TaskStruct) (self : Tid) (hv : v.policy = schedLottery) :
    (schedFork cur self v).1 = 0 ∧ (schedFork cur self v).2.policy = schedLottery ∧
      (schedFork cur self v).2.schedClass = .lottery := by
  have hpolicy := unclassed_lottery cur self hv
  rw [schedFork_lottery hpolicy]
  exact ⟨rfl,hpolicy,rfl⟩

/-- A plain fork of a lottery task is stopped by its surroundings only. -/
theorem clean_iff_unhindered (hl : (s.task s.rq.curr).policy = schedLottery) :
    Clean b { flags := 0 } ce s ↔ Unhindered ce ∧ s.nrThreads < b.maxThreads := by
  constructor
  · intro h
    have hsteps : ∀ st, ce.step st = 0 := by
      intro st
      apply h.steps
      cases st <;> decide
    exact ⟨⟨h.signals,h.dup,h.creds,h.nproc,hsteps,h.cgroup,h.pidns,h.fatal⟩,h.threads⟩
  · rintro ⟨h,hroom⟩
    have hstart := (schedFork_child (v := { s.task s.rq.curr with piTopTask := none })
      (s.task s.rq.curr) ce.pid hl).1
    exact ⟨by simp [invalidFlags,hasFlag],h.signals,h.dup,h.creds,h.nproc,hroom,hstart,
      fun st _ => h.steps st,fun hp => by simp [hasFlag] at hp,h.cgroup,h.pidns,h.fatal⟩

/-- The first wakeup puts a task at the end of the queue of its class. -/
theorem wakeUpNewTask_added (e : Env) (h : Inv b s r) (hp : p ∈ s.live)
    (hs : (s.task p).state = taskNew) (huni : b.smp = false) :
    Returns (wakeUpNewTask b e p s) (fun t => Inv b t (r.add p (s.task p).schedClass) ∧
      Changed s p { s.task p with state := taskRunning, onRq := .queued } t) := by
  have hok := h.tasks p hp
  let v := { s.task p with state := taskRunning }
  have hset : Inv b (s.setTask p v) r := h.retask hp hok.running rfl rfl rfl
  have hself : (s.setTask p v).task p = v := by simp [Kernel.setTask]
  have hclock := updateRqClock_quiet e (s.setTask p v)
  have hu : (updateRqClock e (s.setTask p v)).task p = v := by rw [hclock.task,hself]
  have hact := (hset.quiet hclock).activateTask (hclock.live ▸ hp)
    (by rw [hu]; exact hok.fresh hs) (by rw [hu]; simp [v,taskRunning,taskNew]) e enqueueNoclock
  rw [hu] at hact
  refine (Returns.applyIf (fun hsmp => ?_) fun _ => (rfl : s.setTask p v = s.setTask p v)).bind ?_
  · rw [huni] at hsmp
    cases hsmp
  rintro _ rfl
  refine hact.bind fun w hspec => ?_
  obtain ⟨hw,hcw⟩ := hspec
  refine (checkPreemptCurr_quiet b e p w).bind fun x hx => ?_
  have hcx : Changed s p { s.task p with state := taskRunning, onRq := .queued } x :=
    ((Changed.setTask s p v).frame hclock.toFrame).trans (hcw.frame hx.toFrame) fun hl _ => hl
  refine .applyIf (fun hsmp => ?_) fun _ => ⟨hw.quiet hx,hcx⟩
  rw [huni] at hsmp
  cases hsmp

/-- A new task of the lottery policy that nothing has woken yet. -/
structure Newborn (b : Build) (p : Tid) (s : Kernel) (r : Ready) (t : Kernel) : Prop where
  inv : Inv b t r
  live : t.live = s.live ++ [p]
  curr : t.rq.curr = s.rq.curr
  idle : t.rq.idle = s.rq.idle
  threads : t.nrThreads = s.nrThreads + 1
  others : ∀ x, x ≠ p → t.task x = s.task x
  policy : (t.task p).policy = schedLottery
  schedClass : (t.task p).schedClass = .lottery
  tickets : (t.task p).tickets = 5
  state : (t.task p).state = taskNew

theorem plain_accepted : Accepted { flags := 0 } := by
  unfold Accepted
  decide

/-- The first half of a fork by a lottery task. -/
theorem kernelCloneCopy_newborn (h : Inv b s r) (hl : (s.task s.rq.curr).policy = schedLottery)
    (hf : freshPid b ce.pid s) (hc : copyProcess b e { flags := 0 } ce s = .ok (.ok p,t)) :
    p = ce.pid ∧ Returns (kernelCloneCopy b e { flags := 0 } ce s)
      (fun a => a.1 = .ok ce.pid ∧ Newborn b ce.pid s r a.2) := by
  have hcopied := (copyProcess_spec b e { flags := 0 } ce s).of_ok hc
  rw [kernelCloneCopy_eq plain_accepted,hc]
  cases hcopied with
  | @created u quiet start =>
  obtain ⟨hok,hon,hstate,-⟩ := schedFork_ok start rfl
  obtain ⟨-,hpolicy,hclass⟩ := schedFork_child
    (v := { s.task s.rq.curr with piTopTask := none }) (s.task s.rq.curr) ce.pid hl
  refine ⟨rfl,.ok ⟨rfl,?_⟩⟩
  have hinv : Inv b (attach ce.pid { (schedFork (s.task s.rq.curr) ce.pid
      { s.task s.rq.curr with piTopTask := none }).2 with tickets := 5 } u) r :=
    (h.quiet quiet).attach (freshPid_quiet hf quiet)
      ⟨hok.lottery,hok.working,hok.settled,hok.fresh,hok.deadline⟩ hon
  rw [giveTickets_attach]
  refine ⟨hinv,?_,quiet.curr,quiet.idle,?_,fun x hx => ?_,?_,?_,?_,?_⟩
  · simp [attach,quiet.live]
  · simp [attach,quiet.threads]
  · simp [attach,hx,quiet.task]
  · simpa [attach] using hpolicy
  · simpa [attach] using hclass
  · simp [attach]
  · simpa [attach] using hstate

/-- One fork of a running lottery task: the child is at the end of the lottery queue, or the
fork was hindered and the kernel stores through the error pointer. -/
theorem sysFork_spec (hs : Reachable b s) (h : Inv b s r) (huni : b.smp = false)
    (hl : (s.task s.rq.curr).policy = schedLottery) (hf : freshPid b f.copy.pid s) :
    Returns (sysFork b f s) (fun a => Forked b [f.copy.pid] s r a.2) ∨
      (sysFork b f s = .error .badPointer ∧
        ¬(Unhindered f.copy ∧ s.nrThreads < b.maxThreads)) := by
  rw [← clean_iff_unhindered (b := b) hl,← creates_iff (e := f.env)]
  obtain ⟨⟨res,t⟩,hrun,-⟩ := copyProcess_spec b f.env { flags := 0 } f.copy s
  cases res with
  | error retval =>
    right
    refine ⟨failed_copy_faults plain_accepted hrun,?_⟩
    rintro ⟨p,u,hcreated⟩
    rw [hrun] at hcreated
    cases hcreated
  | ok p =>
    left
    obtain ⟨-,⟨res,w⟩,hcopy,hres,hnew⟩ := kernelCloneCopy_newborn h hl hf hrun
    cases hres
    dsimp only at hnew
    have hstep : Reachable b w :=
      hs.step ⟨f.env,.kernelClone { flags := 0 } f.copy,hf,by simp only [exec,hcopy]; rfl⟩
    have hmem : f.copy.pid ∈ w.live := by simp [hnew.live]
    obtain ⟨x,hx,hinv,hc⟩ := wakeUpNewTask_added f.env hnew.inv hmem hnew.state huni
    have hpeople := wakeUpNewTask_peopled b f.env f.copy.pid w x hx
    have hself := hc.task_self
    refine ⟨(f.copy.pid,x),?_,?_⟩
    · unfold sysFork kernelClone
      rw [hcopy]
      change wakeUpNewTask b f.env f.copy.pid w >>= _ = _
      rw [hx]
      rfl
    · rw [hnew.schedClass] at hinv
      refine ⟨hstep.step ⟨f.env,.wakeUpNewTask f.copy.pid,⟨hmem,hnew.state⟩,hx⟩,
        ⟨_,hinv,Ready.add_self⟩,hc.live.trans hnew.live,hc.curr.trans hnew.curr,
        hc.idle.trans hnew.idle,hpeople.threads.trans hnew.threads,fun y hy => ?_,fun y hy => ?_⟩
      · have hne : y ≠ f.copy.pid := by simpa using hy
        rw [hc.task,Function.update_of_ne hne,hnew.others y hne]
      · obtain rfl := List.mem_singleton.mp hy
        dsimp only
        refine ⟨?_,?_,?_,?_,?_⟩ <;> rw [hself]
        · exact hnew.policy
        · exact hnew.schedClass
        · exact hnew.tickets

theorem Launched.congr (h : Launched s p) (hv : t.task p = s.task p) : Launched t p := by
  refine ⟨?_,?_,?_,?_,?_⟩ <;> rw [hv]
  · exact h.policy
  · exact h.schedClass
  · exact h.tickets
  · exact h.state
  · exact h.queued

theorem Forked.refl (hs : Reachable b s) (h : Inv b s r) : Forked b [] s r s :=
  ⟨hs,⟨r,h,(List.append_nil _).symm⟩,(List.append_nil _).symm,rfl,rfl,rfl,fun _ _ => rfl,nofun⟩

/-- The later forks leave the earlier children alone. -/
theorem Forked.trans (h : Forked b kids s r t) (hr : r' .lottery = r .lottery ++ kids)
    (h' : Forked b kids' t r' u) (hnew : ∀ p ∈ kids, p ∉ kids') :
    Forked b (kids ++ kids') s r u := by
  obtain ⟨r'',hinv,hr'⟩ := h'.books
  refine ⟨h'.reach,⟨r'',hinv,by rw [hr',hr,List.append_assoc]⟩,?_,h'.curr.trans h.curr,
    h'.idle.trans h.idle,?_,fun x hx => ?_,fun p hp => ?_⟩
  · rw [h'.live,h.live,List.append_assoc]
  · rw [h'.threads,h.threads,List.length_append,Nat.add_assoc]
  · rw [List.mem_append,not_or] at hx
    rw [h'.others x hx.2,h.others x hx.1]
  · rcases List.mem_append.mp hp with hp | hp
    · exact (h.children p hp).congr (h'.others p (hnew p hp))
    · exact h'.children p hp

/-- No fork is hindered, and there is room for all the children. -/
def Welcome (b : Build) (fs : List ForkEnv) (s : Kernel) : Prop :=
  (∀ f ∈ fs, Unhindered f.copy) ∧ s.nrThreads + fs.length ≤ b.maxThreads

def pids (fs : List ForkEnv) : List Tid := fs.map fun f => f.copy.pid

/-- The loop over the children: they queue up in the order in which they are forked. -/
theorem forkChildren_spec (fs : List ForkEnv) (hs : Reachable b s) (h : Inv b s r)
    (huni : b.smp = false) (hl : (s.task s.rq.curr).policy = schedLottery)
    (hfresh : ∀ p ∈ pids fs, freshPid b p s) (hnodup : (pids fs).Nodup) :
    Returns (forkChildren b fs s) (Forked b (pids fs) s r) ∨
      (forkChildren b fs s = .error .badPointer ∧ ¬Welcome b fs s) := by
  induction fs generalizing s r with
  | nil => exact .inl (.ok (.refl hs h))
  | cons f fs ih =>
    obtain ⟨hnot,hrest⟩ := List.nodup_cons.mp hnodup
    have hf : freshPid b f.copy.pid s := hfresh f.copy.pid List.mem_cons_self
    unfold forkChildren startDummyWithLottery
    rcases sysFork_spec hs h huni hl hf with
      ⟨⟨retval,t⟩,hfork,hone⟩ | ⟨hfault,hwhy⟩
    · obtain ⟨r',hinv,hr⟩ := hone.books
      have hcurr : s.rq.curr ∉ [f.copy.pid] := by
        intro hc
        rw [← List.mem_singleton.mp hc] at hf
        exact h.curr.elim hf.2.1 hf.1
      have hlt : (t.task t.rq.curr).policy = schedLottery := by
        rw [hone.curr,hone.others _ hcurr]
        exact hl
      have hnext : ∀ p ∈ pids fs, freshPid b p t := by
        intro p hp
        obtain ⟨hlive,hidle,hmax⟩ := hfresh p (List.mem_cons_of_mem _ hp)
        refine ⟨?_,by rw [hone.idle]; exact hidle,hmax⟩
        rw [hone.live,List.mem_append,List.mem_singleton]
        rintro (hm | rfl)
        · exact hlive hm
        · exact hnot hp
      rw [hfork]
      rcases ih hone.reach hinv hlt hnext hrest with ⟨u,hu,hmore⟩ | ⟨hfault,hwhy⟩
      · refine .inl ⟨u,hu,hone.trans hr hmore fun p hp => ?_⟩
        rw [List.mem_singleton.mp hp]
        exact hnot
      · refine .inr ⟨hfault,fun hw => hwhy ⟨fun g hg => hw.1 g (List.mem_cons_of_mem _ hg),?_⟩⟩
        have hroom := hw.2
        rw [hone.threads]
        simp only [List.length_cons,List.length_nil] at hroom ⊢
        omega
    · rw [hfault]
      refine .inr ⟨rfl,fun hw => hwhy ⟨hw.1 f List.mem_cons_self,?_⟩⟩
      have hroom := hw.2
      rw [List.length_cons] at hroom
      omega

end Forks

/-- The children that a command line asks for. -/
def childrenOf (atoi : Text → Int) (forks : Nat → ForkEnv) : List Text → List ForkEnv
  | [_,number] => (List.range (atoi number).toNat).map forks
  | _ => []

/-- The launcher itself queues up before its children, unless it was there already. -/
def newcomer (s : Kernel) : List Tid :=
  if (s.task s.rq.curr).policy = schedLottery then [] else [s.rq.curr]

/-- What a launcher leaves behind that has launched its children. -/
structure LaunchedAll (b : Build) (kids : List Tid) (s t : Kernel) : Prop where
  reach : Reachable b t
  queue : ∃ q, Accounted s q ∧ Accounted t (q ++ newcomer s ++ kids)
  live : t.live = s.live ++ kids
  curr : t.rq.curr = s.rq.curr
  launcher : (t.task t.rq.curr).policy = schedLottery
  others : ∀ x, x ∉ s.rq.curr :: kids → t.task x = s.task x
  children : ∀ p ∈ kids, Launched t p

/-- The two ends of a launcher: it has launched all its children, or none was asked for or
the policy was refused, and nothing has changed. -/
inductive Ended (b : Build) (e : Env) (caller : Caller) (security : Tid → Int)
    (fs : List ForkEnv) (s : Kernel) : LauncherEnd × Kernel → Prop where
  | unused (nobody : fs = []) : Ended b e caller security fs s (⟨exitFailure,none⟩,s)
  | refused (retval : Int) (negative : retval < 0)
    (answer : sysSchedSetscheduler b e caller 0 schedLottery (.to 0) s = .ok (retval,t))
    (unnoticed : Unnoticed s t) : Ended b e caller security fs s (⟨exitFailure,none⟩,t)
  | launched (shown : Int) (reads : security s.rq.curr = 0 → shown = schedLottery)
    (all : LaunchedAll b (pids fs) s t) : Ended b e caller security fs s (⟨0,some shown⟩,t)

section Launchers
variable {b : Build} {e : Env} {s t : Kernel} {r : Ready} {p : Tid} {caller : Caller}
variable {attr : SchedAttr} {security : Tid → Int} {atoi : Text → Int} {forks : Nat → ForkEnv}
variable {argv : List Text} {kids : List Tid} {u : Kernel} {r' : Ready}

theorem checkUser_nonpos (caller : Caller) (v : TaskStruct) (attr : SchedAttr) :
    checkUser caller v attr ≤ 0 := by
  have hperm : -eperm ≤ 0 := by decide
  unfold checkUser
  dsimp only
  repeat' split
  all_goals first | exact hperm | exact Int.le_refl 0

/-- The answers of the checks are error codes when the security module's are. -/
theorem admission_nonpos (hsecurity : caller.securityTaskSetscheduler ≤ 0) (v : TaskStruct) :
    admission e caller v attr true ≤ 0 := by
  have hrequest : checkRequest e v attr ≤ 0 := by
    by_cases h : checkRequest e v attr = 0
    · exact Int.le_of_eq h
    · rw [checkRequest_refuses h]
      decide
  unfold admission
  dsimp only
  split
  · exact hrequest
  split
  · exact checkUser_nonpos caller v attr
  split
  · decide
  split
  · exact hsecurity
  split <;> decide

/-- The request of the launcher, which asks for its own policy. -/
def launchAttr (v : TaskStruct) : SchedAttr :=
  { schedPolicy := schedLottery, schedNice := prioToNice v.staticPrio }

theorem launchAttr_flags (v w : TaskStruct) : requestedReset v (launchAttr w) = false ∧
    hasFlag (launchAttr w).schedFlags schedFlagKeepParams = false := by
  have hpolicy : ¬(launchAttr w).schedPolicy < 0 := show ¬schedLottery < 0 by decide
  have hflags : hasFlag 0 schedFlagResetOnFork = false := by decide
  exact ⟨(if_neg hpolicy).trans hflags,show hasFlag 0 schedFlagKeepParams = false by decide⟩

theorem launcher_request (b : Build) (e : Env) (caller : Caller) (s : Kernel) :
    sysSchedSetscheduler b e caller 0 schedLottery (.to 0) s =
      schedSetscheduler b e caller s.rq.curr (launchAttr (s.task s.rq.curr)) true true s := by
  have hword : wordPolicy schedLottery = schedLottery ∧ wordReset schedLottery = false := by decide
  change schedSetschedulerParam b e caller s.rq.curr schedLottery 0 true s = _
  rw [schedSetschedulerParam_eq (by decide),hword.1,hword.2]
  rfl

/-- The launcher is a lottery task from now on, last in the queue if it is new there. -/
structure Joined (b : Build) (s : Kernel) (r : Ready) (t : Kernel) : Prop where
  reach : Reachable b t
  books : ∃ r', Inv b t r' ∧ r' .lottery = r .lottery ++ newcomer s
  live : t.live = s.live
  curr : t.rq.curr = s.rq.curr
  idle : t.rq.idle = s.rq.idle
  threads : t.nrThreads = s.nrThreads
  policy : (t.task s.rq.curr).policy = schedLottery
  reset : (t.task s.rq.curr).schedResetOnFork = false
  others : ∀ x, x ≠ s.rq.curr → t.task x = s.task x

theorem request_outcome (hs : Reachable b s) (h : Inv b s r) (hi : s.rq.curr ≠ s.rq.idle)
    (hin : caller.inInterrupt = false) (hsecurity : caller.securityTaskSetscheduler ≤ 0) :
    Returns (sysSchedSetscheduler b e caller 0 schedLottery (.to 0) s) (fun a =>
      (a.1 < 0 ∧ Unnoticed s a.2) ∨ (a.1 = 0 ∧ Joined b s r a.2)) := by
  have hlive : s.rq.curr ∈ s.live := h.curr.resolve_left hi
  have hnot : ¬(true = true ∧ caller.inInterrupt = true) := by simp [hin]
  rw [launcher_request]
  obtain ⟨a,ha,hans⟩ := schedSetscheduler_answer e caller
    (launchAttr (s.task s.rq.curr)) true true h hlive hnot
  refine ⟨a,ha,?_⟩
  have hpeople := schedSetscheduler_peopled b e caller s.rq.curr _ true true s a ha
  obtain ⟨hreset,hkeep⟩ := launchAttr_flags (s.task s.rq.curr) (s.task s.rq.curr)
  have hreach : Reachable b a.2 :=
    hs.step ⟨e,.schedSetscheduler caller s.rq.curr (launchAttr (s.task s.rq.curr)) true true,
      ⟨hlive,hnot⟩,by simp only [exec,ha]; rfl⟩
  cases hans with
  | refused why =>
    have hle : admission e caller (s.task s.rq.curr) (launchAttr (s.task s.rq.curr)) true ≤ 0 :=
      admission_nonpos hsecurity (s.task s.rq.curr)
    exact .inl ⟨lt_of_le_of_ne hle why,.refl s⟩
  | stopTask _ _ quiet => exact .inl ⟨show -einval < 0 by decide,Quiet.unnoticed quiet⟩
  | busy _ _ _ _ quiet => exact .inl ⟨show -ebusy < 0 by decide,Quiet.unnoticed quiet⟩
  | unchanged _ same inv changed =>
    have hself := changed.task_self
    refine .inr ⟨rfl,hreach,⟨r,inv,?_⟩,changed.live,changed.curr,changed.idle,hpeople.threads,
      ?_,?_,fun x hx => ?_⟩
    · rw [newcomer,if_pos same,List.append_nil]
    · rw [hself]
      exact same
    · rw [hself]
      exact hreset
    · rw [changed.task,Function.update_of_ne hx]
  | committed _ named other inv changed =>
    have hself := changed.task_self
    rw [committed,commitParams_lottery e _ _ named hkeep] at hself inv
    have hqueued : s.taskOnRqQueued s.rq.curr = true := (queued_iff s _).mpr h.currQueued
    refine .inr ⟨rfl,hreach,⟨_,inv,?_⟩,changed.live,changed.curr,changed.idle,hpeople.threads,
      ?_,?_,fun x hx => ?_⟩
    · rw [newcomer,if_neg other,hqueued,Ready.move,if_pos rfl,Ready.add_self,
        Ready.remove_of_ne fun hc => other ((h.tasks _ hlive).lottery.mpr hc.symm)]
    · rw [hself]
    · rw [hself]
      exact hreset
    · rw [changed.task,Function.update_of_ne hx]

theorem Joined.fresh (h : Joined b s r t) (hf : freshPid b p s) : freshPid b p t := by
  unfold freshPid
  rw [h.live,h.idle]
  exact hf

/-- What the launcher does and what its forks do come together. -/
theorem Joined.launched (h : Inv b s r) (hj : Joined b s r t)
    (hr : r' .lottery = r .lottery ++ newcomer s) (hk : Forked b kids t r' u)
    (hself : s.rq.curr ∉ kids) : LaunchedAll b kids s u := by
  obtain ⟨r'',hinv,hqueue⟩ := hk.books
  have hcurr : u.rq.curr = s.rq.curr := hk.curr.trans hj.curr
  refine ⟨hk.reach,⟨r .lottery,books_accounted h.toBooks,?_⟩,?_,hcurr,?_,fun x hx => ?_,hk.children⟩
  · rw [← hr,← hqueue]
    exact books_accounted hinv.toBooks
  · rw [hk.live,hj.live]
  · rw [hcurr,hk.others _ hself]
    exact hj.policy
  · rw [List.mem_cons,not_or] at hx
    rw [hk.others x hx.2,hj.others x hx.1]

theorem shown_lottery (hj : Joined b s r t) (hp : security s.rq.curr = 0) :
    libcResult (sysSchedGetscheduler security 0 t) = schedLottery := by
  have hword : libcResult (policyWord schedLottery false) = schedLottery := by decide
  have hread : sysSchedGetscheduler security 0 t = policyWord schedLottery false := by
    unfold sysSchedGetscheduler
    rw [if_neg (by decide),findProcessByPid,if_pos rfl,hj.curr]
    simp [hp,hj.policy,hj.reset,policyWord]
  rw [hread,hword]

/-- A launcher whose request was granted goes on to its forks. -/
theorem launcherMain_granted (hn : ¬atoi number ≤ 0)
    (hset : sysSchedSetscheduler b e caller 0 schedLottery (.to 0) s = .ok (0,t)) :
    launcherMain b e caller security atoi forks [name,number] s =
      forkChildren b (childrenOf atoi forks [name,number]) t >>= fun u =>
        .ok (⟨0,some (libcResult (sysSchedGetscheduler security 0 t))⟩,u) := by
  have hret : libcResult 0 ≠ -1 := by decide
  unfold launcherMain
  dsimp only
  rw [if_neg hn,bind_ok hset,if_neg hret]
  rfl

theorem launcherMain_refused (hn : ¬atoi number ≤ 0) (hneg : retval < 0)
    (hset : sysSchedSetscheduler b e caller 0 schedLottery (.to 0) s = .ok (retval,t)) :
    launcherMain b e caller security atoi forks [name,number] s = .ok (⟨exitFailure,none⟩,t) := by
  have hret : libcResult retval = -1 := if_pos hneg
  unfold launcherMain
  dsimp only
  rw [if_neg hn,bind_ok hset,if_pos hret]

theorem launcherMain_unused (hf : childrenOf atoi forks argv = []) :
    launcherMain b e caller security atoi forks argv s = .ok (⟨exitFailure,none⟩,s) := by
  unfold launcherMain
  split
  next name number =>
    have hnone : atoi number ≤ 0 := by
      simpa [childrenOf] using hf
    exact if_pos hnone
  next => rfl

/-- On a uniprocessor, with nothing else between its system calls, the launcher either fails
with nothing changed, or it is in the lottery queue with all its children behind it, in the
order in which they were forked. It gets through unless a fork is hindered, whose error
pointer the kernel then stores through. -/
theorem launcher_launches (hs : Reachable b s) (huni : b.smp = false)
    (hi : s.rq.curr ≠ s.rq.idle) (hin : caller.inInterrupt = false)
    (hsecurity : caller.securityTaskSetscheduler ≤ 0)
    (hfresh : ∀ p ∈ pids (childrenOf atoi forks argv), freshPid b p s)
    (hnodup : (pids (childrenOf atoi forks argv)).Nodup) :
    Returns (launcherMain b e caller security atoi forks argv s)
      (Ended b e caller security (childrenOf atoi forks argv) s) ∨
    (launcherMain b e caller security atoi forks argv s = .error .badPointer ∧
      ¬Welcome b (childrenOf atoi forks argv) s) := by
  obtain ⟨⟨r,h⟩,-⟩ := reachable_inv hs
  by_cases hf : childrenOf atoi forks argv = []
  · rw [launcherMain_unused hf]
    exact .inl (.ok (.unused hf))
  obtain ⟨name,number,rfl⟩ : ∃ name number, argv = [name,number] := by
    unfold childrenOf at hf
    split at hf
    next name number => exact ⟨name,number,rfl⟩
    next => exact absurd rfl hf
  have hn : ¬atoi number ≤ 0 := by
    intro hle
    simp [childrenOf,Int.toNat_of_nonpos hle] at hf
  generalize hfs : childrenOf atoi forks [name,number] = fs at *
  have hself : s.rq.curr ∉ pids fs := fun hc =>
    h.curr.elim (hfresh _ hc).2.1 (hfresh _ hc).1
  obtain ⟨⟨retval,t⟩,hset,⟨hneg,hun⟩ | ⟨hzero,hj⟩⟩ :=
    request_outcome (e := e) hs h hi hin hsecurity
  · rw [launcherMain_refused hn hneg hset]
    exact .inl (.ok (.refused retval hneg hset hun))
  · obtain rfl : retval = 0 := hzero
    obtain ⟨r',hinv,hr⟩ := hj.books
    have hl : (t.task t.rq.curr).policy = schedLottery := by
      rw [hj.curr]
      exact hj.policy
    rw [launcherMain_granted hn hset,hfs]
    rcases forkChildren_spec fs hj.reach hinv huni hl (fun p hp => hj.fresh (hfresh p hp)) hnodup
      with ⟨u,hu,hk⟩ | ⟨hfault,hwhy⟩
    · rw [hu]
      refine .inl (.ok (.launched _ (shown_lottery hj) ?_))
      exact hj.launched h hr hk hself
    · rw [hfault]
      refine .inr ⟨rfl,fun hw => hwhy ⟨hw.1,?_⟩⟩
      rw [hj.threads]
      exact hw.2

/-- The number that the digits of an argument stand for. -/
def digitsValue (number : Text) : Int :=
  number.foldl (fun n c => 10 * n + ((c.toNat : Int) - 48)) 0

/-- The pids 2 and 3 are handed out, and nothing goes wrong. -/
def twoForks (i : Nat) : ForkEnv := ⟨.quiet,{ pid := 2 + i }⟩

def twoArgs : List Text := [['l'],['2']]

theorem launcher_launches_two :
    Returns (launcherMain .versatile .quiet .plain permitted digitsValue twoForks twoArgs fairRuns)
      (Ended .versatile .quiet .plain permitted (childrenOf digitsValue twoForks twoArgs)
        fairRuns) ∨
    (launcherMain .versatile .quiet .plain permitted digitsValue twoForks twoArgs fairRuns =
        .error .badPointer ∧
      ¬Welcome .versatile (childrenOf digitsValue twoForks twoArgs) fairRuns) :=
  launcher_launches fairRuns_reachable rfl (by decide +kernel) rfl (by decide)
    (by decide +kernel) (by decide)

end Launchers

end LotteryScheduler.Properties
