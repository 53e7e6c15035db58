import LotteryScheduler.Proofs.Journals
import LotteryScheduler.Properties.Nice

namespace LotteryScheduler.Properties
open Lib Model Proofs

section Answers
variable {b : Build} {e : Env} {s t : Kernel} {r : Ready} {p : Tid} {caller : Caller}
  {pid policy prio : Int} {param : UserPtr Int} {uattr : UserAttr} {usize : Nat} {flags : UInt32}
  {getparamDl : TaskStruct → SchedAttr → SchedAttr}

/-- A security module that lets everybody look at every task. -/
def permitted : Tid → Int := fun _ => 0

/-- A request that was refused left no trace that a query could find, in no task, no queue
and no counter. -/
structure Unnoticed (s t : Kernel) : Prop where
  live : t.live = s.live
  task : t.task = s.task
  curr : t.rq.curr = s.rq.curr
  mem : t.mem = s.mem
  queue : t.rq.queue = s.rq.queue
  ltr : t.rq.ltr = s.rq.ltr
  running : t.rq.nrRunning = s.rq.nrRunning
  threads : t.nrThreads = s.nrThreads

theorem Unnoticed.refl (s : Kernel) : Unnoticed s s := ⟨rfl,rfl,rfl,rfl,rfl,rfl,rfl,rfl⟩

theorem findProcessByPid_congr (hl : t.live = s.live) (hc : t.rq.curr = s.rq.curr) (pid : Int) :
    findProcessByPid pid t = findProcessByPid pid s := by
  unfold findProcessByPid
  rw [hl,hc]

theorem findProcessByPid_live (h : Inv b s r) (hi : s.rq.curr ≠ s.rq.idle)
    (hp : findProcessByPid pid s = some p) : p ∈ s.live := by
  unfold findProcessByPid at hp
  split at hp
  · cases hp
    exact h.curr.resolve_left hi
  split at hp
  next hmem =>
    cases hp
    exact hmem.2
  next => cases hp

theorem Unnoticed.getscheduler (h : Unnoticed s t) (security : Tid → Int) (pid : Int) :
    sysSchedGetscheduler security pid t = sysSchedGetscheduler security pid s := by
  unfold sysSchedGetscheduler
  rw [findProcessByPid_congr h.live h.curr,h.task]

theorem Unnoticed.getparam (h : Unnoticed s t) (security : Tid → Int) (pid : Int)
    (param : UserPtr Unit) :
    sysSchedGetparam security pid param t = sysSchedGetparam security pid param s := by
  unfold sysSchedGetparam
  rw [findProcessByPid_congr h.live h.curr,h.task]

theorem Quiet.unnoticed (h : Quiet s t) : Unnoticed s t :=
  ⟨h.live,h.task,h.curr,h.mem,h.queue,h.ltr,h.running,h.threads⟩

/-- What one request does: it is granted and the task has the lottery policy with the reset
flag asked for, or it fails and leaves everything as it was. -/
theorem answer_cases (ha : Answer b e caller p attr user pi s r a)
    (hk : hasFlag attr.schedFlags schedFlagKeepParams = false) (hn : 0 ≤ attr.schedPolicy) :
    (a.1 = 0 ∧ attr.schedPolicy = schedLottery ∧ a.2.live = s.live ∧ a.2.rq.curr = s.rq.curr ∧
      (a.2.task p).policy = schedLottery ∧
      (a.2.task p).schedResetOnFork = hasFlag attr.schedFlags schedFlagResetOnFork) ∨
    (a.1 ≠ 0 ∧ Unnoticed s a.2) := by
  have hreset : requestedReset (s.task p) attr =
      hasFlag attr.schedFlags schedFlagResetOnFork := if_neg (by omega)
  cases ha with
  | refused why => exact .inr ⟨why,.refl s⟩
  | stopTask _ _ quiet => exact .inr ⟨by simp [einval],Quiet.unnoticed quiet⟩
  | busy _ _ _ _ quiet => exact .inr ⟨by simp [ebusy],Quiet.unnoticed quiet⟩
  | unchanged pass same _ changed =>
    have hpolicy : attr.schedPolicy = schedLottery := by
      rw [← admission_lottery pass]
      exact (if_neg (by omega)).symm
    refine .inl ⟨rfl,hpolicy,changed.live,changed.curr,?_⟩
    rw [changed.task_self]
    exact ⟨same,hreset⟩
  | committed _ named _ _ changed =>
    refine .inl ⟨rfl,named,changed.live,changed.curr,?_⟩
    rw [changed.task_self,committed,commitParams_lottery e _ _ named hk]
    exact ⟨rfl,hreset⟩

/-- The policy and the reset flag that come in one word of `sched_setscheduler`. -/
def wordReset (policy : Int) : Bool :=
  BitVec.ofInt 32 policy &&& BitVec.ofNat 32 schedResetOnForkBit != 0

def wordPolicy (policy : Int) : Int :=
  if wordReset policy then
    (BitVec.ofInt 32 policy &&& ~~~BitVec.ofNat 32 schedResetOnForkBit).toInt
  else policy

/-- The word that `sched_getscheduler` makes of them again. -/
def policyWord (policy : Int) (reset : Bool) : Int :=
  (BitVec.ofInt 32 policy ||| BitVec.ofNat 32 (if reset then schedResetOnForkBit else 0)).toInt

theorem and_resetBit (x : BitVec 32) (h : x &&& BitVec.ofNat 32 schedResetOnForkBit ≠ 0) :
    x = x &&& ~~~BitVec.ofNat 32 schedResetOnForkBit ||| BitVec.ofNat 32 schedResetOnForkBit := by
  have hbit : BitVec.ofNat 32 schedResetOnForkBit = BitVec.twoPow 32 30 := by decide
  rw [hbit] at h ⊢
  rw [BitVec.and_twoPow] at h
  split at h
  next hx =>
    ext i hi
    simp only [BitVec.getElem_or,BitVec.getElem_and,BitVec.getElem_not,BitVec.getElem_twoPow]
    by_cases hj : i = 30
    · subst hj
      simpa using hx
    · simp [hj]
  next => exact absurd rfl h

theorem wordPolicy_nonneg (hl : 0 ≤ policy) (hu : policy < 2 ^ 31) : 0 ≤ wordPolicy policy := by
  unfold wordPolicy
  split
  · have hword : (BitVec.ofInt 32 policy).toInt = policy :=
      BitVec.toInt_ofInt_eq_self (by decide) (by omega) (by omega)
    have hmsb : (BitVec.ofInt 32 policy).msb = false := by
      rw [BitVec.msb_eq_toInt,hword]
      simpa using hl
    have hand : (BitVec.ofInt 32 policy &&& ~~~BitVec.ofNat 32 schedResetOnForkBit).msb = false := by
      rw [BitVec.msb_and,hmsb,Bool.false_and]
    rw [BitVec.msb_eq_toInt] at hand
    simpa using hand
  · exact hl

/-- Taking a word apart and putting it together gives the word. -/
theorem policyWord_wordPolicy (hl : 0 ≤ policy) (hu : policy < 2 ^ 31) :
    policyWord (wordPolicy policy) (wordReset policy) = policy := by
  have hword : (BitVec.ofInt 32 policy).toInt = policy :=
    BitVec.toInt_ofInt_eq_self (by decide) (by omega) (by omega)
  unfold policyWord wordPolicy
  split
  next hr =>
    have hbit : BitVec.ofInt 32 policy &&& BitVec.ofNat 32 schedResetOnForkBit ≠ 0 := by
      simpa [wordReset] using hr
    rw [BitVec.ofInt_toInt,← and_resetBit _ hbit,hword]
  next => simpa using hword

/-- The request that `sched_setscheduler` makes of its word. -/
theorem schedSetschedulerParam_eq (hl : 0 ≤ policy) (n : Nat) :
    schedSetschedulerParam b e caller p policy n true s =
      schedSetscheduler b e caller p
        { schedPolicy := wordPolicy policy
          schedPriority := n
          schedFlags := if wordReset policy then schedFlagResetOnFork else 0
          schedNice := prioToNice (s.task p).staticPrio } true true s := by
  have hne : policy ≠ setparamPolicy := by
    unfold setparamPolicy
    omega
  unfold schedSetschedulerParam wordPolicy wordReset
  dsimp only
  by_cases hbit : BitVec.ofInt 32 policy &&& BitVec.ofNat 32 schedResetOnForkBit = 0
  · simp [hbit]
  · have hflag : (BitVec.ofInt 32 policy &&& BitVec.ofNat 32 schedResetOnForkBit != 0) = true := by
      simpa using hbit
    rw [if_pos ⟨hne,hbit⟩,if_pos hflag,if_pos hflag,UInt64.zero_or]

theorem sysSchedGetscheduler_found (hpid : 0 ≤ pid) (hp : findProcessByPid pid s = some p) :
    sysSchedGetscheduler permitted pid s =
      policyWord (s.task p).policy (s.task p).schedResetOnFork := by
  unfold sysSchedGetscheduler
  rw [if_neg (by omega),hp]
  rfl

theorem sysSchedGetparam_found (hpid : 0 ≤ pid) (hp : findProcessByPid pid s = some p)
    (hplain : rtPolicy (s.task p).policy = false) :
    sysSchedGetparam permitted pid (.to ()) s = (0,some 0) := by
  unfold sysSchedGetparam
  rw [if_neg (by simpa using hpid),hp]
  simp [permitted,hplain]

/-- What a call of `sched_setscheduler` leaves for the queries to find: what was accepted,
or what they found before. -/
structure ReadsBack (pid policy : Int) (s : Kernel) (a : Int × Kernel) : Prop where
  granted : a.1 = 0 → sysSchedGetscheduler permitted pid a.2 = policy ∧
    sysSchedGetparam permitted pid (.to ()) a.2 = (0,some 0)
  refused : a.1 ≠ 0 → ∀ security x ptr,
    sysSchedGetscheduler security x a.2 = sysSchedGetscheduler security x s ∧
    sysSchedGetparam security x ptr a.2 = sysSchedGetparam security x ptr s

theorem Unnoticed.readsBack (h : Unnoticed s a.2) (hn : a.1 ≠ 0) : ReadsBack pid policy s a :=
  ⟨fun hz => absurd hz hn,
    fun _ security x ptr => ⟨h.getscheduler security x,h.getparam security x ptr⟩⟩

/-- What `sched_setscheduler` accepts, `sched_getscheduler` gives back, the reset bit
included, and `sched_getparam` the priority zero, to whom the security module lets ask. What
it refuses changes no answer about any task. -/
theorem set_then_get (h : Reachable b s) (hi : s.rq.curr ≠ s.rq.idle)
    (hin : caller.inInterrupt = false) (hword : policy < 2 ^ 31) :
    Returns (sysSchedSetscheduler b e caller pid policy param s) (ReadsBack pid policy s) := by
  obtain ⟨⟨r,hr⟩,-⟩ := reachable_inv h
  have hrefused : ∀ retval : Int, retval ≠ 0 → ReadsBack pid policy s (retval,s) :=
    fun retval hn => Unnoticed.readsBack (.refl s) hn
  unfold sysSchedSetscheduler
  split
  · exact .ok (hrefused _ (by decide))
  next hpos =>
    have hl : 0 ≤ policy := Int.not_lt.mp hpos
    unfold doSchedSetscheduler
    split
    · exact .ok (hrefused _ (by decide))
    next hargs =>
      have hpid : 0 ≤ pid := by
        simp only [not_or,Int.not_lt] at hargs
        exact hargs.2
      split
      next schedPriority =>
        cases hp : findProcessByPid pid s with
        | none => exact .ok (hrefused _ (by decide))
        | some p =>
          have hlive := findProcessByPid_live hr hi hp
          dsimp only
          rw [schedSetschedulerParam_eq hl]
          refine (schedSetscheduler_answer e caller _ true true hr hlive (by simp [hin])).mono ?_
          intro a ha
          have hkeep : hasFlag (if wordReset policy then schedFlagResetOnFork else 0)
              schedFlagKeepParams = false := by
            split <;> decide
          rcases answer_cases ha hkeep (wordPolicy_nonneg hl hword) with
            ⟨hz,hpolicy,hlv,hcurr,hset,hreset⟩ | ⟨hnz,hun⟩
          · refine ⟨fun _ => ?_,fun hne => absurd hz hne⟩
            have hfound : findProcessByPid pid a.2 = some p :=
              (findProcessByPid_congr hlv hcurr pid).trans hp
            have hflag : (a.2.task p).schedResetOnFork = wordReset policy := by
              rw [hreset]
              dsimp only
              cases wordReset policy <;> decide
            refine ⟨?_,sysSchedGetparam_found hpid hfound (by rw [hset]; decide)⟩
            rw [sysSchedGetscheduler_found hpid hfound,hset,hflag,← hpolicy]
            exact policyWord_wordPolicy hl hword
          · exact hun.readsBack hnz
      · exact .ok (hrefused _ (by decide))

/-- A task asks for the lottery policy, to be left by its children. -/
theorem set_then_get_reset :
    Returns (sysSchedSetscheduler .versatile .quiet .plain 0 0x40000007 (.to 0) fairRuns)
      (ReadsBack 0 0x40000007 fairRuns) :=
  set_then_get fairRuns_reachable (by decide +kernel) rfl (by decide)

def resetFlags (reset : Bool) : UInt64 := if reset then schedFlagResetOnFork else 0

/-- The attributes of a task that is neither real-time nor deadline. -/
def reported (t : TaskStruct) : SchedAttr :=
  { schedPolicy := t.policy
    schedFlags := resetFlags t.schedResetOnFork
    schedNice := taskNice t }

theorem reported_flags (t : TaskStruct) :
    (reported t).schedFlags = resetFlags t.schedResetOnFork := rfl

theorem resetFlags_tests (reset : Bool) :
    hasFlag (resetFlags reset) schedFlagKeepPolicy = false ∧
      hasFlag (resetFlags reset) schedFlagKeepParams = false ∧
      hasFlag (resetFlags reset) schedFlagSugov = false ∧
      hasFlag (resetFlags reset) schedFlagUtilClamp = false ∧
      hasFlag (resetFlags reset) (~~~(schedFlagAll ||| schedFlagSugov)) = false ∧
      hasFlag (resetFlags reset) schedFlagResetOnFork = reset := by
  cases reset <;> decide

theorem schedGetattr_reported {v : TaskStruct} (getparamDl : TaskStruct → SchedAttr → SchedAttr)
    (hp : v.policy = schedNormal ∨ v.policy = schedLottery) :
    schedGetattr getparamDl v = reported v := by
  have hplain : dlPolicy v.policy = false ∧ rtPolicy v.policy = false := by
    rcases hp with hp | hp <;> rw [hp] <;> decide
  unfold schedGetattr getParams reported
  have hall : schedFlagResetOnFork &&& schedFlagAll = schedFlagResetOnFork := by decide
  cases v.schedResetOnFork <;> simp [hplain,resetFlags,hall]

theorem schedCopyAttr_reported {v : TaskStruct} {usize : Nat} (hg : Graded v)
    (hl : schedAttrSizeVer0 ≤ usize) (hu : usize ≤ pageSize) :
    schedCopyAttr { size := min usize schedAttrSizeVer1, attr := reported v } =
      .ok (reported v) := by
  obtain ⟨nice,hlow,hhigh,hstatic⟩ := hg.level
  have hnice : taskNice v = nice := taskNice_of_static hstatic hlow hhigh
  have hflags : hasFlag (reported v).schedFlags schedFlagUtilClamp = false :=
    (resetFlags_tests _).2.2.2.1
  have hclamp : max minNice (min (reported v).schedNice maxNice) = (reported v).schedNice := by
    change max minNice (min (taskNice v) maxNice) = taskNice v
    rw [hnice]
    omega
  simp only [schedAttrSizeVer0,pageSize] at hl hu
  unfold schedCopyAttr
  dsimp only
  rw [if_neg (show min usize schedAttrSizeVer1 ≠ 0 by simp only [schedAttrSizeVer1]; omega),
    if_neg (by simp),if_neg (by simp only [schedAttrSizeVer0,schedAttrSizeVer1,pageSize]; omega),
    if_neg (by simp),if_neg (by simp [hflags]),hclamp]

/-- The owner of a lottery task may ask for what the task has. -/
theorem admission_reported {v : TaskStruct} (howner : caller.sameOwner = true)
    (hsecurity : caller.securityTaskSetscheduler = 0) (hp : v.policy = schedLottery) :
    admission e caller v (reported v) true = 0 := by
  obtain ⟨-,-,hsugov,hclamp,hknown,hreset⟩ := resetFlags_tests v.schedResetOnFork
  have hpos : ¬(reported v).schedPolicy < 0 := by
    change ¬v.policy < 0
    rw [hp]
    decide
  have heffective : effectivePolicy v (reported v) = schedLottery := (if_neg hpos).trans hp
  have hrequest : checkRequest e v (reported v) = 0 := by
    unfold checkRequest
    rw [heffective,reported_flags,hknown]
    simp [validPolicy,ltrPolicy,lottery_plain,maxRtPrio,reported]
  have hflag : requestedReset v (reported v) = v.schedResetOnFork := (if_neg hpos).trans hreset
  have hrights : checkUser caller v (reported v) = 0 := by
    unfold checkUser
    rw [heffective,hflag]
    simp [lottery_plain,hp,howner]
  unfold admission
  simp [hrequest,hrights,reported_flags,hsugov,hclamp,hsecurity]

/-- A task of the normal policy may not ask for its own. -/
theorem admission_normal {v : TaskStruct} (hp : v.policy = schedNormal) :
    admission e caller v (reported v) true = -einval := by
  obtain ⟨-,-,-,-,hknown,-⟩ := resetFlags_tests v.schedResetOnFork
  have hpos : ¬(reported v).schedPolicy < 0 := by
    change ¬v.policy < 0
    rw [hp]
    decide
  have heffective : effectivePolicy v (reported v) = schedNormal := (if_neg hpos).trans hp
  have hrequest : checkRequest e v (reported v) = -einval := by
    unfold checkRequest
    rw [heffective,reported_flags,hknown]
    simp [validPolicy,ltrPolicy,fairPolicy,dlPolicy,rtPolicy,schedNormal,schedFifo,schedRr,
      schedDeadline,schedLottery,maxRtPrio,reported]
  unfold admission
  rw [hrequest,if_pos (by decide)]

theorem updateRqClock_se (e : Env) (s : Kernel) : (updateRqClock e s).se = s.se := by
  unfold updateRqClock
  split
  · rfl
  split <;> rfl

/-- Reading the attributes of a task and handing them back changes nothing; it is granted
to a lottery task and refused to any other, whose policy cannot be asked for. -/
theorem get_then_set (h : Reachable b s) (hi : s.rq.curr ≠ s.rq.idle)
    (hin : caller.inInterrupt = false) (howner : caller.sameOwner = true)
    (hsecurity : caller.securityTaskSetscheduler = 0) (hp : findProcessByPid pid s = some p)
    (hstop : s.rq.stop ≠ some p)
    (hget : sysSchedGetattr permitted getparamDl pid (.to ()) usize flags s = (0,some uattr)) :
    Returns (sysSchedSetattr b e caller getparamDl pid (.to uattr) 0 s) (fun a =>
      ((s.task p).policy = schedLottery → a.1 = 0) ∧
      ((s.task p).policy ≠ schedLottery → a.1 = -einval) ∧
      Unnoticed s a.2 ∧ a.2.se = s.se ∧ a.2.log = s.log) := by
  obtain ⟨⟨r,hr⟩,-⟩ := reachable_inv h
  have hlive := findProcessByPid_live hr hi hp
  have hplaced := (reachable_placed h).each p hlive
  have hgraded := (reachable_graded h).tasks p hlive
  unfold sysSchedGetattr at hget
  split at hget
  next =>
    simp only [Prod.mk.injEq] at hget
    exact absurd hget.1 (by decide)
  next hargs =>
  simp only [not_or,Int.not_lt,Nat.not_lt] at hargs
  obtain ⟨-,hpid,hu,hl,-⟩ := hargs
  rw [hp] at hget
  simp only [permitted,ne_eq,not_true_eq_false,if_false,reduceCtorEq,Prod.mk.injEq,true_and,
    Option.some.injEq] at hget
  subst hget
  rw [schedGetattr_reported getparamDl hplaced.policy]
  obtain ⟨hkeep,hparams,-⟩ := resetFlags_tests (s.task p).schedResetOnFork
  have hpos : ¬(reported (s.task p)).schedPolicy < 0 := by
    change ¬(s.task p).policy < 0
    rcases hplaced.policy with hn | hn <;> rw [hn] <;> decide
  unfold sysSchedSetattr
  rw [if_neg (by simpa using hpid)]
  simp only [schedCopyAttr_reported hgraded hl hu,if_neg hpos,hp,reported_flags,hkeep,hparams,
    Bool.false_eq_true,if_false]
  unfold schedSetattr schedSetscheduler
  rw [if_neg (by simp [hin])]
  by_cases hlottery : (s.task p).policy = schedLottery
  · have hpass := admission_reported (e := e) howner hsecurity hlottery
    have hq := updateRqClock_quiet e s
    have heffective : effectivePolicy (s.task p) (reported (s.task p)) = schedLottery :=
      admission_lottery hpass
    have hsame := changes_lottery (e := e) heffective (admission_no_clamp hpass)
    have hreset : requestedReset (s.task p) (reported (s.task p)) =
        (s.task p).schedResetOnFork :=
      (if_neg hpos).trans (resetFlags_tests (s.task p).schedResetOnFork).2.2.2.2.2
    rw [if_neg (by simp [hpass])]
    dsimp only
    rw [hq.stop,if_neg hstop,hq.task,heffective,hsame,if_pos (by simp [hlottery]),hreset]
    refine .ok ⟨fun _ => rfl,fun hn => absurd hlottery hn,?_,updateRqClock_se e s,
      (updateRqClock_still e s).log⟩
    have hset := setTask_self (updateRqClock e s) p
    rw [hq.task] at hset
    rw [hset]
    exact Quiet.unnoticed hq
  · have hpass : admission e caller (s.task p) (reported (s.task p)) true = -einval :=
      admission_normal (hplaced.policy.resolve_right hlottery)
    rw [if_pos (by rw [hpass]; decide),hpass]
    exact .ok ⟨fun hn => absurd hn hlottery,fun _ => rfl,.refl s,rfl,rfl⟩

/-- What the running lottery task reads of itself. -/
def ownAttr : UserAttr := { size := 48, attr := { schedPolicy := schedLottery } }

theorem get_then_set_own :
    Returns (sysSchedSetattr .versatile .quiet .plain (fun _ attr => attr) 0 (.to ownAttr) 0
      lotteryRuns) (fun a =>
        ((lotteryRuns.task 1).policy = schedLottery → a.1 = 0) ∧
        ((lotteryRuns.task 1).policy ≠ schedLottery → a.1 = -einval) ∧
        Unnoticed lotteryRuns a.2 ∧ a.2.se = lotteryRuns.se ∧ a.2.log = lotteryRuns.log) := by
  have hget : sysSchedGetattr permitted (fun _ attr => attr) 0 (.to ()) 48 0 lotteryRuns =
      (0,some ownAttr) := by decide +kernel
  exact get_then_set lotteryRuns_reachable (by decide +kernel) rfl rfl rfl (by decide +kernel)
    (by decide +kernel) hget

end Answers

end LotteryScheduler.Properties
