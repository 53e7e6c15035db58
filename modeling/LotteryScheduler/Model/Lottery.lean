import LotteryScheduler.Model.State

namespace LotteryScheduler.Model
open Lib

def initLtrRq (s : Kernel) : Kernel :=
  { s with mem := initListHead s.mem .ltrQueue }.setLtr ⟨0,0⟩

/-- The test of the task's state at the start of the source has empty branches. -/
def enqueueTaskLottery (e : Env) (p : Tid) (s : Kernel) : Except Fault Kernel :=
  match listAddTail s.mem (.task p) .ltrQueue with
  | none => .error .badPointer
  | some mem =>
    let ltr := ⟨s.rq.ltr.nrRunning + 1,s.rq.ltr.totalTickets + (s.task p).tickets⟩
    .ok (logEvent e p .e ({ s with mem }.setLtr ltr))

def dequeueTaskLottery (e : Env) (p : Tid) (s : Kernel) : Except Fault Kernel :=
  match listDel s.mem (.task p) with
  | none => .error .badPointer
  | some mem =>
    let ltr := ⟨s.rq.ltr.nrRunning - 1,s.rq.ltr.totalTickets - (s.task p).tickets⟩
    .ok (logEvent e p .d ({ s with mem }.setLtr ltr))

/-- Yielding is not implemented in this class. -/
def yieldTaskLottery (s : Kernel) : Kernel := s

/-- Preemption on wakeup is not implemented in this class. -/
def checkPreemptCurrLottery (s : Kernel) : Kernel := s

/-- One turn of the loop over the queue, on `task` and `tickets_cnt`. The loop
never runs its body at the anchor. -/
def drawStep (task : Tid → TaskStruct) (luckyOne : UInt32) (acc : Option Tid × UInt32) :
    Node → LoopStep (Option Tid × UInt32)
  | .ltrQueue => .cont acc
  | .task p =>
    let ticketsCnt := acc.2
    if (task p).policy ≠ schedLottery then .cont (some p,ticketsCnt)
    else if luckyOne < ticketsCnt + (task p).tickets ∧ luckyOne ≥ ticketsCnt then
      .brk (some p,ticketsCnt)
    else .cont (some p,ticketsCnt + (task p).tickets)

/-- The loop of `pick_next_task_lottery`, for at most `fuel` nodes. -/
def drawLoop (fuel : Nat) (s : Kernel) (luckyOne : UInt32) :
    Option (LoopEnd (Option Tid × UInt32)) :=
  listForEach s.mem .ltrQueue (drawStep s.task luckyOne) fuel (s.mem .ltrQueue).next (none,0)

def pickNextTaskLottery (e : Env) (s : Kernel) : Except Fault (Option Tid × Kernel) :=
  let totalTickets := s.rq.ltr.totalTickets
  if totalTickets = 0 then .ok (none,s)
  else if listEmpty s.mem .ltrQueue then .ok (none,s)
  else
    let luckyOne := e.randomWord % totalTickets
    match drawLoop (s.live.length + 1) s luckyOne with
    | none => .error .endless
    | some r => match r.value.1 with
      | none => .ok (none,s)
      | some p => .ok (some p,logEvent e p .s s)

def putPrevTaskLottery (s : Kernel) : Kernel := s

def setNextTaskLottery (s : Kernel) : Kernel := s

def taskTickLottery (e : Env) (s : Kernel) : Kernel :=
  if s.rq.ltr.nrRunning ≤ 1 then s
  else
    let shouldPreempt := e.randomWord
    if shouldPreempt % 10 = 0 then reschedCurr s else s

def switchedToLottery (s : Kernel) : Kernel := s

def switchedFromLottery (e : Env) (p : Tid) (s : Kernel) : Except Fault Kernel :=
  if !listEmpty s.mem (.task p) then dequeueTaskLottery e p s else .ok s

def prioChangedLottery (s : Kernel) : Kernel := s

/-- The functions behind the pointers of `lottery_sched_class`. -/
def lotteryHook (e : Env) (p : Tid) (s : Kernel) : Hook → Except Fault Kernel
  | .enqueueTask => enqueueTaskLottery e p s
  | .dequeueTask => dequeueTaskLottery e p s
  | .yieldTask => .ok (yieldTaskLottery s)
  | .checkPreemptCurr => .ok (checkPreemptCurrLottery s)
  | .putPrevTask => .ok (putPrevTaskLottery s)
  | .setNextTask => .ok (setNextTaskLottery s)
  | .taskTick => .ok (taskTickLottery e s)
  | .switchedTo => .ok (switchedToLottery s)
  | .switchedFrom => switchedFromLottery e p s
  | .prioChanged => .ok (prioChangedLottery s)
  | h => .error (.nullHook .lottery h)

/-- What every function of the classes defined elsewhere may do: charge the current
task if it belongs to the class, and ask for a reschedule. -/
def upstreamEffect (e : Env) (c : SchedClass) (h : Hook) (s : Kernel) : Kernel :=
  let s := if (s.task s.rq.curr).schedClass = c then s.chargeCurr (e.charge c h) else s
  if e.resched c h then s.setNeedResched else s

/-- The functions of those classes. All but idle keep a queue and count its tasks. -/
def upstreamHook (e : Env) (c : SchedClass) (h : Hook) (p : Tid) (s : Kernel) : Kernel :=
  let s := upstreamEffect e c h s
  match c, h with
  | .idle, _ => s
  | c, .enqueueTask => addNrRunning (s.setQueue c (s.rq.queue c ++ [p])) 1
  | c, .dequeueTask => subNrRunning (s.setQueue c ((s.rq.queue c).erase p)) 1
  | _, _ => s

/-- A call through the pointer `h` of class `c` on behalf of `p`. -/
def callHook (b : Build) (e : Env) (c : SchedClass) (h : Hook) (p : Tid) (s : Kernel) :
    Except Fault Kernel :=
  if b.provides c h then
    match c with
    | .lottery => lotteryHook e p s h
    | c => .ok (upstreamHook e c h p s)
  else .error (.nullHook c h)

/-- The same after the pointer was tested against NULL. -/
def callHookIfSet (b : Build) (e : Env) (c : SchedClass) (h : Hook) (p : Tid) (s : Kernel) :
    Except Fault Kernel :=
  if b.provides c h then callHook b e c h p s else .ok s

/-- `class->pick_next_task`. The idle class always has the idle task. -/
def callPickNextTask (b : Build) (e : Env) (c : SchedClass) (s : Kernel) :
    Except Fault (Option Tid × Kernel) :=
  if b.provides c .pickNextTask then
    match c with
    | .lottery => pickNextTaskLottery e s
    | .idle => .ok (some s.rq.idle,upstreamEffect e .idle .pickNextTask s)
    | c => .ok (e.pick c (s.rq.queue c),upstreamEffect e c .pickNextTask s)
  else .error (.nullHook c .pickNextTask)

/-- `class->pick_task`, a pointer that the lottery class leaves NULL. -/
def callPickTask (b : Build) (e : Env) (c : SchedClass) (s : Kernel) :
    Except Fault (Option Tid × Kernel) :=
  if b.provides c .pickTask then
    match c with
    | .idle => .ok (some s.rq.idle,upstreamEffect e .idle .pickTask s)
    | c => .ok (e.pick c (s.rq.queue c),upstreamEffect e c .pickTask s)
  else .error (.nullHook c .pickTask)

end LotteryScheduler.Model
