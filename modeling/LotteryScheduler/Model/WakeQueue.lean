import LotteryScheduler.Lib.TailQueue
import LotteryScheduler.Model.System

namespace LotteryScheduler.Model
open Lib

def taskNormal : Nat := 0x0003

/-- Whoever has a `struct wake_q_head` of its own, for wakeups to make later. -/
abbrev Context := Nat

/-- The head of a context. The nodes it links are in the tasks, and shared by all. -/
abbrev WakeQHead := TailQueue Tid

inductive WakeQCall where
  | wakeQInit
  | wakeQAdd (p : Tid)
  | wakeQAddSafe (p : Tid)
  | wakeUpQ
  deriving DecidableEq, Repr

/-- Where a context is: between two calls, or before a statement of one. A head that was
flushed is not empty, so it is of no use until the next `wake_q_init`. -/
inductive WakeQPc where
  | ready
  | link (p : Tid) (safe : Bool)
  | advance (p : Tid) (safe : Bool)
  | get (p : Tid)
  | put (p : Tid)
  | loop (node : Cell Tid)
  | clear (p : Tid) (node : Cell Tid)
  | wake (p : Tid) (node : Cell Tid)
  | drop (p : Tid) (node : Cell Tid)
  | flushed
  deriving DecidableEq, Repr

/-- What the contexts have done, as far as others depend on it. -/
inductive WakeQEvent where
  | add (c : Context) (p : Tid) (safe won : Bool)
  | get (c : Context) (p : Tid)
  | put (c : Context) (p : Tid)
  | wake (c : Context) (p : Tid)
  deriving DecidableEq, Repr

structure WakeQState where
  next : Tid → Cell Tid
  head : Context → WakeQHead
  pc : Context → WakeQPc
  usage : Tid → Int
  kernel : Kernel
  trace : List WakeQEvent

def WakeQState.goto (c : Context) (pc : WakeQPc) (w : WakeQState) : WakeQState :=
  { w with pc := Function.update w.pc c pc }

def getTaskStruct (c : Context) (p : Tid) (w : WakeQState) : WakeQState :=
  { w with usage := Function.update w.usage p (w.usage p + 1), trace := w.trace ++ [.get c p] }

def putTaskStruct (c : Context) (p : Tid) (w : WakeQState) : WakeQState :=
  { w with usage := Function.update w.usage p (w.usage p - 1), trace := w.trace ++ [.put c p] }

/-- The `cmpxchg` of `__wake_q_add`, which only one of several contexts wins. -/
def grabNode (c : Context) (p : Tid) (safe : Bool) (w : WakeQState) : WakeQState :=
  if w.next p ≠ .null then
    .goto c (if safe then .put p else .ready) { w with trace := w.trace ++ [.add c p safe false] }
  else
    .goto c (.link p safe) { w with
      next := Function.update w.next p .tail
      trace := w.trace ++ [.add c p safe true] }

/-- A context calls one of the functions and gets to its second statement. -/
def enterCall (c : Context) (w : WakeQState) : WakeQCall → WakeQState
  | .wakeQInit => .goto c .ready { w with head := Function.update w.head c .empty }
  | .wakeQAdd p => grabNode c p false w
  | .wakeQAddSafe p => grabNode c p true w
  | .wakeUpQ => .goto c (.loop (w.head c).first) w

def mayCall (w : WakeQState) (c : Context) : WakeQCall → Prop
  | .wakeQInit => w.pc c = .flushed
  | .wakeQAdd _ | .wakeQAddSafe _ | .wakeUpQ => w.pc c = .ready

instance (w : WakeQState) (c : Context) : (call : WakeQCall) → Decidable (mayCall w c call)
  | .wakeQInit => inferInstanceAs (Decidable (w.pc c = .flushed))
  | .wakeQAdd _ | .wakeQAddSafe _ | .wakeUpQ => inferInstanceAs (Decidable (w.pc c = .ready))

/-- `wake_up_process`. A task that is not of this CPU is woken elsewhere, or dead. -/
def wakeUpProcess (b : Build) (e : Env) (p : Tid) (s : Kernel) : Except Fault Kernel :=
  if p ∈ s.live then exec b e (.tryToWakeUp p taskNormal) s else .ok s

/-- The next statement of a context in the middle of a call. -/
def wakeQStatement (b : Build) (e : Env) (c : Context) (w : WakeQState) :
    Except Fault WakeQState :=
  let head := w.head c
  match w.pc c with
  | .ready | .flushed => .ok w
  | .link p safe =>
    .ok (.goto c (.advance p safe) { w with
      head := Function.update w.head c (head.linkFirst (.node p))
      next := head.linkNext (.node p) w.next })
  | .advance p safe =>
    .ok (.goto c (if safe then .ready else .get p) { w with
      head := Function.update w.head c { head with lastp := some p } })
  | .get p => .ok (.goto c .ready (getTaskStruct c p w))
  | .put p => .ok (.goto c .ready (putTaskStruct c p w))
  | .loop .null => .error .badPointer
  | .loop .tail => .ok (.goto c .flushed w)
  | .loop (.node p) => .ok (.goto c (.clear p (w.next p)) w)
  | .clear p node =>
    .ok (.goto c (.wake p node) { w with next := Function.update w.next p .null })
  | .wake p node => do
    let kernel ← wakeUpProcess b e p w.kernel
    .ok (.goto c (.drop p node) { w with kernel, trace := w.trace ++ [.wake c p] })
  | .drop p node => .ok (.goto c (.loop node) (putTaskStruct c p w))

/-- One statement of a context, or one of these operations of anybody on the CPU. -/
inductive WakeQStep (b : Build) (others : Kernel → Op → Prop) : WakeQState → WakeQState → Prop where
  | call (may : mayCall w c call) : WakeQStep b others w (enterCall c w call)
  | statement (run : wakeQStatement b e c w = .ok w') : WakeQStep b others w w'
  | other (may : enabled b w.kernel op) (one : others w.kernel op)
    (run : exec b e op w.kernel = .ok s) : WakeQStep b others w { w with kernel := s }

inductive WakeQRun (b : Build) (others : Kernel → Op → Prop) (w : WakeQState) :
    WakeQState → Prop where
  | refl : WakeQRun b others w w
  | tail (before : WakeQRun b others w w') (last : WakeQStep b others w' w'') :
    WakeQRun b others w w''

/-- A schedule of contexts: each makes a call, or the next statement of the one it is in. -/
def runContexts (b : Build) (e : Env) : List (Context × Option WakeQCall) → WakeQState →
    Except Fault WakeQState
  | [], w => .ok w
  | (c,none) :: rest, w => wakeQStatement b e c w >>= runContexts b e rest
  | (c,some call) :: rest, w =>
    if mayCall w c call then runContexts b e rest (enterCall c w call) else .error .bug

theorem WakeQRun.contexts {others : Kernel → Op → Prop} (h : WakeQRun b others w₀ w)
    (hr : runContexts b e acts w = .ok w') : WakeQRun b others w₀ w' := by
  induction acts generalizing w with
  | nil =>
    cases hr
    exact h
  | cons act acts ih =>
    obtain ⟨c,call⟩ := act
    cases call with
    | none =>
      obtain ⟨u,hu,hr⟩ := bind_eq_ok.mp hr
      exact ih (h.tail (.statement hu)) hr
    | some call =>
      simp only [runContexts] at hr
      split at hr
      · exact ih (h.tail (.call ‹_›)) hr
      · cases hr

/-- No node is linked and every head is as `wake_q_init` leaves it. -/
def wakeQStart (usage : Tid → Int) (s : Kernel) : WakeQState :=
  ⟨fun _ => .null,fun _ => .empty,fun _ => .ready,usage,s,[]⟩

/-- Every state in any interleaving of any contexts with any operations. -/
def WakeQReach (b : Build) (usage : Tid → Int) (w : WakeQState) : Prop :=
  ∃ s, Reachable b s ∧ WakeQRun b (fun _ _ => True) (wakeQStart usage s) w

end LotteryScheduler.Model
