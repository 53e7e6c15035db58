import LotteryScheduler.Model.State
import Mathlib.Algebra.Group.Basic
import Mathlib.Data.List.DropRight
import Mathlib.Order.Lattice

namespace LotteryScheduler.Model

/-- A line of a text file, with its line end. -/
abbrev Text := List Char

section Logs

def LogOp.letter : LogOp → Char
  | .e => 'e'
  | .d => 'd'
  | .s => 's'

/-- The line that `log_event` prints. -/
def logEventText (x : LogRecord) : Text :=
  ['>','>'] ++ [','].intercalate [Nat.toDigits 10 x.pid,Nat.toDigits 10 x.ns,[x.op.letter]] ++ ['\n']

def logHeader : Text := ['p','i','d',',','n','s',',','a','c','t','i','o','n','\n']

/-- A stored log: the header, then the printed lines without their marker. -/
def storedLog (trace : List LogRecord) : List Text :=
  logHeader :: trace.map fun x => (logEventText x).drop 2

end Logs

/-- The variables of the parsing loop. `pidInfo` lists the keys as they were inserted. -/
structure ParseState (π τ : Type) where
  firstTime : Option τ
  fatherPid : Option π
  events : List (π × τ)
  pidInfo : List (π × Text)

/-- The collections of the second loop; a key that was never stored has the default. -/
structure ChartState (π τ : Type) where
  pidTimes : π → List τ
  pidWaitingTimes : π → List τ
  pidCumulativeWaitingTimes : π → List τ
  lastScheduledTime : π → τ
  cumulativeWaitingTime : π → τ
  ganttData : List (π × τ × τ)

section Parsing
variable {π τ : Type} [DecidableEq π] [Sub τ]

def ParseState.start : ParseState π τ := ⟨none,none,[],[]⟩

/-- The white space of Python's `str.strip`. -/
def isSpace (c : Char) : Bool :=
  (9 ≤ c.val && c.val ≤ 13) || (28 ≤ c.val && c.val ≤ 32) || c.val == 0x85 || c.val == 0xa0 ||
    c.val == 0x1680 || (0x2000 ≤ c.val && c.val ≤ 0x200a) || c.val == 0x2028 ||
    c.val == 0x2029 || c.val == 0x202f || c.val == 0x205f || c.val == 0x3000

def strip (s : Text) : Text := (s.dropWhile isSpace).rdropWhile isSpace

/-- The body of the parsing loop from the fields on. The first pid it meets is taken for
the launcher's, and the first time it keeps for the origin. -/
def keepEvent (st : ParseState π τ) (pid : π) (timeVal : τ) (numberVal : Text) :
    ParseState π τ :=
  let fatherPid := st.fatherPid.getD pid
  if pid = fatherPid then { st with fatherPid := some fatherPid }
  else
    let firstTime := st.firstTime.getD timeVal
    let normalizedTime := timeVal - firstTime
    { firstTime := some firstTime
      fatherPid := some fatherPid
      events := st.events ++ [(pid,normalizedTime)]
      pidInfo := if pid ∈ st.pidInfo.map Prod.fst then st.pidInfo
        else st.pidInfo ++ [(pid,numberVal)] }

/-- One turn of the parsing loop; it stops where `float` raises an error. -/
def parseLine (float : Text → Option τ) (st : ParseState Text τ) (line : Text) :
    Option (ParseState Text τ) :=
  let line := strip line
  if line = [] ∨ ',' ∉ line then some st
  else
    match line.splitOn ',' with
    | [pid,timeStr,_,numberStr] => do
      let timeVal ← float (strip timeStr)
      some (keepEvent st (strip pid) timeVal (strip numberStr))
    | _ => some st

/-- The parsing loop over a file, whose first line has to be there and is skipped. -/
def parseLog (float : Text → Option τ) : List Text → Option (ParseState Text τ)
  | [] => none
  | _ :: lines => lines.foldlM (parseLine float) .start

end Parsing

section Charts
variable {π τ : Type} [DecidableEq π] [AddCommGroup τ] [One τ] [LinearOrder τ]

/-- `events.sort` by time, which is stable. -/
def sortEvents (events : List (π × τ)) : List (π × τ) :=
  events.mergeSort fun x y => decide (x.2 ≤ y.2)

def ChartState.start : ChartState π τ := ⟨fun _ => [],fun _ => [],fun _ => [],fun _ => 0,fun _ => 0,[]⟩

/-- The second loop. A slice lasts until the next event, and the last one for one unit. -/
def chartLoop : List (π × τ) → ChartState π τ → ChartState π τ
  | [], st => st
  | (pid,currentTime) :: rest, st =>
    let nextTime := match rest with
      | [] => currentTime + 1
      | next :: _ => next.2
    let duration := nextTime - currentTime
    let waitingTime := currentTime - st.lastScheduledTime pid
    let cumulative := st.cumulativeWaitingTime pid + waitingTime
    chartLoop rest
      { pidTimes := Function.update st.pidTimes pid (st.pidTimes pid ++ [currentTime])
        pidWaitingTimes :=
          Function.update st.pidWaitingTimes pid (st.pidWaitingTimes pid ++ [waitingTime])
        pidCumulativeWaitingTimes := Function.update st.pidCumulativeWaitingTimes pid
          (st.pidCumulativeWaitingTimes pid ++ [cumulative])
        lastScheduledTime := Function.update st.lastScheduledTime pid currentTime
        cumulativeWaitingTime := Function.update st.cumulativeWaitingTime pid cumulative
        ganttData := st.ganttData ++ [(pid,currentTime,duration)] }

/-- The charts of a list of events. -/
def chart (events : List (π × τ)) : ChartState π τ := chartLoop (sortEvents events) .start

/-- The charts of a log whose lines were taken apart; the numbers only label them. -/
def analyse (numberVal : Text) (trace : List (π × τ)) : ChartState π τ :=
  chart (trace.foldl (fun st x => keepEvent st x.1 x.2 numberVal) .start).events

end Charts

end LotteryScheduler.Model
