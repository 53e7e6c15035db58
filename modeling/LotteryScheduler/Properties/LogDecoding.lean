import LotteryScheduler.Model.Monitor
import Mathlib.Algebra.Group.Int.Defs
import Mathlib.Data.List.Basic

namespace LotteryScheduler.Properties
open Model

/-- The records that should become events: the selections of tasks other than the
launcher, which is the task of the first record. -/
def wanted (trace : List LogRecord) : List LogRecord :=
  trace.filter fun x => x.op = .s ∧ some x.pid ≠ trace.head?.map (·.pid)

/-- One event for each of them, with the time since the first. -/
def wantedEvents (trace : List LogRecord) : List (Text × Int) :=
  let firstTime := ((wanted trace).head?.map fun x => (x.ns : Int)).getD 0
  (wanted trace).map fun x => (Nat.toDigits 10 x.pid,x.ns - firstTime)

/-- The parsing loop yields what the kernel has logged, whatever `float` answers. -/
def Decodes (float : Text → Option Int) (trace : List LogRecord) : Prop :=
  (parseLog float (storedLog trace)).map (·.events) = some (wantedEvents trace)

section Lines
variable {τ : Type} [Sub τ] {float : Text → Option τ} {st : ParseState Text τ} {line : Text}

theorem count_dropWhile (c : Char) (hc : isSpace c = false) (l : Text) :
    (l.dropWhile isSpace).count c = l.count c := by
  induction l with
  | nil => rfl
  | cons x l ih =>
    rw [List.dropWhile_cons]
    split
    next hx =>
      have hne : x ≠ c := fun he => by simp [he,hc] at hx
      rw [ih,List.count_cons_of_ne hne]
    next => rfl

/-- White space holds no comma. -/
theorem count_strip (l : Text) : (strip l).count ',' = l.count ',' := by
  have hc : isSpace ',' = false := by decide
  unfold strip List.rdropWhile
  rw [List.count_reverse,count_dropWhile _ hc,List.count_reverse,count_dropWhile _ hc]

theorem length_splitOn (c : Char) (l : Text) : (l.splitOn c).length = l.count c + 1 := by
  induction l with
  | nil => rfl
  | cons x l ih =>
    rw [List.splitOn_cons_eq_if_modifyHead]
    split
    next hx => rw [List.length_cons,ih,beq_iff_eq.mp hx,List.count_cons_self]
    next hx =>
      have hne : x ≠ c := fun he => hx (by simp [he])
      rw [List.length_modifyHead,ih,List.count_cons_of_ne hne]

/-- A line without exactly three commas is skipped. -/
theorem parseLine_skips (h : line.count ',' ≠ 3) : parseLine float st line = some st := by
  unfold parseLine
  dsimp only
  split
  · rfl
  split
  next heq =>
    have hlen := length_splitOn ',' (strip line)
    rw [heq,count_strip] at hlen
    simp only [List.length_cons,List.length_nil] at hlen
    omega
  next => rfl

theorem parseLines_skip (lines : List Text) (h : ∀ line ∈ lines, line.count ',' ≠ 3) :
    lines.foldlM (parseLine float) st = some st := by
  induction lines with
  | nil => rfl
  | cons line lines ih =>
    rw [List.foldlM_cons,parseLine_skips (h line (by simp))]
    exact ih fun l hl => h l (List.mem_cons_of_mem _ hl)

theorem digits_no_comma (n : Nat) : (Nat.toDigits 10 n).count ',' = 0 := by
  rw [List.count_eq_zero]
  intro hm
  exact absurd (Nat.isDigit_of_mem_toDigits (by decide) (by decide) hm) (by decide)

/-- The kernel writes three fields, so two commas. -/
theorem count_logEventText (x : LogRecord) : ((logEventText x).drop 2).count ',' = 2 := by
  have hop : [x.op.letter].count ',' = 0 := by cases x.op <;> decide
  have hline : (logEventText x).drop 2 = Nat.toDigits 10 x.pid ++
      (',' :: (Nat.toDigits 10 x.ns ++ (',' :: ([x.op.letter] ++ ['\n'])))) := by
    simp [logEventText,List.intercalate]
  rw [hline]
  simp only [List.count_append,List.count_cons_self,digits_no_comma,hop]
  decide

end Lines

section Decoding
variable {float : Text → Option Int} {trace : List LogRecord}

/-- Nothing of what the kernel writes becomes an event. -/
theorem parseLog_stored (float : Text → Option Int) (trace : List LogRecord) :
    parseLog float (storedLog trace) = some .start := by
  refine parseLines_skip _ fun line hl => ?_
  obtain ⟨x,_,rfl⟩ := List.mem_map.mp hl
  rw [count_logEventText]
  decide

/-- The log is decoded exactly when there is nothing to decode: every selection in it is
one of the launcher. -/
theorem decodes_iff (float : Text → Option Int) (trace : List LogRecord) :
    Decodes float trace ↔
      ∀ x ∈ trace, x.op = .s → some x.pid = trace.head?.map (·.pid) := by
  have hnone : Decodes float trace ↔ wanted trace = [] := by
    unfold Decodes wantedEvents
    rw [parseLog_stored]
    simp only [Option.map_some,ParseState.start,Option.some.injEq]
    rw [eq_comm,List.map_eq_nil_iff]
  rw [hnone,wanted,List.filter_eq_nil_iff]
  simp only [decide_eq_true_eq,not_and,not_not]

/-- A task is enqueued by its launcher and selected. -/
def shortTrace : List LogRecord := [⟨44,100,.e⟩,⟨45,150,.e⟩,⟨45,200,.s⟩]

/-- The selection is lost, whatever `float` does. -/
theorem selection_lost : wantedEvents shortTrace = [(['4','5'],0)] ∧
    ∀ float, (parseLog float (storedLog shortTrace)).map (·.events) = some [] ∧
      ¬Decodes float shortTrace := by
  have hwanted : wantedEvents shortTrace = [(['4','5'],0)] := by decide
  refine ⟨hwanted,fun float => ?_⟩
  have hread : (parseLog float (storedLog shortTrace)).map (·.events) = some [] := by
    rw [parseLog_stored]
    rfl
  refine ⟨hread,fun h => ?_⟩
  rw [Decodes,hread,hwanted] at h
  cases h

end Decoding

end LotteryScheduler.Properties
