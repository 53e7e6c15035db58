import LotteryScheduler.Lib.Timeline
import LotteryScheduler.Model.Monitor

namespace LotteryScheduler.Proofs
open Lib Model

section Loop
variable {π τ : Type} [DecidableEq π]

/-- The times at which `p` was selected. -/
def ownTimes (p : π) (events : List (π × τ)) : List τ :=
  (events.filter fun x => x.1 = p).map Prod.snd

theorem ownTimes_cons (p : π) (x : π × τ) (rest : List (π × τ)) :
    ownTimes p (x :: rest) = if x.1 = p then x.2 :: ownTimes p rest else ownTimes p rest := by
  by_cases hp : x.1 = p <;> simp [ownTimes,hp]

theorem ownTimes_nil (p : π) (l : List (π × τ)) : ownTimes p l = [] ↔ p ∉ l.map Prod.fst := by
  induction l with
  | nil => simp [ownTimes]
  | cons x l ih =>
    rw [ownTimes_cons,List.map_cons,List.mem_cons,not_or,← ih]
    by_cases hp : x.1 = p
    · simp [hp]
    · simp [hp,Ne.symm hp]

variable [AddCommGroup τ] [One τ]

theorem chartLoop_cons (x : π × τ) (rest : List (π × τ)) (st : ChartState π τ) :
    chartLoop (x :: rest) st =
      let waitingTime := x.2 - st.lastScheduledTime x.1
      let cumulative := st.cumulativeWaitingTime x.1 + waitingTime
      chartLoop rest
        { pidTimes := Function.update st.pidTimes x.1 (st.pidTimes x.1 ++ [x.2])
          pidWaitingTimes :=
            Function.update st.pidWaitingTimes x.1 (st.pidWaitingTimes x.1 ++ [waitingTime])
          pidCumulativeWaitingTimes := Function.update st.pidCumulativeWaitingTimes x.1
            (st.pidCumulativeWaitingTimes x.1 ++ [cumulative])
          lastScheduledTime := Function.update st.lastScheduledTime x.1 x.2
          cumulativeWaitingTime := Function.update st.cumulativeWaitingTime x.1 cumulative
          ganttData := st.ganttData ++ [(x.1,x.2,nextMark 1 x rest - x.2)] } := by
  cases rest <;> rfl

theorem chartLoop_gantt (events : List (π × τ)) (st : ChartState π τ) :
    (chartLoop events st).ganttData = st.ganttData ++ slices 1 events := by
  induction events generalizing st with
  | nil => exact (List.append_nil _).symm
  | cons x rest ih =>
    rw [chartLoop_cons,ih,slices,List.append_assoc,List.singleton_append]

/-- The accumulated waiting time is the time of the last selection. -/
def Elapsed (st : ChartState π τ) : Prop :=
  ∀ p, st.cumulativeWaitingTime p = st.lastScheduledTime p

/-- The waiting times telescope, whatever ran in between. -/
theorem chartLoop_cumulative (events : List (π × τ)) (st : ChartState π τ) (h : Elapsed st)
    (p : π) : (chartLoop events st).pidCumulativeWaitingTimes p =
      st.pidCumulativeWaitingTimes p ++ ownTimes p events := by
  induction events generalizing st with
  | nil => exact (List.append_nil _).symm
  | cons x rest ih =>
    have htotal : st.cumulativeWaitingTime x.1 + (x.2 - st.lastScheduledTime x.1) = x.2 := by
      rw [h x.1,add_sub_cancel]
    rw [chartLoop_cons,ih,ownTimes_cons]
    · by_cases hp : x.1 = p
      · subst hp
        simp [htotal]
      · simp [hp,Function.update_of_ne (Ne.symm hp)]
    · intro q
      by_cases hq : q = x.1
      · subst hq
        simp [htotal]
      · simp [Function.update_of_ne hq,h q]

end Loop

section Events
variable {π τ : Type} [DecidableEq π] [AddCommGroup τ]

/-- The time of the first event. -/
def origin (events : List (π × τ)) : τ := (events.head?.map Prod.snd).getD 0

/-- The loop keeps the events of all tasks but the launcher and moves the origin. -/
theorem foldl_keepEvent (number : Text) (launcher : π) (l : List (π × τ)) (st : ParseState π τ)
    (h : st.fatherPid = some launcher) :
    (l.foldl (fun st x => keepEvent st x.1 x.2 number) st).events =
      st.events ++ (l.filter fun x => x.1 ≠ launcher).map fun x =>
        (x.1,x.2 - st.firstTime.getD (origin (l.filter fun x => x.1 ≠ launcher))) := by
  induction l generalizing st with
  | nil => exact (List.append_nil _).symm
  | cons x l ih =>
    rw [List.foldl_cons]
    by_cases hx : x.1 = launcher
    · have hstep : keepEvent st x.1 x.2 number = st := by
        unfold keepEvent
        rw [h,Option.getD_some,if_pos hx,← h]
      rw [hstep,ih st h,List.filter_cons_of_neg (by simpa using hx)]
    · have hstep : keepEvent st x.1 x.2 number =
          { firstTime := some (st.firstTime.getD x.2)
            fatherPid := some launcher
            events := st.events ++ [(x.1,x.2 - st.firstTime.getD x.2)]
            pidInfo := if x.1 ∈ st.pidInfo.map Prod.fst then st.pidInfo
              else st.pidInfo ++ [(x.1,number)] } := by
        unfold keepEvent
        rw [h,Option.getD_some,if_neg hx]
      rw [hstep,ih _ rfl,List.filter_cons_of_pos (by simpa using hx),List.append_assoc]
      rfl

variable [One τ] [LinearOrder τ]

theorem chart_sorted {events : List (π × τ)} (hs : events.Pairwise fun x y => x.2 ≤ y.2) :
    chart events = chartLoop events .start := by
  have hle : events.Pairwise fun x y => decide (x.2 ≤ y.2) = true :=
    hs.imp fun h => decide_eq_true h
  rw [chart,sortEvents,List.mergeSort_of_pairwise hle]

theorem chart_gantt {events : List (π × τ)} (hs : events.Pairwise fun x y => x.2 ≤ y.2) :
    (chart events).ganttData = slices 1 events := by
  rw [chart_sorted hs,chartLoop_gantt]
  rfl

/-- What is plotted as waiting time is the time itself. -/
theorem chart_cumulative {events : List (π × τ)} (hs : events.Pairwise fun x y => x.2 ≤ y.2)
    (p : π) : (chart events).pidCumulativeWaitingTimes p = ownTimes p events := by
  rw [chart_sorted hs,chartLoop_cumulative events .start (fun _ => rfl)]
  rfl

/-- The chart is made of the kept events alone. -/
theorem analyse_gantt [IsOrderedAddMonoid τ] (number : Text) {launcher : π} {t : τ}
    {l : List (π × τ)} (hs : ((launcher,t) :: l).Pairwise fun x y => x.2 ≤ y.2) :
    (analyse number ((launcher,t) :: l)).ganttData =
      (slices 1 (l.filter fun x => x.1 ≠ launcher)).map fun s =>
        (s.1,s.2.1 - origin (l.filter fun x => x.1 ≠ launcher),s.2.2) := by
  have hfirst : keepEvent (ParseState.start : ParseState π τ) launcher t number =
      { ParseState.start with fatherPid := some launcher } := by
    unfold keepEvent
    exact if_pos rfl
  have hkept := (List.pairwise_cons.mp hs).2.filter fun x => decide (x.1 ≠ launcher)
  unfold analyse
  rw [List.foldl_cons,hfirst,foldl_keepEvent number launcher l _ rfl]
  simp only [ParseState.start,List.nil_append,Option.getD_none]
  rw [chart_gantt,slices_shift]
  exact List.pairwise_map.mpr (hkept.imp fun h => sub_le_sub_right h _)

end Events

end LotteryScheduler.Proofs
