import LotteryScheduler.Proofs.Charts
import Mathlib.Algebra.Order.Ring.Int

namespace LotteryScheduler.Properties
open Lib Model Proofs

section Waiting
variable {π τ : Type} [DecidableEq π]

/-- The durations of the slices of `p`, in the order of the chart. -/
def ownDurations (p : π) (gantt : List (π × τ × τ)) : List τ :=
  (gantt.filter fun s => s.1 = p).map fun s => s.2.2

section Durations
variable [AddCommGroup τ] {unit : τ}

theorem ownDurations_cons (p : π) (x : π × τ) (l : List (π × τ)) :
    ownDurations p (slices unit (x :: l)) =
      if x.1 = p then (nextMark unit x l - x.2) :: ownDurations p (slices unit l)
      else ownDurations p (slices unit l) := by
  by_cases hp : x.1 = p <;> simp [ownDurations,slices,hp]

theorem length_ownDurations (p : π) (l : List (π × τ)) :
    (ownDurations p (slices unit l)).length = (ownTimes p l).length := by
  induction l with
  | nil => rfl
  | cons x l ih =>
    rw [ownDurations_cons,ownTimes_cons]
    split <;> simp [ih]

/-- Only the last slice of `p` may last. -/
theorem ownDurations_zero (p : π) (events : List (π × τ)) :
    (∀ a ∈ (ownDurations p (slices unit events)).dropLast, a = 0) ↔
      ∀ l₁ x l₂, events = l₁ ++ x :: l₂ → x.1 = p → p ∈ l₂.map Prod.fst →
        nextMark unit x l₂ = x.2 := by
  induction events with
  | nil => simp [ownDurations,slices]
  | cons x l ih =>
    rw [forall_split_cons,← ih,ownDurations_cons]
    have hlast : ownDurations p (slices unit l) = [] ↔ p ∉ l.map Prod.fst := by
      rw [← ownTimes_nil,← List.length_eq_zero_iff,length_ownDurations,List.length_eq_zero_iff]
    by_cases hp : x.1 = p
    · rw [if_pos hp]
      by_cases hl : ownDurations p (slices unit l) = []
      · simp [hl,hlast.mp hl]
      · have hmem : p ∈ l.map Prod.fst := not_not.mp fun h => hl (hlast.mpr h)
        rw [List.dropLast_cons_of_ne_nil hl,List.forall_mem_cons,sub_eq_zero]
        simp only [hp,hmem,true_imp_iff]
    · simp [hp]

end Durations

variable [AddCommGroup τ] [One τ] [LinearOrder τ] {events : List (π × τ)}

/-- The k-th waiting time that is plotted for a process is the time of its k-th selection
less the time it has run until then. -/
def ExcludesRunning (events : List (π × τ)) : Prop :=
  ∀ p k, ((chart events).pidCumulativeWaitingTimes p)[k]? =
    (ownTimes p events)[k]?.map fun t =>
      t - ((ownDurations p (chart events).ganttData).take k).sum

/-- Running is left out exactly when there is none to leave out: every selection of a
process that is selected again is followed by one at the same time. -/
theorem excludes_running_iff (hs : events.Pairwise fun x y => x.2 ≤ y.2) :
    ExcludesRunning events ↔ ∀ l₁ x l₂, events = l₁ ++ x :: l₂ → x.1 ∈ l₂.map Prod.fst →
      l₂.head?.map Prod.snd = some x.2 := by
  have hzero : ExcludesRunning events ↔
      ∀ p, ∀ a ∈ (ownDurations p (slices 1 events)).dropLast, a = 0 := by
    refine forall_congr' fun p => ?_
    rw [← prefix_sums_zero,chart_cumulative hs p,chart_gantt hs,length_ownDurations]
    refine forall_congr' fun k => ?_
    by_cases hk : k < (ownTimes p events).length
    · rw [List.getElem?_eq_getElem hk,Option.map_some,Option.some.injEq,eq_comm,sub_eq_self]
      exact ⟨fun h _ => h,fun h => h hk⟩
    · simp [hk]
  have hhead : ∀ x : π × τ, ∀ l₂, x.1 ∈ l₂.map Prod.fst →
      (nextMark 1 x l₂ = x.2 ↔ l₂.head?.map Prod.snd = some x.2) := by
    intro x l₂ hm
    cases l₂ with
    | nil => cases hm
    | cons y l₂ => simp [nextMark]
  rw [hzero]
  constructor
  · intro h l₁ x l₂ hl hm
    exact (hhead x l₂ hm).mp ((ownDurations_zero x.1 events).mp (h x.1) l₁ x l₂ hl rfl hm)
  · intro h p
    refine (ownDurations_zero p events).mpr fun l₁ x l₂ hl hp hm => ?_
    subst hp
    exact (hhead x l₂ hm).mpr (h l₁ x l₂ hl hm)

/-- Three processes of one turn each. -/
theorem excludes_running_iff_turns : ExcludesRunning [((1 : Nat),(0 : Int)),(2,5),(3,7)] := by
  refine (excludes_running_iff (by simp)).mpr ?_
  simp only [forall_split_cons]
  simp

/-- Process 1 runs for 5 ns or for 2 ns before it is selected again: the plotted times are
the same. -/
theorem running_is_waiting :
    (chart [((1 : Nat),(0 : Int)),(2,5),(1,7)]).pidCumulativeWaitingTimes 1 = [0,7] ∧
      (chart [((1 : Nat),(0 : Int)),(2,2),(1,7)]).pidCumulativeWaitingTimes 1 = [0,7] ∧
      (chart [((1 : Nat),(0 : Int)),(2,5),(1,7)]).ganttData = [(1,0,5),(2,5,2),(1,7,1)] ∧
      (chart [((1 : Nat),(0 : Int)),(2,2),(1,7)]).ganttData = [(1,0,2),(2,2,5),(1,7,1)] ∧
      ¬ExcludesRunning [((1 : Nat),(0 : Int)),(2,5),(1,7)] := by
  have hfive : chart [((1 : Nat),(0 : Int)),(2,5),(1,7)] = chartLoop _ .start :=
    chart_sorted (by simp)
  have htwo : chart [((1 : Nat),(0 : Int)),(2,2),(1,7)] = chartLoop _ .start :=
    chart_sorted (by simp)
  rw [htwo,ExcludesRunning,hfive]
  refine ⟨rfl,rfl,rfl,rfl,fun h => ?_⟩
  have hk := h 1 1
  revert hk
  decide

end Waiting

section Gantt
variable {π τ : Type} [DecidableEq π] [AddCommGroup τ] [One τ] [LinearOrder τ]

/-- The process of the first record launches the others. -/
def launcher (trace : List (π × τ)) : Option π := trace.head?.map Prod.fst

/-- The selections of other processes, which the chart is made of. -/
def kept (father : Option π) (l : List (π × τ)) : List (π × τ) :=
  l.filter fun x => some x.1 ≠ father

/-- The chart starts at the first of them. -/
def firstTime (trace : List (π × τ)) : τ := origin (kept (launcher trace) trace)

def Within (trace : List (π × τ)) (t : τ) : Prop :=
  ∃ a ∈ trace.head?, ∃ b ∈ trace.getLast?, a.2 ≤ t ∧ t ≤ b.2

/-- The process selected most recently at `t`. -/
def selectedAt (trace : List (π × τ)) (t : τ) : Option π := (lastMark trace t).map Prod.fst

/-- The segments that cover an instant of the trace. -/
def segmentsAt (gantt : List (π × τ × τ)) (trace : List (π × τ)) (t : τ) :
    List (π × τ × τ) :=
  gantt.filter fun s => Covers (t - firstTime trace) s

/-- A chart that shows at every instant who was selected, the launcher excepted. -/
structure Faithful (gantt : List (π × τ × τ)) (trace : List (π × τ)) : Prop where
  single : ∀ t, Within trace t → (segmentsAt gantt trace t).length ≤ 1
  selected : ∀ t, Within trace t → ∀ s ∈ segmentsAt gantt trace t,
    selectedAt trace t = some s.1
  idle : ∀ t, Within trace t → selectedAt trace t = launcher trace →
    segmentsAt gantt trace t = []
  covered : ∀ t, Within trace t → selectedAt trace t ≠ launcher trace →
    segmentsAt gantt trace t ≠ []

/-- Each time the launcher comes back, the slice of the process before it has just ended. -/
def ReturnsOnTime (trace : List (π × τ)) : Prop :=
  ∀ l₁ x l₂, trace = l₁ ++ x :: l₂ → some x.1 ≠ launcher trace →
    ∀ f ∈ l₂.head?, some f.1 = launcher trace → f.2 = nextMark 1 x (kept (launcher trace) l₂)

end Gantt

section Kept
variable {π τ : Type} [DecidableEq π] {father : Option π} {l : List (π × τ)}

theorem kept_append (father : Option π) (l₁ l₂ : List (π × τ)) :
    kept father (l₁ ++ l₂) = kept father l₁ ++ kept father l₂ := List.filter_append ..

theorem kept_nil : kept father l = [] ↔ ∀ y ∈ l, some y.1 = father := by
  simp [kept,List.filter_eq_nil_iff]

theorem mem_kept {y : π × τ} : y ∈ kept father l ↔ y ∈ l ∧ some y.1 ≠ father := by
  simp [kept]

theorem kept_cons_of_ne {x : π × τ} (hx : some x.1 ≠ father) (l : List (π × τ)) :
    kept father (x :: l) = x :: kept father l := by
  simp [kept,hx]

theorem kept_cons_of_eq {x : π × τ} (hx : some x.1 = father) (l : List (π × τ)) :
    kept father (x :: l) = kept father l := by
  simp [kept,hx]

/-- The last kept selection, if there is one. -/
theorem exists_last_kept (h : kept father l ≠ []) :
    ∃ l₁ x m, l = l₁ ++ x :: m ∧ some x.1 ≠ father ∧ kept father m = [] := by
  induction l with
  | nil => exact absurd rfl h
  | cons y l ih =>
    by_cases hl : kept father l = []
    · refine ⟨[],y,l,rfl,fun hy => h ?_,hl⟩
      exact kept_nil.mpr (List.forall_mem_cons.mpr ⟨hy,kept_nil.mp hl⟩)
    · obtain ⟨l₁,x,m,rfl,hx,hm⟩ := ih hl
      exact ⟨y :: l₁,x,m,rfl,hx,hm⟩

theorem last_of_kept_nil {m : List (π × τ)} (hne : m ≠ []) (hm : kept father m = []) :
    (l ++ m).getLast?.map Prod.fst = father := by
  rw [List.getLast?_append_of_ne_nil l hne,List.getLast?_eq_some_getLast hne]
  exact kept_nil.mp hm _ (List.getLast_mem hne)

end Kept

section Instants
variable {π τ : Type} [LinearOrder τ] {trace : List (π × τ)} {t : τ}

theorem selectedAt_cut {l₁ l₂ : List (π × τ)} (ht : trace = l₁ ++ l₂)
    (hle : ∀ y ∈ l₁, y.2 ≤ t) (hlt : ∀ y ∈ l₂, t < y.2) :
    selectedAt trace t = l₁.getLast?.map Prod.fst := by
  rw [selectedAt,ht,lastMark_cut hle hlt]

theorem within_between {y z : π × τ} (hs : trace.Pairwise fun x y => x.2 ≤ y.2)
    (hy : y ∈ trace) (hz : z ∈ trace) (hyt : y.2 ≤ t) (htz : t ≤ z.2) : Within trace t := by
  have hfirst : ∃ a ∈ trace.head?, a.2 ≤ y.2 := by
    cases trace with
    | nil => cases hy
    | cons a l =>
      refine ⟨a,rfl,?_⟩
      rcases List.mem_cons.mp hy with rfl | hy
      · exact le_rfl
      · exact (List.pairwise_cons.mp hs).1 y hy
  have hlast : ∃ b ∈ trace.getLast?, z.2 ≤ b.2 := by
    rcases List.eq_nil_or_concat' trace with rfl | ⟨l,b,rfl⟩
    · cases hz
    · refine ⟨b,by simp,?_⟩
      rcases List.mem_append.mp hz with hz | hz
      · exact (List.pairwise_append.mp hs).2.2 z hz b (by simp)
      · rw [List.mem_singleton.mp hz]
  obtain ⟨a,ha,hay⟩ := hfirst
  obtain ⟨b,hb,hzb⟩ := hlast
  exact ⟨a,ha,b,hb,hay.trans hyt,htz.trans hzb⟩

end Instants

section Cuts
variable {π τ : Type} [DecidableEq π] [AddCommGroup τ] [One τ] [LinearOrder τ]
variable {trace l₁ l₂ m : List (π × τ)} {x : π × τ} {t : τ}

/-- Once the launcher has been selected after a process, its slice is over. -/
theorem idle_end {f : π × τ} (hb : ReturnsOnTime trace) (ht : trace = l₁ ++ x :: (f :: m) ++ l₂)
    (hf : f.2 ≤ t) (hx : some x.1 ≠ launcher trace) (hm : kept (launcher trace) (f :: m) = []) :
    nextMark 1 x (kept (launcher trace) l₂) ≤ t := by
  have hfather : some f.1 = launcher trace := kept_nil.mp hm f (by simp)
  have hnext : kept (launcher trace) (f :: m ++ l₂) = kept (launcher trace) l₂ := by
    rw [kept_append,hm,List.nil_append]
  rw [← hnext,← hb l₁ x (f :: m ++ l₂) (by rw [ht]; simp) hx f rfl hfather]
  exact hf

variable [IsOrderedAddMonoid τ]

/-- The slice of the process selected last lasts until something else is selected. -/
theorem running_end (h1 : (0 : τ) < 1) (hb : ReturnsOnTime trace) (ht : trace = l₁ ++ x :: l₂)
    (hlt : ∀ y ∈ l₂, t < y.2) (hx : some x.1 ≠ launcher trace) (hw : Within trace t) :
    t < nextMark 1 x (kept (launcher trace) l₂) := by
  cases l₂ with
  | nil =>
    obtain ⟨_,_,b,hlast,_,htb⟩ := hw
    have hbx : b = x := by simpa [ht,eq_comm] using hlast
    rw [hbx] at htb
    exact htb.trans_lt (lt_add_of_pos_right x.2 h1)
  | cons f l₂ =>
    have hf := hlt f (by simp)
    by_cases hfather : some f.1 = launcher trace
    · rw [← hb l₁ x (f :: l₂) ht hx f rfl hfather]
      exact hf
    · rw [kept_cons_of_ne hfather]
      exact hf

variable (number : Text) (hs : trace.Pairwise fun x y => x.2 ≤ y.2)
include hs

/-- What covers an instant, in terms of the trace's own time. -/
theorem segmentsAt_eq (t : τ) : segmentsAt (analyse number trace).ganttData trace t =
    ((slices 1 (kept (launcher trace) trace)).filter fun s => Covers t s).map fun s =>
      (s.1,s.2.1 - firstTime trace,s.2.2) := by
  cases trace with
  | nil =>
    simp [segmentsAt,analyse,chart,sortEvents,chartLoop,ChartState.start,ParseState.start,kept,
      slices]
  | cons y l =>
    have hkept : l.filter (fun x => x.1 ≠ y.1) = kept (launcher (y :: l)) (y :: l) := by
      simp [kept,launcher]
    rw [segmentsAt,analyse_gantt number hs,hkept,List.filter_map]
    congr 2
    funext s
    exact decide_eq_decide.mpr covers_shift

/-- Nothing is drawn before another process than the launcher has been selected. -/
theorem segmentsAt_launching (ht : trace = l₁ ++ l₂) (hlt : ∀ y ∈ l₂, t < y.2)
    (hk : kept (launcher trace) l₁ = []) :
    segmentsAt (analyse number trace).ganttData trace t = [] := by
  have hcut : kept (launcher trace) trace = kept (launcher trace) l₂ := by
    conv_lhs => rw [ht]
    rw [kept_append,← ht,hk,List.nil_append]
  rw [segmentsAt_eq number hs,hcut,slices_later fun y hy => hlt y (mem_kept.mp hy).1]
  rfl

/-- Later the one selected last is drawn until the next one. -/
theorem segmentsAt_running (ht : trace = l₁ ++ x :: m ++ l₂)
    (hle : ∀ y ∈ l₁ ++ x :: m, y.2 ≤ t) (hlt : ∀ y ∈ l₂, t < y.2)
    (hx : some x.1 ≠ launcher trace) (hm : kept (launcher trace) m = []) :
    segmentsAt (analyse number trace).ganttData trace t =
      if t < nextMark 1 x (kept (launcher trace) l₂) then
        [(x.1,x.2 - firstTime trace,nextMark 1 x (kept (launcher trace) l₂) - x.2)] else [] := by
  have hcut : kept (launcher trace) trace =
      kept (launcher trace) l₁ ++ x :: kept (launcher trace) l₂ := by
    conv_lhs => rw [ht]
    rw [kept_append,kept_append,← ht,kept_cons_of_ne hx,hm,List.append_assoc]
    rfl
  rw [segmentsAt_eq number hs,hcut,slices_cut]
  · split <;> rfl
  · exact fun y hy => hle y (List.mem_append_left _ (mem_kept.mp hy).1)
  · exact hle x (by simp)
  · exact fun y hy => hlt y (mem_kept.mp hy).1

/-- When it returns on time, an instant shows the launcher by no segment and any other
process by one. -/
theorem instant_shown (h1 : (0 : τ) < 1) (hb : ReturnsOnTime trace) (hw : Within trace t) :
    (selectedAt trace t = launcher trace ∧
      segmentsAt (analyse number trace).ganttData trace t = []) ∨
    (selectedAt trace t ≠ launcher trace ∧ ∃ s,
      segmentsAt (analyse number trace).ganttData trace t = [s] ∧
        selectedAt trace t = some s.1) := by
  obtain ⟨l₁,l₂,ht,hle,hlt⟩ := exists_cut hs t
  have hsel := selectedAt_cut ht hle hlt
  by_cases hk : kept (launcher trace) l₁ = []
  · left
    refine ⟨?_,segmentsAt_launching number hs ht hlt hk⟩
    have hne : l₁ ≠ [] := by
      rintro rfl
      obtain ⟨a,ha,_,_,hat,_⟩ := hw
      rw [ht] at ha
      exact absurd (hlt a (List.mem_of_mem_head? ha)) (not_lt.mpr hat)
    rw [hsel]
    exact last_of_kept_nil (l := []) hne hk
  · obtain ⟨m₁,x,m,rfl,hx,hm⟩ := exists_last_kept hk
    have hseg := segmentsAt_running number hs ht hle hlt hx hm
    cases m with
    | nil =>
      right
      have hown : selectedAt trace t = some x.1 := by simp [hsel]
      have hsplit : trace = m₁ ++ x :: l₂ := by simp [ht]
      rw [if_pos (running_end h1 hb hsplit hlt hx hw)] at hseg
      exact ⟨by rwa [hown],_,hseg,hown⟩
    | cons f m =>
      left
      rw [if_neg (not_lt.mpr (idle_end hb ht (hle f (by simp)) hx hm))] at hseg
      refine ⟨?_,hseg⟩
      rw [hsel,List.append_cons]
      exact last_of_kept_nil (by simp) hm

/-- In a faithful chart no slice goes on while the launcher is selected. -/
theorem slice_not_longer {f : π × τ} (hf : Faithful (analyse number trace).ganttData trace)
    (ht : trace = l₁ ++ x :: f :: l₂) (hx : some x.1 ≠ launcher trace)
    (hfather : some f.1 = launcher trace) :
    nextMark 1 x (kept (launcher trace) l₂) ≤ f.2 := by
  have hparts := List.pairwise_append.mp (ht ▸ hs)
  obtain ⟨hxl,hfl⟩ := List.pairwise_cons.mp hparts.2.1
  have hsl := (List.pairwise_cons.mp hfl).2
  have hfm : f ∈ trace := by simp [ht]
  by_contra hlonger
  have hlt := not_le.mp hlonger
  obtain ⟨m,m₂,rfl,hm,hm₂⟩ := exists_cut hsl f.2
  have hnone : kept (launcher trace) m = [] := by
    refine List.eq_nil_iff_forall_not_mem.mpr fun y hy => ?_
    have hle := hm y (mem_kept.mp hy).1
    have hnext : nextMark 1 x (kept (launcher trace) (m ++ m₂)) ≤ y.2 := by
      refine nextMark_le (hsl.filter _) ?_
      rw [kept_append]
      exact List.mem_append_left _ hy
    exact absurd (hlt.trans_le hnext) (not_lt.mpr hle)
  have hcut : trace = l₁ ++ x :: (f :: m) ++ m₂ := by simp [ht]
  have hle : ∀ y ∈ l₁ ++ x :: (f :: m), y.2 ≤ f.2 := by
    intro y hy
    simp only [List.mem_append,List.mem_cons] at hy
    rcases hy with hy | rfl | rfl | hy
    · exact hparts.2.2 y hy f (by simp)
    · exact hxl f (by simp)
    · exact le_rfl
    · exact hm y hy
  have hidle : kept (launcher trace) (f :: m) = [] :=
    kept_nil.mpr (List.forall_mem_cons.mpr ⟨hfather,kept_nil.mp hnone⟩)
  have hseg := segmentsAt_running number hs hcut hle hm₂ hx hidle
  rw [kept_append,hnone,List.nil_append] at hlt
  rw [if_pos hlt,hf.idle f.2 (within_between hs hfm hfm le_rfl le_rfl)] at hseg
  · cases hseg
  · rw [selectedAt_cut hcut hle hm₂,List.append_cons]
    exact last_of_kept_nil (by simp) hidle

/-- Nor does it end before. -/
theorem slice_not_shorter {f : π × τ} (h1 : (0 : τ) < 1)
    (hf : Faithful (analyse number trace).ganttData trace)
    (ht : trace = l₁ ++ x :: f :: l₂) (hx : some x.1 ≠ launcher trace)
    (hfather : some f.1 = launcher trace) :
    f.2 ≤ nextMark 1 x (kept (launcher trace) l₂) := by
  have hparts := List.pairwise_append.mp (ht ▸ hs)
  obtain ⟨hxl,hfl⟩ := List.pairwise_cons.mp hparts.2.1
  have hxm : x ∈ trace := by simp [ht]
  have hfm : f ∈ trace := by simp [ht]
  by_contra hshorter
  have hgt := not_le.mp hshorter
  have hstart : x.2 ≤ nextMark 1 x (kept (launcher trace) l₂) :=
    le_nextMark h1.le fun y hy => hxl y (List.mem_cons_of_mem _ (mem_kept.mp hy).1)
  have hcut : trace = l₁ ++ x :: [] ++ f :: l₂ := by simp [ht]
  have hle : ∀ y ∈ l₁ ++ x :: [], y.2 ≤ nextMark 1 x (kept (launcher trace) l₂) := by
    intro y hy
    simp only [List.mem_append,List.mem_singleton] at hy
    rcases hy with hy | rfl
    · exact (hparts.2.2 y hy x (by simp)).trans hstart
    · exact hstart
  have hlater : ∀ y ∈ f :: l₂, nextMark 1 x (kept (launcher trace) l₂) < y.2 := by
    refine List.forall_mem_cons.mpr ⟨hgt,fun y hy => hgt.trans_le ?_⟩
    exact (List.pairwise_cons.mp hfl).1 y hy
  have hseg := segmentsAt_running number hs hcut hle hlater hx rfl
  rw [kept_cons_of_eq hfather,if_neg (lt_irrefl _)] at hseg
  refine absurd hseg (hf.covered _ (within_between hs hxm hfm hstart hgt.le) ?_)
  rw [selectedAt_cut hcut hle hlater]
  simpa using hx

/-- A faithful chart leaves no other choice. -/
theorem faithful_returns (h1 : (0 : τ) < 1)
    (hf : Faithful (analyse number trace).ganttData trace) : ReturnsOnTime trace := by
  intro l₁ x rest ht hx f hhead hfather
  obtain ⟨l₂,rfl⟩ := List.head?_eq_some_iff.mp hhead
  rw [kept_cons_of_eq hfather]
  exact le_antisymm (slice_not_shorter number hs h1 hf ht hx hfather)
    (slice_not_longer number hs hf ht hx hfather)

end Cuts

/-- The chart is faithful exactly when every return to the launcher falls on the end of
the slice before it: on the next selection of another process, or one unit after the last. -/
theorem chart_faithful_iff {π τ : Type} [DecidableEq π] [AddCommGroup τ] [One τ] [LinearOrder τ]
    [IsOrderedAddMonoid τ] {trace : List (π × τ)} (number : Text) (h1 : (0 : τ) < 1)
    (hs : trace.Pairwise fun x y => x.2 ≤ y.2) :
    Faithful (analyse number trace).ganttData trace ↔ ReturnsOnTime trace := by
  constructor
  · exact faithful_returns number hs h1
  · intro hb
    have hshows := fun t hw => instant_shown (t := t) number hs h1 hb hw
    constructor
    · intro t hw
      rcases hshows t hw with ⟨_,hseg⟩ | ⟨_,s,hseg,_⟩ <;> simp [hseg]
    · intro t hw s hm
      rcases hshows t hw with ⟨_,hseg⟩ | ⟨_,s',hseg,hsel⟩
      · rw [hseg] at hm
        cases hm
      · rw [hseg] at hm
        rw [List.mem_singleton.mp hm,hsel]
    · intro t hw hidle
      rcases hshows t hw with ⟨_,hseg⟩ | ⟨hsel,_⟩
      · exact hseg
      · exact absurd hidle hsel
    · intro t hw hbusy
      rcases hshows t hw with ⟨hsel,_⟩ | ⟨_,s,hseg,_⟩
      · exact absurd hsel hbusy
      · simp [hseg]

/-- The launcher is selected once more, one unit after the last of the others. -/
def tidyTrace : List (Nat × Int) := [(0,0),(1,10),(2,15),(0,16)]

theorem chart_faithful_iff_tidy : Faithful (analyse [] tidyTrace).ganttData tidyTrace := by
  refine (chart_faithful_iff [] (by simp) (by simp [tidyTrace])).mpr ?_
  simp only [ReturnsOnTime,tidyTrace,forall_split_cons]
  simp [launcher,kept,nextMark]

/-- The launcher runs between two other processes. -/
def mixedTrace : List (Nat × Int) := [(0,0),(1,10),(0,20),(2,30)]

/-- The slice of process 1 goes on while the launcher has the CPU. -/
theorem launcher_drawn_over :
    Within mixedTrace 20 ∧ selectedAt mixedTrace 20 = launcher mixedTrace ∧
      (analyse [] mixedTrace).ganttData = [(1,0,20),(2,20,1)] ∧
      segmentsAt (analyse [] mixedTrace).ganttData mixedTrace 20 = [(1,0,20)] ∧
      ¬Faithful (analyse [] mixedTrace).ganttData mixedTrace := by
  have hw : Within mixedTrace 20 := ⟨(0,0),rfl,(2,30),rfl,by decide,by decide⟩
  have hsel : selectedAt mixedTrace 20 = launcher mixedTrace := by decide
  have hgantt : (analyse [] mixedTrace).ganttData = [(1,0,20),(2,20,1)] := by
    rw [mixedTrace,analyse_gantt [] (by simp)]
    decide
  have hseg : segmentsAt (analyse [] mixedTrace).ganttData mixedTrace 20 = [(1,0,20)] := by
    rw [hgantt]
    decide
  refine ⟨hw,hsel,hgantt,hseg,fun h => ?_⟩
  rw [h.idle 20 hw hsel] at hseg
  cases hseg

end LotteryScheduler.Properties
