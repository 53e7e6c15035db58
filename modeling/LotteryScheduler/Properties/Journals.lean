import LotteryScheduler.Proofs.Journals
import LotteryScheduler.Properties.Accounting

namespace LotteryScheduler.Properties
open Lib Model Proofs

/-- The lottery tasks that a schedule of operations puts on the CPU, one after another. -/
def switches (b : Build) : List (Env × Op) → Kernel → List Tid
  | [], _ => []
  | (e,op) :: ops, s =>
    match exec b e op s with
    | .error _ => []
    | .ok t => switched op t ++ switches b ops t

section Journals
variable {b : Build} {s t : Kernel} {r : Ready} {p : Tid} {ops : List (Env × Op)}

/-- What the log tells of one operation, it tells of a whole schedule. -/
theorem runOps_tells (h : Inv b s r) (hr : runOps b ops s = .ok t) :
    ∃ r', Inv b t r' ∧ Tells s (r .lottery) (switches b ops s) t (r' .lottery) := by
  induction ops generalizing s r with
  | nil =>
    cases hr
    exact ⟨r,h,(Still.refl _).tells _⟩
  | cons eop ops ih =>
    obtain ⟨e,op⟩ := eop
    simp only [runOps] at hr
    split at hr
    next he =>
      obtain ⟨u,hu,hr⟩ := bind_eq_ok.mp hr
      obtain ⟨r₁,h₁,hfirst⟩ := h.told he hu
      obtain ⟨r',h',hrest⟩ := ih h₁ hr
      refine ⟨r',h',?_⟩
      simp only [switches,hu]
      exact hfirst.trans hrest
    next => cases hr

/-- In every reachable state the lottery queue, order included, is what the log says when it
is read from the start: every line of it is true when it is printed. -/
theorem log_replays (h : Reachable b s) :
    ∃ q, Accounted s q ∧ replay [] (s.log.map entry) = some q := by
  suffices ∃ r, Inv b s r ∧ replay [] (s.log.map entry) = some (r .lottery) by
    obtain ⟨r,hr,hlog⟩ := this
    exact ⟨_,books_accounted hr.toBooks,hlog⟩
  induction h with
  | init => exact ⟨_,schedInit_inv b,rfl⟩
  | step _ last ih =>
    obtain ⟨r,hr,hlog⟩ := ih
    obtain ⟨e,op,he,hrun⟩ := last
    obtain ⟨r',hr',htold⟩ := hr.told he hrun
    obtain ⟨l,hl,hplay,-⟩ := htold.log
    refine ⟨r',hr',?_⟩
    rw [hl,List.map_append]
    exact replay_trans hlog hplay

theorem log_replays_running :
    ∃ q, Accounted lotteryRuns q ∧ replay [] (lotteryRuns.log.map entry) = some q :=
  log_replays lotteryRuns_reachable

/-- A lottery task that stays in its queue through a run is overtaken by nobody: those
ahead of it at the end were ahead of it at the start, in the same order. -/
theorem keeps_place (h : Reachable b s) (hr : runOps b ops s = .ok t)
    (hp : waiting s .lottery p)
    (hstay : ∀ x ∈ t.log.drop s.log.length, x.op = .d → x.pid ≠ p) :
    ∃ q q', Accounted s q ∧ Accounted t q' ∧ p ∈ q' ∧ (ahead p q').Sublist (ahead p q) := by
  obtain ⟨⟨r,hs⟩,-⟩ := reachable_inv h
  obtain ⟨r',ht,htold⟩ := runOps_tells hs hr
  obtain ⟨l,hl,hplay,-⟩ := htold.log
  rw [hl,List.drop_left] at hstay
  have hnone : .leave p ∉ l.map entry := by
    intro hm
    obtain ⟨x,hx,he⟩ := List.mem_map.mp hm
    have hop : x.op = .d ∧ x.pid = p := by
      cases hx : x.op <;> simp_all [entry]
    exact hstay x hx hop.1 hop.2
  obtain ⟨hmem,hahead⟩ := replay_ahead hplay ((hs.ready _ p).mpr hp) hnone
  exact ⟨_,_,books_accounted hs.toBooks,books_accounted ht.toBooks,hmem,hahead⟩

/-- The lines that say a task was selected are exactly the switches to lottery tasks. -/
theorem selects_are_switches (h : Reachable b s) (hr : runOps b ops s = .ok t) :
    selects t.log = selects s.log ++ switches b ops s := by
  obtain ⟨⟨r,hs⟩,-⟩ := reachable_inv h
  obtain ⟨r',-,htold⟩ := runOps_tells hs hr
  obtain ⟨l,hl,-,hsel⟩ := htold.log
  rw [hl,← hsel]
  simp [selects]

/-- A second lottery task arrives, and the one that runs is switched for one of the two. -/
def secondArrives : List (Env × Op) := spawn 2 ++ [toLottery 2,(.quiet,.schedule true)]

theorem secondArrives_runs : runOps .versatile secondArrives lotteryRuns =
    .ok (after .versatile (lotteryRunsOps ++ secondArrives)) :=
  runOps_rest _ _ (by decide +kernel) (by decide +kernel)

theorem keeps_place_first : ∃ q q', Accounted lotteryRuns q ∧
    Accounted (after .versatile (lotteryRunsOps ++ secondArrives)) q' ∧ 1 ∈ q' ∧
    (ahead 1 q').Sublist (ahead 1 q) :=
  keeps_place lotteryRuns_reachable secondArrives_runs
    ⟨by decide +kernel,by decide +kernel,by decide +kernel⟩ (by decide +kernel)

theorem selects_are_switches_first :
    selects (after .versatile (lotteryRunsOps ++ secondArrives)).log =
      selects lotteryRuns.log ++ switches .versatile secondArrives lotteryRuns :=
  selects_are_switches lotteryRuns_reachable secondArrives_runs

end Journals

end LotteryScheduler.Properties
