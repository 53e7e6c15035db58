import LotteryScheduler.Model.System
import Mathlib.Algebra.BigOperators.Group.List.Basic
import Mathlib.Data.UInt

namespace LotteryScheduler.Proofs
open Lib Model

/-- What a runqueue is for: which tasks wait in each class, in queue order. -/
abbrev Ready := SchedClass → List Tid

namespace Ready

def add (r : Ready) (p : Tid) (c : SchedClass) : Ready := Function.update r c (r c ++ [p])

def remove (r : Ready) (p : Tid) (c : SchedClass) : Ready := Function.update r c ((r c).erase p)

/-- The tasks waiting in the classes that count them in `nr_running`. -/
def counted (r : Ready) : Nat :=
  (r .fair).length + (r .rt).length + (r .dl).length + (r .stop).length

/-- All waiting tasks, class by class. -/
def all (r : Ready) : List Tid := r .fair ++ r .rt ++ r .dl ++ r .stop ++ r .lottery

def count (r : Ready) : Nat := r.counted + (r .lottery).length

/-- The classes above idle, in the order of the walk. -/
def workClasses : List SchedClass := [.lottery,.stop,.dl,.rt,.fair]

/-- The class in which the walk over the classes finds its task. -/
def top (r : Ready) : SchedClass := (workClasses.find? (fun c => r c ≠ [])).getD .idle

/-- A queued task changes its class. -/
def move (r : Ready) (p : Tid) (queued : Bool) (c c' : SchedClass) : Ready :=
  if queued then (r.remove p c).add p c' else r

variable {r : Ready} {p x : Tid} {c d : SchedClass}

@[simp] theorem add_self : r.add p c c = r c ++ [p] := by simp [add]

@[simp] theorem remove_self : r.remove p c c = (r c).erase p := by simp [remove]

theorem add_of_ne (h : d ≠ c) : r.add p c d = r d := by simp [add,h]

theorem remove_of_ne (h : d ≠ c) : r.remove p c d = r d := by simp [remove,h]

theorem mem_add : x ∈ r.add p c d ↔ x ∈ r d ∨ (x = p ∧ d = c) := by
  rcases eq_or_ne d c with rfl | h
  · simp
  · simp [add_of_ne h,h]

theorem mem_remove (hu : (r c).Nodup) : x ∈ r.remove p c d ↔ x ∈ r d ∧ ¬(x = p ∧ d = c) := by
  rcases eq_or_ne d c with rfl | h
  · rw [remove_self,hu.mem_erase_iff]
    grind
  · simp [remove_of_ne h,h]

theorem nodup_add (hu : ∀ d, (r d).Nodup) (hp : p ∉ r c) (d : SchedClass) :
    (r.add p c d).Nodup := by
  rcases eq_or_ne d c with rfl | h
  · rw [add_self]
    refine List.nodup_append.mpr ⟨hu d,by simp,?_⟩
    intro x hx y hy he
    exact hp (List.mem_singleton.mp hy ▸ he ▸ hx)
  · rw [add_of_ne h]
    exact hu d

theorem nodup_remove (hu : ∀ d, (r d).Nodup) (d : SchedClass) : (r.remove p c d).Nodup := by
  rcases eq_or_ne d c with rfl | h
  · rw [remove_self]
    exact (hu d).erase p
  · rw [remove_of_ne h]
    exact hu d

theorem move_of_ne (h : d ≠ c) (queued : Bool) : r.move p queued c c d = r d := by
  unfold move
  split
  · rw [add_of_ne h,remove_of_ne h]
  · rfl

/-- A task that is put back in its own queue goes to the end of it. -/
theorem move_perm {queued : Bool} (hp : queued = true → p ∈ r c) :
    (r.move p queued c c c).Perm (r c) := by
  unfold move
  split
  next hq =>
    rw [add_self,remove_self]
    exact List.perm_append_comm.trans (List.perm_cons_erase (hp hq)).symm
  next => exact .refl _

theorem move_erase (hu : (r c).Nodup) (queued : Bool) :
    (r.move p queued c c c).erase p = (r c).erase p := by
  unfold move
  split
  next =>
    have hout : p ∉ (r c).erase p := fun hm => (hu.mem_erase_iff.mp hm).1 rfl
    rw [add_self,remove_self,List.erase_append_right _ hout]
    simp
  next => rfl

theorem length_all : r.all.length = r.count := by simp [all,count,counted,Nat.add_assoc]

theorem counted_add (h : c ≠ .lottery) (hi : c ≠ .idle) :
    (r.add p c).counted = r.counted + 1 := by
  cases c <;> simp_all [counted,add,Function.update] <;> omega

theorem counted_remove (h : c ≠ .lottery) (hi : c ≠ .idle) (hp : p ∈ r c) :
    (r.remove p c).counted + 1 = r.counted := by
  have hlen := List.length_pos_of_mem hp
  cases c <;> simp_all [counted,remove,Function.update,List.length_erase_of_mem] <;> omega

theorem counted_add_lottery : (r.add p .lottery).counted = r.counted := by
  simp [counted,add]

theorem counted_remove_lottery : (r.remove p .lottery).counted = r.counted := by
  simp [counted,remove]

theorem mem_workClasses (h : c ≠ .idle) : c ∈ workClasses := by
  cases c <;> simp_all [workClasses]

theorem workClasses_descend : workClasses.Pairwise (· > ·) := by decide

/-- The walk stops at the highest class with a waiting task. -/
theorem top_cases (hi : r .idle = []) : (r r.top ≠ [] ∧ ∀ d, d > r.top → r d = []) ∨
    (r.top = .idle ∧ ∀ d, r d = []) := by
  unfold top
  cases hf : workClasses.find? (fun c => r c ≠ []) with
  | none =>
    refine .inr ⟨rfl,fun d => ?_⟩
    rcases eq_or_ne d .idle with rfl | hd
    · exact hi
    · simpa using List.find?_eq_none.mp hf d (mem_workClasses hd)
  | some c =>
    obtain ⟨hc,as,bs,hs,has⟩ := List.find?_eq_some_iff_append.mp hf
    refine .inl ⟨by simpa using hc,fun d hd => ?_⟩
    rcases eq_or_ne d .idle with rfl | hne
    · exact hi
    have hmem := mem_workClasses hne
    have hdesc := workClasses_descend
    rw [hs] at hmem hdesc
    rcases List.mem_append.mp hmem with ha | hb
    · simpa using has d ha
    · have hlt := (List.pairwise_cons.mp (List.pairwise_append.mp hdesc).2.1).1
      rcases List.mem_cons.mp hb with rfl | hb
      · exact absurd hd (Nat.lt_irrefl _)
      · exact absurd hd (Nat.lt_asymm (hlt d hb))

end Ready

end LotteryScheduler.Proofs
