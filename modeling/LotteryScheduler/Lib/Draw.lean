import Mathlib.Data.Nat.Count
import Mathlib.Algebra.Ring.Nat
import Mathlib.Algebra.Order.BigOperators.Group.List
import Mathlib.Algebra.Order.Group.Nat

namespace LotteryScheduler.Lib

section Draw
variable {α : Type} {w : α → Nat} {l : List α} {x y : α}

/-- The weights cut `[0,total)` into consecutive intervals in list order. The
draw returns the element whose interval holds the value. -/
def draw (w : α → Nat) : List α → Nat → Option α
  | [], _ => none
  | x :: l, v => if v < w x then some x else draw w l (v - w x)

def total (w : α → Nat) (l : List α) : Nat := (l.map w).sum

@[simp] theorem total_nil : total w [] = 0 := rfl

@[simp] theorem total_cons : total w (x :: l) = w x + total w l := by simp [total]

@[simp] theorem total_append : total w (l ++ l') = total w l + total w l' := by simp [total]

theorem draw_some (h : v < total w l) : ∃ x, draw w l v = some x := by
  induction l generalizing v with
  | nil => simp at h
  | cons x l ih =>
    simp only [draw]
    split
    · exact ⟨x,rfl⟩
    · rw [total_cons] at h
      exact ih (by omega)

theorem draw_mem (h : draw w l v = some x) : x ∈ l := by
  induction l generalizing v with
  | nil => simp [draw] at h
  | cons y l ih =>
    simp only [draw] at h
    split at h
    · cases h
      simp
    · exact List.mem_cons_of_mem _ (ih h)

theorem draw_congr {w' : α → Nat} (h : ∀ x ∈ l, w x = w' x) (v : Nat) :
    draw w l v = draw w' l v := by
  induction l generalizing v with
  | nil => rfl
  | cons x l ih =>
    simp only [draw,h x List.mem_cons_self,ih fun y hy => h y (List.mem_cons_of_mem _ hy)]

/-- An element without weight has an empty interval. -/
theorem draw_weight (h : draw w l v = some x) : 0 < w x := by
  induction l generalizing v with
  | nil => simp [draw] at h
  | cons y l ih =>
    simp only [draw] at h
    split at h
    · cases h
      omega
    · exact ih h

theorem count_draw [DecidableEq α] (hu : l.Nodup) (hx : x ∈ l) :
    Nat.count (fun v => draw w l v = some x) (total w l) = w x := by
  induction l with
  | nil => simp at hx
  | cons y l ih =>
    obtain ⟨hy,hu⟩ := List.nodup_cons.mp hu
    have hrest : ∀ k, draw w (y :: l) (w y + k) = draw w l k := by
      intro k
      simp [draw]
    rw [total_cons,Nat.count_add]
    simp only [hrest]
    rcases eq_or_ne x y with rfl | hne
    · have hfirst : Nat.count (fun v => draw w (x :: l) v = some x) (w x) = w x := by
        refine Nat.count_iff_forall.mpr fun v hv => ?_
        simp [draw,hv]
      have hnone : Nat.count (fun v => draw w l v = some x) (total w l) = 0 := by
        refine Nat.count_iff_forall_not.mpr fun v _ hd => hy (draw_mem hd)
      rw [hfirst,hnone,Nat.add_zero]
    · have hnone : Nat.count (fun v => draw w (y :: l) v = some x) (w y) = 0 := by
        refine Nat.count_iff_forall_not.mpr fun v hv hd => ?_
        simp only [draw,hv,↓reduceIte,Option.some.injEq] at hd
        exact hne hd.symm
      rw [hnone,Nat.zero_add,ih hu ((List.mem_cons.mp hx).resolve_left hne)]

end Draw

section Residues
variable {P Q : Nat → Prop} [DecidablePred P] [DecidablePred Q] {T : Nat}

theorem count_congr {N : Nat} (h : ∀ v, v < N → (P v ↔ Q v)) : Nat.count P N = Nat.count Q N :=
  Nat.le_antisymm (Nat.count_mono_left fun v hv => (h v hv).mp)
    (Nat.count_mono_left fun v hv => (h v hv).mpr)

theorem count_residues_mul (T n : Nat) :
    Nat.count (fun v => P (v % T)) (n * T) = n * Nat.count P T := by
  rcases Nat.eq_zero_or_pos T with rfl | hT
  · simp
  induction n with
  | zero => simp
  | succ n ih =>
    have hlast : Nat.count (fun k => P ((n * T + k) % T)) T = Nat.count P T :=
      count_congr fun k hk => by rw [Nat.mul_add_mod',Nat.mod_eq_of_lt hk]
    rw [Nat.succ_mul,Nat.count_add,ih,hlast,Nat.succ_mul]

/-- Reducing every word modulo `T` favours no residue by more than one word. -/
theorem count_residues (hT : 0 < T) (N : Nat) :
    Nat.count P T * (N / T) ≤ Nat.count (fun v => P (v % T)) N ∧
      Nat.count (fun v => P (v % T)) N ≤ Nat.count P T * ((N + T - 1) / T) := by
  have hlow := count_residues_mul (P := P) T (N / T)
  have hhigh := count_residues_mul (P := P) T ((N + T - 1) / T)
  have hN : N ≤ (N + T - 1) / T * T := by
    have hdiv := Nat.div_add_mod' (N + T - 1) T
    have hmod := Nat.mod_lt (N + T - 1) hT
    omega
  constructor
  · rw [Nat.mul_comm,← hlow]
    exact Nat.count_monotone _ (Nat.div_mul_le_self N T)
  · rw [Nat.mul_comm,← hhigh]
    exact Nat.count_monotone _ hN

end Residues

end LotteryScheduler.Lib
