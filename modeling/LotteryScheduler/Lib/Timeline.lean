import Mathlib.Algebra.Order.Group.Defs
import Mathlib.Algebra.Order.Monoid.Unbundled.Basic
import Mathlib.Data.List.Basic

namespace LotteryScheduler.Lib

/-- A fact about every element of a list and what follows it. -/
theorem forall_split_cons {α : Type} {P : α → List α → Prop} {y : α} {l : List α} :
    (∀ l₁ x l₂, y :: l = l₁ ++ x :: l₂ → P x l₂) ↔
      P y l ∧ ∀ l₁ x l₂, l = l₁ ++ x :: l₂ → P x l₂ := by
  constructor
  · intro h
    refine ⟨h [] y l rfl,fun l₁ x l₂ hl => h (y :: l₁) x l₂ ?_⟩
    rw [hl,List.cons_append]
  · rintro ⟨hy,h⟩ l₁ x l₂ hl
    cases l₁ with
    | nil =>
      cases hl
      exact hy
    | cons z l₁ =>
      cases hl
      exact h l₁ x l₂ rfl

/-- The sums before the entries of a list all vanish when every entry but the last does. -/
theorem prefix_sums_zero {τ : Type} [AddMonoid τ] (d : List τ) :
    (∀ k, k < d.length → (d.take k).sum = 0) ↔ ∀ a ∈ d.dropLast, a = 0 := by
  induction d with
  | nil => simp
  | cons a d ih =>
    cases d with
    | nil => simp
    | cons b d =>
      rw [List.dropLast_cons_cons,List.forall_mem_cons,← ih]
      constructor
      · intro h
        have ha : a = 0 := by simpa using h 1 (by simp)
        refine ⟨ha,fun k hk => ?_⟩
        have hk := h (k + 1) (Nat.succ_lt_succ hk)
        rwa [List.take_succ_cons,List.sum_cons,ha,zero_add] at hk
      · rintro ⟨rfl,h⟩ k hk
        cases k with
        | zero => rfl
        | succ k =>
          rw [List.take_succ_cons,List.sum_cons,zero_add]
          exact h k (Nat.lt_of_succ_lt_succ hk)

section Slices
variable {α τ : Type}

/-- The time of the mark after `x`, or of one `unit` later where there is none. -/
def nextMark [Add τ] (unit : τ) (x : α × τ) (l : List (α × τ)) : τ :=
  (l.head?.map Prod.snd).getD (x.2 + unit)

/-- Each mark starts a slice that lasts until the next mark. -/
def slices [Add τ] [Sub τ] (unit : τ) : List (α × τ) → List (α × τ × τ)
  | [] => []
  | x :: l => (x.1,x.2,nextMark unit x l - x.2) :: slices unit l

/-- A slice covers its start and not its end. -/
def Covers [Add τ] [LE τ] [LT τ] (t : τ) (s : α × τ × τ) : Prop :=
  s.2.1 ≤ t ∧ t < s.2.1 + s.2.2

instance [Add τ] [LinearOrder τ] (t : τ) (s : α × τ × τ) : Decidable (Covers t s) :=
  inferInstanceAs (Decidable (_ ∧ _))

/-- The last mark at or before `t`. -/
def lastMark [LE τ] [DecidableLE τ] (l : List (α × τ)) (t : τ) : Option (α × τ) :=
  (l.filter fun x => x.2 ≤ t).getLast?

section Marks
variable [AddCommGroup τ] {unit : τ} {l : List (α × τ)} {x : α × τ}

theorem nextMark_cons {y : α × τ} : nextMark unit x (y :: l) = y.2 := rfl

theorem slice_start {s : α × τ × τ} (h : s ∈ slices unit l) :
    ∃ y ∈ l, s.1 = y.1 ∧ s.2.1 = y.2 := by
  induction l with
  | nil => cases h
  | cons y l ih =>
    rcases List.mem_cons.mp h with rfl | h
    · exact ⟨y,by simp,rfl,rfl⟩
    · obtain ⟨z,hz,he⟩ := ih h
      exact ⟨z,List.mem_cons_of_mem _ hz,he⟩

/-- A new origin moves the slices and leaves their lengths. -/
theorem slices_shift (c : τ) (l : List (α × τ)) :
    slices unit (l.map fun x => (x.1,x.2 - c)) =
      (slices unit l).map fun s => (s.1,s.2.1 - c,s.2.2) := by
  induction l with
  | nil => rfl
  | cons x l ih =>
    have hnext : nextMark unit (x.1,x.2 - c) (l.map fun x => (x.1,x.2 - c)) =
        nextMark unit x l - c := by
      cases l with
      | nil => exact (add_sub_right_comm x.2 unit c).symm
      | cons y l => rfl
    rw [List.map_cons,slices,ih,hnext,slices,List.map_cons,sub_sub_sub_cancel_right]

end Marks

section Order
variable [LinearOrder τ] {unit t : τ} {l l₁ l₂ : List (α × τ)} {x : α × τ}

/-- A sorted list is cut at an instant. -/
theorem exists_cut (hs : l.Pairwise fun x y => x.2 ≤ y.2) (t : τ) :
    ∃ l₁ l₂, l = l₁ ++ l₂ ∧ (∀ y ∈ l₁, y.2 ≤ t) ∧ ∀ y ∈ l₂, t < y.2 := by
  induction l with
  | nil => exact ⟨[],[],rfl,by simp,by simp⟩
  | cons x l ih =>
    obtain ⟨hx,hs⟩ := List.pairwise_cons.mp hs
    by_cases hxt : x.2 ≤ t
    · obtain ⟨l₁,l₂,rfl,hle,hlt⟩ := ih hs
      exact ⟨x :: l₁,l₂,rfl,List.forall_mem_cons.mpr ⟨hxt,hle⟩,hlt⟩
    · have hxt := not_le.mp hxt
      refine ⟨[],x :: l,rfl,by simp,List.forall_mem_cons.mpr ⟨hxt,?_⟩⟩
      exact fun y hy => hxt.trans_le (hx y hy)

theorem lastMark_cut (hle : ∀ y ∈ l₁, y.2 ≤ t) (hlt : ∀ y ∈ l₂, t < y.2) :
    lastMark (l₁ ++ l₂) t = l₁.getLast? := by
  have hkeep : l₁.filter (fun x => x.2 ≤ t) = l₁ :=
    List.filter_eq_self.mpr fun y hy => decide_eq_true (hle y hy)
  have hdrop : l₂.filter (fun x => x.2 ≤ t) = [] :=
    List.filter_eq_nil_iff.mpr fun y hy => by simpa using hlt y hy
  rw [lastMark,List.filter_append,hkeep,hdrop,List.append_nil]

variable [AddCommGroup τ]

theorem covers_shift [IsOrderedAddMonoid τ] {c : τ} {s : α × τ × τ} :
    Covers (t - c) (s.1,s.2.1 - c,s.2.2) ↔ Covers t s := by
  unfold Covers
  rw [sub_le_sub_iff_right,← add_sub_right_comm,sub_lt_sub_iff_right]

/-- No slice covers an instant before its start. -/
theorem slices_later (hlt : ∀ y ∈ l, t < y.2) :
    (slices unit l).filter (fun s => Covers t s) = [] := by
  rw [List.filter_eq_nil_iff]
  intro s hs hc
  obtain ⟨y,hy,_,he⟩ := slice_start hs
  have hstart := (of_decide_eq_true hc).1
  rw [he] at hstart
  exact absurd (hlt y hy) (not_lt.mpr hstart)

/-- Only the slice of the last mark can cover an instant, and it does until the next mark. -/
theorem slices_cut (hle : ∀ y ∈ l₁, y.2 ≤ t) (hx : x.2 ≤ t) (hlt : ∀ y ∈ l₂, t < y.2) :
    (slices unit (l₁ ++ x :: l₂)).filter (fun s => Covers t s) =
      if t < nextMark unit x l₂ then [(x.1,x.2,nextMark unit x l₂ - x.2)] else [] := by
  induction l₁ with
  | nil =>
    rw [List.nil_append,slices,List.filter_cons,slices_later hlt]
    simp only [Covers,hx,true_and,add_sub_cancel,decide_eq_true_eq]
  | cons y l₁ ih =>
    obtain ⟨hy,hle⟩ := List.forall_mem_cons.mp hle
    have hnext : nextMark unit y (l₁ ++ x :: l₂) ≤ t := by
      cases l₁ with
      | nil => exact hx
      | cons z l₁ => exact hle z (by simp)
    rw [List.cons_append,slices,List.filter_cons_of_neg]
    · exact ih hle
    · intro hc
      have hend := (of_decide_eq_true hc).2
      rw [add_sub_cancel] at hend
      exact absurd hend (not_lt.mpr hnext)

theorem nextMark_le {y : α × τ} (hs : l.Pairwise fun x y => x.2 ≤ y.2) (hy : y ∈ l) :
    nextMark unit x l ≤ y.2 := by
  cases l with
  | nil => cases hy
  | cons z l =>
    rw [nextMark_cons]
    rcases List.mem_cons.mp hy with rfl | hy
    · exact le_rfl
    · exact (List.pairwise_cons.mp hs).1 y hy

theorem le_nextMark [IsOrderedAddMonoid τ] (h0 : 0 ≤ unit) (h : ∀ y ∈ l, x.2 ≤ y.2) :
    x.2 ≤ nextMark unit x l := by
  cases l with
  | nil => exact le_add_of_nonneg_right h0
  | cons z l => exact h z (by simp)

end Order

end Slices

end LotteryScheduler.Lib
