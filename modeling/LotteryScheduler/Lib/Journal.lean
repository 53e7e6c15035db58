import Mathlib.Algebra.BigOperators.Group.List.Basic
import Mathlib.Data.List.Basic

namespace LotteryScheduler.Lib

/-- An entry in the journal of a queue: an element came in at the end, went out from
where it stood, or was served there. -/
inductive Entry (α : Type) where
  | enter (x : α)
  | leave (x : α)
  | serve (x : α)
  deriving DecidableEq, Repr

section Replay
variable {α : Type} [DecidableEq α]

/-- What an entry makes of the queue. It is false of a queue where there is no answer. -/
def Entry.play (q : List α) : Entry α → Option (List α)
  | .enter x => if x ∈ q then none else some (q ++ [x])
  | .leave x => if x ∈ q then some (q.erase x) else none
  | .serve x => if x ∈ q then some q else none

/-- The queue after a whole journal, if all of it is true. -/
def replay (q : List α) : List (Entry α) → Option (List α)
  | [] => some q
  | x :: l => (x.play q).bind (replay · l)

/-- The elements that `x` has to wait for. -/
def ahead (x : α) (q : List α) : List α := q.takeWhile (· ≠ x)

variable {q q' : List α} {l l' : List (Entry α)} {x y : α}

theorem replay_append : replay q (l ++ l') = (replay q l).bind (replay · l') := by
  induction l generalizing q with
  | nil => rfl
  | cons ev l ih =>
    simp only [List.cons_append,replay]
    cases ev.play q with
    | none => rfl
    | some q₁ => exact ih

theorem replay_trans (h : replay q l = some q₁) (h' : replay q₁ l' = some q') :
    replay q (l ++ l') = some q' := by
  rw [replay_append,h]
  exact h'

theorem replay_cons (h : replay q (ev :: l) = some q') :
    ∃ q₁, ev.play q = some q₁ ∧ replay q₁ l = some q' := Option.bind_eq_some_iff.mp h

theorem play_enter (h : x ∉ q) : (Entry.enter x).play q = some (q ++ [x]) := if_neg h

theorem play_leave (h : x ∈ q) : (Entry.leave x).play q = some (q.erase x) := if_pos h

theorem play_serve (h : x ∈ q) : (Entry.serve x).play q = some q := if_pos h

/-- The three ways an entry can be true. -/
theorem play_cases {ev : Entry α} (h : ev.play q = some q') :
    (∃ x, ev = .enter x ∧ x ∉ q ∧ q' = q ++ [x]) ∨
      (∃ x, ev = .leave x ∧ x ∈ q ∧ q' = q.erase x) ∨ ∃ x, ev = .serve x ∧ x ∈ q ∧ q' = q := by
  cases ev with
  | enter x =>
    obtain ⟨hx,hq⟩ := Option.ite_none_left_eq_some.mp h
    exact .inl ⟨x,rfl,hx,(Option.some.inj hq).symm⟩
  | leave x =>
    obtain ⟨hx,hq⟩ := Option.ite_none_right_eq_some.mp h
    exact .inr (.inl ⟨x,rfl,hx,(Option.some.inj hq).symm⟩)
  | serve x =>
    obtain ⟨hx,hq⟩ := Option.ite_none_right_eq_some.mp h
    exact .inr (.inr ⟨x,rfl,hx,(Option.some.inj hq).symm⟩)

theorem ahead_append (hx : x ∈ q) (l : List α) : ahead x (q ++ l) = ahead x q := by
  induction q with
  | nil => cases hx
  | cons y q ih =>
    rcases eq_or_ne y x with rfl | hne
    · simp [ahead]
    · have hq := ih ((List.mem_cons.mp hx).resolve_left hne.symm)
      simpa [ahead,hne] using hq

theorem ahead_erase (hne : y ≠ x) (q : List α) : ahead x (q.erase y) = (ahead x q).erase y := by
  induction q with
  | nil => rfl
  | cons z q ih =>
    rcases eq_or_ne z y with rfl | hz
    · simp [ahead,hne]
    rw [List.erase_cons_tail (by simpa using hz)]
    rcases eq_or_ne z x with rfl | hzx
    · simp [ahead]
    · simp only [ahead,List.takeWhile_cons,hzx,ne_eq,not_false_eq_true,decide_true,↓reduceIte,
        List.erase_cons_tail (show ¬(z == y) = true by simpa using hz)]
      exact congrArg (z :: ·) ih

/-- One entry that does not take `x` out lets nobody in ahead of it. -/
theorem play_ahead {ev : Entry α} (h : ev.play q = some q') (hx : x ∈ q) (hl : ev ≠ .leave x) :
    x ∈ q' ∧ (ahead x q').Sublist (ahead x q) := by
  rcases play_cases h with ⟨y,-,-,rfl⟩ | ⟨y,rfl,-,rfl⟩ | ⟨y,-,-,rfl⟩
  · rw [ahead_append hx]
    exact ⟨List.mem_append_left _ hx,.refl _⟩
  · have hne : y ≠ x := fun he => hl (by rw [he])
    rw [ahead_erase hne]
    exact ⟨(List.mem_erase_of_ne hne.symm).mpr hx,List.erase_sublist⟩
  · exact ⟨hx,.refl _⟩

/-- An element that stays in the queue is overtaken by nobody. -/
theorem replay_ahead (h : replay q l = some q') (hx : x ∈ q) (hl : .leave x ∉ l) :
    x ∈ q' ∧ (ahead x q').Sublist (ahead x q) := by
  induction l generalizing q with
  | nil =>
    cases h
    exact ⟨hx,.refl _⟩
  | cons ev l ih =>
    obtain ⟨q₁,hplay,hrest⟩ := replay_cons h
    rw [List.mem_cons,not_or] at hl
    obtain ⟨hx₁,hfirst⟩ := play_ahead hplay hx (Ne.symm hl.1)
    obtain ⟨hx',hlater⟩ := ih hrest hx₁ hl.2
    exact ⟨hx',hlater.trans hfirst⟩

end Replay

section Parties
variable {α κ M : Type} [DecidableEq κ] [AddCommMonoid M] {f : α → M} {l : List α}

/-- What is balanced for each party of a journal is balanced. -/
theorem sum_of_parties (key : α → κ) (h : ∀ c, ((l.filter fun x => key x = c).map f).sum = 0) :
    (l.map f).sum = 0 := by
  induction hn : l.length using Nat.strongRecOn generalizing l with
  | ind n ih =>
    cases l with
    | nil => rfl
    | cons a l =>
      have hsplit := List.filter_append_perm (fun x => decide (key x = key a)) (a :: l)
      rw [← (hsplit.map f).sum_eq,List.map_append,List.sum_append,h (key a),zero_add]
      refine ih _ ?_ (fun c => ?_) rfl
      · subst hn
        simp only [List.filter_cons,decide_true,Bool.not_true,Bool.false_eq_true,if_false]
        exact Nat.lt_succ_of_le (List.length_filter_le ..)
      · by_cases hc : c = key a
        · rw [List.filter_filter,List.filter_eq_nil_iff.mpr]
          · rfl
          · simp [hc]
        · rw [List.filter_filter]
          have hsame : (a :: l).filter (fun x => decide (key x = c) && !decide (key x = key a)) =
              (a :: l).filter fun x => key x = c := by
            refine List.filter_congr fun x _ => ?_
            by_cases hx : key x = c
            · simp [hx,hc]
            · simp [hx]
          rw [hsame]
          exact h c
end Parties

end LotteryScheduler.Lib
