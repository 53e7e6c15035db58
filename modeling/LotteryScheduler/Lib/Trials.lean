import Mathlib.Data.Fintype.BigOperators
import Mathlib.Data.Nat.Count

namespace LotteryScheduler.Lib
open Finset

section Trials
variable {W : Type} [Fintype W]

/-- Independent trials: the sequences of `n` outcomes without a hit. -/
theorem card_no_hit (hit : W → Prop) [DecidablePred hit] (n : Nat) :
    Finset.card {ws : Fin n → W | ∀ i, ¬hit (ws i)} = Finset.card {w : W | ¬hit w} ^ n := by
  have hpi : ({ws : Fin n → W | ∀ i, ¬hit (ws i)} : Finset (Fin n → W)) =
      Fintype.piFinset fun _ => {w : W | ¬hit w} := by
    ext ws
    simp [Fintype.mem_piFinset]
  rw [hpi,Fintype.card_piFinset_const]

/-- Counting over the numbers below `N` as outcomes. -/
theorem card_fin_count (P : Nat → Prop) [DecidablePred P] (N : Nat) :
    Finset.card {w : Fin N | P w} = Nat.count P N := by
  rw [Nat.count_eq_card_filter_range,card_filter,card_filter]
  exact Fin.sum_univ_eq_sum_range (fun k => if P k then 1 else 0) N

theorem card_miss (P : Nat → Prop) [DecidablePred P] (N : Nat) :
    Finset.card {w : Fin N | ¬P w} = N - Nat.count P N := by
  have hsplit := card_filter_add_card_filter_not (s := (univ : Finset (Fin N))) (fun w => P w)
  rw [card_univ,Fintype.card_fin,card_fin_count] at hsplit
  omega

theorem card_no_hit_below (P : Nat → Prop) [DecidablePred P] (N n : Nat) :
    Finset.card {ws : Fin n → Fin N | ∀ i, ¬P (ws i)} = (N - Nat.count P N) ^ n := by
  rw [card_no_hit fun w : Fin N => P w,card_miss]

end Trials

end LotteryScheduler.Lib
