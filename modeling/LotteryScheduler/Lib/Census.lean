import Mathlib.Data.List.Count
import Mathlib.Data.List.Perm.Basic

namespace LotteryScheduler.Lib

section Census
variable {α : Type} [DecidableEq α] {l : List α} {x : α} {p q : α → Bool}

/-- One member of a population changes sides. -/
theorem countP_change (hn : l.Nodup) (hx : x ∈ l) (hq : ∀ y ∈ l, y ≠ x → q y = p y) :
    l.countP q + (p x).toNat = l.countP p + (q x).toNat := by
  have hperm := List.perm_cons_erase hx
  have hrest : (l.erase x).countP q = (l.erase x).countP p := by
    apply List.countP_congr
    intro y hy
    rw [hn.mem_erase_iff] at hy
    rw [hq y hy.2 hy.1]
  rw [hperm.countP_eq q,hperm.countP_eq p,List.countP_cons,List.countP_cons,hrest]
  cases p x <;> cases q x <;> simp

/-- A member leaves that did not count. -/
theorem countP_leave (hx : x ∈ l) (hp : p x = false) : (l.erase x).countP p = l.countP p := by
  rw [(List.perm_cons_erase hx).countP_eq p,List.countP_cons,hp]
  rfl

end Census

end LotteryScheduler.Lib
