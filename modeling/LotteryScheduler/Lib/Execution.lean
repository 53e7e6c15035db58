import Mathlib.Data.List.Basic

namespace LotteryScheduler.Lib

section Returns
variable {ε α β : Type}

/-- The computation completes and what it returns satisfies `Q`. -/
def Returns (m : Except ε α) (Q : α → Prop) : Prop := ∃ a, m = .ok a ∧ Q a

/-- One guarded statement of a sequence. -/
def applyIf (c : Prop) [Decidable c] (f : α → Except ε α) (a : α) : Except ε α :=
  if c then f a else .ok a

theorem Returns.ok {Q : α → Prop} (h : Q a) : Returns (.ok a : Except ε α) Q := ⟨a,rfl,h⟩

theorem Returns.mono {m : Except ε α} {Q R : α → Prop} (h : Returns m Q)
    (k : ∀ a, Q a → R a) : Returns m R := by
  obtain ⟨a,ha,hq⟩ := h
  exact ⟨a,ha,k a hq⟩

theorem Returns.bind {m : Except ε α} {f : α → Except ε β} {Q : α → Prop} {R : β → Prop}
    (h : Returns m Q) (k : ∀ a, Q a → Returns (f a) R) : Returns (m >>= f) R := by
  obtain ⟨a,rfl,hq⟩ := h
  exact k a hq

/-- A sequence whose first part completes goes on as its rest does. -/
theorem Returns.reaches {m : Except ε α} {f : α → Except ε β} {g : γ → Except ε β}
    {Q : α → Prop} {R : γ → Prop} (h : Returns m Q) (k : ∀ a, Q a → ∃ c, R c ∧ f a = g c) :
    ∃ c, R c ∧ m >>= f = g c := by
  obtain ⟨a,rfl,hq⟩ := h
  exact k a hq

theorem Returns.applyIf {c : Prop} [Decidable c] {f : α → Except ε α} {Q : α → Prop}
    (ht : c → Returns (f a) Q) (hf : ¬c → Q a) : Returns (applyIf c f a) Q := by
  unfold Lib.applyIf
  split
  · exact ht ‹_›
  · exact .ok (hf ‹_›)

theorem Returns.of_ok {m : Except ε α} {Q : α → Prop} (h : Returns m Q) (he : m = .ok a) :
    Q a := by
  obtain ⟨b,hb,hq⟩ := h
  rw [he] at hb
  cases hb
  exact hq

theorem Returns.ne_error {m : Except ε α} {Q : α → Prop} (h : Returns m Q) (e : ε) :
    m ≠ .error e := by
  obtain ⟨b,rfl,-⟩ := h
  exact nofun

/-- What a sequence computed is what its first part and then its rest computed. -/
theorem bind_eq_ok {m : Except ε α} {f : α → Except ε β} :
    m >>= f = .ok b ↔ ∃ a, m = .ok a ∧ f a = .ok b := by
  cases m with
  | error e => simp [Bind.bind,Except.bind]
  | ok a => simp [Bind.bind,Except.bind]

/-- A computation that completes is the one that returns its value. -/
theorem ok_getD {m : Except ε α} (h : m.toBool = true) (d : α) : m = .ok (m.toOption.getD d) := by
  cases m with
  | error _ => cases h
  | ok _ => rfl

theorem bind_error {m : Except ε α} {f : α → Except ε β} (h : m = .error e) :
    m >>= f = .error e := by
  rw [h]
  rfl

theorem bind_ok {m : Except ε α} {f : α → Except ε β} (h : m = .ok a) : m >>= f = f a := by
  rw [h]
  rfl

end Returns

section Yields
variable {ε α β : Type}

/-- What the computation returns, if it completes at all, satisfies `Q`. -/
def Yields (m : Except ε α) (Q : α → Prop) : Prop := ∀ a, m = .ok a → Q a

theorem Yields.ok {Q : α → Prop} (h : Q a) : Yields (.ok a : Except ε α) Q := by
  rintro _ ⟨⟩
  exact h

theorem Yields.error (e : ε) (Q : α → Prop) : Yields (.error e) Q := by
  rintro _ ⟨⟩

theorem Returns.yields {m : Except ε α} {Q : α → Prop} (h : Returns m Q) : Yields m Q :=
  fun _ ha => h.of_ok ha

theorem Yields.mono {m : Except ε α} {Q R : α → Prop} (h : Yields m Q)
    (k : ∀ a, Q a → R a) : Yields m R := fun a ha => k a (h a ha)

theorem Yields.bind {m : Except ε α} {f : α → Except ε β} {Q : α → Prop} {R : β → Prop}
    (h : Yields m Q) (k : ∀ a, Q a → Yields (f a) R) : Yields (m >>= f) R := by
  intro b hb
  obtain ⟨a,ha,hf⟩ := bind_eq_ok.mp hb
  exact k a (h a ha) b hf

theorem Yields.applyIf {c : Prop} [Decidable c] {f : α → Except ε α} {Q : α → Prop}
    (ht : c → Yields (f a) Q) (hf : ¬c → Q a) : Yields (applyIf c f a) Q := by
  unfold Lib.applyIf
  split
  · exact ht ‹_›
  · exact .ok (hf ‹_›)

theorem Yields.ite {c : Prop} [Decidable c] {m m' : Except ε α} {Q : α → Prop}
    (ht : c → Yields m Q) (hf : ¬c → Yields m' Q) : Yields (if c then m else m') Q := by
  split
  · exact ht ‹_›
  · exact hf ‹_›

end Yields

section Runs
variable {σ α : Type}

/-- One step of a run: its label, its ends, and what was measured up to its end. -/
structure Passed (α σ : Type) where
  label : α
  before : σ
  after : σ
  total : Nat

/-- A run from `s` to `t`, whose steps `cost` measures, with the steps, latest first, and
the total. -/
inductive Run (step : α → σ → σ → Prop) (cost : σ → σ → Nat) (s : σ) :
    List (Passed α σ) → Nat → σ → Prop where
  | refl : Run step cost s [] 0 s
  | tail (before : Run step cost s l n t) (last : step a t u) :
      Run step cost s (⟨a,t,u,n + cost t u⟩ :: l) (n + cost t u) u

theorem Run.invariant {step : α → σ → σ → Prop} {I : σ → Prop} (h : Run step cost s l n t)
    (start : I s) (keep : ∀ a s t, I s → step a s t → I t) : I t ∧ ∀ x ∈ l, I x.after := by
  induction h with
  | refl => exact ⟨start,nofun⟩
  | tail _ last ih =>
    have hlast := keep _ _ _ ih.1 last
    refine ⟨hlast,fun x hx => ?_⟩
    rcases List.mem_cons.mp hx with rfl | hx
    · exact hlast
    · exact ih.2 x hx

end Runs

end LotteryScheduler.Lib
