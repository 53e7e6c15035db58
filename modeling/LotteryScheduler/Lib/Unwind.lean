import Mathlib.Data.List.Basic

namespace LotteryScheduler.Lib

/-- A step of a function that takes one thing after the other. If it fails, it backs out of what
it has begun and jumps to a label. -/
structure Stage (σ ε ℓ : Type) where
  fails : Option ε
  take : σ → σ
  backOut : σ → σ
  label : ℓ

/-- The statements behind a label at the end of such a function. -/
structure Cleanup (σ ℓ : Type) where
  label : ℓ
  undo : σ → σ

section Unwinding
variable {σ ε ℓ : Type} [DecidableEq ℓ]

/-- A jump to a label falls through all the labels behind it. -/
def unwind (cleanups : List (Cleanup σ ℓ)) (label : ℓ) (s : σ) : σ :=
  (cleanups.dropWhile (·.label ≠ label)).foldl (fun s c => c.undo s) s

/-- The stages up to the first that fails, with the error and the state that is left then. -/
def performStages (cleanups : List (Cleanup σ ℓ)) :
    List (Stage σ ε ℓ) → σ → Except (ε × σ) σ
  | [], s => .ok s
  | st :: rest, s =>
    match st.fails with
    | some e => .error (e,unwind cleanups st.label (st.backOut s))
    | none => performStages cleanups rest (st.take s)

def firstError : List (Stage σ ε ℓ) → Option ε
  | [] => none
  | st :: rest =>
    match st.fails with
    | some e => some e
    | none => firstError rest

/-- Wherever one of the stages fails in a state with `P`, the jump does what `undo` does, which
takes back all that was taken before. -/
inductive Undone (cleanups : List (Cleanup σ ℓ)) :
    (σ → Prop) → (σ → σ) → List (Stage σ ε ℓ) → Prop where
  | nil : Undone cleanups P undo []
  | cons (jump : ∀ s, unwind cleanups st.label (st.backOut s) = undo s)
    (keeps : ∀ s, P s → P' (st.take s)) (undoes : ∀ s, P s → undo' (st.take s) = undo s)
    (rest : Undone cleanups P' undo' stages) : Undone cleanups P undo (st :: stages)

variable {cleanups : List (Cleanup σ ℓ)} {P : σ → Prop} {undo : σ → σ}
variable {stages : List (Stage σ ε ℓ)} {s s' : σ} {e : ε}

/-- A function that fails has given back all that it took. -/
theorem Undone.restores (h : Undone cleanups P undo stages) (hs : P s)
    (hp : performStages cleanups stages s = .error (e,s')) : s' = undo s := by
  induction h generalizing s with
  | nil => cases hp
  | @cons st P P' undo undo' stages jump keeps undoes _ ih =>
    rw [performStages] at hp
    split at hp
    next =>
      cases hp
      exact jump s
    next => exact (ih (keeps s hs) hp).trans (undoes s hs)

theorem performStages_ok (h : performStages cleanups stages s = .ok s') :
    s' = stages.foldl (fun s st => st.take s) s := by
  induction stages generalizing s with
  | nil =>
    cases h
    rfl
  | cons st stages ih =>
    rw [performStages] at h
    split at h
    next => cases h
    next => exact ih h

/-- What it returns is the error of the first stage that fails. -/
theorem performStages_error (cleanups : List (Cleanup σ ℓ)) (stages : List (Stage σ ε ℓ))
    (s : σ) :
    (∀ e, firstError stages = some e →
        ∃ s', performStages cleanups stages s = .error (e,s')) ∧
      (firstError stages = none → ∃ s', performStages cleanups stages s = .ok s') := by
  induction stages generalizing s with
  | nil => exact ⟨nofun,fun _ => ⟨s,rfl⟩⟩
  | cons st stages ih =>
    rw [firstError,performStages]
    cases st.fails with
    | none => exact ih _
    | some e =>
      refine ⟨fun e' he => ?_,nofun⟩
      cases he
      exact ⟨_,rfl⟩

end Unwinding

end LotteryScheduler.Lib
