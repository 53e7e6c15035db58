import Mathlib.Data.List.Basic
import Mathlib.Logic.Function.Basic

namespace LotteryScheduler.Lib

/-- What a link of a singly linked queue can hold: nothing, the mark of its end, or a node. -/
inductive Cell (α : Type) where
  | null
  | tail
  | node (a : α)
  deriving DecidableEq, Repr

/-- A queue whose links are in its nodes. `lastp` names the last link, which is the queue's
own `first` as long as there is no node. -/
structure TailQueue (α : Type) where
  first : Cell α
  lastp : Option α
  deriving DecidableEq, Repr

def TailQueue.empty : TailQueue α := ⟨.tail,none⟩

section Operations
variable {α : Type} [DecidableEq α]

/-- The store through `lastp`, to the queue's own link. -/
def TailQueue.linkFirst (q : TailQueue α) (v : Cell α) : TailQueue α :=
  match q.lastp with
  | none => { q with first := v }
  | some _ => q

/-- The same store, to a link in a node. -/
def TailQueue.linkNext (q : TailQueue α) (v : Cell α) (next : α → Cell α) : α → Cell α :=
  match q.lastp with
  | none => next
  | some a => Function.update next a v

end Operations

/-- Following the links from `c` one meets these nodes and then the end. -/
inductive Chain (next : α → Cell α) : Cell α → List α → Prop where
  | nil : Chain next .tail []
  | cons (rest : Chain next (next a) l) : Chain next (.node a) (a :: l)

section Chains
variable {α : Type} {next next' : α → Cell α} {c : Cell α} {a x : α} {l : List α}

theorem Chain.frame (h : Chain next c l) (hn : ∀ x ∈ l, next' x = next x) :
    Chain next' c l := by
  induction h with
  | nil => exact .nil
  | @cons a l rest ih =>
    refine .cons ?_
    rw [hn a List.mem_cons_self]
    exact ih fun x hx => hn x (List.mem_cons_of_mem _ hx)

/-- A queue is never found to end in the middle of nowhere. -/
theorem Chain.ne_null (h : Chain next c l) : c ≠ .null := by
  cases h with
  | nil => exact nofun
  | cons => exact nofun

theorem Chain.of_tail (h : Chain next .tail l) : l = [] := by
  cases h
  rfl

theorem Chain.of_node (h : Chain next (.node a) l) :
    ∃ rest, l = a :: rest ∧ Chain next (next a) rest := by
  cases h with
  | cons rest => exact ⟨_,rfl,rest⟩

/-- The links of queued nodes are all set. -/
theorem Chain.next_ne_null (h : Chain next c l) (hx : x ∈ l) : next x ≠ .null := by
  induction h with
  | nil => cases hx
  | cons rest ih =>
    cases hx with
    | head => exact rest.ne_null
    | tail _ hx => exact ih hx

variable [DecidableEq α]

theorem Chain.update (h : Chain next c l) (hx : x ∉ l) (v : Cell α) :
    Chain (Function.update next x v) c l := by
  refine h.frame fun y hy => Function.update_of_ne ?_ _ _
  rintro rfl
  exact hx hy

/-- A node whose link is the end is put behind the last of a queue that has one. -/
theorem Chain.append (h : Chain next c l) (hl : l.getLast? = some x) (hu : l.Nodup)
    (ha : a ∉ l) (hn : next a = .tail) :
    Chain (Function.update next x (.node a)) c (l ++ [a]) := by
  induction h with
  | nil => cases hl
  | @cons b l rest ih =>
    obtain ⟨hb,hu⟩ := List.nodup_cons.mp hu
    refine .cons ?_
    cases l with
    | nil =>
      obtain rfl : b = x := by simpa using hl
      rw [Function.update_self]
      refine .cons ?_
      rw [Function.update_of_ne (by simpa using ha),hn]
      exact .nil
    | cons d l =>
      have hl' : (d :: l).getLast? = some x := by simpa using hl
      have hbx : b ≠ x := by
        rintro rfl
        exact hb (List.mem_of_getLast? hl')
      rw [Function.update_of_ne hbx]
      exact ih hl' hu (fun hm => ha (List.mem_cons_of_mem _ hm))

/-- The store through `lastp` makes a node with a set link part of the queue. -/
theorem TailQueue.link {q : TailQueue α} (h : Chain next q.first l) (hl : q.lastp = l.getLast?)
    (hu : l.Nodup) (ha : a ∉ l) (hn : next a = .tail) :
    Chain (q.linkNext (.node a) next) (q.linkFirst (.node a)).first (l ++ [a]) := by
  cases hlast : l.getLast? with
  | none =>
    obtain rfl : l = [] := List.getLast?_eq_none_iff.mp hlast
    simp only [linkNext,linkFirst,hl,hlast]
    refine .cons ?_
    rw [hn]
    exact .nil
  | some x =>
    simp only [linkNext,linkFirst,hl,hlast]
    exact h.append hlast hu ha hn

/-- That store writes to no other node than the last of the queue. -/
theorem TailQueue.linkNext_other {q : TailQueue α} (hl : q.lastp = l.getLast?) (hx : x ∉ l)
    (v : Cell α) (next : α → Cell α) : q.linkNext v next x = next x := by
  cases hlast : l.getLast? with
  | none => simp only [linkNext,hl,hlast]
  | some y =>
    simp only [linkNext,hl,hlast]
    refine Function.update_of_ne ?_ _ _
    rintro rfl
    exact hx (List.mem_of_getLast? hlast)

end Chains

end LotteryScheduler.Lib
