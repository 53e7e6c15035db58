import Mathlib.Data.List.Basic
import Mathlib.Logic.Function.Basic

namespace LotteryScheduler.Lib

/-- What a link field can hold: no node, one of the two poison values that mark
an unlinked node, or the address of a node. -/
inductive Ptr (α : Type) where
  | null
  | poison1
  | poison2
  | node (a : α)
  deriving DecidableEq, Repr

/-- The pair of links embedded in every node of a circular doubly linked list. -/
structure ListHead (α : Type) where
  next : Ptr α
  prev : Ptr α
  deriving DecidableEq, Repr

/-- The links of every node; the anchor of a list is a node like any other. -/
abbrev Links (α : Type) := α → ListHead α

section Operations
variable {α : Type} [DecidableEq α]

/-- Stores through anything but a node address do not complete. -/
def setNext (m : Links α) (p v : Ptr α) : Option (Links α) :=
  match p with
  | .node a => some (Function.update m a { m a with next := v })
  | _ => none

def setPrev (m : Links α) (p v : Ptr α) : Option (Links α) :=
  match p with
  | .node a => some (Function.update m a { m a with prev := v })
  | _ => none

def initListHead (m : Links α) (head : α) : Links α :=
  Function.update m head ⟨.node head,.node head⟩

def listEmpty (m : Links α) (head : α) : Bool :=
  (m head).next == .node head

/-- The new node goes between the anchor's predecessor and the anchor. Its own
old links are overwritten without being read. -/
def listAddTail (m : Links α) (new head : α) : Option (Links α) := do
  let prev := (m head).prev
  let m ← setPrev m (.node head) (.node new)
  let m ← setNext m (.node new) (.node head)
  let m ← setPrev m (.node new) prev
  setNext m prev (.node new)

/-- The neighbours named by the entry's links are joined, whatever they are, and
the entry's links are poisoned. -/
def listDel (m : Links α) (entry : α) : Option (Links α) := do
  let prev := (m entry).prev
  let next := (m entry).next
  let m ← setPrev m next prev
  let m ← setNext m prev next
  some (Function.update m entry ⟨.poison1,.poison2⟩)

/-- What one execution of a loop body asks for. -/
inductive LoopStep (β : Type) where
  | brk (b : β)
  | cont (b : β)

/-- How a loop ended: through its break, or past the last element. -/
inductive LoopEnd (β : Type) where
  | broke (b : β)
  | ran (b : β)
  deriving DecidableEq, Repr

def LoopEnd.value : LoopEnd β → β
  | .broke b => b
  | .ran b => b

/-- The walk from `pos` along the next links until it is back at the anchor. -/
def listForEach (m : Links α) (head : α) (body : β → α → LoopStep β) :
    Nat → Ptr α → β → Option (LoopEnd β)
  | n+1, .node pos, b =>
    if pos = head then some (.ran b)
    else match body b pos with
      | .brk b => some (.broke b)
      | .cont b => listForEach m head body n (m pos).next b
  | _, _, _ => none

end Operations

/-- The same loop over the elements themselves. -/
def forEach (body : β → α → LoopStep β) : List α → β → LoopEnd β
  | [], b => .ran b
  | x :: l, b => match body b x with
    | .brk b => .broke b
    | .cont b => forEach body l b

/-- The links lead from `a` through the nodes of `l` to `b`, and back. -/
def Path (m : Links α) : α → List α → α → Prop
  | a, [], b => (m a).next = .node b ∧ (m b).prev = .node a
  | a, x :: l, b => (m a).next = .node x ∧ (m x).prev = .node a ∧ Path m x l b

/-- The list anchored at `head` has exactly the elements of `l`, in order. -/
structure Holds (m : Links α) (head : α) (l : List α) : Prop where
  path : Path m head l head
  nodup : (head :: l).Nodup

/-- The last node met on the way from `a` through `l`. -/
def lastNode : α → List α → α
  | a, [] => a
  | _, x :: l => lastNode x l

/-- The first node met in `l`, and `b` when there is none. -/
def firstNode : List α → α → α
  | [], b => b
  | x :: _, _ => x

section Paths
variable {α : Type} {m m' : Links α} {a b c head new x : α} {l l₁ l₂ : List α}

theorem lastNode_mem (a : α) (l : List α) : lastNode a l ∈ a :: l := by
  induction l generalizing a with
  | nil => simp [lastNode]
  | cons x l ih => exact List.mem_cons_of_mem _ (ih x)

theorem Path.append : Path m a (l₁ ++ x :: l₂) b ↔ Path m a l₁ x ∧ Path m x l₂ b := by
  induction l₁ generalizing a with
  | nil => simp [Path,and_assoc]
  | cons y l₁ ih => simp [Path,ih,and_assoc]

theorem Path.prev_end (h : Path m a l b) : (m b).prev = .node (lastNode a l) := by
  induction l generalizing a with
  | nil => exact h.2
  | cons x l ih => exact ih h.2.2

theorem Path.next_start (h : Path m a l b) : (m a).next = .node (firstNode l b) := by
  cases l with
  | nil => exact h.1
  | cons x l => exact h.1

theorem Path.frame (h : Path m a l b)
    (hn : ∀ y ∈ a :: l, (m' y).next = (m y).next)
    (hp : ∀ y ∈ l ++ [b], (m' y).prev = (m y).prev) : Path m' a l b := by
  induction l generalizing a with
  | nil => exact ⟨(hn a (by simp)).trans h.1,(hp b (by simp)).trans h.2⟩
  | cons x l ih =>
    refine ⟨(hn a (by simp)).trans h.1,(hp x (by simp)).trans h.2.1,ih h.2.2 ?_ ?_⟩
    · exact fun y hy => hn y (List.mem_cons_of_mem _ hy)
    · exact fun y hy => hp y (List.mem_cons_of_mem _ hy)

/-- A path keeps its nodes when only the link out of its last node and the link
back into it are redirected. -/
theorem Path.relink (h : Path m a l b) (hu : (a :: l).Nodup)
    (hn : ∀ y ∈ a :: l, y ≠ lastNode a l → (m' y).next = (m y).next)
    (hp : ∀ y ∈ l, (m' y).prev = (m y).prev)
    (hlast : (m' (lastNode a l)).next = .node c)
    (hback : (m' c).prev = .node (lastNode a l)) : Path m' a l c := by
  induction l generalizing a with
  | nil => exact ⟨hlast,hback⟩
  | cons x l ih =>
    have hmem : lastNode x l ∈ x :: l := lastNode_mem _ _
    have hne : a ≠ lastNode x l := by
      intro he
      exact (List.nodup_cons.mp hu).1 (he ▸ hmem)
    simp only [lastNode] at hn hlast hback
    refine ⟨(hn a (by simp) hne).trans h.1,(hp x (by simp)).trans h.2.1,
      ih h.2.2 (List.nodup_cons.mp hu).2 ?_ ?_ hlast hback⟩
    · exact fun y hy => hn y (List.mem_cons_of_mem _ hy)
    · exact fun y hy => hp y (List.mem_cons_of_mem _ hy)

theorem Path.unique (h : Path m a l₁ b) (h' : Path m a l₂ b) (hb₁ : b ∉ l₁) (hb₂ : b ∉ l₂) :
    l₁ = l₂ := by
  induction l₁ generalizing a l₂ with
  | nil =>
    cases l₂ with
    | nil => rfl
    | cons y l₂ =>
      have hy := h.1.symm.trans h'.1
      cases hy
      exact absurd List.mem_cons_self hb₂
  | cons x l₁ ih =>
    cases l₂ with
    | nil =>
      have hx := h.1.symm.trans h'.1
      cases hx
      exact absurd List.mem_cons_self hb₁
    | cons y l₂ =>
      have hxy := h.1.symm.trans h'.1
      cases hxy
      rw [List.mem_cons,not_or] at hb₁ hb₂
      exact congrArg (x :: ·) (ih h.2.2 h'.2.2 hb₁.2 hb₂.2)

/-- The links determine what the list holds. -/
theorem Holds.unique (h : Holds m head l₁) (h' : Holds m head l₂) : l₁ = l₂ :=
  h.path.unique h'.path (List.nodup_cons.mp h.nodup).1 (List.nodup_cons.mp h'.nodup).1

variable [DecidableEq α]

theorem Path.forEach_eq {body : β → α → LoopStep β} (h : Path m a l head) (hx : head ∉ l)
    (n : Nat) (hn : l.length < n) (b : β) :
    listForEach m head body n (m a).next b = some (forEach body l b) := by
  induction l generalizing a n b with
  | nil =>
    obtain ⟨n,rfl⟩ := Nat.exists_eq_succ_of_ne_zero (Nat.ne_of_gt hn)
    simp [listForEach,h.1,forEach]
  | cons x l ih =>
    obtain ⟨n,rfl⟩ := Nat.exists_eq_succ_of_ne_zero (Nat.ne_of_gt (Nat.zero_lt_of_lt hn))
    have hne : x ≠ head := fun he => hx (by simp [he])
    have hlen : l.length < n := by simpa using hn
    simp only [h.1,listForEach,hne,↓reduceIte,forEach]
    cases body b x with
    | brk b => rfl
    | cont b => exact ih h.2.2 (fun hm => hx (List.mem_cons_of_mem _ hm)) n hlen b

theorem holds_init (m : Links α) (head : α) : Holds (initListHead m head) head [] :=
  ⟨by simp [Path,initListHead],by simp⟩

theorem Holds.empty_iff (h : Holds m head l) : listEmpty m head = true ↔ l = [] := by
  cases l with
  | nil => simp [listEmpty,h.path.1]
  | cons x l =>
    have hne : x ≠ head := fun he => (List.nodup_cons.mp h.nodup).1 (by simp [he])
    simp [listEmpty,h.path.1,hne]

/-- Writing the links of a node that is not on the list changes nothing on it. -/
theorem Holds.update (h : Holds m head l) (hx : x ∉ head :: l) (v : ListHead α) :
    Holds (Function.update m x v) head l := by
  have hne : ∀ y ∈ head :: l, y ≠ x := fun y hy he => hx (he ▸ hy)
  refine ⟨h.path.frame ?_ ?_,h.nodup⟩
  · intro y hy
    rw [Function.update_of_ne (hne y hy)]
  · intro y hy
    rw [Function.update_of_ne (hne y (by simpa [or_comm] using hy))]

/-- What the four stores of an insertion do, wherever the anchor's predecessor is. -/
theorem listAddTail_stores {p : α} (hp : (m head).prev = .node p)
    (hh : new ≠ head) (hn : new ≠ p) :
    ∃ m', listAddTail m new head = some m' ∧ m' new = ⟨.node head,.node p⟩ ∧
      (m' head).prev = .node new ∧ (m' p).next = .node new ∧
      (∀ y, y ≠ new → y ≠ p → (m' y).next = (m y).next) ∧
      (∀ y, y ≠ new → y ≠ head → (m' y).prev = (m y).prev) := by
  refine ⟨_,by simp only [listAddTail,setPrev,setNext,hp,bind,Option.bind]; rfl,?_,?_,?_,?_,?_⟩
  · simp [Function.update,hn]
  · by_cases he : head = p <;> simp [Function.update,hh.symm,he,hn.symm]
  · simp
  · intro y hy hyp
    rcases eq_or_ne y head with rfl | hyh
    · simp [Function.update,hh.symm,hyp]
    · simp [Function.update,hy,hyp,hyh]
  · intro y hy hyh
    rcases eq_or_ne y p with rfl | hyp
    · simp [Function.update,hy,hyh]
    · simp [Function.update,hy,hyh,hyp]

/-- What the stores of an unlinking do, wherever the entry's links lead. -/
theorem listDel_stores {p n : α} (hp : (m x).prev = .node p) (hn : (m x).next = .node n)
    (hpx : p ≠ x) (hnx : n ≠ x) :
    ∃ m', listDel m x = some m' ∧ m' x = ⟨.poison1,.poison2⟩ ∧
      (m' p).next = .node n ∧ (m' n).prev = .node p ∧
      (∀ y, y ≠ x → y ≠ p → (m' y).next = (m y).next) ∧
      (∀ y, y ≠ x → y ≠ n → (m' y).prev = (m y).prev) := by
  refine ⟨_,by simp only [listDel,setPrev,setNext,hp,hn,bind,Option.bind]; rfl,?_,?_,?_,?_,?_⟩
  · simp
  · simp [Function.update,hpx]
  · by_cases he : n = p <;> simp [Function.update,hnx,hpx,he]
  · intro y hy hyp
    rcases eq_or_ne y n with rfl | hyn
    · simp [Function.update,hnx,hyp]
    · simp [Function.update,hy,hyp,hyn]
  · intro y hy hyn
    rcases eq_or_ne y p with rfl | hyp
    · simp [Function.update,hpx,hyn]
    · simp [Function.update,hy,hyn,hyp]

/-- A node that is on no list is appended, whatever its links held before. -/
theorem Holds.add_tail (h : Holds m head l) (hx : new ∉ head :: l) :
    ∃ m', listAddTail m new head = some m' ∧ Holds m' head (l ++ [new]) := by
  have hne : ∀ y ∈ head :: l, y ≠ new := fun y hy he => hx (he ▸ hy)
  have hlast := lastNode_mem head l
  obtain ⟨m',hm,hnew,hhead,hprev,hnexts,hprevs⟩ :=
    listAddTail_stores h.path.prev_end (hne head (by simp)).symm (hne _ hlast).symm
  refine ⟨m',hm,Path.append.mpr ⟨h.path.relink h.nodup ?_ ?_ hprev ?_,?_,hhead⟩,?_⟩
  · exact fun y hy hl => hnexts y (hne y hy) hl
  · intro y hy
    refine hprevs y (hne y (List.mem_cons_of_mem _ hy)) ?_
    exact fun he => (List.nodup_cons.mp h.nodup).1 (he ▸ hy)
  · rw [hnew]
  · rw [hnew]
  · rw [← List.cons_append]
    refine List.nodup_append.mpr ⟨h.nodup,by simp,?_⟩
    intro y hy z hz
    rw [List.mem_singleton.mp hz]
    exact hne y hy

/-- An element is unlinked: the rest keeps its order and the element is poisoned. -/
theorem Holds.del (h : Holds m head l) (hx : x ∈ l) :
    ∃ m', listDel m x = some m' ∧ Holds m' head (l.erase x) ∧ m' x = ⟨.poison1,.poison2⟩ := by
  obtain ⟨l₁,l₂,rfl⟩ := List.append_of_mem hx
  obtain ⟨hl,hr⟩ := Path.append.mp h.path
  have hu := h.nodup
  rw [← List.cons_append] at hu
  obtain ⟨hu₁,hu₂,hd⟩ := List.nodup_append.mp hu
  obtain ⟨hx₂,hu₃⟩ := List.nodup_cons.mp hu₂
  have hx₁ : x ∉ head :: l₁ := fun hm => hd x hm x (by simp) rfl
  have hlast := lastNode_mem head l₁
  have hfirst : firstNode l₂ head = head ∨ firstNode l₂ head ∈ l₂ := by
    cases l₂ <;> simp [firstNode]
  have hpx : lastNode head l₁ ≠ x := fun he => hx₁ (he ▸ hlast)
  have hnx : firstNode l₂ head ≠ x := by
    intro he
    rcases hfirst with hf | hf
    · exact hx₁ (by rw [← he,hf]; simp)
    · exact hx₂ (by rw [← he]; exact hf)
  obtain ⟨m',hm,hpoison,hnext,hprev,hnexts,hprevs⟩ :=
    listDel_stores hl.prev_end hr.next_start hpx hnx
  have herase : (l₁ ++ x :: l₂).erase x = l₁ ++ l₂ := by
    rw [List.erase_append_right _ (fun hm => hx₁ (List.mem_cons_of_mem _ hm)),
      List.erase_cons_head]
  have hleft : Path m' head l₁ (firstNode l₂ head) := by
    refine hl.relink hu₁ ?_ ?_ hnext hprev
    · exact fun y hy hne => hnexts y (fun he => hx₁ (he ▸ hy)) hne
    · intro y hy
      refine hprevs y (fun he => hx₁ (he ▸ List.mem_cons_of_mem _ hy)) ?_
      intro he
      rcases hfirst with hf | hf
      · exact (List.nodup_cons.mp hu₁).1 (by rw [← hf,← he]; exact hy)
      · exact hd y (List.mem_cons_of_mem _ hy) _ (List.mem_cons_of_mem _ hf) he
  refine ⟨m',hm,herase ▸ ⟨?_,?_⟩,hpoison⟩
  · cases l₂ with
    | nil => simpa [firstNode] using hleft
    | cons z l₂ =>
      refine Path.append.mpr ⟨hleft,hr.2.2.frame ?_ ?_⟩
      · intro y hy
        refine hnexts y (fun he => hx₂ (he ▸ hy)) ?_
        exact fun he => hd _ hlast y (List.mem_cons_of_mem _ hy) he.symm
      · intro y hy
        rcases List.mem_append.mp hy with hy | hy
        · refine hprevs y (fun he => hx₂ (he ▸ List.mem_cons_of_mem _ hy)) ?_
          exact fun he => (List.nodup_cons.mp hu₃).1 (by rw [← show y = z from he]; exact hy)
        · rw [List.mem_singleton.mp hy]
          refine hprevs head (fun he => hx₁ (by simp [he])) ?_
          exact hd head (by simp) z (by simp)
  · exact h.nodup.sublist (List.Sublist.cons_cons _
      (List.Sublist.append_left (List.sublist_cons_self _ _) _))

/-- An entry that was unlinked does not count as an empty list, and cannot be unlinked
again. -/
theorem unlinked_entry (h : m x = ⟨.poison1,.poison2⟩) :
    listEmpty m x = false ∧ listDel m x = none := by
  refine ⟨by simp [listEmpty,h],?_⟩
  simp [listDel,h,setPrev]

end Paths

end LotteryScheduler.Lib
