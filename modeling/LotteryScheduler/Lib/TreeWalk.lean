import LotteryScheduler.Lib.Forest

namespace LotteryScheduler.Lib

section Walking
variable {ν σ : Type} [DecidableEq ν]

/-- Where a walk stands: before a node, in the list of a node's children or past its end, or
outside. -/
inductive Spot (ν : Type) where
  | node (v : ν)
  | child (v : ν) (next : Option ν)
  | out (ret : Int)
  deriving DecidableEq, Repr

/-- One step of a walk without a stack below `top`, which goes back up along the links to the
parents and stops at the first result that is not zero. -/
def walkStep (t : TreeLinks ν) (top : ν) (down up : ν → σ → Int × σ) :
    Spot ν → σ → Spot ν × σ
  | .node v, s =>
    let (ret,s) := down v s
    if ret ≠ 0 then (.out ret,s) else (.child v (t.children v).head?,s)
  | .child _ (some c), s => (.node c,s)
  | .child v none, s =>
    let (ret,s) := up v s
    if ret ≠ 0 ∨ v = top then (.out ret,s)
    else match t.parent v with
      | some p => (.child p (t.sibling p v),s)
      | none => (.out ret,s)
  | .out ret, s => (.out ret,s)

/-- The result of a walk, unless it takes more steps than these. -/
def walk (t : TreeLinks ν) (top : ν) (down up : ν → σ → Int × σ) :
    Nat → Spot ν → σ → Option (Int × σ)
  | _, .out ret, s => some (ret,s)
  | 0, _, _ => none
  | n + 1, spot, s =>
    let (spot,s) := walkStep t top down up spot s
    walk t top down up n spot s

end Walking

namespace Forest
variable {ν σ : Type}

/-- The next of two computations, unless the first one fails. -/
def andThen (r : Int × σ) (f : σ → Int × σ) : Int × σ := if r.1 ≠ 0 then r else f r.2

/-- The same walk by recursion. -/
def visit (down up : ν → σ → Int × σ) : Forest ν → σ → Int × σ
  | nil, s => (0,s)
  | cons v below beside, s =>
    andThen (down v s) fun s => andThen (visit down up below s) fun s =>
      andThen (up v s) (visit down up beside)

/-- The stops of a walk: it comes to a node, and it leaves it for good. -/
inductive Stop (ν : Type) where
  | enter (v : ν)
  | leave (v : ν)
  deriving DecidableEq, Repr

def tour : Forest ν → List (Stop ν)
  | nil => []
  | cons v below beside => .enter v :: (below.tour ++ .leave v :: beside.tour)

/-- The stops from the top and back to it. -/
def tourFrom (f : Forest ν) (top : ν) : List (Stop ν) := .enter top :: (f.tour ++ [.leave top])

def stopAt (down up : ν → σ → Int × σ) : Stop ν → σ → Int × σ
  | .enter v => down v
  | .leave v => up v

/-- One stop after the other, until one fails. -/
def perform (down up : ν → σ → Int × σ) : List (Stop ν) → σ → Int × σ
  | [], s => (0,s)
  | stop :: rest, s => andThen (stopAt down up stop s) (perform down up rest)

end Forest

section Tours
variable {ν σ : Type} {t : TreeLinks ν} {f : Forest ν} {top a v : ν} {s : σ}
variable {down up : ν → σ → Int × σ}

theorem Forest.andThen_assoc (r : Int × σ) (f g : σ → Int × σ) :
    Forest.andThen (Forest.andThen r f) g =
      Forest.andThen r fun s => Forest.andThen (f s) g := by
  unfold Forest.andThen
  split
  next => rfl
  next => rfl

theorem Forest.andThen_nop (r : Int × σ) : Forest.andThen r (fun s => (0,s)) = r := by
  unfold Forest.andThen
  split
  next => rfl
  next hz => exact Prod.ext (not_not.mp hz).symm rfl

theorem Forest.perform_append (l₁ l₂ : List (Forest.Stop ν)) : Forest.perform down up (l₁ ++ l₂) s =
    Forest.andThen (Forest.perform down up l₁ s) (Forest.perform down up l₂) := by
  induction l₁ generalizing s with
  | nil => rfl
  | cons stop rest ih =>
    have hrest : Forest.perform down up (rest ++ l₂) = fun s =>
        Forest.andThen (Forest.perform down up rest s) (Forest.perform down up l₂) :=
      funext fun _ => ih
    rw [List.cons_append,Forest.perform,Forest.perform,hrest]
    exact (Forest.andThen_assoc ..).symm

theorem Forest.visit_eq (f : Forest ν) : f.visit down up s = Forest.perform down up f.tour s := by
  induction f generalizing s with
  | nil => rfl
  | cons v below beside ihb ihs =>
    have hb : below.visit down up = Forest.perform down up below.tour := funext fun _ => ihb
    have hs : beside.visit down up = Forest.perform down up beside.tour := funext fun _ => ihs
    have hrest : Forest.perform down up (below.tour ++ .leave v :: beside.tour) = fun s =>
        Forest.andThen (Forest.perform down up below.tour s)
          (Forest.perform down up (.leave v :: beside.tour)) :=
      funext fun _ => Forest.perform_append ..
    rw [Forest.visit,Forest.tour,Forest.perform,hrest,hb,hs]
    rfl

theorem Forest.mem_tour : (.enter v ∈ f.tour ↔ v ∈ f.nodes) ∧ (.leave v ∈ f.tour ↔ v ∈ f.nodes) := by
  induction f with
  | nil => simp [Forest.tour,Forest.nodes]
  | cons w below beside ihb ihs =>
    simp only [Forest.tour,Forest.nodes,List.mem_cons,List.mem_append,ihb,ihs,Forest.Stop.enter.injEq,
      Forest.Stop.leave.injEq,reduceCtorEq,false_or]
    refine ⟨trivial,?_⟩
    rw [or_left_comm]

theorem Forest.nodup_tour (hn : f.nodes.Nodup) : f.tour.Nodup := by
  induction f with
  | nil => exact List.nodup_nil
  | cons w below beside ihb ihs =>
    obtain ⟨hw,hrest⟩ := List.nodup_cons.mp hn
    obtain ⟨hnb,hns,hapart⟩ := List.nodup_append.mp hrest
    rw [List.mem_append,not_or] at hw
    simp only [Forest.tour,List.nodup_cons,List.mem_append,List.mem_cons,List.nodup_append,
      Forest.mem_tour,reduceCtorEq,false_or,not_or]
    refine ⟨hw,ihb hnb,⟨hw.2,ihs hns⟩,fun x hx y hy => ?_⟩
    rcases hy with rfl | hy
    · rintro rfl
      exact hw.1 (Forest.mem_tour.2.mp hx)
    · rintro rfl
      cases x with
      | enter v => exact hapart v (Forest.mem_tour.1.mp hx) v (Forest.mem_tour.1.mp hy) rfl
      | leave v => exact hapart v (Forest.mem_tour.2.mp hx) v (Forest.mem_tour.2.mp hy) rfl

theorem Forest.tour_pair (hv : v ∈ f.nodes) : [.enter v,.leave v].Sublist f.tour := by
  induction f with
  | nil => cases hv
  | cons w below beside ihb ihs =>
    simp only [Forest.nodes,List.mem_cons,List.mem_append] at hv
    rw [Forest.tour]
    rcases hv with rfl | hv | hv
    · apply List.Sublist.cons_cons
      exact List.singleton_sublist.mpr (List.mem_append_right _ List.mem_cons_self)
    · exact ((ihb hv).trans (List.sublist_append_left ..)).cons _
    · exact (((ihs hv).cons _).trans (List.sublist_append_right ..)).cons _

/-- The stops at a node are between those at any node above it. -/
theorem Forest.Under.nested (h : f.Under a v) :
    [.enter a,.enter v,.leave v,.leave a].Sublist f.tour := by
  induction f with
  | nil => cases h
  | cons w below beside ihb ihs =>
    rw [Forest.tour]
    rcases h with ⟨rfl,hv⟩ | h | h
    · apply List.Sublist.cons_cons
      exact (Forest.tour_pair hv).append (List.singleton_sublist.mpr List.mem_cons_self)
    · exact ((ihb h).trans (List.sublist_append_left ..)).cons _
    · exact (((ihs h).cons _).trans (List.sublist_append_right ..)).cons _

end Tours

section Walks
variable {ν σ : Type} [DecidableEq ν] {t : TreeLinks ν} {top p v c : ν} {f : Forest ν} {s : σ}
variable {down up : ν → σ → Int × σ}

theorem walk_out (n : Nat) (ret : Int) : walk t top down up n (.out ret) s = some (ret,s) := by
  cases n <;> rfl

theorem walk_step (n : Nat) (spot : Spot ν) (s : σ) : walk t top down up (n + 1) spot s =
    walk t top down up n (walkStep t top down up spot s).1 (walkStep t top down up spot s).2 := by
  cases spot with
  | node v => rfl
  | child v next => rfl
  | out ret => exact (walk_out ..).trans (walk_out ..).symm

/-- The walk goes on past the children of `p`, or is over. -/
def onward (t : TreeLinks ν) (top : ν) (down up : ν → σ → Int × σ) (n : Nat) (p : ν)
    (r : Int × σ) : Option (Int × σ) :=
  if r.1 ≠ 0 then some r else walk t top down up n (.child p none) r.2

theorem onward_andThen (n : Nat) (r : Int × σ) (g : σ → Int × σ) :
    onward t top down up n p (Forest.andThen r g) =
      if r.1 ≠ 0 then some r else onward t top down up n p (g r.2) := by
  unfold Forest.andThen
  split
  next hr => simp [onward,hr]
  next => rfl

theorem walk_node (n : Nat) : walk t top down up (n + 1) (.node v) s =
    if (down v s).1 ≠ 0 then some (down v s)
    else walk t top down up n (.child v (t.children v).head?) (down v s).2 := by
  rw [walk_step]
  simp only [walkStep]
  split
  next => exact walk_out ..
  next => rfl

theorem walk_up (n : Nat) (hv : v ≠ top) (hp : t.parent v = some p) :
    walk t top down up (n + 1) (.child v none) s =
      if (up v s).1 ≠ 0 then some (up v s)
      else walk t top down up n (.child p (t.sibling p v)) (up v s).2 := by
  rw [walk_step]
  simp only [walkStep,hv,or_false,hp]
  split
  next => exact walk_out ..
  next => rfl

theorem walk_end (n : Nat) : walk t top down up (n + 1) (.child top none) s = some (up top s) := by
  rw [walk_step]
  simp only [walkStep,or_true,if_true]
  exact walk_out ..

theorem TreeLinks.sibling_eq {pre post : List ν} (hc : t.children p = pre ++ v :: post)
    (hv : v ∉ pre) : t.sibling p v = post.head? := by
  have hdrop : (pre ++ v :: post).dropWhile (· ≠ v) = v :: post := by
    rw [List.dropWhile_append_of_pos]
    · simp
    · intro x hx
      have hne : x ≠ v := fun he => hv (he ▸ hx)
      simpa using hne
  rw [TreeLinks.sibling,hc,hdrop]
  rfl

/-- A walk goes through the children of a node and all that is below them as the recursion
does, in three steps a node. -/
theorem walk_forest (n : Nat) (pre : List ν) (hc : t.children p = pre ++ f.roots)
    (hn : (pre ++ f.roots).Nodup) (h : f.Holds t p) (hnodes : f.nodes.Nodup)
    (htop : top ∉ f.nodes) :
    walk t top down up (3 * f.nodes.length + n) (.child p f.roots.head?) s =
      onward t top down up n p (f.visit down up s) := by
  induction f generalizing p pre s n with
  | nil => simp [Forest.nodes,Forest.roots,Forest.visit,onward]
  | cons v below beside ihb ihs =>
    obtain ⟨hparent,hchildren,hbelow,hbeside⟩ := h
    obtain ⟨hv,hrest⟩ := List.nodup_cons.mp hnodes
    have hvtop : v ≠ top := by
      rintro rfl
      exact htop List.mem_cons_self
    have htop : top ∉ below.nodes ∧ top ∉ beside.nodes := by
      have hout := fun hm => htop (List.mem_cons_of_mem v hm)
      rw [List.mem_append] at hout
      exact not_or.mp hout
    have hnb := hrest.sublist (List.sublist_append_left ..)
    have hns := hrest.sublist (List.sublist_append_right ..)
    have hpre : v ∉ pre := by
      intro hm
      exact (List.nodup_append.mp hn).2.2 v hm v List.mem_cons_self rfl
    have hfirst : 3 * (Forest.cons v below beside).nodes.length + n =
        3 * below.nodes.length + (3 * beside.nodes.length + n + 1) + 1 + 1 := by
      simp only [Forest.nodes,List.length_cons,List.length_append]
      omega
    rw [hfirst,walk_step,Forest.visit,onward_andThen]
    change walk t top down up _ (.node v) s = _
    rw [walk_node]
    split
    next => rfl
    next =>
      rw [hchildren,ihb _ [] hchildren (hnb.sublist below.roots_sublist) hbelow hnb htop.1,
        onward_andThen]
      unfold onward
      split
      next => rfl
      next =>
        rw [walk_up _ hvtop hparent]
        change _ = onward t top down up n p _
        rw [onward_andThen]
        split
        next => rfl
        next =>
          rw [TreeLinks.sibling_eq hc hpre]
          apply ihs n (pre ++ [v]) _ _ hbeside hns htop.2
          · rw [hc,List.append_assoc]
            rfl
          · rw [List.append_assoc]
            exact hn

/-- From the top the walk is the recursion, and two steps longer. -/
theorem walk_rooted (h : Rooted t top f) (n : Nat) :
    walk t top down up (3 * f.nodes.length + 2 + n) (.node top) s =
      some (Forest.andThen (down top s) fun s => Forest.andThen (f.visit down up s) (up top)) := by
  obtain ⟨htop,hnodes⟩ := List.nodup_cons.mp h.nodup
  have hsteps : 3 * f.nodes.length + 2 + n = 3 * f.nodes.length + (n + 1) + 1 := by omega
  rw [hsteps,walk_node,Forest.andThen]
  split
  next => rfl
  next =>
    have hroots : (([] : List ν) ++ f.roots).Nodup := hnodes.sublist f.roots_sublist
    rw [h.children,walk_forest _ [] h.children hroots h.holds hnodes htop,onward,Forest.andThen]
    split
    next => rfl
    next => exact walk_end n

/-- The walk is its stops, one after the other. -/
theorem walk_tour (h : Rooted t top f) (n : Nat) :
    walk t top down up (3 * f.nodes.length + 2 + n) (.node top) s =
      some (Forest.perform down up (f.tourFrom top) s) := by
  rw [walk_rooted h,Forest.tourFrom,Forest.perform]
  congr 2
  funext s
  rw [Forest.perform_append,← Forest.visit_eq]
  congr 1
  funext s
  exact (Forest.andThen_nop _).symm

end Walks

end LotteryScheduler.Lib
