import Mathlib.Data.List.Basic
import Mathlib.Logic.Function.Basic
import Mathlib.Logic.Relation
import Mathlib.Order.Basic

namespace LotteryScheduler.Lib

/-- The links of a tree: from every node to its parent and to the list of its children. -/
structure TreeLinks (ν : Type) where
  parent : ν → Option ν
  children : ν → List ν

/-- The nodes of a tree without its top, by first child and next sibling. -/
inductive Forest (ν : Type) where
  | nil
  | cons (node : ν) (below beside : Forest ν)

namespace TreeLinks
variable {ν : Type} [DecidableEq ν]

/-- The next one in the list of children. -/
def sibling (t : TreeLinks ν) (parent child : ν) : Option ν :=
  ((t.children parent).dropWhile (· ≠ child)).tail.head?

/-- A new leaf comes first among the children of `p`. -/
def graft (t : TreeLinks ν) (p c : ν) : TreeLinks ν where
  parent := Function.update t.parent c (some p)
  children := Function.update (Function.update t.children c []) p (c :: t.children p)

/-- A node is taken off the list of its parent. -/
def prune (t : TreeLinks ν) (p c : ν) : TreeLinks ν :=
  { t with children := Function.update t.children p ((t.children p).erase c) }

/-- `a` is an ancestor of `v`. -/
def Above (t : TreeLinks ν) : ν → ν → Prop := Relation.TransGen fun a v => t.parent v = some a

end TreeLinks

namespace Forest
variable {ν : Type}

def roots : Forest ν → List ν
  | nil => []
  | cons v _ beside => v :: beside.roots

def nodes : Forest ν → List ν
  | nil => []
  | cons v below beside => v :: (below.nodes ++ beside.nodes)

/-- The links below `p` are those of this forest. -/
def Holds (t : TreeLinks ν) (p : ν) : Forest ν → Prop
  | nil => True
  | cons v below beside =>
    t.parent v = some p ∧ t.children v = below.roots ∧ below.Holds t v ∧ beside.Holds t p

/-- `a` is above `v` in the forest. -/
def Under (a v : ν) : Forest ν → Prop
  | nil => False
  | cons w below beside => (a = w ∧ v ∈ below.nodes) ∨ Under a v below ∨ Under a v beside

variable [DecidableEq ν]

def graft (p c : ν) : Forest ν → Forest ν
  | nil => nil
  | cons v below beside =>
    cons v (if v = p then cons c nil below else graft p c below) (graft p c beside)

def prune (c : ν) : Forest ν → Forest ν
  | nil => nil
  | cons v below beside => if v = c then beside else cons v (prune c below) (prune c beside)

end Forest

/-- The tree under `top` has these nodes below it, each once. -/
structure Rooted {ν : Type} (t : TreeLinks ν) (top : ν) (f : Forest ν) : Prop where
  children : t.children top = f.roots
  holds : f.Holds t top
  nodup : (top :: f.nodes).Nodup

section Shapes
variable {ν : Type} {t t' : TreeLinks ν} {f : Forest ν} {p v : ν}

theorem Forest.roots_sublist (f : Forest ν) : f.roots.Sublist f.nodes := by
  induction f with
  | nil => exact List.Sublist.slnil
  | cons v below beside _ ih =>
    apply List.Sublist.cons_cons
    exact ih.trans (List.sublist_append_right ..)

theorem Forest.nil_of_roots (h : f.roots = []) : f = .nil := by
  cases f with
  | nil => rfl
  | cons => cases h

theorem Forest.Holds.parent_of_root (h : f.Holds t p) (hv : v ∈ f.roots) :
    t.parent v = some p := by
  induction f with
  | nil => cases hv
  | cons w below beside _ ih =>
    rcases List.mem_cons.mp hv with rfl | hv
    · exact h.1
    · exact ih h.2.2.2 hv

theorem Forest.Under.mem (h : f.Under a v) : a ∈ f.nodes ∧ v ∈ f.nodes := by
  induction f with
  | nil => cases h
  | cons w below beside ihb ihs =>
    simp only [Forest.nodes,List.mem_cons,List.mem_append]
    rcases h with ⟨rfl,hv⟩ | h | h
    · exact ⟨.inl rfl,.inr (.inl hv)⟩
    · exact ⟨.inr (.inl (ihb h).1),.inr (.inl (ihb h).2)⟩
    · exact ⟨.inr (.inr (ihs h).1),.inr (.inr (ihs h).2)⟩

theorem Forest.Under.trans (hn : f.nodes.Nodup) (h : f.Under a b) (h' : f.Under b v) :
    f.Under a v := by
  induction f with
  | nil => cases h
  | cons w below beside ihb ihs =>
    obtain ⟨hw,hrest⟩ := List.nodup_cons.mp hn
    obtain ⟨hnb,hns,hapart⟩ := List.nodup_append.mp hrest
    have hne : b ∈ below.nodes ++ beside.nodes → b ≠ w := fun hb he => hw (he ▸ hb)
    rcases h with ⟨rfl,hb⟩ | h | h
    · rcases h' with ⟨he,-⟩ | h' | h'
      · exact absurd he (hne (List.mem_append_left _ hb))
      · exact .inl ⟨rfl,h'.mem.2⟩
      · exact absurd rfl (hapart b hb b h'.mem.1)
    · have hb := h.mem.2
      rcases h' with ⟨he,-⟩ | h' | h'
      · exact absurd he (hne (List.mem_append_left _ hb))
      · exact .inr (.inl (ihb hnb h h'))
      · exact absurd rfl (hapart b hb b h'.mem.1)
    · have hb := h.mem.2
      rcases h' with ⟨he,-⟩ | h' | h'
      · exact absurd he (hne (List.mem_append_right _ hb))
      · exact absurd rfl (hapart b h'.mem.1 b hb)
      · exact .inr (.inr (ihs hns h h'))

theorem Forest.Holds.above_of_mem (h : f.Holds t p) (hv : v ∈ f.nodes) : t.Above p v := by
  induction f generalizing p with
  | nil => cases hv
  | cons w below beside ihb ihs =>
    obtain ⟨hw,-,hbelow,hbeside⟩ := h
    simp only [Forest.nodes,List.mem_cons,List.mem_append] at hv
    rcases hv with rfl | hv | hv
    · exact .single hw
    · exact .head hw (ihb hbelow hv)
    · exact ihs hbeside hv

theorem Forest.Holds.above_of_under (h : f.Holds t p) (hu : f.Under a v) : t.Above a v := by
  induction f generalizing p with
  | nil => cases hu
  | cons w below beside ihb ihs =>
    obtain ⟨-,-,hbelow,hbeside⟩ := h
    rcases hu with ⟨rfl,hv⟩ | hu | hu
    · exact hbelow.above_of_mem hv
    · exact ihb hbelow hu
    · exact ihs hbeside hu

theorem Forest.Holds.parent_cases (h : f.Holds t p) (hv : v ∈ f.nodes)
    (ha : t.parent v = some a) : a = p ∨ f.Under a v := by
  induction f generalizing p with
  | nil => cases hv
  | cons w below beside ihb ihs =>
    obtain ⟨hw,-,hbelow,hbeside⟩ := h
    simp only [Forest.nodes,List.mem_cons,List.mem_append] at hv
    rcases hv with rfl | hv | hv
    · exact .inl (Option.some.inj (ha.symm.trans hw))
    · rcases ihb hbelow hv with rfl | hu
      · exact .inr (.inl ⟨rfl,hv⟩)
      · exact .inr (.inr (.inl hu))
    · rcases ihs hbeside hv with rfl | hu
      · exact .inl rfl
      · exact .inr (.inr (.inr hu))

theorem TreeLinks.Above.parent (h : t.Above a v) : ∃ b, t.parent v = some b := by
  cases h with
  | single hp => exact ⟨_,hp⟩
  | tail _ hp => exact ⟨_,hp⟩

/-- The ancestors of a node are its ancestors in the forest, the top and what is above it. -/
theorem Forest.Holds.above_cases (h : f.Holds t p) (hn : f.nodes.Nodup) (hv : v ∈ f.nodes)
    (ha : t.Above a v) : f.Under a v ∨ a = p ∨ t.Above a p := by
  induction ha with
  | single hp =>
    rcases h.parent_cases hv hp with he | hu
    · exact .inr (.inl he)
    · exact .inl hu
  | @tail b v hab hp ih =>
    rcases h.parent_cases hv hp with rfl | hu
    · exact .inr (.inr hab)
    · exact (ih hu.mem.1).imp_left fun hab => hab.trans hn hu

theorem Forest.Under.ne (hn : f.nodes.Nodup) (h : f.Under a v) : a ≠ v := by
  induction f with
  | nil => cases h
  | cons w below beside ihb ihs =>
    obtain ⟨hw,hrest⟩ := List.nodup_cons.mp hn
    obtain ⟨hnb,hns,-⟩ := List.nodup_append.mp hrest
    rcases h with ⟨rfl,hv⟩ | h | h
    · rintro rfl
      exact hw (List.mem_append_left _ hv)
    · exact ihb hnb h
    · exact ihs hns h

/-- Nothing is above itself. -/
theorem Rooted.acyclic {top : ν} (h : Rooted t top f) (htop : t.parent top = none)
    (hv : v ∈ top :: f.nodes) : ¬t.Above v v := by
  have hroot : ∀ x, ¬t.Above x top := by
    intro x hx
    obtain ⟨b,hb⟩ := hx.parent
    cases htop.symm.trans hb
  obtain ⟨hout,hnodes⟩ := List.nodup_cons.mp h.nodup
  intro habove
  rcases List.mem_cons.mp hv with rfl | hv
  · exact hroot v habove
  · rcases h.holds.above_cases hnodes hv habove with hu | he | hup
    · exact hu.ne hnodes rfl
    · exact hout (he ▸ hv)
    · exact hroot v hup

theorem Forest.Holds.child (h : f.Holds t p) (hroots : ∀ r ∈ f.roots, r ∈ t.children p)
    (hv : v ∈ f.nodes) (hb : t.parent v = some b) : v ∈ t.children b := by
  induction f generalizing p with
  | nil => cases hv
  | cons w below beside ihb ihs =>
    obtain ⟨hw,hc,hbelow,hbeside⟩ := h
    simp only [Forest.nodes,List.mem_cons,List.mem_append] at hv
    rcases hv with rfl | hv | hv
    · cases hw.symm.trans hb
      exact hroots v List.mem_cons_self
    · refine ihb hbelow (fun r hr => ?_) hv
      rw [hc]
      exact hr
    · exact ihs hbeside (fun r hr => hroots r (List.mem_cons_of_mem _ hr)) hv

theorem Forest.Holds.closed (h : f.Holds t p) (hv : v ∈ f.nodes) (hc : c ∈ t.children v) :
    c ∈ f.nodes := by
  induction f generalizing p with
  | nil => cases hv
  | cons w below beside ihb ihs =>
    obtain ⟨-,hw,hbelow,hbeside⟩ := h
    simp only [Forest.nodes,List.mem_cons,List.mem_append] at hv ⊢
    rcases hv with rfl | hv | hv
    · rw [hw] at hc
      exact .inr (.inl (below.roots_sublist.mem hc))
    · exact .inr (.inl (ihb hbelow hv))
    · exact .inr (.inr (ihs hbeside hv))

/-- A tree inside a tree has all that the links lead up to its top. -/
theorem Rooted.mem_of_above {top : ν} {g : Forest ν} (h : Rooted t top f)
    (htop : t.parent top = none) (hg : Rooted t a g) (hv : v ∈ f.nodes) (ha : t.Above a v) :
    v ∈ g.nodes := by
  have hchild : ∀ x ∈ f.nodes, ∀ b, t.parent x = some b → x ∈ t.children b := by
    intro x hx b hb
    refine h.holds.child (fun r hr => ?_) hx hb
    rw [h.children]
    exact hr
  induction ha with
  | single hp =>
    have hc := hchild _ hv _ hp
    rw [hg.children] at hc
    exact g.roots_sublist.mem hc
  | @tail b v hab hp ih =>
    have hb : b ∈ f.nodes := by
      rcases h.holds.parent_cases hv hp with rfl | hu
      · cases hab with
        | single hq => cases htop.symm.trans hq
        | tail _ hq => cases htop.symm.trans hq
      · exact hu.mem.1
    exact hg.holds.closed (ih hb) (hchild _ hv _ hp)

/-- Every node is the top of a tree of its own. -/
theorem Forest.Holds.subtree (h : f.Holds t p) (hn : f.nodes.Nodup) (hv : v ∈ f.nodes) :
    ∃ g, Rooted t v g ∧ g.nodes.length < f.nodes.length ∧ ∀ x ∈ g.nodes, x ∈ f.nodes := by
  induction f generalizing p with
  | nil => cases hv
  | cons w below beside ihb ihs =>
    obtain ⟨-,hc,hbelow,hbeside⟩ := h
    obtain ⟨hw,hrest⟩ := List.nodup_cons.mp hn
    obtain ⟨hnb,hns,-⟩ := List.nodup_append.mp hrest
    simp only [Forest.nodes,List.mem_cons,List.mem_append,List.length_cons,
      List.length_append] at hv ⊢
    rcases hv with rfl | hv | hv
    · have hout : v ∉ below.nodes := fun hm => hw (List.mem_append_left _ hm)
      exact ⟨below,⟨hc,hbelow,List.nodup_cons.mpr ⟨hout,hnb⟩⟩,by omega,fun x hx => .inr (.inl hx)⟩
    · obtain ⟨g,hg,hlen,hmem⟩ := ihb hbelow hnb hv
      exact ⟨g,hg,by omega,fun x hx => .inr (.inl (hmem x hx))⟩
    · obtain ⟨g,hg,hlen,hmem⟩ := ihs hbeside hns hv
      exact ⟨g,hg,by omega,fun x hx => .inr (.inr (hmem x hx))⟩

end Shapes

section Updates
variable {ν : Type} [DecidableEq ν] {t : TreeLinks ν} {f : Forest ν} {top p q c v : ν}

theorem Forest.roots_graft (f : Forest ν) (p c : ν) : (f.graft p c).roots = f.roots := by
  induction f with
  | nil => rfl
  | cons v below beside _ ih => simp [Forest.graft,Forest.roots,ih]

theorem Forest.graft_of_not_mem (hp : p ∉ f.nodes) : f.graft p c = f := by
  induction f with
  | nil => rfl
  | cons v below beside ihb ihs =>
    simp only [Forest.nodes,List.mem_cons,List.mem_append,not_or] at hp
    rw [Forest.graft,if_neg (Ne.symm hp.1),ihb hp.2.1,ihs hp.2.2]

theorem Forest.nodes_graft (hp : p ∈ f.nodes) (hn : f.nodes.Nodup) :
    (f.graft p c).nodes.Perm (c :: f.nodes) := by
  induction f with
  | nil => cases hp
  | cons v below beside ihb ihs =>
    obtain ⟨hv,hrest⟩ := List.nodup_cons.mp hn
    obtain ⟨hnb,hns,hapart⟩ := List.nodup_append.mp hrest
    have hswap : ∀ l : List ν, (v :: c :: l).Perm (c :: v :: l) := fun l => List.Perm.swap ..
    simp only [Forest.nodes,List.mem_cons,List.mem_append] at hp
    by_cases he : v = p
    · subst he
      rw [List.mem_append,not_or] at hv
      rw [Forest.graft,if_pos rfl,Forest.graft_of_not_mem hv.2]
      exact hswap _
    · rw [Forest.graft,if_neg he]
      rcases hp with rfl | hp | hp
      · exact absurd rfl he
      · have hout : p ∉ beside.nodes := fun hm => hapart p hp p hm rfl
        rw [Forest.graft_of_not_mem hout]
        exact (((ihb hp hnb).append_right beside.nodes).cons v).trans (hswap _)
      · have hout : p ∉ below.nodes := fun hm => hapart p hm p hp rfl
        rw [Forest.graft_of_not_mem hout]
        apply (((ihs hp hns).append_left below.nodes).cons v).trans
        exact (List.perm_middle.cons v).trans (hswap _)

/-- The new links below `p` are those of the forest with the new leaf. -/
theorem Forest.Holds.graft (h : f.Holds t q) (hn : f.nodes.Nodup) (hc : c ∉ f.nodes)
    (hpc : p ≠ c) : (f.graft p c).Holds (t.graft p c) q := by
  induction f generalizing q with
  | nil => trivial
  | cons v below beside ihb ihs =>
    obtain ⟨hv,hchildren,hbelow,hbeside⟩ := h
    obtain ⟨hout,hrest⟩ := List.nodup_cons.mp hn
    obtain ⟨hnb,hns,-⟩ := List.nodup_append.mp hrest
    simp only [Forest.nodes,List.mem_cons,List.mem_append,not_or] at hc hout
    have hvc : v ≠ c := Ne.symm hc.1
    refine ⟨(Function.update_of_ne hvc ..).trans hv,?_,?_,ihs hbeside hns hc.2.2⟩
    · by_cases he : v = p
      · subst he
        rw [if_pos rfl]
        exact (Function.update_self ..).trans (congrArg _ hchildren)
      · rw [if_neg he,Forest.roots_graft]
        exact ((Function.update_of_ne he ..).trans (Function.update_of_ne hvc ..)).trans hchildren
    · by_cases he : v = p
      · subst he
        rw [if_pos rfl]
        refine ⟨Function.update_self ..,?_,trivial,?_⟩
        · exact (Function.update_of_ne hpc.symm ..).trans (Function.update_self ..)
        · have hold := ihb hbelow hnb hc.2.1
          rw [Forest.graft_of_not_mem hout.1] at hold
          exact hold
      · rw [if_neg he]
        exact ihb hbelow hnb hc.2.1

theorem Rooted.graft (h : Rooted t top f) (hp : p ∈ top :: f.nodes) (hc : c ∉ top :: f.nodes) :
    ∃ g, Rooted (t.graft p c) top g ∧ (top :: g.nodes).Perm (c :: top :: f.nodes) := by
  obtain ⟨htop,hnodes⟩ := List.nodup_cons.mp h.nodup
  rw [List.mem_cons,not_or] at hc
  have hpc : p ≠ c := by
    rintro rfl
    rcases List.mem_cons.mp hp with he | hm
    · exact hc.1 he
    · exact hc.2 hm
  have hholds := h.holds.graft (p := p) hnodes hc.2 hpc
  have hswap : (top :: c :: f.nodes).Perm (c :: top :: f.nodes) := List.Perm.swap ..
  have hnew : (c :: top :: f.nodes).Nodup :=
    List.nodup_cons.mpr ⟨by simpa using hc,h.nodup⟩
  by_cases he : p = top
  · subst he
    rw [Forest.graft_of_not_mem htop] at hholds
    refine ⟨.cons c .nil f,⟨?_,⟨?_,?_,trivial,hholds⟩,?_⟩,hswap⟩
    · exact (Function.update_self ..).trans (congrArg _ h.children)
    · exact Function.update_self ..
    · exact (Function.update_of_ne hpc.symm ..).trans (Function.update_self ..)
    · exact hswap.nodup_iff.mpr hnew
  · have hmem : p ∈ f.nodes := (List.mem_cons.mp hp).resolve_left he
    have hperm := ((Forest.nodes_graft (c := c) hmem hnodes).cons top).trans hswap
    refine ⟨f.graft p c,⟨?_,hholds,hperm.nodup_iff.mpr hnew⟩,hperm⟩
    rw [Forest.roots_graft,← h.children]
    exact (Function.update_of_ne (Ne.symm he) ..).trans (Function.update_of_ne (Ne.symm hc.1) ..)

theorem Forest.roots_prune (f : Forest ν) (c : ν) : (f.prune c).roots = f.roots.erase c := by
  induction f with
  | nil => rfl
  | cons v below beside _ ih =>
    rw [Forest.prune,Forest.roots]
    split
    next he => rw [he,List.erase_cons_head]
    next hne => rw [Forest.roots,ih,List.erase_cons_tail (by simpa using hne)]

theorem Forest.prune_of_not_mem (hc : c ∉ f.nodes) : f.prune c = f := by
  induction f with
  | nil => rfl
  | cons v below beside ihb ihs =>
    simp only [Forest.nodes,List.mem_cons,List.mem_append,not_or] at hc
    rw [Forest.prune,if_neg (Ne.symm hc.1),ihb hc.2.1,ihs hc.2.2]

theorem Forest.Holds.nodes_prune (h : f.Holds t q) (hn : f.nodes.Nodup) (hc : c ∈ f.nodes)
    (hleaf : t.children c = []) : f.nodes.Perm (c :: (f.prune c).nodes) := by
  induction f generalizing q with
  | nil => cases hc
  | cons v below beside ihb ihs =>
    obtain ⟨-,hchildren,hbelow,hbeside⟩ := h
    obtain ⟨hv,hrest⟩ := List.nodup_cons.mp hn
    obtain ⟨hnb,hns,hapart⟩ := List.nodup_append.mp hrest
    simp only [Forest.nodes,List.mem_cons,List.mem_append] at hc
    by_cases he : v = c
    · subst he
      rw [Forest.prune,if_pos rfl,Forest.nil_of_roots (hchildren.symm.trans hleaf)]
      exact List.Perm.refl _
    · have hswap : ∀ l : List ν, (v :: c :: l).Perm (c :: v :: l) := fun l => List.Perm.swap ..
      rw [Forest.prune,if_neg he]
      rcases hc with rfl | hc | hc
      · exact absurd rfl he
      · have hout : c ∉ beside.nodes := fun hm => hapart c hc c hm rfl
        rw [Forest.prune_of_not_mem hout]
        exact (((ihb hbelow hnb hc).append_right beside.nodes).cons v).trans (hswap _)
      · have hout : c ∉ below.nodes := fun hm => hapart c hm c hc rfl
        rw [Forest.prune_of_not_mem hout]
        apply (((ihs hbeside hns hc).append_left below.nodes).cons v).trans
        exact (List.perm_middle.cons v).trans (hswap _)

/-- The links without a leaf are those of the forest without it. -/
theorem Forest.Holds.prune (h : f.Holds t q) (hn : f.nodes.Nodup) (hp : t.parent c = some p) :
    (f.prune c).Holds (t.prune p c) q := by
  induction f generalizing q with
  | nil => trivial
  | cons v below beside ihb ihs =>
    obtain ⟨hv,hchildren,hbelow,hbeside⟩ := h
    obtain ⟨hout,hrest⟩ := List.nodup_cons.mp hn
    obtain ⟨hnb,hns,-⟩ := List.nodup_append.mp hrest
    rw [Forest.prune]
    split
    next he =>
      subst he
      have hold := ihs hbeside hns
      rw [List.mem_append,not_or] at hout
      rw [Forest.prune_of_not_mem hout.2] at hold
      exact hold
    next hne =>
      refine ⟨hv,?_,ihb hbelow hnb,ihs hbeside hns⟩
      rw [Forest.roots_prune,← hchildren]
      by_cases he : v = p
      · subst he
        exact Function.update_self ..
      · have hnot : c ∉ t.children v := by
          intro hm
          rw [hchildren] at hm
          exact he (Option.some.inj ((hbelow.parent_of_root hm).symm.trans hp))
        rw [List.erase_of_not_mem hnot]
        exact Function.update_of_ne he ..

theorem Rooted.prune (h : Rooted t top f) (hc : c ∈ f.nodes) (hleaf : t.children c = [])
    (hp : t.parent c = some p) :
    ∃ g, Rooted (t.prune p c) top g ∧ (top :: f.nodes).Perm (c :: top :: g.nodes) := by
  obtain ⟨-,hnodes⟩ := List.nodup_cons.mp h.nodup
  have hswap : (top :: c :: (f.prune c).nodes).Perm (c :: top :: (f.prune c).nodes) :=
    List.Perm.swap ..
  have hperm := ((h.holds.nodes_prune hnodes hc hleaf).cons top).trans hswap
  have hrest := (List.nodup_cons.mp (hperm.nodup_iff.mp h.nodup)).2
  refine ⟨f.prune c,⟨?_,h.holds.prune hnodes hp,hrest⟩,hperm⟩
  rw [Forest.roots_prune,← h.children]
  by_cases he : top = p
  · subst he
    exact Function.update_self ..
  · have hnot : c ∉ t.children top := by
      intro hm
      rw [h.children] at hm
      exact he (Option.some.inj ((h.holds.parent_of_root hm).symm.trans hp))
    rw [List.erase_of_not_mem hnot]
    exact Function.update_of_ne he ..

/-- A new leaf is above nobody. -/
theorem Rooted.above_graft (h : Rooted t top f) (htop : t.parent top = none)
    (hc : c ∉ top :: f.nodes) (hv : v ∈ top :: f.nodes) (ha : (t.graft p c).Above a v) :
    t.Above a v := by
  have hold : ∀ x ∈ top :: f.nodes, ∀ b, (t.graft p c).parent x = some b →
      t.parent x = some b ∧ b ∈ top :: f.nodes := by
    intro x hx b hb
    have hne : x ≠ c := fun he => hc (he ▸ hx)
    have hb : t.parent x = some b := (Function.update_of_ne hne ..).symm.trans hb
    refine ⟨hb,?_⟩
    rcases List.mem_cons.mp hx with rfl | hx
    · cases htop.symm.trans hb
    · rcases h.holds.parent_cases hx hb with rfl | hu
      · exact List.mem_cons_self
      · exact List.mem_cons_of_mem _ hu.mem.1
  induction ha with
  | single hp => exact .single (hold _ hv _ hp).1
  | @tail b v hab hp ih =>
    obtain ⟨hpar,hb⟩ := hold _ hv _ hp
    exact .tail (ih hb) hpar

end Updates

section Bounds
variable {ν α : Type} [Preorder α] {limit : ν → Option α} {f : Forest ν} {q : Option α}

/-- Going down from the bound `q`, no limit is above the one that is in force. -/
def Forest.Bounded (limit : ν → Option α) (q : Option α) : Forest ν → Prop
  | nil => True
  | cons v below beside =>
    (∀ r ∈ limit v, ∀ b ∈ q, r ≤ b) ∧ below.Bounded limit (limit v <|> q) ∧
      beside.Bounded limit q

/-- This is so when no limit is above that of any ancestor. -/
theorem Forest.bounded_iff : f.Bounded limit q ↔
    (∀ v ∈ f.nodes, ∀ r ∈ limit v, ∀ b ∈ q, r ≤ b) ∧
      ∀ a v, f.Under a v → ∀ r ∈ limit v, ∀ b ∈ limit a, r ≤ b := by
  induction f generalizing q with
  | nil => simp [Forest.Bounded,Forest.nodes,Forest.Under]
  | cons w below beside ihb ihs =>
    simp only [Forest.Bounded,Forest.nodes,Forest.Under,List.mem_cons,List.mem_append]
    rw [ihb,ihs]
    constructor
    · rintro ⟨hw,⟨hbelow,hunder⟩,hbeside,hother⟩
      constructor
      · rintro v (rfl | hv | hv) r hr b hb
        · exact hw r hr b hb
        · cases hl : limit w with
          | none => exact hbelow v hv r hr b (by rw [hl]; exact hb)
          | some x => exact (hbelow v hv r hr x (by rw [hl]; rfl)).trans (hw x hl b hb)
        · exact hbeside v hv r hr b hb
      · rintro a v (⟨rfl,hv⟩ | hu | hu) r hr b hb
        · exact hbelow v hv r hr b (by rw [show limit a = some b from hb]; rfl)
        · exact hunder a v hu r hr b hb
        · exact hother a v hu r hr b hb
    · rintro ⟨hall,hunder⟩
      refine ⟨hall w (.inl rfl),⟨?_,?_⟩,?_,?_⟩
      · intro v hv r hr b hb
        cases hl : limit w with
        | none =>
          rw [hl] at hb
          exact hall v (.inr (.inl hv)) r hr b hb
        | some x =>
          rw [hl] at hb
          cases hb
          exact hunder w v (.inl ⟨rfl,hv⟩) r hr b hl
      · exact fun a v hu => hunder a v (.inr (.inl hu))
      · exact fun v hv => hall v (.inr (.inr hv))
      · exact fun a v hu => hunder a v (.inr (.inr hu))

/-- In a whole tree the ancestors are those that the links lead to. -/
theorem Rooted.bounded_iff {t : TreeLinks ν} {top : ν} [DecidableEq ν] (h : Rooted t top f)
    (htop : t.parent top = none) : f.Bounded limit none ↔
      ∀ a ∈ f.nodes, ∀ v ∈ f.nodes, t.Above a v → ∀ r ∈ limit v, ∀ b ∈ limit a, r ≤ b := by
  obtain ⟨hout,hnodes⟩ := List.nodup_cons.mp h.nodup
  rw [Forest.bounded_iff]
  constructor
  · rintro ⟨-,hunder⟩ a ha v hv habove
    rcases h.holds.above_cases hnodes hv habove with hu | rfl | hup
    · exact hunder a v hu
    · exact absurd ha hout
    · cases hup with
      | single hp => cases htop.symm.trans hp
      | tail _ hp => cases htop.symm.trans hp
  · intro hall
    refine ⟨nofun,fun a v hu => ?_⟩
    obtain ⟨ha,hv⟩ := hu.mem
    exact hall a ha v hv (h.holds.above_of_under hu)

end Bounds

end LotteryScheduler.Lib
