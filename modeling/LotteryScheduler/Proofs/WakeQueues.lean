import LotteryScheduler.Model.WakeQueue
import LotteryScheduler.Proofs.Runs

namespace LotteryScheduler.Proofs
open Lib Model

/-- What the head and the links say about the tasks whose nodes a context owns. -/
def Shaped (next : Tid → Cell Tid) (head : WakeQHead) (l : List Tid) : WakeQPc → Prop
  | .ready | .get _ | .put _ => Chain next head.first l ∧ head.lastp = l.getLast?
  | .link p _ => ∃ l', l = l' ++ [p] ∧ Chain next head.first l' ∧ head.lastp = l'.getLast? ∧
      next p = .tail
  | .advance p _ => Chain next head.first l ∧ l.getLast? = some p
  | .loop node | .wake _ node | .drop _ node => Chain next node l
  | .clear p node => ∃ l', l = p :: l' ∧ Chain next node l'
  | .flushed => l = []

/-- Each linked node is owned by one context, whose list it is on. -/
structure Linked (w : WakeQState) (q : Context → List Tid) : Prop where
  shape : ∀ c, Shaped w.next (w.head c) (q c) (w.pc c)
  nodup : ∀ c, (q c).Nodup
  apart : ∀ p c d, p ∈ q c → p ∈ q d → c = d
  linked : ∀ p, w.next p ≠ .null ↔ ∃ c, p ∈ q c

/-- The task that a context has taken off its list and not yet woken. -/
def inHand : WakeQPc → Option Tid
  | .wake p _ => some p
  | _ => none

/-- The task of which a context is to take a reference. -/
def takes : WakeQPc → Option Tid
  | .link p false | .advance p false | .get p => some p
  | _ => none

/-- The task of which a context is to drop a reference. -/
def gives : WakeQPc → Option Tid
  | .put p | .drop p _ => some p
  | _ => none

/-- What one step of a context can be, given who owns which nodes: from where to where it
goes, what it owns afterwards, and what the others get to know of it. -/
inductive Move (q : Context → List Tid) (c : Context) :
    WakeQPc → WakeQPc → List Tid → List WakeQEvent → Prop where
  | silent (hand : inHand k = none) (hand' : inHand k' = none) (take : takes k' = takes k)
    (give : gives k' = gives k) : Move q c k k' (q c) []
  | lost (owned : p ∈ q d) :
    Move q c .ready (if safe then .put p else .ready) (q c) [.add c p safe false]
  | won : Move q c .ready (.link p safe) (q c ++ [p]) [.add c p safe true]
  | get : Move q c (.get p) .ready (q c) [.get c p]
  | put : Move q c (.put p) .ready (q c) [.put c p]
  | clear (first : q c = p :: l) : Move q c (.clear p node) (.wake p node) l []
  | wake : Move q c (.wake p node) (.drop p node) (q c) [.wake c p]
  | drop : Move q c (.drop p node) (.loop node) (q c) [.put c p]

def contextOf : WakeQEvent → Context
  | .add c _ _ _ | .get c _ | .put c _ | .wake c _ => c

/-- What an event does to the references of a task. -/
def refChange (p : Tid) : WakeQEvent → Int
  | .get _ x => if x = p then 1 else 0
  | .put _ x => if x = p then -1 else 0
  | .add _ _ _ _ | .wake _ _ => 0

/-- What a step makes of the kernel: the wakeup of the task in hand, if there is one. -/
def Woke (b : Build) (hand : Option Tid) (s t : Kernel) : Prop :=
  match hand with
  | some p => ∃ e, wakeUpProcess b e p s = .ok t
  | none => t = s

/-- A step of one context. Only a wakeup reaches the runqueues. -/
structure Moved (b : Build) (q : Context → List Tid) (c : Context) (l : List Tid)
    (evs : List WakeQEvent) (w w' : WakeQState) : Prop where
  linked : Linked w' (Function.update q c l)
  move : Move q c (w.pc c) (w'.pc c) l evs
  others : ∀ d, d ≠ c → w'.pc d = w.pc d
  heads : ∀ d, d ≠ c → w'.head d = w.head d
  trace : w'.trace = w.trace ++ evs
  usage : ∀ p, w'.usage p = w.usage p + (evs.map (refChange p)).sum
  kernel : Woke b (inHand (w.pc c)) w.kernel w'.kernel

theorem Woke.idle (hk : k = k') (hn : inHand k' = none) : Woke b (inHand k) s s := by
  rw [hk,hn]
  rfl

section Shapes
variable {next next' : Tid → Cell Tid} {head : WakeQHead} {l : List Tid} {k : WakeQPc}

theorem Shaped.frame (h : Shaped next head l k) (hn : ∀ p ∈ l, next' p = next p) :
    Shaped next' head l k := by
  cases k with
  | ready | get _ | put _ => exact ⟨h.1.frame hn,h.2⟩
  | link p safe =>
    obtain ⟨l',rfl,hc,hl,hp⟩ := h
    refine ⟨l',rfl,hc.frame fun x hx => hn x (List.mem_append_left _ hx),hl,?_⟩
    rw [hn p (by simp),hp]
  | advance p safe => exact ⟨h.1.frame hn,h.2⟩
  | loop node | wake p node | drop p node => exact Chain.frame h hn
  | clear p node =>
    obtain ⟨l',rfl,hc⟩ := h
    exact ⟨l',rfl,hc.frame fun x hx => hn x (List.mem_cons_of_mem _ hx)⟩
  | flushed => exact h

end Shapes

section Owners
variable {w w' : WakeQState} {q : Context → List Tid} {c : Context} {l : List Tid} {p : Tid}

theorem Linked.free (h : Linked w q) (hp : w.next p = .null) (d : Context) : p ∉ q d :=
  fun hm => (h.linked p).mpr ⟨d,hm⟩ hp

/-- One context changes what it owns, and nobody else's nodes. -/
theorem Linked.update (h : Linked w q) (hhead : ∀ d, d ≠ c → w'.head d = w.head d)
    (hpc : ∀ d, d ≠ c → w'.pc d = w.pc d) (hnext : ∀ p, p ∉ q c → p ∉ l → w'.next p = w.next p)
    (hshape : Shaped w'.next (w'.head c) l (w'.pc c)) (hu : l.Nodup)
    (hnew : ∀ p ∈ l, p ∈ q c ∨ w.next p = .null) (hset : ∀ p ∈ l, w'.next p ≠ .null)
    (hleft : ∀ p ∈ q c, p ∉ l → w'.next p = .null) : Linked w' (Function.update q c l) := by
  have hothers : ∀ d, d ≠ c → ∀ p ∈ q d, p ∉ q c ∧ p ∉ l := by
    intro d hd p hp
    have hown : p ∉ q c := fun hc => hd (h.apart p d c hp hc)
    refine ⟨hown,fun hl => ?_⟩
    rcases hnew p hl with hc | hn
    · exact hown hc
    · exact h.free hn d hp
  constructor
  · intro d
    by_cases hd : d = c
    · subst hd
      rwa [Function.update_self]
    · rw [Function.update_of_ne hd,hhead d hd,hpc d hd]
      refine (h.shape d).frame fun p hp => ?_
      exact hnext p (hothers d hd p hp).1 (hothers d hd p hp).2
  · intro d
    by_cases hd : d = c
    · subst hd
      rwa [Function.update_self]
    · rw [Function.update_of_ne hd]
      exact h.nodup d
  · intro p d d' hp hp'
    by_cases hd : d = c <;> by_cases hd' : d' = c
    · rw [hd,hd']
    · subst hd
      rw [Function.update_self] at hp
      rw [Function.update_of_ne hd'] at hp'
      exact absurd hp (hothers d' hd' p hp').2
    · subst hd'
      rw [Function.update_self] at hp'
      rw [Function.update_of_ne hd] at hp
      exact absurd hp' (hothers d hd p hp).2
    · rw [Function.update_of_ne hd] at hp
      rw [Function.update_of_ne hd'] at hp'
      exact h.apart p d d' hp hp'
  · intro p
    constructor
    · intro hn
      by_cases hl : p ∈ l
      · exact ⟨c,by rwa [Function.update_self]⟩
      · have hc : p ∉ q c := fun hc => hn (hleft p hc hl)
        rw [hnext p hc hl] at hn
        obtain ⟨d,hd⟩ := (h.linked p).mp hn
        refine ⟨d,?_⟩
        rwa [Function.update_of_ne]
        rintro rfl
        exact hc hd
    · rintro ⟨d,hp⟩
      by_cases hd : d = c
      · subst hd
        rw [Function.update_self] at hp
        exact hset p hp
      · rw [Function.update_of_ne hd] at hp
        obtain ⟨hc,hl⟩ := hothers d hd p hp
        rw [hnext p hc hl]
        exact (h.linked p).mpr ⟨d,hp⟩

/-- A step within a context that leaves the links as they are. -/
theorem Linked.stay (h : Linked w q) (hhead : ∀ d, d ≠ c → w'.head d = w.head d)
    (hpc : ∀ d, d ≠ c → w'.pc d = w.pc d) (hnext : w'.next = w.next)
    (hshape : Shaped w'.next (w'.head c) (q c) (w'.pc c)) :
    Linked w' (Function.update q c (q c)) := by
  refine h.update hhead hpc (fun _ _ _ => by rw [hnext]) hshape (h.nodup c)
    (fun _ hp => .inl hp) (fun p hp => ?_) fun _ hp hn => absurd hp hn
  rw [hnext]
  exact (h.linked p).mpr ⟨c,hp⟩

end Owners

section Steps
variable {b : Build} {e : Env} {w w' : WakeQState} {q : Context → List Tid} {c : Context}
variable {p : Tid}

theorem goto_self (c : Context) (k : WakeQPc) (w : WakeQState) : (w.goto c k).pc c = k :=
  Function.update_self ..

theorem goto_other (k : WakeQPc) (w : WakeQState) (hd : d ≠ c) : (w.goto c k).pc d = w.pc d :=
  Function.update_of_ne hd ..

/-- Of several contexts one gets the node; the others find it taken. -/
theorem Linked.grab (h : Linked w q) (hc : w.pc c = .ready) (p : Tid) (safe : Bool) :
    ∃ l evs, Moved b q c l evs w (grabNode c p safe w) := by
  have hs := h.shape c
  simp only [hc,Shaped] at hs
  unfold grabNode
  split
  next hn =>
    obtain ⟨d,hd⟩ := (h.linked p).mp hn
    refine ⟨q c,[.add c p safe false],
      h.stay (fun _ _ => rfl) (fun d hd => goto_other _ _ hd) rfl ?_,?_,fun d hd => goto_other _ _ hd,fun _ _ => rfl,rfl,
      fun x => by simp [WakeQState.goto,refChange],.idle hc rfl⟩
    · rw [goto_self]
      cases safe <;> exact hs
    · rw [goto_self,hc]
      exact .lost hd
  next hn =>
    have hn : w.next p = .null := not_not.mp hn
    have hp := h.free hn c
    refine ⟨q c ++ [p],[.add c p safe true],h.update (fun _ _ => rfl)
      (fun d hd => goto_other _ _ hd) ?_ ?_ ?_ ?_ ?_ ?_,?_,fun d hd => goto_other _ _ hd,
      fun _ _ => rfl,rfl,fun x => by simp [WakeQState.goto,refChange],.idle hc rfl⟩
    · intro x _ hx
      refine Function.update_of_ne ?_ _ _
      rintro rfl
      simp at hx
    · rw [goto_self]
      exact ⟨q c,rfl,hs.1.update hp _,hs.2,Function.update_self ..⟩
    · exact List.nodup_append.mpr ⟨h.nodup c,by simp,by rintro x hx y hy rfl; simp_all⟩
    · intro x hx
      rcases List.mem_append.mp hx with hx | hx
      · exact .inl hx
      · obtain rfl : x = p := by simpa using hx
        exact .inr hn
    · intro x hx
      change Function.update w.next p .tail x ≠ .null
      by_cases hxp : x = p
      · rw [hxp,Function.update_self]
        exact nofun
      · rw [Function.update_of_ne hxp]
        have hx : x ∈ q c := by simpa [hxp] using hx
        exact (h.linked x).mpr ⟨c,hx⟩
    · intro x hx hn
      exact absurd (List.mem_append_left _ hx) hn
    · rw [goto_self,hc]
      exact .won

/-- A statement that moves its context on and leaves the links as they are. -/
theorem Linked.pass (h : Linked w q) {w₁ : WakeQState} {k : WakeQPc} (hhead : w₁.head = w.head)
    (hpc : w₁.pc = w.pc) (hnext : w₁.next = w.next) (hs : Shaped w.next (w.head c) (q c) k)
    (hmove : Move q c (w.pc c) k (q c) evs) (htrace : w₁.trace = w.trace ++ evs)
    (husage : ∀ p, w₁.usage p = w.usage p + (evs.map (refChange p)).sum)
    (hkernel : Woke b (inHand (w.pc c)) w.kernel w₁.kernel) :
    Moved b q c (q c) evs w (w₁.goto c k) := by
  have hothers : ∀ d, d ≠ c → (w₁.goto c k).pc d = w.pc d := by
    intro d hd
    rw [goto_other _ _ hd,hpc]
  refine ⟨h.stay (fun d _ => congrFun hhead d) hothers hnext ?_,?_,hothers,
    fun d _ => congrFun hhead d,htrace,husage,hkernel⟩
  · rw [goto_self]
    change Shaped w₁.next (w₁.head c) (q c) k
    rw [hnext,hhead]
    exact hs
  · rw [goto_self]
    exact hmove

theorem Linked.silent (h : Linked w q) {k k' : WakeQPc} (hc : w.pc c = k)
    (hs : Shaped w.next (w.head c) (q c) k') (hhand : inHand k = none) (hhand' : inHand k' = none)
    (htake : takes k' = takes k) (hgive : gives k' = gives k) :
    Moved b q c (q c) [] w (w.goto c k') := by
  refine h.pass rfl rfl rfl hs ?_ (by simp) (fun x => by simp) (.idle hc hhand)
  rw [hc]
  exact .silent hhand hhand' htake hgive

theorem Linked.enter (h : Linked w q) (call : WakeQCall) (may : mayCall w c call) :
    ∃ l evs, Moved b q c l evs w (enterCall c w call) := by
  have hs := h.shape c
  cases call with
  | wakeQInit =>
    replace may : w.pc c = .flushed := may
    simp only [may,Shaped] at hs
    refine ⟨q c,[],h.stay (fun d hd => Function.update_of_ne hd _ _)
      (fun d hd => goto_other _ _ hd) rfl ?_,?_,fun d hd => goto_other _ _ hd,
      fun d hd => Function.update_of_ne hd _ _,by simp [enterCall,WakeQState.goto],
      fun x => by simp [enterCall,WakeQState.goto],.idle may rfl⟩
    · rw [hs]
      simp only [enterCall,WakeQState.goto,Function.update_self,Shaped]
      exact ⟨.nil,rfl⟩
    · rw [may,enterCall,goto_self]
      exact .silent rfl rfl rfl rfl
  | wakeQAdd p => exact h.grab may p false
  | wakeQAddSafe p => exact h.grab may p true
  | wakeUpQ =>
    replace may : w.pc c = .ready := may
    simp only [may,Shaped] at hs
    exact ⟨_,_,h.silent may hs.1 rfl rfl rfl rfl⟩

theorem getTaskStruct_usage (c : Context) (p x : Tid) (w : WakeQState) :
    (getTaskStruct c p w).usage x =
      w.usage x + ([WakeQEvent.get c p].map (refChange x)).sum := by
  by_cases hx : x = p
  · simp [getTaskStruct,refChange,hx]
  · simp [getTaskStruct,refChange,hx,Ne.symm hx]

theorem putTaskStruct_usage (c : Context) (p x : Tid) (w : WakeQState) :
    (putTaskStruct c p w).usage x =
      w.usage x + ([WakeQEvent.put c p].map (refChange x)).sum := by
  by_cases hx : x = p
  · simp [putTaskStruct,refChange,hx]
    rfl
  · simp [putTaskStruct,refChange,hx,Ne.symm hx]

/-- The store through `lastp` puts the node that was won on the list of its context. -/
theorem Linked.linkLast (h : Linked w q) (hc : w.pc c = .link p safe) :
    Moved b q c (q c) [] w (.goto c (.advance p safe) { w with
      head := Function.update w.head c ((w.head c).linkFirst (.node p))
      next := (w.head c).linkNext (.node p) w.next }) := by
  have hs := h.shape c
  simp only [hc,Shaped] at hs
  obtain ⟨l,hl,hchain,hlast,hp⟩ := hs
  have hu := h.nodup c
  rw [hl,List.nodup_append] at hu
  have hpl : p ∉ l := fun hm => hu.2.2 p hm p (by simp) rfl
  have hnew := TailQueue.link hchain hlast hu.1 hpl hp
  rw [← hl] at hnew
  refine ⟨h.update (fun d hd => Function.update_of_ne hd _ _) (fun d hd => goto_other _ _ hd) ?_ ?_
    (h.nodup c) (fun _ hx => .inl hx) (fun x hx => hnew.next_ne_null hx)
    (fun _ hx hn => absurd hx hn),?_,fun d hd => goto_other _ _ hd,
    fun d hd => Function.update_of_ne hd _ _,by simp [WakeQState.goto],
    fun x => by simp [WakeQState.goto],.idle hc rfl⟩
  · intro x hx _
    refine TailQueue.linkNext_other hlast (fun hm => hx ?_) _ _
    rw [hl]
    exact List.mem_append_left _ hm
  · rw [goto_self]
    simp only [WakeQState.goto,Function.update_self,Shaped]
    exact ⟨hnew,by simp [hl]⟩
  · rw [hc,goto_self]
    exact .silent rfl rfl (by cases safe <;> rfl) rfl

theorem Linked.advance (h : Linked w q) (hc : w.pc c = .advance p safe) :
    Moved b q c (q c) [] w (.goto c (if safe then .ready else .get p) { w with
      head := Function.update w.head c { w.head c with lastp := some p } }) := by
  have hs := h.shape c
  simp only [hc,Shaped] at hs
  refine ⟨h.stay (fun d hd => Function.update_of_ne hd _ _) (fun d hd => goto_other _ _ hd) rfl ?_,
    ?_,fun d hd => goto_other _ _ hd,fun d hd => Function.update_of_ne hd _ _,
    by simp [WakeQState.goto],fun x => by simp [WakeQState.goto],
    .idle hc rfl⟩
  · rw [goto_self]
    simp only [WakeQState.goto,Function.update_self]
    cases safe <;> exact ⟨hs.1,hs.2.symm⟩
  · rw [hc,goto_self]
    cases safe <;> exact .silent rfl rfl rfl rfl

/-- From here on the task can be queued again, by anybody. -/
theorem Linked.clear (h : Linked w q) (hc : w.pc c = .clear p node) :
    ∃ l, Moved b q c l [] w
      (.goto c (.wake p node) { w with next := Function.update w.next p .null }) := by
  have hs := h.shape c
  simp only [hc,Shaped] at hs
  obtain ⟨l,hl,hchain⟩ := hs
  have hu := h.nodup c
  rw [hl,List.nodup_cons] at hu
  refine ⟨l,h.update (fun _ _ => rfl) (fun d hd => goto_other _ _ hd) ?_ ?_ hu.2 ?_ ?_ ?_,?_,
    fun d hd => goto_other _ _ hd,fun _ _ => rfl,by simp [WakeQState.goto],
    fun x => by simp [WakeQState.goto],
    .idle hc rfl⟩
  · intro x hx _
    refine Function.update_of_ne ?_ _ _
    rintro rfl
    exact hx (by simp [hl])
  · rw [goto_self]
    exact hchain.update hu.1 _
  · intro x hx
    refine .inl ?_
    rw [hl]
    exact List.mem_cons_of_mem _ hx
  · intro x hx
    change Function.update w.next p .null x ≠ .null
    rw [Function.update_of_ne (by rintro rfl; exact hu.1 hx)]
    refine (h.linked x).mpr ⟨c,?_⟩
    rw [hl]
    exact List.mem_cons_of_mem _ hx
  · intro x hx hn
    obtain rfl : x = p := by simpa [hl,hn] using hx
    exact Function.update_self ..
  · rw [hc,goto_self]
    exact .clear hl

/-- The walk over a list meets its nodes and its end, and nothing else, whatever the other
contexts have done to theirs meanwhile. It stops only where a wakeup does. -/
theorem Linked.statement (h : Linked w q)
    (hw : ∀ p node, w.pc c = .wake p node → ∃ s, wakeUpProcess b e p w.kernel = .ok s) :
    Returns (wakeQStatement b e c w) (fun w' => ∃ l evs, Moved b q c l evs w w') := by
  have hs := h.shape c
  unfold wakeQStatement
  cases hc : w.pc c with
  | ready | flushed =>
    have hhand : inHand (w.pc c) = none := by rw [hc]; rfl
    exact .ok ⟨q c,[],h.stay (fun _ _ => rfl) (fun _ _ => rfl) rfl (h.shape c),
      .silent hhand hhand rfl rfl,fun _ _ => rfl,fun _ _ => rfl,by simp,fun x => by simp,
      .idle hc rfl⟩
  | link p safe => exact .ok ⟨_,_,h.linkLast hc⟩
  | advance p safe => exact .ok ⟨_,_,h.advance hc⟩
  | get p =>
    rw [hc] at hs
    exact .ok ⟨_,_,h.pass rfl rfl rfl hs (hc ▸ .get) rfl (getTaskStruct_usage c p · w)
      (.idle hc rfl)⟩
  | put p =>
    rw [hc] at hs
    exact .ok ⟨_,_,h.pass rfl rfl rfl hs (hc ▸ .put) rfl (putTaskStruct_usage c p · w)
      (.idle hc rfl)⟩
  | loop node =>
    simp only [hc,Shaped] at hs
    cases node with
    | null => exact absurd rfl hs.ne_null
    | tail => exact .ok ⟨_,_,h.silent hc hs.of_tail rfl rfl rfl rfl⟩
    | node p => exact .ok ⟨_,_,h.silent hc hs.of_node rfl rfl rfl rfl⟩
  | clear p node =>
    obtain ⟨l,hl⟩ := h.clear (b := b) hc
    exact .ok ⟨_,_,hl⟩
  | wake p node =>
    obtain ⟨s,hrun⟩ := hw p node hc
    rw [hc] at hs
    dsimp only
    rw [hrun]
    exact .ok ⟨_,_,h.pass rfl rfl rfl hs (hc ▸ .wake) rfl (fun x => by simp [refChange])
      (by rw [hc]; exact ⟨e,hrun⟩)⟩
  | drop p node =>
    rw [hc] at hs
    exact .ok ⟨_,_,h.pass rfl rfl rfl hs (hc ▸ .drop) rfl (putTaskStruct_usage c p · w)
      (.idle hc rfl)⟩

theorem wakeQStatement_wake (hc : w.pc c = .wake p node)
    (hrun : wakeQStatement b e c w = .ok w') : ∃ s, wakeUpProcess b e p w.kernel = .ok s := by
  simp only [wakeQStatement,hc] at hrun
  obtain ⟨s,hs,-⟩ := bind_eq_ok.mp hrun
  exact ⟨s,hs⟩

/-- What happens is a step of one context, or it happens to the runqueue alone. -/
theorem Linked.step {others : Kernel → Op → Prop} (h : Linked w q)
    (hs : WakeQStep b others w w') : (∃ c l evs, Moved b q c l evs w w') ∨
      ∃ op e s, others w.kernel op ∧ enabled b w.kernel op ∧ exec b e op w.kernel = .ok s ∧
        w' = { w with kernel := s } := by
  cases hs with
  | call may =>
    obtain ⟨l,evs,hm⟩ := h.enter (b := b) _ may
    exact .inl ⟨_,l,evs,hm⟩
  | statement run =>
    have hm := h.statement fun p node hc => wakeQStatement_wake hc run
    exact .inl ⟨_,hm.of_ok run⟩
  | other may one run => exact .inr ⟨_,_,_,one,may,run,rfl⟩

theorem wakeUpProcess_step (h : Reachable b s) (hrun : wakeUpProcess b e p s = .ok t) :
    Reachable b t := by
  unfold wakeUpProcess at hrun
  split at hrun
  next hp => exact h.step ⟨e,.tryToWakeUp p taskNormal,⟨hp,by decide⟩,hrun⟩
  next => exact Except.ok.inj hrun ▸ h

/-- On a uniprocessor a wakeup always completes. -/
theorem wakeUpProcess_returns (e : Env) (h : Reachable b s) (huni : b.smp = false) (p : Tid) :
    ∃ t, wakeUpProcess b e p s = .ok t := by
  obtain ⟨⟨r,hr⟩,-⟩ := reachable_inv h
  unfold wakeUpProcess
  split
  next hp =>
    have hn : ¬wakeSelects b e s p taskNormal := fun hw => absurd hw.1 (by simp [huni])
    obtain ⟨a,ha,-⟩ := tryToWakeUp_spec e taskNormal hr hp (by decide) hn
    exact ⟨a.2,by simp [exec,ha,Bind.bind,Except.bind]⟩
  next => exact ⟨s,rfl⟩

end Steps

end LotteryScheduler.Proofs
