import LotteryScheduler.Lib.Journal
import LotteryScheduler.Proofs.WakeQueues
import LotteryScheduler.Properties.Wakeups

namespace LotteryScheduler.Properties
open Lib Model Proofs

section Traces

/-- The tasks whose nodes a context has won, one after another. -/
def won (c : Context) (trace : List WakeQEvent) : List Tid :=
  trace.filterMap fun
    | .add d p _ true => if d = c then some p else none
    | _ => none

/-- The tasks that it has woken. -/
def woken (c : Context) (trace : List WakeQEvent) : List Tid :=
  trace.filterMap fun
    | .wake d p => if d = c then some p else none
    | _ => none

/-- A wakeup was asked for, and none has been made since. -/
def Unanswered (p : Tid) (trace : List WakeQEvent) : Prop :=
  ∃ early c safe won late, trace = early ++ .add c p safe won :: late ∧ ∀ d, .wake d p ∉ late

/-- A call that is to take over a reference of its caller's. -/
def handsOver (p : Tid) : WakeQEvent → Bool
  | .add _ x safe _ => safe && x == p
  | _ => false

/-- What an event leaves open of the references to a task. -/
def openRefs (p : Tid) (ev : WakeQEvent) : Int :=
  refChange p ev + if handsOver p ev then 1 else 0

variable {trace evs : List WakeQEvent} {c d : Context} {p : Tid}

theorem won_append (c : Context) (trace evs : List WakeQEvent) :
    won c (trace ++ evs) = won c trace ++ won c evs := List.filterMap_append

theorem woken_append (c : Context) (trace evs : List WakeQEvent) :
    woken c (trace ++ evs) = woken c trace ++ woken c evs := List.filterMap_append

theorem won_other (h : ∀ ev ∈ evs, contextOf ev = c) (hd : d ≠ c) : won d evs = [] := by
  refine List.filterMap_eq_nil_iff.mpr fun ev hev => ?_
  have hc := h ev hev
  cases ev with
  | add x p safe w =>
    obtain rfl : x = c := hc
    cases w
    · rfl
    · exact if_neg hd.symm
  | get | put | wake => rfl

theorem woken_other (h : ∀ ev ∈ evs, contextOf ev = c) (hd : d ≠ c) : woken d evs = [] := by
  refine List.filterMap_eq_nil_iff.mpr fun ev hev => ?_
  have hc := h ev hev
  cases ev with
  | wake x p =>
    obtain rfl : x = c := hc
    exact if_neg hd.symm
  | get | put | add => rfl

/-- What happens next asks for a wakeup, or leaves one open that was asked for before. -/
theorem Unanswered.last (h : Unanswered p (trace ++ evs)) :
    (∃ c safe w, .add c p safe w ∈ evs) ∨ (Unanswered p trace ∧ ∀ d, .wake d p ∉ evs) := by
  obtain ⟨early,c,safe,w,late,he,hlate⟩ := h
  rcases List.append_eq_append_iff.mp he with ⟨l,rfl,hevs⟩ | ⟨l,rfl,hevs⟩
  · exact .inl ⟨c,safe,w,by simp [hevs]⟩
  · cases l with
    | nil =>
      refine .inl ⟨c,safe,w,?_⟩
      rw [show evs = .add c p safe w :: late from hevs.symm]
      exact List.mem_cons_self
    | cons x l =>
      obtain ⟨rfl,rfl⟩ := List.cons.inj hevs
      refine .inr ⟨⟨early,c,safe,w,l,rfl,fun d hd => ?_⟩,fun d hd => ?_⟩
      · exact hlate d (List.mem_append_left _ hd)
      · exact hlate d (List.mem_append_right _ hd)

theorem sum_openRefs (p : Tid) (trace : List WakeQEvent) : (trace.map (openRefs p)).sum =
    (trace.map (refChange p)).sum + trace.countP (handsOver p) := by
  induction trace with
  | nil => rfl
  | cons ev trace ih =>
    simp only [List.map_cons,List.sum_cons,List.countP_cons,ih,openRefs]
    split <;> push_cast <;> omega

end Traces

/-- The tasks that a context has still to wake. -/
def toWake (k : WakeQPc) (l : List Tid) : List Tid := (inHand k).toList ++ l

section Moves
variable {q : Context → List Tid} {c d : Context} {k k' : WakeQPc} {l : List Tid} {p : Tid}
variable {evs : List WakeQEvent}

theorem Move.own (h : Move q c k k' l evs) : ∀ ev ∈ evs, contextOf ev = c := by
  cases h with
  | silent | clear => exact nofun
  | lost | won | get | put | wake | drop =>
    intro ev hev
    rw [List.mem_singleton.mp hev]
    rfl

/-- What a context wins it wakes in that order. -/
theorem Move.order (h : Move q c k k' l evs) :
    toWake k (q c) ++ won c evs = woken c evs ++ toWake k' l := by
  cases h with
  | silent hand hand' => simp [toWake,hand,hand',won,woken]
  | @lost _ _ safe => cases safe <;> simp [toWake,inHand,won,woken]
  | won | get | put | wake | drop => simp [toWake,inHand,won,woken]
  | clear first => simp [toWake,inHand,won,woken,first]

/-- A task that somebody asks to wake is on a list, whoever's it is. -/
theorem Move.asked (h : Move q c k k' l evs) (ha : .add d p safe w ∈ evs) :
    ∃ x, p ∈ Function.update q c l x := by
  cases h with
  | silent | clear | get | put | wake | drop => simp at ha
  | lost owned =>
    simp only [List.mem_singleton,WakeQEvent.add.injEq] at ha
    obtain ⟨-,rfl,-⟩ := ha
    exact ⟨_,by rwa [Function.update_eq_self]⟩
  | won =>
    simp only [List.mem_singleton,WakeQEvent.add.injEq] at ha
    obtain ⟨-,rfl,-⟩ := ha
    exact ⟨c,by simp⟩

/-- The references that a context holds for the tasks it has to wake, and those it is about
to take or to drop, account for all it has done. -/
theorem Move.refs (h : Move q c k k' l evs) (p : Tid) :
    (evs.map (openRefs p)).sum + (takes k').toList.count p +
        ((toWake k (q c)).count p + (gives k).toList.count p) =
      (toWake k' l).count p + (gives k').toList.count p + (takes k).toList.count p := by
  cases h with
  | silent hand hand' take give =>
    simp [toWake,hand,hand',take,give]
    omega
  | @lost x _ safe =>
    cases safe <;>
      simp [toWake,inHand,takes,gives,openRefs,refChange,handsOver,List.count_singleton,
        Int.add_comm]
  | @won x safe =>
    cases safe <;>
      simp [toWake,inHand,takes,gives,openRefs,refChange,handsOver,List.count_singleton,
        Int.add_comm]
  | get => simp [toWake,inHand,takes,gives,openRefs,refChange,handsOver,List.count_singleton,
      Int.add_comm]
  | put | drop =>
    simp [toWake,inHand,takes,gives,openRefs,refChange,handsOver,List.count_singleton]
    split <;> omega
  | wake =>
    simp [toWake,inHand,takes,gives,openRefs,refChange,handsOver,List.count_cons]
  | clear first => simp [toWake,inHand,takes,gives,first]

end Moves

/-- What holds between any two steps: the links, and that the lists of all contexts account
for everything that was asked for. -/
structure Tended (b : Build) (usage : Tid → Int) (w : WakeQState) (q : Context → List Tid) :
    Prop where
  reach : Reachable b w.kernel
  linked : Linked w q
  order : ∀ c, won c w.trace = woken c w.trace ++ toWake (w.pc c) (q c)
  asked : ∀ p, Unanswered p w.trace → ∃ c, p ∈ toWake (w.pc c) (q c)
  refs : ∀ c p, ((w.trace.filter fun ev => contextOf ev = c).map (openRefs p)).sum +
    (takes (w.pc c)).toList.count p =
      (toWake (w.pc c) (q c)).count p + (gives (w.pc c)).toList.count p
  usage : ∀ p, w.usage p = usage p + (w.trace.map (refChange p)).sum

section Runs
variable {b : Build} {w w' : WakeQState} {q : Context → List Tid} {usage : Tid → Int}
variable {c : Context} {l : List Tid} {evs : List WakeQEvent} {p : Tid}

theorem Woke.reach (h : Reachable b s) {hand : Option Tid} (hw : Woke b hand s t) :
    Reachable b t := by
  cases hand with
  | none => exact hw ▸ h
  | some p =>
    obtain ⟨e,hrun⟩ := hw
    exact wakeUpProcess_step h hrun

theorem Tended.moved (h : Tended b usage w q) (hm : Moved b q c l evs w w') :
    Tended b usage w' (Function.update q c l) := by
  have hown := Move.own hm.move
  have horder := Move.order hm.move
  refine ⟨Woke.reach h.reach hm.kernel,hm.linked,fun d => ?_,fun p hp => ?_,fun d p => ?_,
    fun p => ?_⟩
  · rw [hm.trace,won_append,woken_append,h.order d]
    by_cases hd : d = c
    · subst hd
      rw [Function.update_self,List.append_assoc,horder,List.append_assoc]
    · rw [Function.update_of_ne hd,hm.others d hd,won_other hown hd,woken_other hown hd]
      simp
  · rw [hm.trace] at hp
    rcases hp.last with ⟨d,safe,w,ha⟩ | ⟨hu,hn⟩
    · obtain ⟨x,hx⟩ := Move.asked hm.move ha
      exact ⟨x,List.mem_append_right _ hx⟩
    · obtain ⟨d,hd⟩ := h.asked p hu
      by_cases hdc : d = c
      · subst hdc
        have hmem : p ∈ woken d evs ++ toWake (w'.pc d) l :=
          horder ▸ List.mem_append_left _ hd
        refine ⟨d,?_⟩
        rw [Function.update_self]
        refine (List.mem_append.mp hmem).resolve_left fun hwoken => ?_
        obtain ⟨ev,hev,he⟩ := List.mem_filterMap.mp hwoken
        cases ev with
        | wake x y =>
          obtain rfl : y = p := by
            dsimp only at he
            split at he <;> cases he
            rfl
          exact hn x hev
        | add | get | put => cases he
      · refine ⟨d,?_⟩
        rwa [Function.update_of_ne hdc,hm.others d hdc]
  · rw [hm.trace,List.filter_append,List.map_append,List.sum_append]
    have hold := h.refs d p
    by_cases hd : d = c
    · subst hd
      have hall : (evs.filter fun ev => contextOf ev = d) = evs :=
        List.filter_eq_self.mpr fun ev hev => decide_eq_true (hown ev hev)
      have hnew := Move.refs hm.move p
      rw [hall,Function.update_self]
      omega
    · have hnone : (evs.filter fun ev => contextOf ev = d) = [] :=
        List.filter_eq_nil_iff.mpr fun ev hev => by simp [hown ev hev,Ne.symm hd]
      rw [hnone,Function.update_of_ne hd,hm.others d hd]
      simpa using hold
  · rw [hm.usage,h.usage,hm.trace,List.map_append,List.sum_append,Int.add_assoc]

theorem Tended.step {others : Kernel → Op → Prop} (h : Tended b usage w q)
    (hs : WakeQStep b others w w') : ∃ q', Tended b usage w' q' := by
  rcases h.linked.step hs with ⟨c,l,evs,hm⟩ | ⟨op,e,s,-,may,run,rfl⟩
  · exact ⟨_,h.moved hm⟩
  · exact ⟨q,h.reach.step ⟨e,op,may,run⟩,⟨h.linked.shape,h.linked.nodup,h.linked.apart,
      h.linked.linked⟩,h.order,h.asked,h.refs,h.usage⟩

theorem Tended.run {others : Kernel → Op → Prop} (h : Tended b usage w q)
    (hr : WakeQRun b others w w') : ∃ q', Tended b usage w' q' := by
  induction hr with
  | refl => exact ⟨q,h⟩
  | tail before last ih =>
    obtain ⟨q',hq⟩ := ih
    exact hq.step last

theorem wakeQStart_tended (hs : Reachable b s) (usage : Tid → Int) :
    Tended b usage (wakeQStart usage s) fun _ => [] where
  reach := hs
  linked := by
    refine ⟨fun _ => ⟨.nil,rfl⟩,fun _ => .nil,fun _ _ _ hp => absurd hp List.not_mem_nil,
      fun _ => ⟨fun hn => absurd rfl hn,?_⟩⟩
    rintro ⟨c,hp⟩
    exact absurd hp List.not_mem_nil
  order := fun _ => rfl
  asked := by
    rintro p ⟨early,c,safe,w,late,he,-⟩
    simp [wakeQStart] at he
  refs := fun _ _ => rfl
  usage := fun p => by simp [wakeQStart]

theorem wakeQReach_tended (h : WakeQReach b usage w) : ∃ q, Tended b usage w q := by
  obtain ⟨s,hs,hr⟩ := h
  exact (wakeQStart_tended hs usage).run hr

/-- A context between two calls that has nothing left to wake. -/
def AtRest (w : WakeQState) (c : Context) : Prop :=
  w.pc c = .flushed ∨ (w.pc c = .ready ∧ (w.head c).first = .tail)

theorem Tended.atRest (h : Tended b usage w q) (hc : AtRest w c) :
    toWake (w.pc c) (q c) = [] ∧ takes (w.pc c) = none ∧ gives (w.pc c) = none := by
  have hs := h.linked.shape c
  rcases hc with hc | ⟨hc,htail⟩
  · simp only [hc,Shaped] at hs
    simp [hc,toWake,inHand,hs,takes,gives]
  · simp only [hc,Shaped,htail] at hs
    simp [hc,toWake,inHand,hs.1.of_tail,takes,gives]

/-- Every context wakes the tasks whose nodes it has won, once each and in that order, and
its walk never leaves its own list, whatever the others do to theirs. Once all are through,
every wakeup that was asked for has been made, be it by whom it was asked or by another. -/
theorem wake_q_delivers (h : WakeQReach b usage w) :
    (∀ c, w.pc c ≠ .loop .null ∧ woken c w.trace <+: won c w.trace ∧
      (AtRest w c → woken c w.trace = won c w.trace)) ∧
    ((∀ c, AtRest w c) → ∀ p, ¬Unanswered p w.trace) := by
  obtain ⟨q,hq⟩ := wakeQReach_tended h
  refine ⟨fun c => ⟨fun hc => ?_,?_,fun hc => ?_⟩,fun hrest p hp => ?_⟩
  · have hs := hq.linked.shape c
    simp only [hc,Shaped] at hs
    exact hs.ne_null rfl
  · exact ⟨_,(hq.order c).symm⟩
  · rw [hq.order c,(hq.atRest hc).1,List.append_nil]
  · obtain ⟨c,hc⟩ := hq.asked p hp
    rw [(hq.atRest (hrest c)).1] at hc
    cases hc

/-- The references balance: when all contexts are through, what the counts of a task have
lost is what its callers have handed over. -/
theorem wake_q_references (h : WakeQReach b usage w) (hrest : ∀ c, AtRest w c) (p : Tid) :
    w.usage p + w.trace.countP (handsOver p) = usage p := by
  obtain ⟨q,hq⟩ := wakeQReach_tended h
  have hzero : (w.trace.map (openRefs p)).sum = 0 := by
    refine sum_of_parties contextOf fun c => ?_
    have hc := hq.refs c p
    obtain ⟨hdue,htake,hgive⟩ := hq.atRest (hrest c)
    simpa [hdue,htake,hgive] using hc
  have hsum := sum_openRefs p w.trace
  have husage := hq.usage p
  omega

end Runs

section Wakeups
variable {b : Build} {e : Env} {w w' w₀ : WakeQState} {q : Context → List Tid} {c : Context}
variable {s t : Kernel} {l : List Tid} {evs : List WakeQEvent} {p x : Tid} {k k' : WakeQPc}

/-- Made to run, and queued. -/
def Roused (s : Kernel) (p : Tid) : Prop :=
  (s.task p).state = taskRunning ∧ (s.task p).onRq = .queued

theorem wakeUpProcess_passive (h : Reachable b s) (hp : p ∈ s.live)
    (hrun : wakeUpProcess b e x s = .ok t) : Passive p s t := by
  obtain ⟨⟨r,hr⟩,-⟩ := reachable_inv h
  unfold wakeUpProcess at hrun
  split at hrun
  next hx =>
    have he : enabled b s (.tryToWakeUp x taskNormal) := ⟨hx,by decide⟩
    exact exec_passive e hr he hp id t hrun
  next =>
    cases hrun
    exact (Poised.refl s).passive hp

/-- A task that sleeps, or has said that it will, is made to run. -/
theorem wakeUpProcess_rouses (h : Reachable b s) (hp : p ∈ s.live)
    (hm : ttwuStateMatch s p taskNormal = true) (hrun : wakeUpProcess b e p s = .ok t) :
    Roused t p := by
  obtain ⟨⟨r,hr⟩,-⟩ := reachable_inv h
  simp only [wakeUpProcess,if_pos hp,exec] at hrun
  obtain ⟨a,ha,hret⟩ := bind_eq_ok.mp hrun
  cases hret
  have hv := tryToWakeUp_written e hr hm a ha
  rw [Roused,hv.self]
  exact ⟨rfl,rfl⟩

/-- A task that does nothing itself sleeps until somebody wakes it, and then runs. -/
structure Awaits (p : Tid) (w₀ w : WakeQState) : Prop where
  live : p ∈ w.kernel.live
  cases : ∃ late, w.trace = w₀.trace ++ late ∧ (Roused w.kernel p ∨
    (ttwuStateMatch w.kernel p taskNormal = true ∧ ∀ d, .wake d p ∉ late))

theorem Passive.roused (h : Passive p s t) (hr : Roused s p) : Roused t p := by
  rcases h.change with ⟨hs,hq⟩ | hr'
  · exact ⟨hs.trans hr.1,hq.trans hr.2⟩
  · exact hr'

theorem Passive.awaits (h : Passive p s t) (hm : ttwuStateMatch s p taskNormal = true) :
    Roused t p ∨ ttwuStateMatch t p taskNormal = true := by
  rcases h.change with ⟨hs,-⟩ | hr
  · right
    rwa [ttwuStateMatch,hs]
  · exact .inl hr

theorem Move.wakes (h : Move q c k k' l evs) (hw : .wake d p ∈ evs) : inHand k = some p := by
  cases h with
  | silent | lost | won | get | put | clear | drop => simp at hw
  | wake =>
    obtain ⟨-,rfl⟩ := WakeQEvent.wake.inj (List.mem_singleton.mp hw)
    rfl

theorem Awaits.moved (h : Awaits p w₀ w) (hr : Reachable b w.kernel)
    (hm : Moved b q c l evs w w') : Awaits p w₀ w' := by
  obtain ⟨hlive,late,htrace,hcase⟩ := h
  have htrace' : w'.trace = w₀.trace ++ (late ++ evs) := by
    rw [hm.trace,htrace,List.append_assoc]
  have hkernel := hm.kernel
  cases hhand : inHand (w.pc c) with
  | none =>
    rw [hhand] at hkernel
    have hsame : w'.kernel = w.kernel := hkernel
    refine ⟨hsame ▸ hlive,_,htrace',?_⟩
    rw [hsame]
    refine hcase.imp_right ?_
    rintro ⟨hmatch,hlate⟩
    refine ⟨hmatch,fun d hd => ?_⟩
    rcases List.mem_append.mp hd with hd | hd
    · exact hlate d hd
    · have hsome := Move.wakes hm.move hd
      rw [hhand] at hsome
      cases hsome
  | some x =>
    rw [hhand] at hkernel
    obtain ⟨e,hrun⟩ := hkernel
    have hpassive := wakeUpProcess_passive hr hlive hrun
    refine ⟨hpassive.live,_,htrace',?_⟩
    rcases hcase with hroused | ⟨hmatch,hlate⟩
    · exact .inl (Passive.roused hpassive hroused)
    · by_cases hx : x = p
      · subst hx
        exact .inl (wakeUpProcess_rouses hr hlive hmatch hrun)
      · refine (Passive.awaits hpassive hmatch).imp_right fun hmatch' => ⟨hmatch',fun d hd => ?_⟩
        rcases List.mem_append.mp hd with hd | hd
        · exact hlate d hd
        · have hsome := Move.wakes hm.move hd
          rw [hhand] at hsome
          exact hx (Option.some.inj hsome)

theorem Awaits.run (h : Tended b usage w₀ q) (hp : p ∈ w₀.kernel.live)
    (hm : ttwuStateMatch w₀.kernel p taskNormal = true)
    (hr : WakeQRun b (fun s op => ¬ownOp p s op) w₀ w) : Awaits p w₀ w := by
  induction hr with
  | refl => exact ⟨hp,[],by simp,.inr ⟨hm,fun d hd => nomatch hd⟩⟩
  | @tail w w' before last ih =>
    obtain ⟨q',hq⟩ := h.run before
    rcases hq.linked.step last with ⟨c,l,evs,hmoved⟩ | ⟨op,e,s,foreign,may,run,rfl⟩
    · exact ih.moved hq.reach hmoved
    · obtain ⟨hlive,late,htrace,hcase⟩ := ih
      obtain ⟨⟨r,hr⟩,-⟩ := reachable_inv hq.reach
      have hpassive := exec_passive e hr may hlive foreign s run
      refine ⟨hpassive.live,late,htrace,?_⟩
      rcases hcase with hroused | ⟨hmatch,hlate⟩
      · exact .inl (Passive.roused hpassive hroused)
      · exact (Passive.awaits hpassive hmatch).imp_right fun hmatch' => ⟨hmatch',hlate⟩

/-- Asking for a wakeup is as good as making it: when the contexts are through, a task that
slept, or was about to, runs or is queued to run, if anybody has asked for it meanwhile,
whether it was that call that queued the task or another one before. -/
theorem wake_q_as_if (h : WakeQReach b usage w) (hp : p ∈ w.kernel.live)
    (hm : ttwuStateMatch w.kernel p taskNormal = true)
    (hr : WakeQRun b (fun s op => ¬ownOp p s op) w w') (htrace : w'.trace = w.trace ++ late)
    (hadd : .add c p safe first ∈ late) (hrest : ∀ c, AtRest w' c) :
    p ∈ w'.kernel.live ∧ Roused w'.kernel p := by
  obtain ⟨q,hq⟩ := wakeQReach_tended h
  obtain ⟨q',hq'⟩ := hq.run hr
  obtain ⟨hlive,late',htrace',hcase⟩ := Awaits.run hq hp hm hr
  obtain rfl : late = late' := List.append_cancel_left (htrace.symm.trans htrace')
  refine ⟨hlive,hcase.resolve_right ?_⟩
  rintro ⟨-,hlate⟩
  obtain ⟨l₁,l₂,rfl⟩ := List.append_of_mem hadd
  have hopen : Unanswered p w'.trace := by
    refine ⟨w.trace ++ l₁,c,safe,first,l₂,by rw [htrace,List.append_assoc],fun d hd => ?_⟩
    exact hlate d (List.mem_append_right _ (List.mem_cons_of_mem _ hd))
  obtain ⟨d,hd⟩ := hq'.asked p hopen
  rw [(hq'.atRest (hrest d)).1] at hd
  cases hd

end Wakeups

section Flushes
variable {b : Build} {w w' : WakeQState} {q : Context → List Tid} {usage : Tid → Int}
variable {c d : Context} {l : List Tid} {evs : List WakeQEvent} {k k' : WakeQPc}

/-- The statements that a context in `wake_up_q` has before it, when it has `n` tasks to
wake. -/
def statementsLeft (n : Nat) : WakeQPc → Nat
  | .loop _ => 4 * n + 1
  | .clear _ _ => 4 * n
  | .wake _ _ => 4 * n - 1
  | .drop _ _ => 4 * n + 2
  | .ready | .link _ _ | .advance _ _ | .get _ | .put _ | .flushed => 0

/-- The tasks that a context has won and not yet woken. -/
def backlog (w : WakeQState) (c : Context) : Nat :=
  (won c w.trace).length - (woken c w.trace).length

def flushLeft (w : WakeQState) (c : Context) : Nat := statementsLeft (backlog w c) (w.pc c)

theorem Tended.backlog (h : Tended b usage w q) (c : Context) :
    backlog w c = (toWake (w.pc c) (q c)).length := by
  have ho := congrArg List.length (h.order c)
  rw [List.length_append] at ho
  rw [Properties.backlog]
  omega

/-- On a uniprocessor a context in `wake_up_q` can always go on, and gets one nearer. -/
theorem Tended.flushes (h : Tended b usage w q) (huni : b.smp = false) (e : Env)
    (hleft : 0 < flushLeft w c) :
    Returns (wakeQStatement b e c w) (fun w' => flushLeft w' c + 1 = flushLeft w c) := by
  have hs := h.linked.shape c
  have hn := h.backlog c
  unfold flushLeft at hleft ⊢
  cases hc : w.pc c with
  | ready | link | advance | get | put | flushed => simp [hc,statementsLeft] at hleft
  | loop node =>
    simp only [wakeQStatement,hc]
    simp only [hc,Shaped] at hs
    cases node with
    | null => exact absurd rfl hs.ne_null
    | tail =>
      rw [hc,hs.of_tail] at hn
      refine .ok ?_
      rw [goto_self,hn]
      rfl
    | node p =>
      refine .ok ?_
      rw [goto_self]
      rfl
  | clear p node =>
    simp only [wakeQStatement,hc]
    refine .ok ?_
    rw [hc] at hleft
    rw [goto_self]
    change 4 * Properties.backlog w c - 1 + 1 = 4 * Properties.backlog w c
    replace hleft : 0 < 4 * Properties.backlog w c := hleft
    omega
  | wake p node =>
    obtain ⟨s,hrun⟩ := wakeUpProcess_returns e h.reach huni p
    simp only [wakeQStatement,hc]
    rw [hrun]
    refine .ok ?_
    rw [goto_self]
    have hnew : Properties.backlog (.goto c (.drop p node)
        { w with kernel := s, trace := w.trace ++ [.wake c p] }) c + 1 =
          Properties.backlog w c := by
      rw [hc] at hn
      simp only [Properties.backlog,WakeQState.goto,won_append,woken_append] at hn ⊢
      simp [won,woken,toWake,inHand] at hn ⊢
      omega
    simp only [statementsLeft]
    omega
  | drop p node =>
    simp only [wakeQStatement,hc]
    refine .ok ?_
    rw [goto_self]
    have hsame : Properties.backlog (.goto c (.loop node) (putTaskStruct c p w)) c =
        Properties.backlog w c := by
      simp only [Properties.backlog,WakeQState.goto,putTaskStruct,won_append,woken_append]
      simp [won,woken]
    rw [hsame]
    rfl

/-- What other contexts do neither lengthens nor shortens a walk. -/
theorem Tended.others (h : Tended b usage w q) {others : Kernel → Op → Prop}
    (hs : WakeQStep b others w w') (hc : w'.pc c = w.pc c) : flushLeft w' c = flushLeft w c := by
  unfold flushLeft
  rcases h.linked.step hs with ⟨d,l,evs,hm⟩ | ⟨op,e,s,-,-,-,rfl⟩
  · by_cases hd : c = d
    · subst hd
      have hmove := hm.move
      have htrace := hm.trace
      generalize w'.pc c = k' at hmove hc ⊢
      generalize w.pc c = k at hmove hc ⊢
      cases hmove with
      | silent => rw [hc,Properties.backlog,htrace,List.append_nil,Properties.backlog]
      | lost =>
        rw [hc]
        rfl
      | won | get | put | clear | wake | drop => cases hc
    · have hown := Move.own hm.move
      rw [hc,Properties.backlog,hm.trace,won_append,woken_append,won_other hown hd,
        woken_other hown hd,List.append_nil,List.append_nil,Properties.backlog]
  · rfl

/-- On a uniprocessor `wake_up_q` ends: with `n` tasks queued it takes `4 * n + 1` statements
of its context, neither more nor less, whatever other contexts do between them. -/
theorem wake_q_flush_ends (h : WakeQReach b usage w) (huni : b.smp = false) (c : Context) :
    flushLeft (enterCall c w .wakeUpQ) c = 4 * backlog w c + 1 ∧
    (0 < flushLeft w c → ∀ e,
      Returns (wakeQStatement b e c w) (fun w' => flushLeft w' c + 1 = flushLeft w c)) ∧
    ∀ others w', WakeQStep b others w w' → w'.pc c = w.pc c → flushLeft w' c = flushLeft w c := by
  obtain ⟨q,hq⟩ := wakeQReach_tended h
  refine ⟨?_,fun hleft e => hq.flushes huni e hleft,fun _ w' hs hc => hq.others hs hc⟩
  rw [flushLeft,enterCall,goto_self]
  rfl

end Flushes

section Schedules
variable {b : Build} {e : Env} {w w' : WakeQState} {q : Context → List Tid} {usage : Tid → Int}
variable {c d : Context} {l : List Tid} {evs : List WakeQEvent}

theorem AtRest.moved (hc : AtRest w c) (hm : Moved b q d l evs w w') (hd : c ≠ d) :
    AtRest w' c := by
  rwa [AtRest,hm.others c hd,hm.heads c hd]

/-- A context that does nothing stays at rest. -/
theorem AtRest.contexts (h : Tended b usage w q) (hc : AtRest w c)
    (hr : runContexts b e acts w = .ok w') (hn : c ∉ acts.map Prod.fst) : AtRest w' c := by
  induction acts generalizing w q with
  | nil =>
    cases hr
    exact hc
  | cons act acts ih =>
    obtain ⟨d,call⟩ := act
    rw [List.map_cons,List.mem_cons,not_or] at hn
    obtain ⟨hd,hn⟩ := hn
    cases call with
    | none =>
      obtain ⟨u,hu,hr⟩ := bind_eq_ok.mp hr
      obtain ⟨l,evs,hm⟩ := (h.linked.statement (b := b) (e := e) (c := d)
        fun p node hp => wakeQStatement_wake hp hu).of_ok hu
      exact ih (h.moved hm) (hc.moved hm hd) hr hn
    | some call =>
      simp only [runContexts] at hr
      split at hr
      next may =>
        obtain ⟨l,evs,hm⟩ := h.linked.enter (b := b) call may
        exact ih (h.moved hm) (hc.moved hm hd) hr hn
      next => cases hr

/-- A lottery task sleeps, and each of two contexts has a wakeup to make of it. -/
def asleep : WakeQState :=
  wakeQStart (fun _ => 1) (after .versatile (lotteryRunsOps ++ sleepOps))

/-- The second comes too late for the node, and the first makes the wakeup. -/
def bothAsk : List (Context × Option WakeQCall) :=
  [(0,some (.wakeQAdd 1)),(1,some (.wakeQAddSafe 1)),(1,none),(0,none),(0,none),(0,none),
    (0,some .wakeUpQ),(0,none),(0,none),(0,none),(0,none),(0,none)]

def bothAsked : WakeQState :=
  (runContexts .versatile .quiet bothAsk asleep).toOption.getD asleep

theorem bothAsked_runs : runContexts .versatile .quiet bothAsk asleep = .ok bothAsked :=
  ok_getD (by decide +kernel) _

theorem asleep_reach : WakeQReach .versatile (fun _ => 1) asleep :=
  ⟨_,.after (by decide +kernel),.refl⟩

theorem bothAsked_reach : WakeQReach .versatile (fun _ => 1) bothAsked :=
  ⟨_,.after (by decide +kernel),WakeQRun.refl.contexts bothAsked_runs⟩

theorem bothAsked_rest (c : Context) : AtRest bothAsked c := by
  by_cases hc : c ∈ bothAsk.map Prod.fst
  · have hc : c = 0 ∨ c = 1 := by
      simp only [bothAsk,List.map_cons,List.map_nil,List.mem_cons,List.not_mem_nil] at hc
      tauto
    rcases hc with rfl | rfl
    · left
      decide +kernel
    · right
      decide +kernel
  · obtain ⟨q,hq⟩ := wakeQReach_tended asleep_reach
    exact AtRest.contexts hq (.inr ⟨rfl,rfl⟩) bothAsked_runs hc

/-- The first context makes the wakeup that both of them were to make. -/
theorem wake_q_delivers_both :
    woken 0 bothAsked.trace = won 0 bothAsked.trace ∧ ¬Unanswered 1 bothAsked.trace :=
  ⟨((wake_q_delivers bothAsked_reach).1 0).2.2 (bothAsked_rest 0),
    (wake_q_delivers bothAsked_reach).2 bothAsked_rest 1⟩

/-- The reference that the second has handed over is the one that was dropped. -/
theorem wake_q_references_both :
    bothAsked.usage 1 + bothAsked.trace.countP (handsOver 1) = 1 :=
  wake_q_references bothAsked_reach bothAsked_rest 1

theorem wake_q_as_if_both :
    1 ∈ bothAsked.kernel.live ∧ Roused bothAsked.kernel 1 :=
  wake_q_as_if asleep_reach (by decide +kernel) (by decide +kernel)
    (WakeQRun.refl.contexts bothAsked_runs)
    (show bothAsked.trace = asleep.trace ++ bothAsked.trace from rfl)
    (show WakeQEvent.add 0 1 false true ∈ bothAsked.trace by decide +kernel) bothAsked_rest

/-- The first context is about to clear the node it has found. -/
def midFlush : WakeQState :=
  (runContexts .versatile .quiet (bothAsk.take 8) asleep).toOption.getD asleep

theorem midFlush_reach : WakeQReach .versatile (fun _ => 1) midFlush :=
  ⟨_,.after (by decide +kernel),WakeQRun.refl.contexts (ok_getD (by decide +kernel) _)⟩

theorem wake_q_flush_ends_mid :
    flushLeft (enterCall 0 midFlush .wakeUpQ) 0 = 4 * backlog midFlush 0 + 1 ∧
    (0 < flushLeft midFlush 0 → ∀ e, Returns (wakeQStatement .versatile e 0 midFlush)
      (fun w' => flushLeft w' 0 + 1 = flushLeft midFlush 0)) ∧
    ∀ others w', WakeQStep .versatile others midFlush w' → w'.pc 0 = midFlush.pc 0 →
      flushLeft w' 0 = flushLeft midFlush 0 :=
  wake_q_flush_ends midFlush_reach rfl 0

end Schedules

end LotteryScheduler.Properties
