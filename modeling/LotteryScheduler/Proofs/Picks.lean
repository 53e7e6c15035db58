import LotteryScheduler.Proofs.Invariant

namespace LotteryScheduler.Proofs
open Lib Model

/-- Where a pick got its task: from the queue of the class, or the idle task. -/
def FoundIn (s : Kernel) (r : Ready) (c : SchedClass) (p : Tid) : Prop :=
  if c = .idle then p = s.rq.idle else p ∈ r c

/-- A lottery queue without tickets is empty. -/
def Stocked (s : Kernel) (r : Ready) : Prop := s.rq.ltr.totalTickets = 0 → r .lottery = []

section Draw
variable {b : Build} {e : Env} {s : Kernel} {r : Ready} {p : Tid}

theorem drawLoop_eq (h : Represents s r) (n : Nat) (hn : (r .lottery).length < n)
    (luckyOne : UInt32) : drawLoop n s luckyOne =
      some (forEach (drawStep s.task luckyOne) ((r .lottery).map .task) (none,0)) :=
  h.ring.path.forEach_eq (List.nodup_cons.mp h.ring.nodup).1 n (by simpa using hn) _

/-- However the loop ends, it remembers a task of the queue. -/
theorem forEach_drawn (task : Tid → TaskStruct) (luckyOne : UInt32) (l : List Tid) (hl : l ≠ [])
    (acc : Option Tid × UInt32) :
    ∃ p ∈ l, (forEach (drawStep task luckyOne) (l.map .task) acc).value.1 = some p := by
  induction l generalizing acc with
  | nil => contradiction
  | cons x l ih =>
    have hrest : ∀ cnt, ∃ p ∈ x :: l,
        (forEach (drawStep task luckyOne) (l.map .task) (some x,cnt)).value.1 = some p := by
      intro cnt
      rcases eq_or_ne l [] with rfl | hne
      · exact ⟨x,by simp,rfl⟩
      · obtain ⟨p,hp,he⟩ := ih hne (some x,cnt)
        exact ⟨p,List.mem_cons_of_mem _ hp,he⟩
    simp only [List.map_cons,forEach,drawStep]
    split
    next hb =>
      split at hb
      · cases hb
      split at hb
      · cases hb
        exact ⟨x,by simp,rfl⟩
      · cases hb
    next hb =>
      split at hb
      · cases hb
        exact hrest _
      split at hb
      · cases hb
      · cases hb
        exact hrest _

theorem logSelect_quiet (e : Env) (p : Tid) (s : Kernel) : Quiet s (logEvent e p .s s) :=
  ⟨⟨rfl,rfl,rfl,rfl,rfl,rfl,Nat.le_refl _,fun _ _ => rfl⟩,rfl,rfl,rfl,rfl,_,rfl,by simp⟩

/-- NULL is returned for an empty queue or a total of zero, and nothing else. -/
theorem pickNextTaskLottery_spec (e : Env) (h : Books b s r) :
    Returns (pickNextTaskLottery e s) (fun a => Quiet s a.2 ∧
      match a.1 with
      | some p => p ∈ r .lottery ∧ s.rq.ltr.totalTickets ≠ 0
      | none => r .lottery = [] ∨ s.rq.ltr.totalTickets = 0) := by
  unfold pickNextTaskLottery
  dsimp only
  split
  next ht => exact .ok ⟨.refl s,.inr ht⟩
  next ht =>
    have hempty := h.rep.ring.empty_iff
    split
    next hl => exact .ok ⟨.refl s,.inl (by simpa using hempty.mp hl)⟩
    next hl =>
      have hne : r .lottery ≠ [] := fun he => hl (hempty.mpr (by simp [he]))
      have hlen := Nat.lt_succ_of_le h.lottery_le
      obtain ⟨p,hp,he⟩ := forEach_drawn s.task (e.randomWord % s.rq.ltr.totalTickets)
        (r .lottery) hne (none,0)
      rw [drawLoop_eq h.rep _ hlen]
      simp only [he]
      exact .ok ⟨logSelect_quiet e p s,hp,ht⟩

theorem callPickNextTask_spec (e : Env) (c : SchedClass) (h : Books b s r) :
    Returns (callPickNextTask b e c s) (fun a => Quiet s a.2 ∧
      match a.1 with
      | some p => FoundIn s r c p
      | none => c ≠ .idle ∧ (Stocked s r → r c = [])) := by
  unfold callPickNextTask
  rw [if_pos (provides_of b rfl (fun _ => rfl) (by simp))]
  split
  next =>
    apply (pickNextTaskLottery_spec e h).mono
    intro a hspec
    obtain ⟨hq,ha⟩ := hspec
    refine ⟨hq,?_⟩
    split at ha
    · exact ha.1
    · exact ⟨by simp,fun hs => ha.elim id hs⟩
  next => exact .ok ⟨upstreamEffect_quiet e _ s (by simp),by simp [FoundIn]⟩
  next hl hi =>
    refine .ok ⟨upstreamEffect_quiet e _ s hl,?_⟩
    dsimp only
    have hqueue := h.rep.upstream c hl
    cases hp : e.pick c (s.rq.queue c) with
    | none =>
      rw [e.pick_none,hqueue] at hp
      exact ⟨hi,fun _ => hp⟩
    | some p =>
      have hmem := e.pick_mem _ _ _ hp
      rw [hqueue] at hmem
      simpa [FoundIn,show _ ≠ SchedClass.idle from hi] using hmem

end Draw

section Picks
variable {b : Build} {e : Env} {s t : Kernel} {r : Ready} {p prev : Tid}

theorem FoundIn.quiet (h : FoundIn t r c p) (hq : Quiet s t) : FoundIn s r c p := by
  simpa [FoundIn,hq.idle] using h

theorem Stocked.quiet (h : Stocked s r) (hq : Quiet s t) : Stocked t r := by
  simpa [Stocked,hq.ltr] using h

/-- The walk ends at the first class with a waiting task, or at the idle class. -/
theorem pickWalk_spec (e : Env) (cs : List SchedClass) (hcs : .idle ∉ cs) (h : Books b s r) :
    Returns (pickWalk b e (cs ++ [.idle]) s) (fun a => Quiet s a.2 ∧
      (∃ c, FoundIn s r c a.1) ∧
      (Stocked s r → FoundIn s r ((cs.find? (fun c => r c ≠ [])).getD .idle) a.1)) := by
  induction cs generalizing s with
  | nil =>
    apply (callPickNextTask_spec e .idle h).bind
    rintro ⟨o,t⟩ ⟨hq,ho⟩
    cases o with
    | none => exact absurd rfl ho.1
    | some p => exact .ok ⟨hq,⟨_,ho⟩,fun _ => ho⟩
  | cons c cs ih =>
    apply (callPickNextTask_spec e c h).bind
    rintro ⟨o,t⟩ ⟨hq,ho⟩
    cases o with
    | none =>
      apply (ih (fun hm => hcs (List.mem_cons_of_mem _ hm)) (h.quiet hq)).mono
      intro a hspec
      obtain ⟨hqa,⟨d,hd⟩,hf⟩ := hspec
      refine ⟨hq.trans hqa,⟨d,hd.quiet hq⟩,fun hs => ?_⟩
      rw [List.find?_cons_of_neg (by simpa using ho.2 hs)]
      exact (hf (hs.quiet hq)).quiet hq
    | some p =>
      refine .ok ⟨hq,⟨c,ho⟩,fun _ => ?_⟩
      have hc : c ≠ .idle := fun he => hcs (by simp [he])
      have hmem : p ∈ r c := by simpa [FoundIn,hc] using ho
      rw [List.find?_cons_of_pos (by simpa using List.ne_nil_of_mem hmem)]
      exact ho

theorem lottery_not_below (hc : c ≠ .lottery) : .lottery ∉ forClassRange c .idle := by
  cases c <;> first | decide | contradiction

theorem balancePass_quiet (e : Env) (cs : List SchedClass) (hcs : .lottery ∉ cs) (s : Kernel) :
    Returns (balancePass b e prev cs s) (Quiet s) := by
  induction cs generalizing s with
  | nil => exact .ok (.refl s)
  | cons c cs ih =>
    have hprovides : b.provides c .balance = true :=
      provides_of b rfl (fun hl => absurd (by simp [hl]) hcs) (by simp)
    apply (callHook_quiet e s hprovides rfl).bind
    intro t ht
    split
    · exact .ok ht
    · exact (ih (fun hm => hcs (List.mem_cons_of_mem _ hm)) t).mono fun _ hu => ht.trans hu

theorem putPrevTaskBalance_quiet (e : Env) (s : Kernel)
    (hn : ¬(b.smp = true ∧ (s.task prev).schedClass = .lottery)) :
    Returns (putPrevTaskBalance b e prev s) (Quiet s) := by
  have hbalance : Returns (applyIf b.smp
      (balancePass b e prev (forClassRange (s.task prev).schedClass .idle)) s) (Quiet s) :=
    .applyIf (fun hsmp => balancePass_quiet e _ (lottery_not_below fun hl => hn ⟨hsmp,hl⟩) s)
      fun _ => .refl s
  exact hbalance.bind fun t ht => (putPrevTask_quiet b e prev t).mono fun _ hu => ht.trans hu

/-- In an SMP build the balancing pass starts at the previous task's own class. -/
theorem putPrevTaskBalance_missing (e : Env) (s : Kernel) (hsmp : b.smp = true)
    (hl : (s.task prev).schedClass = .lottery) :
    putPrevTaskBalance b e prev s = .error (.nullHook .lottery .balance) := by
  have hfirst : forClassRange .lottery .idle = [.lottery,.stop,.dl,.rt,.fair] := by decide
  refine bind_error ?_
  rw [applyIf,if_pos hsmp,hl,hfirst]
  exact bind_error (callHook_missing e s rfl)

theorem fastPath_class (h : fastPath s prev = true) : (s.task prev).schedClass ≤ .fair := by
  simp only [fastPath,Bool.and_eq_true,decide_eq_true_eq] at h
  exact h.1

theorem fastPath_lottery (hl : (s.task prev).schedClass = .lottery) : fastPath s prev = false := by
  by_contra hf
  have hle := fastPath_class (by simpa using hf)
  rw [hl] at hle
  exact absurd hle (by decide)

theorem pickNextTask_missing (e : Env) (hsmp : b.smp = true)
    (hl : (s.task prev).schedClass = .lottery) :
    pickNextTask b e prev s = .error (.nullHook .lottery .balance) := by
  unfold pickNextTask
  rw [if_neg (by simp [fastPath_lottery hl])]
  exact bind_error (putPrevTaskBalance_missing e s hsmp hl)

/-- The fast path asks the fair class and then the idle class, nobody else. -/
theorem pickNextTask_fast (e : Env) (h : Books b s r) (hf : fastPath s prev = true) :
    Returns (pickNextTask b e prev s) (fun a => Quiet s a.2 ∧
      FoundIn s r (if r .fair = [] then .idle else .fair) a.1) := by
  unfold pickNextTask pickNextTaskFair
  rw [if_pos hf]
  have hqueue := h.rep.upstream .fair (by simp)
  have hq := upstreamEffect_quiet e .pickNextTask s (c := .fair) (by simp)
  cases hp : e.pick .fair (s.rq.queue .fair) with
  | none =>
    rw [e.pick_none,hqueue] at hp
    apply (putPrevTask_quiet b e prev _).bind
    intro t ht
    apply Returns.ok
    have hqt := hq.trans ht
    refine ⟨hqt.trans (upstreamEffect_quiet e _ t (by simp)),?_⟩
    simp [hp,FoundIn,hqt.idle]
  | some p =>
    have hmem := e.pick_mem _ _ _ hp
    rw [hqueue] at hmem
    refine .ok ⟨hq,?_⟩
    simpa [List.ne_nil_of_mem hmem,FoundIn] using hmem

theorem pickNextTask_slow (e : Env) (h : Books b s r) (hf : fastPath s prev = false)
    (hn : ¬(b.smp = true ∧ (s.task prev).schedClass = .lottery)) :
    Returns (pickNextTask b e prev s) (fun a => Quiet s a.2 ∧ (∃ c, FoundIn s r c a.1) ∧
      (Stocked s r → FoundIn s r r.top a.1)) := by
  unfold pickNextTask
  rw [if_neg (by simp [hf])]
  apply (putPrevTaskBalance_quiet e s hn).bind
  intro t ht
  apply (pickWalk_spec e Ready.workClasses (by decide) (h.quiet ht)).mono
  intro a hspec
  obtain ⟨hq,⟨c,hc⟩,hs⟩ := hspec
  exact ⟨ht.trans hq,⟨c,hc.quiet ht⟩,fun hst => (hs (hst.quiet ht)).quiet ht⟩

theorem pickNextTask_found (e : Env) (h : Books b s r)
    (hn : ¬(b.smp = true ∧ (s.task prev).schedClass = .lottery)) :
    Returns (pickNextTask b e prev s) (fun a => Quiet s a.2 ∧ ∃ c, FoundIn s r c a.1) := by
  cases hf : fastPath s prev with
  | true => exact (pickNextTask_fast e h hf).mono fun _ ha => ⟨ha.1,_,ha.2⟩
  | false => exact (pickNextTask_slow e h hf hn).mono fun _ ha => ⟨ha.1,ha.2.1⟩

/-- The next task is selected for the whole core. -/
def selectsForCore (b : Build) (e : Env) : Prop :=
  schedCoreEnabled b e = true ∧ e.cpuIsOffline = false

theorem selectsForCore_smp (h : b.smp = false) : ¬selectsForCore b e := by
  rintro ⟨henabled,-⟩
  simp only [schedCoreEnabled,Bool.and_eq_true] at henabled
  exact absurd (b.schedCore_smp henabled.1) (by simp [h])

theorem pickNextTaskCore_alone (hn : ¬selectsForCore b e) (prev : Tid) (s : Kernel) :
    pickNextTaskCore b e prev s = pickNextTask b e prev s := by
  unfold pickNextTaskCore
  split
  · rfl
  split
  · rfl
  next henabled honline => exact absurd ⟨by simpa using henabled,by simpa using honline⟩ hn

theorem pickNextTaskCore_select (hs : selectsForCore b e) (prev : Tid) (s : Kernel) :
    pickNextTaskCore b e prev s = putPrevTaskBalance b e prev s >>= fun _ =>
      .error (.nullHook .lottery .pickTask) := by
  unfold pickNextTaskCore
  rw [if_neg (by simp [hs.1]),if_neg (by simp [hs.2])]
  rfl

/-- A selection for the core never completes, so what a completed pick does, the pick for
the CPU alone did. -/
theorem pickNextTaskCore_yields {Q : Tid × Kernel → Prop} (h : Yields (pickNextTask b e prev s) Q) :
    Yields (pickNextTaskCore b e prev s) Q := by
  by_cases hs : selectsForCore b e
  · rw [pickNextTaskCore_select hs]
    exact Yields.bind (Q := fun _ => True) (fun _ _ => trivial) fun _ _ => .error _ _
  · rw [pickNextTaskCore_alone hs]
    exact h

theorem pickNextTaskCore_missing (hs : selectsForCore b e) (s : Kernel)
    (hn : ¬(b.smp = true ∧ (s.task prev).schedClass = .lottery)) :
    pickNextTaskCore b e prev s = .error (.nullHook .lottery .pickTask) := by
  obtain ⟨t,ht,-⟩ := putPrevTaskBalance_quiet e s hn
  rw [pickNextTaskCore_select hs,ht]
  rfl

end Picks

end LotteryScheduler.Proofs
