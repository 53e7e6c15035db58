import LotteryScheduler.Proofs.AddressSpaces

namespace LotteryScheduler.Properties
open Lib Model Proofs

/-- Somebody needs an address space: a task that has it, another user, the CPU, or the end of
a switch. -/
def needed (w : MmState) (m : MmId) : Prop :=
  (∃ p, w.mm p = some m) ∨ 0 < w.outside m ∨ w.activeMm w.kernel.rq.curr = some m ∨
    w.prevMm = some m

section Runs
variable {b : Build} {e : Env} {r : Ready} {w w' : MmState} {t : Kernel} {m : MmId} {p : Tid}
variable {op : Op} {ev : MmEvent} {initUsers : Nat}

/-- An operation that completes leaves the references balanced. -/
theorem opMm_spaces (hi : Inv b w.kernel r) (h : Spaces none none w)
    (hmay : mayMm b w (.op e op f)) (hrun : exec b e op w.kernel = .ok t) :
    Returns (opMm op f t w) (Spaces none none) := by
  obtain ⟨henabled,hwithout,hpause,hz⟩ := hmay
  have hne : ∀ x, freshPid b x w.kernel → x ≠ w.kernel.rq.curr := by
    intro x hf he
    exact hi.curr.elim (he ▸ hf.2.1) (he ▸ hf.1)
  have hswitch : switching op = true → w.switching = none → t.live = w.kernel.live →
      Returns (if w.kernel.rq.curr ≠ t.rq.curr then
        contextSwitch w.kernel.rq.curr t.rq.curr { w with kernel := t }
        else .ok { w with kernel := t }) (Spaces none none) := by
    intro _ hs hl
    split
    next hne => exact contextSwitch_spaces h hs hl (Ne.symm hne)
    next heq => exact .ok (h.stays (not_not.mp heq).symm hl)
  have hplain : switching op = false → populates op = false →
      Returns (.ok { w with kernel := t } : Except Fault MmState) (Spaces none none) := by
    intro hs hp
    exact .ok (h.stays (exec_curr e hi henabled hs t hrun) (exec_peopled e w.kernel hp t hrun).live)
  cases op with
  | schedule preempt =>
    have hs := hpause.resolve_right nofun
    exact hswitch rfl hs (exec_peopled e w.kernel rfl t hrun).live
  | schedYield =>
    have hs := hpause.resolve_right nofun
    exact hswitch rfl hs (exec_peopled e w.kernel rfl t hrun).live
  | kernelClone args ce =>
    have hcurr := exec_curr e hi henabled rfl t hrun
    obtain ⟨a,ha,hret⟩ := bind_eq_ok.mp hrun
    cases hret
    exact forkMm_spaces h _ f hz henabled.1 (hne _ henabled) hcurr
      (kernelCloneCopy_live b e args ce _ a ha)
  | createIoThread ce =>
    have hcurr := exec_curr e hi henabled rfl t hrun
    obtain ⟨a,ha,hret⟩ := bind_eq_ok.mp hrun
    cases hret
    exact forkMm_spaces h _ f hz henabled.2.1 (hne _ henabled.2) hcurr
      (copyProcess_live b e _ ce _ a ha)
  | releaseTask p =>
    have hnone : w.mm p = none := hwithout
    cases hrun
    refine .ok (h.stay rfl (fun m => ?_) fun x m hm => ?_)
    · exact countP_leave henabled.1 (by rw [hnone]; rfl)
    · have hx : x ≠ p := by
        rintro rfl
        cases hnone.symm.trans hm
      exact (List.mem_erase_of_ne hx).mpr (h.members x m hm)
  | _ => exact hplain rfl rfl

/-- No event fails on the account of address spaces. -/
theorem mmEvent_spaces (hs : Reachable b w.kernel) (h : Spaces none none w)
    (hmay : mayMm b w ev) (hrun : ∀ e op f, ev = .op e op f → ∃ t, exec b e op w.kernel = .ok t) :
    Returns (mmEvent b ev w) (Spaces none none) := by
  obtain ⟨⟨r,hi⟩,-⟩ := reachable_inv hs
  cases ev with
  | op e op f =>
    obtain ⟨t,ht⟩ := hrun e op f rfl
    obtain ⟨w',hw',hspaces⟩ := opMm_spaces hi h hmay ht
    exact ⟨w',(bind_ok ht).trans hw',hspaces⟩
  | finish => exact finishTaskSwitch_spaces h
  | exec fresh => exact execMmap_spaces h hi.live_nodup (hi.curr.resolve_left hmay.2.1) hmay.2.2
  | exit => exact exitMm_spaces h hi.live_nodup
  | get kthread task => exact .ok (getTaskMm_spaces h kthread task)
  | put m => exact putOutside_spaces h hmay.2.1 hmay.2.2

theorem contextSwitch_kernel (prev next : Tid) (w : MmState) :
    Yields (contextSwitch prev next w) (fun w' => w'.kernel = w.kernel) := by
  unfold contextSwitch
  dsimp only
  cases w.mm next with
  | none =>
    cases w.mm prev with
    | none => exact .ok rfl
    | some m =>
      dsimp only
      split
      · exact .ok rfl
      · exact .error _ _
  | some m =>
    cases w.mm prev with
    | none => exact .ok rfl
    | some x => exact .ok rfl

theorem opMm_kernel (op : Op) (f : ForkMm) (t : Kernel) (w : MmState) :
    Yields (opMm op f t w) (fun w' => w'.kernel = t) := by
  have hswitch : Yields (if w.kernel.rq.curr ≠ t.rq.curr then
      contextSwitch w.kernel.rq.curr t.rq.curr { w with kernel := t }
      else .ok { w with kernel := t }) (fun w' => w'.kernel = t) :=
    .ite (fun _ => contextSwitch_kernel _ _ _) fun _ => .ok rfl
  have hfork : ∀ flags pid, Yields (forkMm flags pid f t w) (fun w' => w'.kernel = t) := by
    intro flags pid
    unfold forkMm
    refine .ite (fun _ => .ok rfl) fun _ => .ite (fun _ => ?_) fun _ => .ok rfl
    exact Yields.bind (Q := fun _ => True) (fun _ _ => trivial) fun _ _ => .ok rfl
  cases op with
  | schedule preempt => exact hswitch
  | schedYield => exact hswitch
  | kernelClone args ce => exact hfork _ _
  | createIoThread ce => exact hfork _ _
  | _ => exact .ok rfl

/-- The kernel below goes its own way. -/
theorem mmEvent_reachable (hs : Reachable b w.kernel) (hmay : mayMm b w ev) :
    Yields (mmEvent b ev w) (fun w' => Reachable b w'.kernel) := by
  cases ev with
  | op e op f =>
    intro w' hrun
    obtain ⟨t,ht,hop⟩ := bind_eq_ok.mp hrun
    rw [opMm_kernel op f t w w' hop]
    exact hs.step ⟨e,op,hmay.1,ht⟩
  | finish =>
    refine Yields.mono (Q := fun w' => w'.kernel = w.kernel) ?_ fun w' hw => hw ▸ hs
    unfold mmEvent finishTaskSwitch
    dsimp only
    split
    · exact mmdrop_kernel _ _
    · exact .ok rfl
  | exec fresh =>
    refine Yields.mono (Q := fun w' => w'.kernel = w.kernel) ?_ fun w' hw => hw ▸ hs
    unfold mmEvent execMmap
    dsimp only
    split
    · exact mmput_kernel _ _
    · split
      · exact mmdrop_kernel _ _
      · exact .error _ _
  | exit =>
    refine Yields.mono (Q := fun w' => w'.kernel = w.kernel) ?_ fun w' hw => hw ▸ hs
    unfold mmEvent exitMm
    dsimp only
    split
    · exact .ok rfl
    · exact mmput_kernel _ _
  | get kthread task =>
    refine .ok ?_
    unfold getTaskMm
    split
    · exact hs
    · split
      · exact hs
      · exact hs
  | put m => exact (mmput_kernel m _).mono fun w' hw => by rw [hw]; exact hs

theorem mmStart_other (initUsers : Nat) (hm : m ≠ initMm) :
    (mmStart initUsers).mms m = ⟨0,0⟩ ∧ (mmStart initUsers).outside m = 0 ∧
      (mmStart initUsers).allocated m = 0 := by
  simp [mmStart,hm]

theorem mmStart_spaces (hn : 0 < initUsers) : Spaces none none (mmStart initUsers) := by
  have hrefs : ∀ m, userRefs (mmStart initUsers) m = (mmStart initUsers).outside m := by
    intro m
    exact Int.zero_add _
  have hborrow : ∀ m, borrowed (mmStart initUsers) m ↔ m = initMm := by
    intro m
    exact ⟨fun hb => (Option.some.inj hb.2).symm,fun he => ⟨rfl,by rw [he]; rfl⟩⟩
  refine ⟨nofun,fun p hp _ => ?_,rfl,nofun,
    fun m => ?_,fun m => ?_,fun _ => rfl,?_,fun m => ?_,rfl⟩
  · have hp : p ≠ schedInit.rq.curr := hp
    simp [mmStart,hp]
  · rw [hrefs]
    rcases eq_or_ne m initMm with rfl | hm
    · exact (Int.add_zero _).symm
    · obtain ⟨hmm,hout,-⟩ := mmStart_other initUsers hm
      rw [hmm,hout]
      rfl
  · unfold heldRefs
    simp only [hborrow]
    rcases eq_or_ne m initMm with rfl | hm
    · rw [if_pos (show 0 < ((mmStart initUsers).mms initMm).mmUsers from Int.ofNat_lt.mpr hn)]
      rfl
    · rw [(mmStart_other initUsers hm).1,if_neg hm]
      rfl
  · simpa [mmStart] using hn
  · rcases eq_or_ne m initMm with rfl | hm
    · rfl
    · obtain ⟨hmm,-,hnew⟩ := mmStart_other initUsers hm
      rw [hmm,hnew]
      rfl

theorem mmReach_spaces (h : MmReach b initUsers w) (hn : 0 < initUsers) :
    Reachable b w.kernel ∧ Spaces none none w := by
  induction h with
  | init => exact ⟨.init,mmStart_spaces hn⟩
  | @step w ev w' _ may run ih =>
    refine ⟨mmEvent_reachable ih.1 may _ run,(mmEvent_spaces ih.1 ih.2 may ?_).of_ok run⟩
    rintro e op f rfl
    obtain ⟨t,ht,-⟩ := bind_eq_ok.mp run
    exact ⟨t,ht⟩

/-- An address space has a reference exactly as long as somebody needs it. -/
theorem Spaces.needed_iff (h : Spaces none none w) (m : MmId) :
    needed w m ↔ 0 < (w.mms m).mmCount := by
  have hcount := h.counts m
  have hnonneg := heldRefs_nonneg w m
  rw [if_neg nofun,Int.add_zero] at hcount
  rw [hcount]
  constructor
  · intro hneed
    by_contra hz
    have hz : heldRefs w m = 0 := by omega
    obtain ⟨husers,-,hprev⟩ := heldRefs_zero hz
    obtain ⟨-,-,hout,hmm⟩ := h.unused husers
    rcases hneed with ⟨p,hp⟩ | ho | ha | hp
    · exact hmm p hp
    · omega
    · exact (h.unloaded hz).2.2 ha
    · exact hprev hp
  · intro hpos
    by_contra hnone
    simp only [needed,not_or,not_exists] at hnone
    obtain ⟨hmm,hout,hactive,hprev⟩ := hnone
    have husers : (w.mms m).mmUsers = 0 := by
      have hzero : (w.kernel.live.countP fun p => w.mm p == some m) = 0 :=
        List.countP_eq_zero.mpr fun p _ => by simpa using hmm p
      rw [h.users m,if_neg nofun,userRefs,hzero]
      omega
    have hborrow : ¬borrowed w m := fun hb => hactive hb.2
    rw [heldRefs,husers,if_neg hborrow,if_neg hprev] at hpos
    exact absurd hpos (by decide)

/-- Lazy switching is safe in every run: the CPU uses the page tables of the address space
that its task runs on, nothing that anybody needs has been freed, and no assertion of
`__mmdrop` ever fires, nor any of its warnings. -/
theorem mm_never_freed_in_use (h : MmReach b initUsers w) (hn : 0 < initUsers) :
    w.activeMm w.kernel.rq.curr = some w.loaded ∧
      (∀ m, needed w m → 0 < (w.mms m).mmCount) ∧ w.warned = false ∧
      ∀ ev, mayMm b w ev →
        (∀ e op f, ev = .op e op f → ∃ t, exec b e op w.kernel = .ok t) →
        ∃ w', mmEvent b ev w = .ok w' := by
  obtain ⟨hs,hspaces⟩ := mmReach_spaces h hn
  refine ⟨hspaces.loaded,fun m => (Spaces.needed_iff hspaces m).mp,hspaces.quiet,
    fun ev hmay hrun => ?_⟩
  obtain ⟨w',hw',-⟩ := mmEvent_spaces hs hspaces hmay hrun
  exact ⟨w',hw'⟩

/-- Every address space that was ever allocated is freed exactly once, and that as soon as
nobody needs it. -/
theorem mm_freed_once (h : MmReach b initUsers w) (hn : 0 < initUsers) (m : MmId) :
    (needed w m → w.allocated m = w.freed m + 1) ∧
      (¬needed w m → w.allocated m = w.freed m) := by
  obtain ⟨-,hspaces⟩ := mmReach_spaces h hn
  have honce := hspaces.once m
  have hneed := Spaces.needed_iff hspaces m
  refine ⟨fun hm => ?_,fun hm => ?_⟩
  · rw [if_pos (hneed.mp hm)] at honce
    exact honce
  · rw [if_neg fun hc => hm (hneed.mpr hc)] at honce
    exact honce

/-- The first task executes a program and forks; the child exits, and the idle task borrows
what is left of its address space until the parent runs again. -/
def borrowingOps : List MmEvent :=
  let op (o : Op) (fresh : MmId) : MmEvent := .op .quiet o ⟨fresh,true⟩
  [op (.kernelClone { flags := 0 } { pid := 1 }) 1,op (.wakeUpNewTask 1) 1,
    op (.schedule true) 1,.finish,.exec 1,
    op (.kernelClone { flags := 0 } { pid := 2 }) 2,op (.wakeUpNewTask 2) 3,
    op (.setCurrentState taskInterruptible) 3,op (.schedule false) 3,.finish,
    .exit,op (.setCurrentState taskInterruptible) 3,op (.schedule false) 3,.finish]

/-- The idle task borrows the address space of a task that has exited. -/
def idleBorrows : MmState :=
  (runMm .versatile borrowingOps (mmStart 2)).toOption.getD (mmStart 2)

theorem idleBorrows_reach : MmReach .versatile 2 idleBorrows :=
  MmReach.init.runMm (ok_getD (by decide +kernel) _)

theorem mm_never_freed_in_use_idle :
    idleBorrows.activeMm idleBorrows.kernel.rq.curr = some idleBorrows.loaded ∧
      (∀ m, needed idleBorrows m → 0 < (idleBorrows.mms m).mmCount) ∧
      idleBorrows.warned = false ∧
      ∀ ev, mayMm .versatile idleBorrows ev →
        (∀ e op f, ev = .op e op f → ∃ t, exec .versatile e op idleBorrows.kernel = .ok t) →
        ∃ w', mmEvent .versatile ev idleBorrows = .ok w' :=
  mm_never_freed_in_use idleBorrows_reach (by decide)

theorem mm_freed_once_idle :
    (needed idleBorrows 2 → idleBorrows.allocated 2 = idleBorrows.freed 2 + 1) ∧
      (¬needed idleBorrows 2 → idleBorrows.allocated 2 = idleBorrows.freed 2) :=
  mm_freed_once idleBorrows_reach (by decide) 2

example : idleBorrows.loaded = 2 ∧ idleBorrows.mms 2 = ⟨0,1⟩ ∧ idleBorrows.mms 1 = ⟨1,1⟩ ∧
    idleBorrows.mms initMm = ⟨2,1⟩ := by
  decide +kernel

end Runs

end LotteryScheduler.Properties
