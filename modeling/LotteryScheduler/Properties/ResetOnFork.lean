import LotteryScheduler.Proofs.Settings

namespace LotteryScheduler.Properties
open Lib Model Proofs

/-- What a fork under the reset flag should answer and leave in the child. -/
structure Dropped (a : Int × TaskStruct) : Prop where
  ret : a.1 = 0
  cleared : a.2.schedResetOnFork = false
  policy : a.2.policy ∉ [schedFifo,schedRr,schedDeadline,schedLottery]
  fair : a.2.schedClass = .fair
  nice : 0 ≤ taskNice a.2
  effective : a.2.prio = a.2.normalPrio
  normal : a.2.normalPrio = a.2.staticPrio

/-- A task with an ordinary policy that nobody lends a priority to. -/
structure Plain (t : TaskStruct) : Prop where
  policy : t.policy ∉ [schedFifo,schedRr,schedDeadline,schedLottery]
  fair : t.schedClass = .fair
  normal : rtPrio t.normalPrio = false

section Child
variable {cur p : TaskStruct} {self : Tid}

theorem special_iff (policy : Int) : policy ∉ [schedFifo,schedRr,schedDeadline,schedLottery] ↔
    dlPolicy policy = false ∧ rtPolicy policy = false ∧ policy ≠ schedLottery := by
  simp only [List.mem_cons,List.not_mem_nil,or_false,not_or,dlPolicy,rtPolicy,
    Bool.or_eq_false_iff,beq_eq_false_iff_ne]
  tauto

/-- The reset leaves a nice value that is not negative, and one priority everywhere. -/
theorem resetOnFork_nice (hl : minNice ≤ nice) (hu : nice ≤ maxNice)
    (hs : p.staticPrio = niceToPrio nice) : ∃ nice', 0 ≤ nice' ∧ nice' ≤ maxNice ∧
      (resetOnFork p).staticPrio = niceToPrio nice' := by
  unfold resetOnFork
  dsimp only
  split
  · exact ⟨0,by decide,by decide,rfl⟩
  rw [hs,prioToNice_niceToPrio hl hu]
  split
  · exact ⟨0,by decide,by decide,rfl⟩
  next hn => exact ⟨nice,Int.not_lt.mp hn,hu,hs⟩

/-- The reset knows the deadline and the real-time policies, and no other. -/
theorem resetOnFork_policy (p : TaskStruct) :
    ((resetOnFork p).policy = schedLottery ↔ p.policy = schedLottery) ∧
      dlPolicy (resetOnFork p).policy = false ∧ rtPolicy (resetOnFork p).policy = false := by
  unfold resetOnFork
  dsimp only
  split
  next hs =>
    refine ⟨⟨fun h => absurd h (show schedNormal ≠ schedLottery by decide),fun h => ?_⟩,
      show dlPolicy schedNormal = false by decide,show rtPolicy schedNormal = false by decide⟩
    rw [h] at hs
    exact absurd hs (by decide)
  next hs =>
    simp only [Bool.or_eq_true,not_or,Bool.not_eq_true] at hs
    split
    · exact ⟨Iff.rfl,hs⟩
    · exact ⟨Iff.rfl,hs⟩

theorem resetOnFork_prio (p : TaskStruct) :
    (resetOnFork p).prio = (resetOnFork p).normalPrio ∧
      (resetOnFork p).normalPrio = (resetOnFork p).staticPrio ∧
      (resetOnFork p).schedResetOnFork = false := ⟨rfl,rfl,rfl⟩

/-- The child of a task under the reset flag, before its class is chosen. -/
theorem unclassed_reset (cur : TaskStruct) (self : Tid) (hr : p.schedResetOnFork = true) :
    ∃ fresh : TaskStruct, fresh.policy = p.policy ∧ fresh.staticPrio = p.staticPrio ∧
      unclassed cur self p = resetOnFork fresh := by
  refine ⟨{ schedForkInit self p with state := taskNew, prio := cur.normalPrio },rfl,rfl,?_⟩
  exact if_pos hr

theorem unclassed_inherit (cur : TaskStruct) (self : Tid) (hr : p.schedResetOnFork = false) :
    unclassed cur self p =
      { schedForkInit self p with state := taskNew, prio := cur.normalPrio } :=
  if_neg (by simp [schedForkInit,hr])

/-- Without the lottery policy and a real-time priority a child starts in the fair class. -/
theorem schedFork_fair (hl : (unclassed cur self p).policy ≠ schedLottery)
    (hr : rtPrio (unclassed cur self p).prio = false) :
    schedFork cur self p = (0,{ unclassed cur self p with schedClass := .fair }) := by
  have hd : dlPrio (unclassed cur self p).prio = false := by
    have hlow := (rtPrio_false _).mp hr
    rw [Bool.eq_false_iff,ne_eq,dlPrio_iff]
    omega
  rw [schedFork_eq,if_neg hl,if_neg (by simp [hd]),if_neg (by simp [hr])]

theorem schedFork_lottery (hl : (unclassed cur self p).policy = schedLottery) :
    schedFork cur self p = (0,{ unclassed cur self p with schedClass := .lottery }) := by
  rw [schedFork_eq,if_pos hl]

/-- A fork under the flag resets everything exactly when the parent's policy is not
lottery, which the reset leaves alone. -/
theorem fork_drops_iff (hl : minNice ≤ nice) (hu : nice ≤ maxNice)
    (hs : p.staticPrio = niceToPrio nice) (hr : p.schedResetOnFork = true) :
    Dropped (schedFork cur self p) ↔ p.policy ≠ schedLottery := by
  obtain ⟨fresh,hpolicy,hstatic,heq⟩ := unclassed_reset cur self hr
  obtain ⟨hlottery,hdl,hrt⟩ := resetOnFork_policy fresh
  obtain ⟨nice',hlow,hhigh,hnice⟩ := resetOnFork_nice hl hu (hstatic.trans hs)
  obtain ⟨heffective,hnormal,hcleared⟩ := resetOnFork_prio fresh
  have hmin : minNice ≤ nice' := Int.le_trans (by decide) hlow
  rw [← hpolicy,ne_eq,← hlottery]
  constructor
  · intro hdropped hlot
    have hclass := hdropped.fair
    rw [schedFork_lottery (by rw [heq]; exact hlot)] at hclass
    cases hclass
  · intro hlot
    have hplain : rtPrio (unclassed cur self p).prio = false := by
      rw [heq,heffective,hnormal,hnice]
      exact niceToPrio_plain hmin hhigh
    rw [schedFork_fair (by rw [heq]; exact hlot) hplain,heq]
    refine ⟨rfl,hcleared,(special_iff _).mpr ⟨hdl,hrt,hlot⟩,rfl,?_,heffective,hnormal⟩
    change 0 ≤ prioToNice (resetOnFork fresh).staticPrio
    rw [hnice,prioToNice_niceToPrio hmin hhigh]
    exact hlow

end Child

section Heirs
variable {b : Build} {s t : Kernel} {r : Ready} {root p : Tid} {op : Op} {v w : TaskStruct}
  {D : Tid → Prop}

/-- The tasks below `root` after an operation: what `root` forks under the reset flag, and
what they fork themselves. A pid that is handed out again names a new task. -/
def heirs (root : Tid) (s : Kernel) (op : Op) (D : Tid → Prop) (x : Tid) : Prop :=
  if newPid op = some x then
    (s.rq.curr = root ∧ (s.task root).schedResetOnFork = true) ∨ D s.rq.curr
  else D x

/-- An operation that changes no policy below `root`, lends nobody there a real-time
priority, and does not let `root` fork under the flag as a lottery task. -/
structure KeepsPolicies (root : Tid) (D : Tid → Prop) (s : Kernel) (op : Op) (t : Kernel) :
    Prop where
  policies : ∀ x, x ∈ s.live → x ∈ t.live → D x → (t.task x).policy = (s.task x).policy
  unlent : ∀ x donor, op = .rtMutexSetprio x donor → D x →
    rtPrio (rtEffectivePrio s donor (s.task x).normalPrio) = false
  parent : (newPid op).isSome → s.rq.curr = root → (s.task root).schedResetOnFork = true →
    (s.task root).policy ≠ schedLottery

end Heirs

/-- The runs from a reachable state on, each with the tasks below `root`. -/
inductive Lineage (b : Build) (root : Tid) : Kernel → (Tid → Prop) → Prop where
  | start (reach : Reachable b s) : Lineage b root s (fun _ => False)
  | step (before : Lineage b root s D) (can : enabled b s op) (run : exec b e op s = .ok t)
    (keeps : KeepsPolicies root D s op t) : Lineage b root t (heirs root s op D)

section Runs
variable {b : Build} {s t : Kernel} {r : Ready} {root p : Tid} {op : Op} {v w : TaskStruct}
  {D : Tid → Prop}

theorem Plain.congr (h : Plain w) (hv : settings v = settings w) : Plain v := by
  have hpolicy : v.policy = w.policy := congrArg (·.policy) hv
  have hclass : v.schedClass = w.schedClass := congrArg (·.schedClass) hv
  have hnormal : v.normalPrio = w.normalPrio := congrArg (·.normalPrio) hv
  exact ⟨hpolicy ▸ h.policy,hclass.trans h.fair,hnormal ▸ h.normal⟩

theorem Plain.renice (h : Plain v) (hl : minNice ≤ nice) (hu : nice ≤ maxNice) :
    Plain (renice v nice) := by
  obtain ⟨hdl,hrt,_⟩ := (special_iff _).mp h.policy
  have hnormal : normalPrio { v with staticPrio := niceToPrio nice } = niceToPrio nice := by
    unfold normalPrio normalPrioOf
    simp only [hdl,hrt,Bool.false_eq_true,↓reduceIte,prioToNice_niceToPrio hl hu]
  obtain ⟨prio,heq⟩ := renice_fields v nice
  rw [heq]
  refine ⟨h.policy,h.fair,?_⟩
  rw [hnormal]
  exact niceToPrio_plain hl hu

theorem Plain.lent (h : Plain (s.task p)) (donor : Option Tid) (piSe : Tid)
    (hn : rtPrio (rtEffectivePrio s donor (s.task p).normalPrio) = false) :
    Plain (lent s p donor piSe) := by
  obtain ⟨_,_,hpolicy,hnormal,_,_,_⟩ := lent_fields s p donor piSe
  obtain ⟨_,_,hlot⟩ := (special_iff _).mp h.policy
  refine ⟨by rw [hpolicy]; exact h.policy,?_,by rw [hnormal]; exact h.normal⟩
  have hlow := (rtPrio_false _).mp hn
  have hdl : dlPrio (rtEffectivePrio s donor (s.task p).normalPrio) = false := by
    rw [Bool.eq_false_iff,ne_eq,dlPrio_iff]
    omega
  unfold Proofs.lent setschedulerPrio
  dsimp only
  rw [if_neg hlot,if_neg (by simp [hdl]),if_neg (by simp [hn])]

/-- A child of a plain parent is plain, with or without a reset. -/
theorem Plain.schedFork (h : Plain v) (hg : Graded v) (cur : TaskStruct) (self : Tid)
    (hc : cur.normalPrio = v.normalPrio) : Plain (schedFork cur self v).2 := by
  obtain ⟨hdl,hrt,hlot⟩ := (special_iff _).mp h.policy
  obtain ⟨nice,hl,hu,hs⟩ := hg.level
  cases hr : v.schedResetOnFork with
  | true =>
    have hdropped : Dropped (Model.schedFork cur self v) := (fork_drops_iff hl hu hs hr).mpr hlot
    have hgraded := hg.schedFork hdropped.ret
    refine ⟨hdropped.policy,hdropped.fair,?_⟩
    rw [← hdropped.effective]
    exact hgraded.ordinary hdropped.fair
  | false =>
    have heq := unclassed_inherit cur self hr
    rw [schedFork_fair (by rw [heq]; exact hlot) (by rw [heq,← h.normal,← hc]),heq]
    exact ⟨h.policy,rfl,h.normal⟩

/-- A child of `root` under the flag is plain too. -/
theorem Dropped.plain (h : Dropped a) (hg : Graded a.2) : Plain a.2 :=
  ⟨h.policy,h.fair,by rw [← h.effective]; exact hg.ordinary h.fair⟩

/-- What holds of a run below `root`: its state is reachable, and the tasks below `root`
are plain. The boot task is none of them. -/
structure Heirs (b : Build) (s : Kernel) (D : Tid → Prop) : Prop where
  reach : Reachable b s
  plain : ∀ x ∈ s.live, D x → Plain (s.task x)
  boot : ¬D s.rq.idle

theorem Heirs.curr (h : Heirs b s D) (hi : Inv b s r) (hd : D s.rq.curr) :
    Plain (s.task s.rq.curr) := by
  rcases hi.curr with hidle | hlive
  · exact absurd (hidle ▸ hd) h.boot
  · exact h.plain _ hlive hd

theorem enabled_fresh (he : enabled b s op) (hp : newPid op = some p) : freshPid b p s := by
  cases op with
  | kernelClone args ce =>
    cases hp
    exact he
  | createIoThread ce =>
    cases hp
    exact he.2
  | _ => cases hp

/-- A task below `root` that was there before stays plain. -/
theorem Plain.adjusted (h : Plain (s.task p)) (ha : Adjusted s op p v) (hnew : newPid op ≠ some p)
    (hpolicy : v.policy = (s.task p).policy)
    (hunlent : ∀ donor, op = .rtMutexSetprio p donor →
      rtPrio (rtEffectivePrio s donor (s.task p).normalPrio) = false) : Plain v := by
  cases ha with
  | kept _ same => exact h.congr same
  | weighed => exact ⟨h.policy,h.fair,h.normal⟩
  | reniced _ low high => exact h.renice low high
  | noted => exact ⟨h.policy,h.fair,h.normal⟩
  | lent => exact h.lent _ _ (hunlent _ rfl)
  | reset => exact ⟨h.policy,h.fair,h.normal⟩
  | @committed p _ attr _ pi e _ named other =>
    cases hk : hasFlag attr.schedFlags schedFlagKeepParams with
    | true =>
      rw [committed,commitParams_keep e _ _ hk]
      exact ⟨h.policy,h.fair,h.normal⟩
    | false =>
      rw [committed,commitParams_lottery e _ _ named hk] at hpolicy
      exact absurd hpolicy.symm other
  | born pid => exact absurd pid hnew

/-- A new task below `root` is plain: its parent is, or it dropped out of everything. -/
theorem Plain.born (ha : Adjusted s op p v) (hout : p ∉ s.live) (hg : Graded (s.task s.rq.curr))
    (hparent : ((s.task s.rq.curr).schedResetOnFork = true ∧
      (s.task s.rq.curr).policy ≠ schedLottery) ∨ Plain (s.task s.rq.curr)) : Plain v := by
  cases ha with
  | born _ start same =>
    have hdup : Graded { s.task s.rq.curr with piTopTask := none } := ⟨hg.level,hg.ordinary⟩
    rcases hparent with ⟨hreset,hlot⟩ | hplain
    · obtain ⟨nice,hl,hu,hs⟩ := hdup.level
      exact ((fork_drops_iff hl hu hs hreset).mpr hlot).plain (hdup.schedFork start) |>.congr same
    · have hdupPlain : Plain { s.task s.rq.curr with piTopTask := none } :=
        ⟨hplain.policy,hplain.fair,hplain.normal⟩
      exact (hdupPlain.schedFork hdup _ _ rfl).congr same
  | _ => contradiction

theorem Heirs.step (h : Heirs b s D) (he : enabled b s op) (hrun : exec b e op s = .ok t)
    (hk : KeepsPolicies root D s op t) : Heirs b t (heirs root s op D) := by
  obtain ⟨⟨r,hr⟩,_⟩ := reachable_inv h.reach
  have hg := reachable_graded h.reach
  have hadjusts := exec_adjusts e hr he t hrun
  refine ⟨h.reach.step ⟨e,op,he,hrun⟩,fun x hx hd => ?_,fun hd => ?_⟩
  · have ha := hadjusts.tasks x hx
    unfold heirs at hd
    split at hd
    next hnew =>
      refine Plain.born ha (enabled_fresh he hnew).1 (hg.curr hr.toBooks) ?_
      rcases hd with ⟨rfl,hreset⟩ | hd
      · exact .inl ⟨hreset,hk.parent (by rw [hnew]; rfl) rfl hreset⟩
      · exact .inr (h.curr hr hd)
    next hnew =>
      exact (h.plain x (ha.live hnew) hd).adjusted ha hnew (hk.policies x (ha.live hnew) hx hd)
        fun donor hop => hk.unlent x donor hop hd
  · rw [hadjusts.idle] at hd
    unfold heirs at hd
    split at hd
    next hnew => exact absurd rfl (enabled_fresh he hnew).2.1
    next => exact h.boot hd

theorem Lineage.heirs (h : Lineage b root s D) : Heirs b s D := by
  induction h with
  | start reach => exact ⟨reach,fun _ _ hd => hd.elim,id⟩
  | step _ can run keeps ih => exact ih.step can run keeps

/-- A fork under the reset flag drops the child out of every special class exactly when
the parent is not in the lottery policy. In every run in which `root` never forks under
the flag as a lottery task, no task below it is ever queued above the fair class. -/
theorem reset_drops_iff (b : Build) (root : Tid) :
    (∀ (cur : TaskStruct) (self : Tid) (nice : Int), cur.schedResetOnFork = true →
      minNice ≤ nice → nice ≤ maxNice → cur.staticPrio = niceToPrio nice →
      (Dropped (schedFork cur self { cur with piTopTask := none }) ↔
        cur.policy ≠ schedLottery)) ∧
    ∀ s D, Lineage b root s D → ∀ x c, D x → waiting s c x → c = .fair := by
  refine ⟨fun cur self nice hr hl hu hs => ?_,fun s D h x c hd hw => ?_⟩
  · exact fork_drops_iff (p := { cur with piTopTask := none }) hl hu hs hr
  · exact hw.2.2.symm.trans ((h.heirs.plain x hw.1 hd).fair)

end Runs

section Examples

/-- A task that keeps its normal policy runs with the reset flag set. -/
def flaggedOps : List (Env × Op) := spawn 1 ++
  [(.quiet,.schedSetscheduler .plain 1 { schedPolicy := schedLottery, schedFlags := 0x11 } true
    true),(.quiet,.schedule true)]

/-- The same task under the lottery policy. -/
def flaggedLotteryOps : List (Env × Op) := spawn 1 ++
  [(.quiet,.schedule true),(.quiet,.schedSetscheduler .plain 1
    { schedPolicy := schedLottery, schedFlags := schedFlagResetOnFork } true true)]

def flagged : Kernel := after .versatile flaggedOps

def flaggedLottery : Kernel := after .versatile flaggedLotteryOps

def clonesChild : Op := .kernelClone { flags := 0 } { pid := 2 }

/-- The flagged task clones a child, and the child is woken. -/
def flaggedFork : Kernel := after .versatile (flaggedOps ++ [(.quiet,clonesChild)])

def flaggedWoken : Kernel :=
  after .versatile (flaggedOps ++ [(.quiet,clonesChild)] ++ [(.quiet,.wakeUpNewTask 2)])

/-- The tasks below the flagged one at the end. -/
def flaggedHeirs : Tid → Prop :=
  heirs 1 flaggedFork (.wakeUpNewTask 2) (heirs 1 flagged clonesChild fun _ => False)

theorem flagged_lineage : Lineage .versatile 1 flaggedWoken flaggedHeirs := by
  have hreach : Reachable .versatile flagged := .after (by decide +kernel)
  obtain ⟨hclone,hcloned⟩ := exec_after (b := .versatile) flaggedOps .quiet clonesChild
    (by decide +kernel) (by decide +kernel)
  obtain ⟨hwake,hwoken⟩ := exec_after (b := .versatile)
    (flaggedOps ++ [(.quiet,clonesChild)]) .quiet (.wakeUpNewTask 2) (by decide +kernel)
    (by decide +kernel)
  have hfork : KeepsPolicies 1 (fun _ => False) flagged clonesChild flaggedFork :=
    ⟨fun _ _ _ hd => hd.elim,fun _ _ _ hd => hd.elim,fun _ _ _ => by decide +kernel⟩
  have hfirst : KeepsPolicies 1 (heirs 1 flagged clonesChild fun _ => False) flaggedFork
      (.wakeUpNewTask 2) flaggedWoken := by
    refine ⟨fun x hx _ _ => ?_,fun _ _ hop => (by cases hop),fun hn => (by cases hn)⟩
    have hlive : flaggedFork.live = [1,2] := by decide +kernel
    rw [hlive] at hx
    simp only [List.mem_cons,List.not_mem_nil,or_false] at hx
    rcases hx with rfl | rfl
    · decide +kernel
    · decide +kernel
  exact ((Lineage.start hreach).step hclone hcloned hfork).step hwake hwoken hfirst

theorem flaggedHeirs_child : flaggedHeirs 2 := by
  unfold flaggedHeirs heirs
  rw [if_neg (by decide),if_pos (by decide)]
  exact .inl ⟨by decide +kernel,by decide +kernel⟩

/-- A fork of the flagged task, and the class its child waits in. -/
theorem reset_drops_iff_flagged :
    (Dropped (schedFork (flagged.task 1) 2 { flagged.task 1 with piTopTask := none }) ↔
      (flagged.task 1).policy ≠ schedLottery) ∧
    waiting flaggedWoken .fair 2 ∧ ∀ c, waiting flaggedWoken c 2 → c = .fair := by
  have hdrops := reset_drops_iff .versatile 1
  refine ⟨hdrops.1 _ 2 0 (by decide +kernel) (by decide) (by decide) (by decide +kernel),
    ⟨by decide +kernel,by decide +kernel,by decide +kernel⟩,?_⟩
  exact fun c => hdrops.2 _ _ flagged_lineage 2 c flaggedHeirs_child

/-- The child of a lottery task stays in the lottery class although the flag is set. -/
theorem lottery_survives_reset : Reachable .versatile flaggedLottery ∧
    (flaggedLottery.task 1).schedResetOnFork = true ∧
    (flaggedLottery.task 1).policy = schedLottery ∧
    (flaggedLottery.task 1).staticPrio = niceToPrio 0 ∧
    ¬Dropped (schedFork (flaggedLottery.task 1) 2
      { flaggedLottery.task 1 with piTopTask := none }) ∧
    waiting (after .versatile (flaggedLotteryOps ++ spawn 2)) .lottery 2 := by
  refine ⟨.after (by decide +kernel),by decide +kernel,by decide +kernel,by decide +kernel,
    fun h => ?_,by decide +kernel,by decide +kernel,by decide +kernel⟩
  have hclass := h.fair
  have hlottery : (schedFork (flaggedLottery.task 1) 2
      { flaggedLottery.task 1 with piTopTask := none }).2.schedClass = .lottery := by decide +kernel
  rw [hlottery] at hclass
  cases hclass

end Examples

end LotteryScheduler.Properties
