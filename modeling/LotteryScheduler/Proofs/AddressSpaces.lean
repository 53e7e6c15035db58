import LotteryScheduler.Lib.Census
import LotteryScheduler.Model.AddressSpace
import LotteryScheduler.Proofs.Threads

namespace LotteryScheduler.Proofs
open Lib Model

/-- The users of an address space: the tasks that have it, and others. -/
def userRefs (w : MmState) (m : MmId) : Int :=
  (w.kernel.live.countP fun p => w.mm p == some m) + w.outside m

/-- The current task has no address space of its own and runs on this one. -/
def borrowed (w : MmState) (m : MmId) : Prop :=
  w.mm w.kernel.rq.curr = none ∧ w.activeMm w.kernel.rq.curr = some m

instance (w : MmState) (m : MmId) : Decidable (borrowed w m) :=
  inferInstanceAs (Decidable (_ ∧ _))

/-- The references to an address space: one for all its users, one for a task that borrows it,
and one that the end of a switch is to drop. -/
def heldRefs (w : MmState) (m : MmId) : Int :=
  (if 0 < (w.mms m).mmUsers then 1 else 0) + (if borrowed w m then 1 else 0) +
    (if w.prevMm = some m then 1 else 0)

/-- Every reference is somebody's. Of `user` and `hand` one user and one reference more are
counted, which somebody is about to hand over or to drop. -/
structure Spaces (user hand : Option MmId) (w : MmState) : Prop where
  own : ∀ p m, w.mm p = some m → w.activeMm p = some m
  lazy : ∀ p, p ≠ w.kernel.rq.curr → w.mm p = none → w.activeMm p = none
  loaded : w.activeMm w.kernel.rq.curr = some w.loaded
  members : ∀ p m, w.mm p = some m → p ∈ w.kernel.live
  users : ∀ m, (w.mms m).mmUsers = userRefs w m + if user = some m then 1 else 0
  counts : ∀ m, (w.mms m).mmCount = heldRefs w m + if hand = some m then 1 else 0
  settled : w.switching = none → w.prevMm = none
  init : 0 < w.outside initMm
  once : ∀ m, w.allocated m = w.freed m + if 0 < (w.mms m).mmCount then 1 else 0
  quiet : w.warned = false

section Counts
variable {user hand hand' : Option MmId} {w : MmState} {m x : MmId} {p : Tid}

theorem userRefs_nonneg (w : MmState) (m : MmId) : 0 ≤ userRefs w m := by
  unfold userRefs
  omega

theorem heldRefs_nonneg (w : MmState) (m : MmId) : 0 ≤ heldRefs w m := by
  unfold heldRefs
  split <;> split <;> split <;> omega

theorem heldRefs_zero (h : heldRefs w m = 0) :
    ¬0 < (w.mms m).mmUsers ∧ ¬borrowed w m ∧ w.prevMm ≠ some m := by
  unfold heldRefs at h
  refine ⟨fun hu => ?_,fun hb => ?_,fun hp => ?_⟩
  · rw [if_pos hu] at h
    split at h <;> split at h <;> omega
  · rw [if_pos hb] at h
    split at h <;> split at h <;> omega
  · rw [if_pos hp] at h
    split at h <;> split at h <;> omega

/-- An address space without users is nobody's. -/
theorem Spaces.unused (h : Spaces user hand w) (hu : ¬0 < (w.mms m).mmUsers) :
    userRefs w m = 0 ∧ user ≠ some m ∧ w.outside m = 0 ∧ ∀ p, w.mm p ≠ some m := by
  have husers := h.users m
  have hnonneg := userRefs_nonneg w m
  have hrefs : userRefs w m = 0 := by
    split at husers <;> omega
  have hnot : user ≠ some m := by
    intro he
    rw [if_pos he] at husers
    omega
  unfold userRefs at hrefs
  have hcount : (w.kernel.live.countP fun p => w.mm p == some m) = 0 := by omega
  refine ⟨by unfold userRefs; exact hrefs,hnot,by omega,fun p hp => ?_⟩
  have hnone := List.countP_eq_zero.mp hcount p (h.members p m hp)
  simp [hp] at hnone

/-- One that nobody refers to is not in use anywhere, and so not the one that is loaded. -/
theorem Spaces.unloaded (h : Spaces user hand w) (hz : heldRefs w m = 0) :
    m ≠ initMm ∧ w.mm w.kernel.rq.curr ≠ some m ∧ w.activeMm w.kernel.rq.curr ≠ some m := by
  obtain ⟨husers,hborrow,-⟩ := heldRefs_zero hz
  obtain ⟨-,-,hout,hmm⟩ := h.unused husers
  refine ⟨?_,hmm _,fun ha => ?_⟩
  · rintro rfl
    have hinit := h.init
    omega
  · cases hcurr : w.mm w.kernel.rq.curr with
    | none => exact hborrow ⟨hcurr,ha⟩
    | some x =>
      have hx := h.own _ x hcurr
      rw [ha] at hx
      cases hx
      exact hmm _ hcurr

/-- The references are counted anew and nothing else has changed. -/
theorem Spaces.recount (h : Spaces user hand w) (mms : MmId → Mm) (freed : MmId → Nat)
    (hu : ∀ x, (mms x).mmUsers = (w.mms x).mmUsers)
    (hc : ∀ x, (mms x).mmCount = heldRefs w x + if hand' = some x then 1 else 0)
    (ho : ∀ x, w.allocated x = freed x + if 0 < (mms x).mmCount then 1 else 0) :
    Spaces user hand' { w with mms, freed, warned := false } := by
  have hrefs : ∀ x, heldRefs { w with mms, freed, warned := false } x = heldRefs w x := by
    intro x
    change (if 0 < (mms x).mmUsers then 1 else 0) + _ + _ = _
    rw [hu]
    rfl
  refine ⟨h.own,h.lazy,h.loaded,h.members,fun x => ?_,fun x => ?_,h.settled,h.init,ho,rfl⟩
  · rw [hu]
    exact h.users x
  · rw [hrefs]
    exact hc x

theorem mmdrop_spaces (h : Spaces user (some m) w) :
    Returns (mmdrop m w) (Spaces user none) := by
  have hcount := h.counts m
  have hnonneg := heldRefs_nonneg w m
  rw [if_pos rfl] at hcount
  let mms := Function.update w.mms m { w.mms m with mmCount := (w.mms m).mmCount - 1 }
  have hself : (mms m).mmCount = heldRefs w m := by
    simp only [mms,Function.update_self]
    omega
  have husers : ∀ x, (mms x).mmUsers = (w.mms x).mmUsers := by
    intro x
    rcases eq_or_ne x m with rfl | hx
    · simp [mms]
    · simp [mms,hx]
  have hcounts : ∀ x, (mms x).mmCount = heldRefs w x + if none = some x then 1 else 0 := by
    intro x
    rcases eq_or_ne x m with rfl | hx
    · simp [hself]
    · have hother := h.counts x
      rw [if_neg (fun he => hx (Option.some.inj he).symm)] at hother
      simp [mms,hx,hother]
  unfold mmdrop
  change Returns (if (mms m).mmCount = 0 then freeMm m { w with mms } else .ok { w with mms }) _
  split
  next hz =>
    rw [hself] at hz
    obtain ⟨hinit,hmm,hactive⟩ := h.unloaded hz
    have hwarn : (w.warned || w.mm w.kernel.rq.curr = some m ||
        w.activeMm w.kernel.rq.curr = some m) = false := by
      simp [h.quiet,hmm,hactive]
    unfold freeMm
    rw [if_neg hinit]
    dsimp only
    rw [hwarn]
    refine .ok (h.recount mms _ husers hcounts fun x => ?_)
    rcases eq_or_ne x m with rfl | hx
    · have honce := h.once x
      rw [hself,hz]
      rw [if_pos (by omega)] at honce
      simpa using honce
    · have honce := h.once x
      simpa [mms,hx] using honce
  next hz =>
    rw [hself] at hz
    have hlast : Spaces user none { w with mms, warned := false } := by
      refine h.recount mms w.freed husers hcounts fun x => ?_
      have honce := h.once x
      rcases eq_or_ne x m with rfl | hx
      · rw [hself,if_pos (by omega)]
        rw [if_pos (by omega)] at honce
        exact honce
      · simpa [mms,hx] using honce
    rw [← h.quiet] at hlast
    exact .ok hlast

/-- One user more or less. The users hold a reference as long as there are any. -/
theorem Spaces.reuse {user' : Option MmId} (h : Spaces user hand w) (n : Int)
    (hn : n = userRefs w m + if user' = some m then 1 else 0)
    (ho : ∀ x, x ≠ m → (user' = some x ↔ user = some x))
    (hc : (w.mms m).mmCount = (if 0 < n then 1 else 0) + (if borrowed w m then 1 else 0) +
      (if w.prevMm = some m then 1 else 0) + if hand' = some m then 1 else 0)
    (hh : ∀ x, x ≠ m → (hand' = some x ↔ hand = some x)) :
    Spaces user' hand'
      { w with mms := Function.update w.mms m { w.mms m with mmUsers := n } } := by
  let mms := Function.update w.mms m { w.mms m with mmUsers := n }
  have hself : mms m = { w.mms m with mmUsers := n } := Function.update_self ..
  have hother : ∀ x, x ≠ m → mms x = w.mms x := fun x hx => Function.update_of_ne hx ..
  refine ⟨h.own,h.lazy,h.loaded,h.members,fun x => ?_,fun x => ?_,h.settled,h.init,fun x => ?_,
    h.quiet⟩
  · change (mms x).mmUsers = userRefs w x + _
    rcases eq_or_ne x m with rfl | hx
    · rw [hself,hn]
    · rw [hother x hx,h.users x]
      simp only [ho x hx]
  · change (mms x).mmCount = (if 0 < (mms x).mmUsers then 1 else 0) +
      (if borrowed w x then 1 else 0) + (if w.prevMm = some x then 1 else 0) + _
    rcases eq_or_ne x m with rfl | hx
    · rw [hself]
      exact hc
    · rw [hother x hx,h.counts x]
      simp only [hh x hx,heldRefs]
  · change _ = _ + if 0 < (mms x).mmCount then 1 else 0
    rcases eq_or_ne x m with rfl | hx
    · rw [hself]
      exact h.once x
    · rw [hother x hx]
      exact h.once x

theorem mmget_spaces (h : Spaces none hand w) (hu : 0 < (w.mms m).mmUsers) :
    Spaces (some m) hand (mmget m w) := by
  have husers := h.users m
  have hcount := h.counts m
  rw [if_neg nofun,Int.add_zero] at husers
  unfold heldRefs at hcount
  rw [if_pos hu] at hcount
  refine h.reuse _ (by rw [husers,if_pos rfl]) (fun x hx => ?_) ?_ fun _ _ => Iff.rfl
  · simp [Ne.symm hx]
  · rw [if_pos (by omega)]
    exact hcount

theorem mmput_spaces (h : Spaces (some m) none w) :
    Returns (mmput m w) (Spaces none none) := by
  have husers := h.users m
  have hcount := h.counts m
  have hnonneg := userRefs_nonneg w m
  rw [if_pos rfl] at husers
  unfold heldRefs at hcount
  rw [if_pos (by omega)] at hcount
  have hn : (w.mms m).mmUsers - 1 = userRefs w m := by omega
  have hone : ∀ x, x ≠ m → ((none : Option MmId) = some x ↔ some m = some x) := by
    intro x hx
    simp [Ne.symm hx]
  unfold mmput
  dsimp only
  split
  next hz =>
    rw [Function.update_self] at hz
    dsimp only at hz
    refine mmdrop_spaces (h.reuse _ (by rw [hn]; simp) hone ?_ fun x hx => ?_)
    · rw [if_neg (by omega),if_pos rfl,hcount]
      simp only [reduceCtorEq,if_false]
      omega
    · simp [Ne.symm hx]
  next hz =>
    rw [Function.update_self] at hz
    dsimp only at hz
    refine .ok (h.reuse _ (by rw [hn]; simp) hone ?_ fun _ _ => Iff.rfl)
    rw [if_pos (by omega)]
    exact hcount

theorem mmgrab_spaces (h : Spaces user none w) (hc : 0 < (w.mms m).mmCount) :
    Spaces user (some m) (mmgrab m w) := by
  let mms := Function.update w.mms m { w.mms m with mmCount := (w.mms m).mmCount + 1 }
  have hlast : Spaces user (some m) { w with mms, warned := false } := by
    refine h.recount mms w.freed (fun x => ?_) (fun x => ?_) fun x => ?_
    all_goals rcases eq_or_ne x m with rfl | hx
    · simp [mms]
    · simp [mms,hx]
    · simpa [mms] using h.counts x
    · simpa [mms,hx,Ne.symm hx] using h.counts x
    · have honce := h.once x
      rw [if_pos hc] at honce
      have hpos : 0 < (mms x).mmCount := by
        simp only [mms,Function.update_self]
        omega
      rw [if_pos hpos]
      exact honce
    · simpa [mms,hx] using h.once x
  rw [← h.quiet] at hlast
  exact hlast

/-- Whatever has users has a reference. -/
theorem Spaces.inUse (h : Spaces none none w) (hp : w.mm p = some m) :
    0 < (w.mms m).mmUsers ∧ 0 < (w.mms m).mmCount := by
  have husers : 0 < (w.mms m).mmUsers := by
    by_contra hu
    exact (h.unused hu).2.2.2 p hp
  refine ⟨husers,?_⟩
  rw [h.counts m,heldRefs,if_pos husers]
  split <;> split <;> simp

end Counts

section Switching
variable {hand : Option MmId} {w : MmState} {t : Kernel} {m : MmId} {p prev : Tid}

/-- The CPU goes to another task, and the references from one hand to the other. -/
theorem Spaces.switch (h : Spaces none hand w) (activeMm : Tid → Option MmId)
    (prevMm : Option MmId) (loaded : MmId) (hl : t.live = w.kernel.live)
    (own : ∀ p m, w.mm p = some m → activeMm p = some m)
    (lazy : ∀ p, p ≠ t.rq.curr → w.mm p = none → activeMm p = none)
    (load : activeMm t.rq.curr = some loaded)
    (refs : ∀ x, (if w.mm t.rq.curr = none ∧ activeMm t.rq.curr = some x then 1 else 0) +
      (if prevMm = some x then 1 else 0) = ((if borrowed w x then 1 else 0) +
        (if w.prevMm = some x then 1 else 0) + (if hand = some x then 1 else 0) : Int)) :
    Spaces none none
      { w with kernel := t, activeMm, prevMm, loaded, switching := some prev } := by
  have husers : ∀ x, userRefs { w with
      kernel := t, activeMm, prevMm, loaded, switching := some prev } x = userRefs w x := by
    intro x
    unfold userRefs
    rw [hl]
  refine ⟨own,lazy,load,?_,fun x => ?_,fun x => ?_,nofun,h.init,h.once,h.quiet⟩
  · intro p x hp
    rw [hl]
    exact h.members p x hp
  · rw [husers]
    exact h.users x
  · have hcount := h.counts x
    have hx := refs x
    change (w.mms x).mmCount = (if 0 < (w.mms x).mmUsers then 1 else 0) +
      (if w.mm t.rq.curr = none ∧ activeMm t.rq.curr = some x then 1 else 0) +
      (if prevMm = some x then 1 else 0) + 0
    unfold heldRefs at hcount
    omega

theorem contextSwitch_spaces (h : Spaces none none w) (hs : w.switching = none)
    (hl : t.live = w.kernel.live) (hne : t.rq.curr ≠ w.kernel.rq.curr) :
    Returns (contextSwitch w.kernel.rq.curr t.rq.curr { w with kernel := t })
      (Spaces none none) := by
  have hprev := h.settled hs
  unfold contextSwitch
  dsimp only
  cases hnext : w.mm t.rq.curr with
  | none =>
    cases hmm : w.mm w.kernel.rq.curr with
    | some m =>
      -- user to kernel: the next task takes a reference of its own
      have hactive := h.own _ m hmm
      have hgrab := mmgrab_spaces h (h.inUse hmm).2
      have hload : m = w.loaded := Option.some.inj (hactive.symm.trans h.loaded)
      dsimp only
      rw [Function.update_of_ne hne.symm,hactive]
      refine .ok (hgrab.switch (Function.update w.activeMm t.rq.curr (some m)) w.prevMm w.loaded hl
        (fun p x hp => ?_) (fun p hp hn => ?_) ?_ fun x => ?_)
      · rw [Function.update_of_ne]
        · exact h.own p x hp
        · rintro rfl
          cases hnext.symm.trans hp
      · rw [Function.update_of_ne hp]
        refine h.lazy p ?_ hn
        rintro rfl
        cases hmm.symm.trans hn
      · rw [Function.update_self,hload]
      · have hnot : ¬borrowed (mmgrab m w) x := by
          intro hb
          cases hmm.symm.trans hb.1
        rw [if_neg hnot,Function.update_self]
        change (if w.mm t.rq.curr = none ∧ _ then 1 else 0) + _ = _
        simp only [hnext,true_and]
        exact (Int.add_comm ..).trans (by rw [Int.zero_add]; rfl)
    | none =>
      -- kernel to kernel: the reference goes along
      refine .ok (h.switch _ _ _ hl (fun p x hp => ?_) (fun p hp hn => ?_) ?_ fun x => ?_)
      · have hp' : p ≠ w.kernel.rq.curr := by
          rintro rfl
          cases hmm.symm.trans hp
        have hn' : p ≠ t.rq.curr := by
          rintro rfl
          cases hnext.symm.trans hp
        rw [Function.update_of_ne hp',Function.update_of_ne hn']
        exact h.own p x hp
      · rcases eq_or_ne p w.kernel.rq.curr with rfl | hp'
        · rw [Function.update_self]
        · rw [Function.update_of_ne hp',Function.update_of_ne hp]
          exact h.lazy p hp' hn
      · rw [Function.update_of_ne hne,Function.update_self]
        exact h.loaded
      · rw [Function.update_of_ne hne,Function.update_self]
        simp [borrowed,hnext,hmm]
  | some m =>
    have hown := h.own _ m hnext
    cases hmm : w.mm w.kernel.rq.curr with
    | some y =>
      -- user to user: nobody borrows
      refine .ok (h.switch _ _ _ hl h.own (fun p hp hn => h.lazy p ?_ hn) hown fun x => ?_)
      · rintro rfl
        cases hmm.symm.trans hn
      · simp [borrowed,hnext,hmm]
    | none =>
      -- kernel to user: the reference is left for the end of the switch
      refine .ok (h.switch _ _ _ hl (fun p x hp => ?_) (fun p hp hn => ?_) ?_ fun x => ?_)
      · have hp' : p ≠ w.kernel.rq.curr := by
          rintro rfl
          cases hmm.symm.trans hp
        rw [Function.update_of_ne hp']
        exact h.own p x hp
      · rcases eq_or_ne p w.kernel.rq.curr with rfl | hp'
        · rw [Function.update_self]
        · rw [Function.update_of_ne hp']
          exact h.lazy p hp' hn
      · rw [Function.update_of_ne hne]
        exact hown
      · simp [borrowed,hnext,hmm,hprev]

theorem finishTaskSwitch_spaces (h : Spaces none none w) :
    Returns (finishTaskSwitch w) (Spaces none none) := by
  unfold finishTaskSwitch
  dsimp only
  cases hp : w.prevMm with
  | none =>
    refine .ok ⟨h.own,h.lazy,h.loaded,h.members,h.users,fun m => ?_,fun _ => rfl,h.init,h.once,
      h.quiet⟩
    have hcount := h.counts m
    unfold heldRefs at hcount
    rw [hp] at hcount
    exact hcount
  | some m =>
    refine mmdrop_spaces ⟨h.own,h.lazy,h.loaded,h.members,h.users,fun x => ?_,fun _ => rfl,h.init,
      h.once,h.quiet⟩
    have hcount := h.counts x
    unfold heldRefs at hcount
    rw [hp] at hcount
    change (w.mms x).mmCount = (if 0 < (w.mms x).mmUsers then 1 else 0) +
      (if borrowed w x then 1 else 0) + 0 + _
    simpa using hcount

end Switching

section Tasks
variable {user hand : Option MmId} {w : MmState} {t : Kernel} {m : MmId} {p tsk : Tid}

/-- Tasks without an address space may come and go. -/
theorem Spaces.stay (h : Spaces user hand w) (hc : t.rq.curr = w.kernel.rq.curr)
    (hl : ∀ m, (t.live.countP fun p => w.mm p == some m) =
      w.kernel.live.countP fun p => w.mm p == some m)
    (hm : ∀ p m, w.mm p = some m → p ∈ t.live) : Spaces user hand { w with kernel := t } := by
  refine ⟨h.own,?_,?_,hm,fun x => ?_,fun x => ?_,h.settled,h.init,h.once,h.quiet⟩
  · intro p hp
    exact h.lazy p (hc ▸ hp)
  · change w.activeMm t.rq.curr = _
    rw [hc]
    exact h.loaded
  · have husers := h.users x
    unfold userRefs at husers ⊢
    rw [hl]
    exact husers
  · have hsame : borrowed { w with kernel := t } x ↔ borrowed w x := by
      unfold borrowed
      rw [hc]
    have hcount := h.counts x
    simp only [heldRefs,hsame] at hcount ⊢
    exact hcount

theorem Spaces.stays (h : Spaces user hand w) (hc : t.rq.curr = w.kernel.rq.curr)
    (hl : t.live = w.kernel.live) : Spaces user hand { w with kernel := t } :=
  h.stay hc (fun _ => by rw [hl]) fun p m hp => hl ▸ h.members p m hp

/-- A user who is no task is one of the users all the same. -/
theorem Spaces.lends (h : Spaces (some m) hand w) : Spaces none hand
    { w with outside := Function.update w.outside m (w.outside m + 1) } := by
  refine ⟨h.own,h.lazy,h.loaded,h.members,fun x => ?_,h.counts,h.settled,?_,h.once,h.quiet⟩
  · have husers := h.users x
    unfold userRefs at husers ⊢
    rcases eq_or_ne x m with rfl | hx
    · rw [if_pos rfl] at husers
      simp only [Function.update_self,reduceCtorEq,if_false]
      omega
    · rw [if_neg (fun he => hx (Option.some.inj he).symm)] at husers
      simpa [hx] using husers
  · have hinit := h.init
    rcases eq_or_ne initMm m with he | hne
    · subst he
      simp
    · simpa [hne] using hinit

theorem Spaces.redeems (h : Spaces none hand w) (hm : m ≠ initMm) (ho : 0 < w.outside m) :
    Spaces (some m) hand { w with outside := Function.update w.outside m (w.outside m - 1) } := by
  refine ⟨h.own,h.lazy,h.loaded,h.members,fun x => ?_,h.counts,h.settled,?_,h.once,h.quiet⟩
  · have husers := h.users x
    unfold userRefs at husers ⊢
    rcases eq_or_ne x m with rfl | hx
    · simp only [Function.update_self,if_true]
      simp only [reduceCtorEq,if_false] at husers
      omega
    · rw [if_neg (fun he => hx (Option.some.inj he).symm)]
      simpa [hx] using husers
  · simpa [hm.symm] using h.init

theorem getTaskMm_spaces (h : Spaces none none w) (kthread : Bool) (task : Tid) :
    Spaces none none (getTaskMm kthread task w) := by
  unfold getTaskMm
  split
  next => exact h
  next m hmm =>
    split
    · exact h
    · exact (mmget_spaces h (h.inUse hmm).1).lends

theorem putOutside_spaces (h : Spaces none none w) (hm : m ≠ initMm) (ho : 0 < w.outside m) :
    Returns (putOutside m w) (Spaces none none) := mmput_spaces (h.redeems hm ho)

/-- A task that gives up its address space borrows it. -/
theorem exitMm_spaces (h : Spaces none none w) (hn : w.kernel.live.Nodup) :
    Returns (exitMm w) (Spaces none none) := by
  unfold exitMm
  dsimp only
  cases hmm : w.mm w.kernel.rq.curr with
  | none => exact .ok h
  | some m =>
    have hgrab := mmgrab_spaces h (h.inUse hmm).2
    have hactive := h.own _ m hmm
    have hcurr := h.members _ m hmm
    refine mmput_spaces ⟨fun p x hp => ?_,fun p hp hnone => ?_,h.loaded,fun p x hp => ?_,
      fun x => ?_,fun x => ?_,h.settled,h.init,hgrab.once,h.quiet⟩
    · rcases eq_or_ne p w.kernel.rq.curr with rfl | hne
      · cases (Function.update_self _ _ w.mm).symm.trans hp
      · exact h.own p x ((Function.update_of_ne hne _ w.mm).symm.trans hp)
    · exact h.lazy p hp ((Function.update_of_ne hp _ w.mm).symm.trans hnone)
    · rcases eq_or_ne p w.kernel.rq.curr with rfl | hne
      · exact hcurr
      · exact h.members p x ((Function.update_of_ne hne _ w.mm).symm.trans hp)
    · have husers := hgrab.users x
      have hmoved := countP_change (p := fun p => w.mm p == some x)
        (q := fun p => Function.update w.mm w.kernel.rq.curr none p == some x) hn hcurr
        fun y _ hy => by simp [hy]
      unfold userRefs at husers ⊢
      rw [Function.update_self,hmm] at hmoved
      change _ = ((w.kernel.live.countP fun p => w.mm p == some x : Nat) : Int) + w.outside x + 0
        at husers
      change _ = ((w.kernel.live.countP fun p =>
        Function.update w.mm w.kernel.rq.curr none p == some x : Nat) : Int) + w.outside x + _
      rcases eq_or_ne x m with rfl | hx
      · rw [if_pos rfl,husers]
        simp only [beq_self_eq_true,Bool.toNat_true,Option.none_beq_some,Bool.toNat_false] at hmoved
        omega
      · rw [if_neg (fun he => hx (Option.some.inj he).symm),husers]
        simp only [Option.none_beq_some,Bool.toNat_false,Option.some_beq_some] at hmoved
        have hfalse : (m == x) = false := by simp [Ne.symm hx]
        rw [hfalse] at hmoved
        simp only [Bool.toNat_false] at hmoved
        omega
    · have hcount := hgrab.counts x
      have hbefore : ¬borrowed (mmgrab m w) x := by
        intro hb
        cases hmm.symm.trans hb.1
      have hafter : borrowed { mmgrab m w with
          mm := Function.update (mmgrab m w).mm w.kernel.rq.curr none } x ↔ some m = some x := by
        rw [← hactive]
        exact ⟨And.right,fun ha => ⟨Function.update_self ..,ha⟩⟩
      simp only [heldRefs,hbefore,hafter,if_false] at hcount ⊢
      rw [hcount]
      simp only [reduceCtorEq,if_false]
      omega

/-- A child joins the users of an address space. -/
theorem Spaces.joins (h : Spaces (some m) hand w) (hp : tsk ∉ w.kernel.live)
    (hne : tsk ≠ w.kernel.rq.curr) (hl : t.live = w.kernel.live ++ [tsk])
    (hc : t.rq.curr = w.kernel.rq.curr) : Spaces none hand { w with
      mm := Function.update w.mm tsk (some m)
      activeMm := Function.update w.activeMm tsk (some m)
      kernel := t } := by
  have hother : ∀ x ∈ w.kernel.live, x ≠ tsk := fun x hx he => hp (he ▸ hx)
  refine ⟨fun p x hx => ?_,fun p hpc hnone => ?_,?_,fun p x hx => ?_,fun x => ?_,fun x => ?_,
    h.settled,h.init,h.once,h.quiet⟩
  · rcases eq_or_ne p tsk with rfl | hne
    · simpa using hx
    · simpa [hne] using h.own p x (by simpa [hne] using hx)
  · rcases eq_or_ne p tsk with rfl | hne
    · simp at hnone
    · rw [hc] at hpc
      simpa [hne] using h.lazy p hpc (by simpa [hne] using hnone)
  · rw [hc]
    exact (Function.update_of_ne hne.symm ..).trans h.loaded
  · rw [hl,List.mem_append,List.mem_singleton]
    rcases eq_or_ne p tsk with rfl | hne
    · exact .inr rfl
    · exact .inl (h.members p x (by simpa [hne] using hx))
  · have husers := h.users x
    have hcount : (w.kernel.live.countP fun p => Function.update w.mm tsk (some m) p == some x) =
        w.kernel.live.countP fun p => w.mm p == some x := by
      apply List.countP_congr
      intro p hp
      rw [Function.update_of_ne (hother p hp)]
    unfold userRefs at husers ⊢
    dsimp only
    rw [husers,hl,List.countP_append,List.countP_singleton,hcount,Function.update_self]
    rcases eq_or_ne m x with rfl | hx
    · simp
      omega
    · simp [hx]
  · have hsame : borrowed { w with
        mm := Function.update w.mm tsk (some m)
        activeMm := Function.update w.activeMm tsk (some m)
        kernel := t } x ↔ borrowed w x := by
      unfold borrowed
      dsimp only
      rw [hc,Function.update_of_ne hne.symm,Function.update_of_ne hne.symm]
    have hcount := h.counts x
    simp only [heldRefs,hsame] at hcount ⊢
    exact hcount

/-- Memory that nobody refers to becomes an address space with one user. -/
theorem mmInit_spaces (h : Spaces none none w) (hz : (w.mms m).mmCount = 0) :
    Spaces (some m) none (mmInit m w) := by
  have hcount := h.counts m
  have honce := h.once m
  rw [hz] at hcount honce
  have hheld : heldRefs w m = 0 := by simpa using hcount.symm
  obtain ⟨husers,hborrow,hprev⟩ := heldRefs_zero hheld
  obtain ⟨hrefs,-,-,-⟩ := h.unused husers
  refine ⟨h.own,h.lazy,h.loaded,h.members,fun x => ?_,fun x => ?_,h.settled,h.init,fun x => ?_,
    h.quiet⟩
  · change (Function.update w.mms m ⟨1,1⟩ x).mmUsers = userRefs w x + _
    rcases eq_or_ne x m with rfl | hx
    · rw [Function.update_self,hrefs,if_pos rfl]
      rfl
    · rw [Function.update_of_ne hx,if_neg fun he => hx (Option.some.inj he).symm]
      exact h.users x
  · change (Function.update w.mms m ⟨1,1⟩ x).mmCount =
      (if 0 < (Function.update w.mms m ⟨1,1⟩ x).mmUsers then 1 else 0) +
      (if borrowed w x then 1 else 0) + (if w.prevMm = some x then 1 else 0) + _
    rcases eq_or_ne x m with rfl | hx
    · rw [Function.update_self,if_neg hborrow,if_neg hprev]
      rfl
    · rw [Function.update_of_ne hx]
      exact h.counts x
  · change Function.update w.allocated m _ x =
      _ + if 0 < (Function.update w.mms m ⟨1,1⟩ x).mmCount then 1 else 0
    rcases eq_or_ne x m with rfl | hx
    · rw [Function.update_self,Function.update_self,honce]
      rfl
    · rw [Function.update_of_ne hx,Function.update_of_ne hx]
      exact h.once x

/-- The current task moves to another address space and leaves a user of its old one behind,
or a reference to the one that it has borrowed. -/
theorem Spaces.moves (h : Spaces (some m) none w) (hn : w.kernel.live.Nodup)
    (hcurr : w.kernel.rq.curr ∈ w.kernel.live) (hm : w.mm w.kernel.rq.curr ≠ some m) :
    Spaces (w.mm w.kernel.rq.curr)
      (if w.mm w.kernel.rq.curr = none then some w.loaded else none) { w with
        mm := Function.update w.mm w.kernel.rq.curr (some m)
        activeMm := Function.update w.activeMm w.kernel.rq.curr (some m)
        loaded := m } := by
  refine ⟨fun p x hp => ?_,fun p hp hnone => ?_,Function.update_self ..,fun p x hp => ?_,
    fun x => ?_,fun x => ?_,h.settled,h.init,h.once,h.quiet⟩
  · rcases eq_or_ne p w.kernel.rq.curr with rfl | hne
    · simpa using hp
    · simpa [hne] using h.own p x (by simpa [hne] using hp)
  · have hp : p ≠ w.kernel.rq.curr := hp
    simpa [hp] using h.lazy p hp (by simpa [hp] using hnone)
  · rcases eq_or_ne p w.kernel.rq.curr with rfl | hne
    · exact hcurr
    · exact h.members p x (by simpa [hne] using hp)
  · have husers := h.users x
    have hmoved := countP_change (p := fun p => w.mm p == some x)
      (q := fun p => Function.update w.mm w.kernel.rq.curr (some m) p == some x) hn hcurr
      fun y _ hy => by simp [hy]
    unfold userRefs at husers ⊢
    rw [Function.update_self] at hmoved
    dsimp only
    rw [husers]
    by_cases hx : m = x
    · subst hx
      rw [if_pos rfl,if_neg hm]
      have hold : (w.mm w.kernel.rq.curr == some m) = false := by simpa using hm
      rw [hold] at hmoved
      simp only [beq_self_eq_true,Bool.toNat_true,Bool.toNat_false] at hmoved
      omega
    · have hnew : (some m == some x) = false := by simpa using hx
      have hnone : ¬some m = some x := fun he => hx (Option.some.inj he)
      rw [hnew] at hmoved
      rw [if_neg hnone]
      by_cases hold : w.mm w.kernel.rq.curr = some x
      · rw [if_pos hold]
        rw [hold] at hmoved
        simp only [beq_self_eq_true,Bool.toNat_true,Bool.toNat_false] at hmoved
        omega
      · rw [if_neg hold]
        have hfalse : (w.mm w.kernel.rq.curr == some x) = false := by simpa using hold
        rw [hfalse] at hmoved
        simp only [Bool.toNat_false] at hmoved
        omega
  · have hcount := h.counts x
    have hafter : ¬borrowed { w with
        mm := Function.update w.mm w.kernel.rq.curr (some m)
        activeMm := Function.update w.activeMm w.kernel.rq.curr (some m)
        loaded := m } x := by
      intro hb
      cases (Function.update_self ..).symm.trans hb.1
    have hbefore : borrowed w x ↔
        (if w.mm w.kernel.rq.curr = none then some w.loaded else none) = some x := by
      unfold borrowed
      rw [h.loaded]
      split
      next hnone => simp [hnone]
      next hsome => simp [hsome]
    simp only [heldRefs,hafter,hbefore,if_false] at hcount ⊢
    rw [hcount]
    simp only [reduceCtorEq,if_false]
    omega

/-- A task that is not the idle task executes a program. -/
theorem execMmap_spaces (h : Spaces none none w) (hn : w.kernel.live.Nodup)
    (hcurr : w.kernel.rq.curr ∈ w.kernel.live) (hz : (w.mms fresh).mmCount = 0) :
    Returns (execMmap fresh w) (Spaces none none) := by
  have hne : w.mm w.kernel.rq.curr ≠ some fresh := by
    intro hold
    have huse := (h.inUse hold).2
    omega
  have hmoved := (mmInit_spaces h hz).moves hn hcurr hne
  unfold execMmap
  dsimp only
  cases hold : w.mm w.kernel.rq.curr with
  | none =>
    rw [h.loaded]
    change Spaces (w.mm w.kernel.rq.curr) (if w.mm w.kernel.rq.curr = none then _ else _) _
      at hmoved
    rw [hold,if_pos rfl] at hmoved
    exact mmdrop_spaces hmoved
  | some oldMm =>
    change Spaces (w.mm w.kernel.rq.curr) (if w.mm w.kernel.rq.curr = none then _ else _) _
      at hmoved
    rw [hold,if_neg nofun] at hmoved
    exact mmput_spaces hmoved

/-- What `copy_mm` has done before the child gets its part of it. -/
inductive Copying (w : MmState) (tsk : Tid) : MmState → Prop where
  | kernel (none : w.mm w.kernel.rq.curr = none) : Copying w tsk { w with
      mm := Function.update w.mm tsk .none
      activeMm := Function.update w.activeMm tsk .none }
  | user (m : MmId) (spaces : Spaces (some m) .none w') (kernel : w'.kernel = w.kernel)
    (mm : w'.mm = w.mm) (active : w'.activeMm = w.activeMm) : Copying w tsk { w' with
      mm := Function.update w'.mm tsk (some m)
      activeMm := Function.update w'.activeMm tsk (some m) }

theorem copyMm_copying (h : Spaces none none w) (cloneFlags : UInt64) (tsk : Tid)
    (hz : (w.mms fresh).mmCount = 0) : Copying w tsk (copyMm cloneFlags fresh tsk w) := by
  unfold copyMm
  dsimp only
  cases hmm : w.mm w.kernel.rq.curr with
  | none => exact .kernel hmm
  | some m =>
    dsimp only
    split
    · exact .user m (mmget_spaces h (h.inUse hmm).1) rfl rfl rfl
    · exact .user fresh (mmInit_spaces h hz) rfl rfl rfl

theorem mmdrop_kernel (m : MmId) (w : MmState) :
    Yields (mmdrop m w) (fun w' => w'.kernel = w.kernel) := by
  unfold mmdrop
  dsimp only
  split
  · unfold freeMm
    split
    · exact .error _ _
    · exact .ok rfl
  · exact .ok rfl

theorem mmput_kernel (m : MmId) (w : MmState) :
    Yields (mmput m w) (fun w' => w'.kernel = w.kernel) := by
  unfold mmput
  dsimp only
  split
  · exact mmdrop_kernel m _
  · exact .ok rfl

/-- A task that is on its way in or out and has no address space. -/
theorem removed_eq (hmm : w.mm tsk = none) (hactive : w.activeMm tsk = none) : { w with
    mm := Function.update w.mm tsk none
    activeMm := Function.update w.activeMm tsk none } = w := by
  have hsame : Function.update w.mm tsk none = w.mm := by rw [← hmm,Function.update_eq_self]
  have hsame' : Function.update w.activeMm tsk none = w.activeMm := by
    rw [← hactive,Function.update_eq_self]
  rw [hsame,hsame']

/-- A fork that fails gives back whatever it has taken. -/
theorem cleanupMm_spaces (h : Spaces none none w) (hc : Copying w tsk w')
    (hmm : w.mm tsk = none) (hactive : w.activeMm tsk = none) :
    Returns (cleanupMm tsk w') (fun v => Spaces none none v ∧ v.kernel = w.kernel) := by
  unfold cleanupMm
  cases hc with
  | kernel none =>
    dsimp only
    rw [Function.update_self,Function.update_idem,Function.update_idem]
    exact .ok ⟨by rw [removed_eq hmm hactive]; exact h,rfl⟩
  | @user w' m spaces kernel mm active =>
    dsimp only
    rw [Function.update_self,Function.update_idem,Function.update_idem]
    dsimp only
    have hsame := removed_eq (w := w') (by rw [mm]; exact hmm) (by rw [active]; exact hactive)
    rw [hsame]
    obtain ⟨v,hv,hspaces⟩ := mmput_spaces spaces
    exact ⟨v,hv,hspaces,(mmput_kernel m w' v hv).trans kernel⟩

theorem forkMm_spaces (h : Spaces none none w) (cloneFlags : UInt64) (f : ForkMm)
    (hz : (w.mms f.fresh).mmCount = 0) (hp : tsk ∉ w.kernel.live)
    (hne : tsk ≠ w.kernel.rq.curr) (hc : t.rq.curr = w.kernel.rq.curr)
    (hl : t.live = w.kernel.live ∨ t.live = w.kernel.live ++ [tsk]) :
    Returns (forkMm cloneFlags tsk f t w) (Spaces none none) := by
  have hmm : w.mm tsk = none := by
    cases hm : w.mm tsk with
    | none => rfl
    | some m => exact absurd (h.members tsk m hm) hp
  have hactive : w.activeMm tsk = none := h.lazy tsk hne hmm
  have hcopy := copyMm_copying h cloneFlags tsk hz
  unfold forkMm
  split
  next hmem =>
    have hborn : t.live = w.kernel.live ++ [tsk] := hl.resolve_left fun he => hp (he ▸ hmem)
    generalize copyMm cloneFlags f.fresh tsk w = v at hcopy
    refine .ok ?_
    cases hcopy with
    | kernel none =>
      have hstay : Spaces .none .none { w with kernel := t } := by
        refine h.stay hc (fun m => ?_) fun p m hm => ?_
        · rw [hborn,List.countP_append,List.countP_singleton,hmm]
          rfl
        · rw [hborn]
          exact List.mem_append_left _ (h.members p m hm)
      rw [← removed_eq (w := { w with kernel := t }) hmm hactive] at hstay
      exact hstay
    | user m spaces kernel mm active =>
      exact spaces.joins (by rw [kernel]; exact hp) (by rw [kernel]; exact hne)
        (by rw [kernel]; exact hborn) (by rw [kernel]; exact hc)
  next hmem =>
    have hsame : t.live = w.kernel.live := by
      refine hl.resolve_right fun he => hmem ?_
      simp [he]
    split
    · refine (cleanupMm_spaces h hcopy hmm hactive).bind fun v hv => .ok ?_
      obtain ⟨hspaces,hkernel⟩ := hv
      exact hspaces.stays (by rw [hkernel]; exact hc) (by rw [hkernel]; exact hsame)
    · exact .ok (h.stays hc hsame)

end Tasks

end LotteryScheduler.Proofs
