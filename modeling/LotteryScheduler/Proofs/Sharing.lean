import LotteryScheduler.Lib.Census
import LotteryScheduler.Model.Sharing
import Mathlib.Data.List.Nodup

namespace LotteryScheduler.Proofs
open Lib Model

section Counting
variable {n : UserCounts} {p : Part} {o : ObjId} {k : Nat}

theorem UserCounts.set_users (n : UserCounts) (p q : Part) (o x : ObjId) (k : Nat) :
    (n.set p o k).users q x = if q = p ∧ x = o then k else n.users q x := by
  change Function.update n.users p (Function.update (n.users p) o k) q x = _
  by_cases hq : q = p
  · subst hq
    rw [Function.update_self]
    by_cases hx : x = o
    · rw [hx,Function.update_self,if_pos ⟨rfl,rfl⟩]
    · rw [Function.update_of_ne hx,if_neg fun h => hx h.2]
  · rw [Function.update_of_ne hq,if_neg fun h => hq h.1]

theorem UserCounts.set_set (n : UserCounts) (p : Part) (o : ObjId) (k k' : Nat) :
    (n.set p o k).set p o k' = n.set p o k' := by
  unfold UserCounts.set
  simp

theorem UserCounts.set_self (h : n.users p o = k) : n.set p o k = n := by
  rw [UserCounts.set,← h,Function.update_eq_self,Function.update_eq_self]

theorem UserCounts.put_get (n : UserCounts) (p : Part) (o : ObjId) : (n.get p o).put p o = n := by
  unfold UserCounts.put UserCounts.get
  rw [UserCounts.set_users,if_pos ⟨rfl,rfl⟩,UserCounts.set_set]
  exact UserCounts.set_self rfl

theorem UserCounts.giveBack_lease (n : UserCounts) (l : Lease) : (n.lease l).giveBack l = n := by
  unfold UserCounts.giveBack UserCounts.lease
  simp

end Counting

section Unwinding
variable {c : CloneCall} {cleanups : List (Cleanup UserCounts CopyLabel)} {label : CopyLabel}
variable {undo : UserCounts → UserCounts} {stages : List (Stage UserCounts Int CopyLabel)}
variable {f : Option Int} {l : Lease} {p : Part} {ps : List Part}

/-- What the allocators return for these parts is used by nobody. -/
def Free (c : CloneCall) (ps : List Part) (n : UserCounts) : Prop :=
  ∀ p ∈ ps, n.users p (c.fresh p) = 0

theorem undone_check (jump : ∀ n, unwind cleanups label n = undo n)
    (rest : Undone cleanups (Free c ps) undo stages) :
    Undone cleanups (Free c ps) undo (⟨f,id,id,label⟩ :: stages) :=
  .cons jump (fun _ h => h) (fun _ _ => rfl) rest

theorem undone_lease (jump : ∀ n, unwind cleanups label n = undo n)
    (rest : Undone cleanups (Free c ps) (fun n => undo (n.giveBack l)) stages) :
    Undone cleanups (Free c ps) undo (⟨f,.lease l,id,label⟩ :: stages) := by
  refine .cons jump (fun _ h => h) (fun n _ => ?_) rest
  change undo ((n.lease l).giveBack l) = undo n
  rw [UserCounts.giveBack_lease]

theorem exit_copy (hf : n.users p (c.fresh p) = 0) :
    exitPart p (c.part p) (copyPart c p n) = n := by
  unfold CloneCall.part copyPart
  cases c.cur p with
  | none => rfl
  | some o =>
    change UserCounts.put p (if c.shares p then o else c.fresh p) _ = n
    dsimp only
    split
    next => exact UserCounts.put_get n p o
    next =>
      unfold UserCounts.put
      rw [UserCounts.set_users,if_pos ⟨rfl,rfl⟩,UserCounts.set_set]
      exact UserCounts.set_self hf

theorem copyPart_other (hq : q ≠ p) (x : ObjId) : (copyPart c p n).users q x = n.users q x := by
  have hset : ∀ o k, (n.set p o k).users q x = n.users q x := by
    intro o k
    rw [UserCounts.set_users,if_neg fun h => hq h.1]
  unfold copyPart
  split
  next => rfl
  next =>
    split
    next => exact hset ..
    next => exact hset ..

theorem Free.copyPart (h : Free c (p :: ps) n) (hp : p ∉ ps) : Free c ps (copyPart c p n) := by
  intro q hq
  have hne : q ≠ p := fun he => hp (he ▸ hq)
  rw [copyPart_other hne]
  exact h q (List.mem_cons_of_mem _ hq)

theorem free_copySignal (hf : n.users .signal (c.fresh .signal) = 0) :
    (if c.shares .signal then copySignal c n
      else freeSignalStruct (c.part .signal) (copySignal c n)) = n := by
  unfold copySignal
  cases hs : c.shares .signal with
  | true => rfl
  | false =>
    rw [if_neg Bool.false_ne_true,if_neg Bool.false_ne_true]
    unfold CloneCall.part Model.copyPart
    cases c.cur .signal with
    | none => rfl
    | some o =>
      simp only [hs,Option.map_some,freeSignalStruct,if_neg Bool.false_ne_true,UserCounts.set_set]
      exact UserCounts.set_self hf

theorem undone_part (hp : p ∉ ps) (jump : ∀ n, unwind cleanups label n = undo n)
    (rest : Undone cleanups (Free c ps) (fun n => undo (exitPart p (c.part p) n)) stages) :
    Undone cleanups (Free c (p :: ps)) undo (⟨f,copyPart c p,id,label⟩ :: stages) := by
  refine .cons jump (fun _ h => h.copyPart hp) (fun n h => ?_) rest
  change undo (exitPart p (c.part p) (copyPart c p n)) = undo n
  rw [exit_copy (h p List.mem_cons_self)]

theorem undone_signal (hp : .signal ∉ ps) (jump : ∀ n, unwind cleanups label n = undo n)
    (rest : Undone cleanups (Free c ps) (fun n => undo (if c.shares .signal then n
      else freeSignalStruct (c.part .signal) n)) stages) :
    Undone cleanups (Free c (.signal :: ps)) undo (⟨f,copySignal c,id,label⟩ :: stages) := by
  refine .cons jump (fun n h => ?_) (fun n h => ?_) rest
  · unfold copySignal
    split
    next => exact fun q hq => h q (List.mem_cons_of_mem _ hq)
    next => exact h.copyPart hp
  · change undo (if c.shares .signal then copySignal c n
      else freeSignalStruct (c.part .signal) (copySignal c n)) = undo n
    rw [free_copySignal (h _ List.mem_cons_self)]

theorem undone_leaseIf {b : Bool} {back : UserCounts → UserCounts}
    (jump : ∀ n, unwind cleanups label (back n) = undo n)
    (rest : Undone cleanups (Free c ps) (fun n => undo ((if b then .giveBack l else id) n))
      stages) :
    Undone cleanups (Free c ps) undo
      (⟨f,if b then .lease l else id,back,label⟩ :: stages) := by
  cases b with
  | true =>
    refine .cons jump (fun _ h => h) (fun n _ => ?_) rest
    change undo ((n.lease l).giveBack l) = undo n
    rw [UserCounts.giveBack_lease]
  | false => exact .cons jump (fun _ h => h) (fun _ _ => rfl) rest

/-- Wherever `copy_process` jumps to, it gives back what it has taken, in the reverse order. -/
theorem copyStages_undone (c : CloneCall) :
    Undone (copyCleanups c) (Free c [.files,.fs,.sighand,.signal,.mm]) id (copyStages c) := by
  -- a line a stage: its jump undoes just the stages before it
  refine undone_check (fun _ => rfl) ?_
  refine undone_lease (fun _ => rfl) ?_
  refine undone_lease (fun _ => rfl) ?_
  refine undone_check (fun _ => rfl) ?_
  refine undone_lease (fun _ => rfl) ?_
  refine undone_check (fun _ => rfl) ?_
  refine undone_lease (fun _ => rfl) ?_
  refine undone_lease (fun _ => rfl) ?_
  refine undone_lease (fun _ => rfl) ?_
  refine undone_lease (fun _ => rfl) ?_
  refine undone_part (by decide) (fun _ => rfl) ?_
  refine undone_part (by decide) (fun _ => rfl) ?_
  refine undone_part (by decide) (fun _ => rfl) ?_
  refine undone_signal (by decide) (fun _ => rfl) ?_
  refine undone_part (by decide) (fun _ => rfl) ?_
  refine undone_lease (fun _ => rfl) ?_
  refine undone_leaseIf (fun _ => rfl) ?_
  refine undone_lease (fun _ => rfl) ?_
  refine undone_lease (fun _ => rfl) ?_
  refine undone_leaseIf (fun _ => rfl) ?_
  refine undone_leaseIf (fun _ => rfl) ?_
  -- the descriptor and its file are taken by two stages and given back behind one label
  have hput : ∀ n : UserCounts, (if hasFlag c.flags clonePidfd then
      (n.giveBack .pidfile).giveBack .pidfd else n) =
        (if hasFlag c.flags clonePidfd then .giveBack .pidfd else id)
          ((if hasFlag c.flags clonePidfd then .giveBack .pidfile else id) n) := by
    intro n
    cases hasFlag c.flags clonePidfd with
    | true => rfl
    | false => rfl
  have hjump := fun n => congrArg (unwind (copyCleanups c) .badForkFreePid) (hput n)
  refine undone_check hjump ?_
  refine undone_lease hjump ?_
  refine undone_check (fun n => hjump (n.giveBack .cgroup)) ?_
  exact undone_check (fun n => hjump (n.giveBack .cgroup)) .nil

end Unwinding

section Copying
variable {c : CloneCall} {n n' : UserCounts} {p q : Part} {x o : ObjId} {r : Int}

/-- One user more of an object. -/
def one (q : Option ObjId) (x : ObjId) : Nat := if q = some x then 1 else 0

theorem UserCounts.get_users (n : UserCounts) (p q : Part) (o x : ObjId) :
    (n.get p o).users q x = n.users q x + if q = p ∧ x = o then 1 else 0 := by
  unfold UserCounts.get
  rw [UserCounts.set_users]
  split
  next hqx => rw [hqx.1,hqx.2]
  next => rfl

theorem copyPart_self (hf : n.users p (c.fresh p) = 0) (x : ObjId) :
    (copyPart c p n).users p x = n.users p x + one (c.part p) x := by
  unfold copyPart CloneCall.part one
  cases c.cur p with
  | none => rfl
  | some o =>
    simp only [Option.map_some,Option.some.injEq]
    cases c.shares p with
    | true =>
      simp only [if_true,UserCounts.get_users,true_and]
      simp only [eq_comm]
    | false =>
      simp only [Bool.false_eq_true,if_false,UserCounts.set_users,true_and]
      by_cases hx : x = c.fresh p
      · rw [if_pos hx,if_pos hx.symm,hx,hf]
      · rw [if_neg hx,if_neg fun h => hx h.symm]
        rfl

theorem users_leaseIf (b : Bool) (l : Lease) (n : UserCounts) :
    ((if b then UserCounts.lease l else id) n).users = n.users := by
  cases b <;> rfl

theorem copySignal_other (hq : q ≠ .signal) (x : ObjId) :
    (copySignal c n).users q x = n.users q x := by
  unfold copySignal
  split
  next => rfl
  next => exact copyPart_other hq x

/-- A copying that succeeds has copied every part, and the leases beside. -/
theorem copied_users (h : copyCounts c n = .ok n') : ∃ m : UserCounts, m.users = n.users ∧
    n'.users = (copyMmUsers c (copySignal c (copySighand c (copyFs c (copyFiles c m))))).users := by
  refine ⟨((((((n.lease .taskStruct).lease .creds).lease .delayacct).lease .perf).lease
    .audit).lease .security).lease .semundo,rfl,?_⟩
  rw [performStages_ok h]
  simp only [copyStages,List.foldl_cons,List.foldl_nil,id]
  change ((if hasFlag c.flags clonePidfd then UserCounts.lease .pidfile else id) _).users = _
  rw [users_leaseIf,users_leaseIf]
  change ((if c.ioContext then UserCounts.lease .ioContext else id) _).users = _
  rw [users_leaseIf]
  rfl

/-- One user more for all that the child points to, but for the signals of a group that it is
still to join. -/
theorem copied_count (hfree : ∀ p, n.users p (c.fresh p) = 0) (h : copyCounts c n = .ok n')
    (p : Part) (x : ObjId) : n'.users p x = n.users p x +
      if p = .signal ∧ c.shares .signal then 0 else one (c.part p) x := by
  obtain ⟨m,hm,hn⟩ := copied_users h
  have hf : ∀ p, m.users p (c.fresh p) = 0 := by
    intro p
    rw [hm]
    exact hfree p
  rw [hn,← hm]
  unfold copyMmUsers copySighand copyFs copyFiles
  cases p with
  | files =>
    rw [copyPart_other (by decide),copySignal_other (by decide),copyPart_other (by decide),
      copyPart_other (by decide),copyPart_self (hf _)]
    rfl
  | fs =>
    rw [copyPart_other (by decide),copySignal_other (by decide),copyPart_other (by decide),
      copyPart_self,copyPart_other (by decide)]
    · rfl
    · rw [copyPart_other (by decide)]
      exact hf _
  | sighand =>
    rw [copyPart_other (by decide),copySignal_other (by decide),copyPart_self,
      copyPart_other (by decide),copyPart_other (by decide)]
    · rfl
    · rw [copyPart_other (by decide),copyPart_other (by decide)]
      exact hf _
  | signal =>
    have hold : ∀ x, (copyPart c .sighand (copyPart c .fs (copyPart c .files m))).users
        .signal x = m.users .signal x := by
      intro x
      rw [copyPart_other (by decide),copyPart_other (by decide),copyPart_other (by decide)]
    rw [copyPart_other (by decide),copySignal]
    cases hs : c.shares .signal with
    | true => exact hold x
    | false =>
      rw [if_neg Bool.false_ne_true,if_neg (by simp),copyPart_self,hold]
      rw [hold]
      exact hf _
  | mm =>
    have hold : ∀ x, (copySignal c (copyPart c .sighand (copyPart c .fs
        (copyPart c .files m)))).users .mm x = m.users .mm x := by
      intro x
      rw [copySignal_other (by decide),copyPart_other (by decide),copyPart_other (by decide),
        copyPart_other (by decide)]
    rw [copyPart_self,hold]
    · rfl
    · rw [hold]
      exact hf _

theorem joined_count (hfree : ∀ p, n.users p (c.fresh p) = 0) (h : copyCounts c n = .ok n')
    (p : Part) (x : ObjId) :
    (joinGroup c n').users p x = n.users p x + one (c.part p) x := by
  have hcopied := copied_count hfree h p x
  unfold joinGroup
  cases hcur : c.cur .signal with
  | none =>
    rw [hcopied]
    split
    next hp => rw [hp.1,one,CloneCall.part,hcur,Option.map_none,if_neg nofun]
    next => rfl
  | some o =>
    dsimp only
    cases hs : c.shares .signal with
    | false =>
      rw [if_neg Bool.false_ne_true,hcopied,hs,if_neg (by simp)]
    | true =>
      rw [if_pos rfl,UserCounts.get_users,hcopied]
      by_cases hp : p = .signal
      · subst hp
        have hpart : c.part .signal = some o := by
          rw [CloneCall.part,hcur,Option.map_some,hs,if_pos rfl]
        rw [if_pos ⟨rfl,hs⟩,one,hpart]
        simp only [true_and,Option.some.injEq,eq_comm]
        rfl
      · rw [if_neg fun h => hp h.1,if_neg fun h => hp h.1]
        rfl

end Copying

section Runs
variable {s : Sharing} {c : CloneCall} {t self caller y : Tid} {p p' : Part} {q : Option ObjId}
variable {o new : ObjId}

/-- Every object is counted once for each task that points to it. -/
structure Shared (s : Sharing) : Prop where
  nodup : s.live.Nodup
  users : ∀ p o, s.counts.users p o = s.live.countP fun t => s.part t p = some o

theorem one_eq (q : Option ObjId) (o : ObjId) : one q o = (decide (q = some o)).toNat := by
  unfold one
  by_cases h : q = some o
  · rw [if_pos h,decide_eq_true h]
    rfl
  · rw [if_neg h,decide_eq_false h]
    rfl

theorem Sharing.point_other (hp : p' ≠ p) : s.point t p q y p' = s.part y p' := by
  unfold Sharing.point
  by_cases hy : y = t
  · rw [hy,Function.update_self,Function.update_of_ne hp]
  · rw [Function.update_of_ne hy]

theorem Sharing.point_count (hn : s.live.Nodup) (ht : t ∈ s.live) (o : ObjId) :
    (s.live.countP fun y => s.point t p q y p = some o) + one (s.part t p) o =
      (s.live.countP fun y => s.part y p = some o) + one q o := by
  have hself : s.point t p q t p = q := by
    rw [Sharing.point,Function.update_self,Function.update_self]
  have hcount := countP_change (p := fun y => decide (s.part y p = some o))
    (q := fun y => decide (s.point t p q y p = some o)) hn ht (fun y _ hy => by
      rw [Sharing.point,Function.update_of_ne hy])
  rw [one_eq,one_eq]
  rw [hself] at hcount
  exact hcount

/-- An object that a task points to is in use. -/
theorem Shared.used (h : Shared s) (ht : t ∈ s.live) (hp : s.part t p = some o) :
    0 < s.counts.users p o := by
  rw [h.users,List.countP_pos_iff]
  exact ⟨t,ht,decide_eq_true hp⟩

/-- One part of a task is exchanged, and the counts follow. -/
theorem Shared.point (h : Shared s) (ht : t ∈ s.live) {n : UserCounts}
    (hself : ∀ o, n.users p o + one (s.part t p) o = s.counts.users p o + one q o)
    (hother : ∀ p', p' ≠ p → n.users p' = s.counts.users p') :
    Shared { s with part := s.point t p q, counts := n } := by
  refine ⟨h.nodup,fun p' o => ?_⟩
  change n.users p' o = s.live.countP fun y => s.point t p q y p' = some o
  by_cases hp : p' = p
  · subst hp
    have hcount := Sharing.point_count (p := p') (q := q) h.nodup ht o
    have hold := hself o
    rw [h.users] at hold
    omega
  · rw [hother p' hp,h.users]
    simp only [Sharing.point_other hp]

theorem exitShared_shared (h : Shared s) (ht : t ∈ s.live) : Shared (exitShared p t s) := by
  unfold exitShared
  refine h.point ht (fun o => ?_) (fun p' hp => ?_)
  · cases hq : s.part t p with
    | none => rfl
    | some x =>
      have hused := h.used ht hq
      change ((s.counts.put p x).users p o) + _ = _
      unfold UserCounts.put one
      rw [UserCounts.set_users]
      simp only [true_and,Option.some.injEq,reduceCtorEq,if_false]
      by_cases ho : o = x
      · rw [if_pos ho,if_pos ho.symm,ho]
        omega
      · rw [if_neg ho,if_neg fun he => ho he.symm]
  · cases s.part t p with
    | none => rfl
    | some x => exact Function.update_of_ne hp ..

theorem unsharePart_shared {shared : Nat → Bool} (h : Shared s) (ht : t ∈ s.live)
    (hnew : s.counts.users p new = 0) : Shared (unsharePart p shared t new s) := by
  unfold unsharePart
  split
  next => exact h
  next x hx =>
    split
    next =>
      have hused := h.used ht hx
      have hne : new ≠ x := by
        rintro rfl
        omega
      refine h.point ht (fun o => ?_) (fun p' hp => ?_)
      · unfold UserCounts.put one
        rw [UserCounts.set_users,UserCounts.set_users,UserCounts.set_users,hx]
        simp only [true_and,Option.some.injEq]
        rw [if_neg hne.symm]
        by_cases ho : o = x
        · have hno : new ≠ o := fun he => hne (he.trans ho)
          rw [if_pos ho,if_pos ho.symm,if_neg hno,ho]
          omega
        · have hxo : x ≠ o := fun he => ho he.symm
          rw [if_neg ho,if_neg hxo]
          by_cases hn : o = new
          · rw [if_pos hn,if_pos hn.symm,hn,hnew]
          · have hno : new ≠ o := fun he => hn he.symm
            rw [if_neg hn,if_neg hno]
      · exact (Function.update_of_ne hp ..).trans (Function.update_of_ne hp ..)
    next => exact h

theorem release_shared (h : Shared s) (ht : t ∈ s.live) (hnone : ∀ p, s.part t p = none) :
    Shared { s with live := s.live.erase t } := by
  refine ⟨h.nodup.erase t,fun p o => ?_⟩
  change s.counts.users p o = (s.live.erase t).countP _
  rw [h.users,countP_leave ht]
  rw [hnone p]
  rfl

/-- A clone that fails leaves all as it was, and one that succeeds adds the child to the users of
all that it points to. -/
theorem cloneShared_spec (hmay : mayShare s (.clone self caller c)) :
    (∀ r, firstError (copyStages c) = some r → cloneShared self c s = (r,s)) ∧
      (firstError (copyStages c) = none → ∃ n : UserCounts, cloneShared self c s =
          ((self : Int),⟨s.live ++ [self],Function.update s.part self c.part,n⟩) ∧
        ∀ p o, n.users p o = s.counts.users p o + one (c.part p) o) := by
  obtain ⟨-,-,-,hfree⟩ := hmay
  obtain ⟨herror,hok⟩ := performStages_error (copyCleanups c) (copyStages c) s.counts
  constructor
  · intro r hr
    obtain ⟨n,hn⟩ := herror r hr
    have hsame := (copyStages_undone c).restores (fun p _ => hfree p) hn
    unfold cloneShared copyCounts
    rw [hn,hsame]
    rfl
  · intro hr
    obtain ⟨n,hn⟩ := hok hr
    refine ⟨joinGroup c n,?_,joined_count hfree hn⟩
    unfold cloneShared copyCounts
    rw [hn]

theorem cloneShared_shared (h : Shared s) (hmay : mayShare s (.clone self caller c)) :
    Shared (cloneShared self c s).2 := by
  obtain ⟨hfailed,hcloned⟩ := cloneShared_spec hmay
  cases hr : firstError (copyStages c) with
  | some r =>
    rw [hfailed r hr]
    exact h
  | none =>
    obtain ⟨n,hn,husers⟩ := hcloned hr
    rw [hn]
    refine ⟨List.nodup_append.mpr ⟨h.nodup,List.nodup_singleton _,?_⟩,fun p o => ?_⟩
    · intro x hx y hy he
      rw [List.mem_singleton.mp hy] at he
      exact hmay.1 (he ▸ hx)
    · have hold : (s.live.countP fun t => Function.update s.part self c.part t p = some o) =
          s.live.countP fun t => s.part t p = some o := by
        apply List.countP_congr
        intro x hx
        have hne : x ≠ self := fun he => hmay.1 (he ▸ hx)
        rw [Function.update_of_ne hne]
      change n.users p o = (s.live ++ [self]).countP _
      rw [List.countP_append,hold,husers,h.users,one_eq,List.countP_singleton]
      simp only [Function.update_self]
      cases decide (c.part p = some o) <;> rfl

theorem sharingOp_shared (h : Shared s) (hmay : mayShare s op) : Shared (sharingOp op s) := by
  cases op with
  | clone self caller c => exact cloneShared_shared h hmay
  | exit p t => exact exitShared_shared h hmay
  | release t => exact release_shared h hmay.1 hmay.2
  | unshareFs t new =>
    simp only [sharingOp,unshareFs]
    exact unsharePart_shared h hmay.1 hmay.2
  | unshareFd t new =>
    simp only [sharingOp,unshareFd]
    exact unsharePart_shared h hmay.1 hmay.2

theorem sharingStart_shared : Shared sharingStart := by
  refine ⟨List.nodup_singleton _,fun p o => ?_⟩
  simp only [sharingStart,List.countP_singleton]
  by_cases hp : p = .mm
  · simp [hp]
  · by_cases ho : o = 0
    · simp [hp,ho]
    · simp [hp,ho,eq_comm]

theorem sharingReach_shared (h : SharingReach s) : Shared s := by
  induction h with
  | init => exact sharingStart_shared
  | step _ hmay ih => exact sharingOp_shared ih hmay

end Runs

end LotteryScheduler.Proofs
