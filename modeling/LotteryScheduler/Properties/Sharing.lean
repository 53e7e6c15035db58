import LotteryScheduler.Model.System
import LotteryScheduler.Proofs.Sharing

namespace LotteryScheduler.Properties
open Lib Model Proofs

section Results
variable {b : Build} {e : Env} {k k' : Kernel} {c : CloneCall} {args : KernelCloneArgs}
variable {r : Int} {o o' : Option Int} {m m' : Except Fault (Except Int Tid × Kernel)}

/-- The error that a call returns, if it returns one. -/
def ResultOf (m : Except Fault (Except Int Tid × Kernel)) (o : Option Int) : Prop :=
  ∀ res k', m = .ok (res,k') → o = match res with
    | .error r => some r
    | .ok _ => none

theorem ResultOf.error : ResultOf (.ok (.error r,k)) (some r) := by
  intro res k' h
  cases h
  rfl

theorem ResultOf.ite {P : Prop} [Decidable P] (ht : ResultOf m o) (hf : ResultOf m' o') :
    ResultOf (if P then m else m') (if P then o else o') := by
  split
  next => exact ht
  next => exact hf

theorem ResultOf.bind {x : Except Fault Kernel}
    {f : Kernel → Except Fault (Except Int Tid × Kernel)} (hf : ∀ s, ResultOf (f s) o) :
    ResultOf (x >>= f) o := by
  cases x with
  | error => exact fun _ _ h => nomatch h
  | ok s => exact hf s

theorem ResultOf.step {x : Option Int} (h : ResultOf (match x with
      | some ret => .ok (.error ret,k)
      | none => m) o) :
    ResultOf (match if r ≠ 0 then some r else x with
      | some ret => .ok (.error ret,k)
      | none => m) (if r ≠ 0 then some r else o) := by
  by_cases hr : r = 0
  · rw [if_neg (not_not.mpr hr),if_neg (not_not.mpr hr)]
    exact h
  · rw [if_pos hr,if_pos hr]
    exact .error

theorem firstError_fails (ret : Int) (take back : UserCounts → UserCounts) (l : CopyLabel)
    (rest : List (Stage UserCounts Int CopyLabel)) :
    firstError (⟨fails ret,take,back,l⟩ :: rest) =
      if ret ≠ 0 then some ret else firstError rest := by
  rw [firstError,fails]
  by_cases h : ret = 0
  · rw [if_pos h,if_neg (not_not.mpr h)]
  · rw [if_neg h,if_pos h]

theorem firstError_failsIf (cond : Bool) (ret : Int) (take back : UserCounts → UserCounts)
    (l : CopyLabel) (rest : List (Stage UserCounts Int CopyLabel)) :
    firstError (⟨failsIf cond ret,take,back,l⟩ :: rest) =
      if cond then some ret else firstError rest := by
  rw [firstError,failsIf]
  cases cond <;> rfl

/-- What a call of `copy_process` meets is what the kernel is like. -/
structure Meets (b : Build) (k : Kernel) (c : CloneCall) : Prop where
  sched : c.schedFork = (schedFork (k.task k.rq.curr) c.env.pid
    { k.task k.rq.curr with piTopTask := none }).1
  threads : c.tooMany = decide (k.nrThreads ≥ b.maxThreads)

/-- The stages fail where `copy_process` does, and with its error. -/
theorem copyProcess_result (hm : Meets b k c) (hflags : args.flags = c.flags)
    (hvalid : invalidFlags c.env c.flags = false) :
    ResultOf (copyProcess b e args c.env k) (firstError (copyStages c)) := by
  unfold copyProcess
  rw [hflags,hvalid]
  simp only [copyStages,firstError_fails,firstError_failsIf,hm.sched,hm.threads,decide_eq_true_eq,
    Bool.and_eq_true,Bool.false_eq_true,if_false]
  refine .ite .error (.ite .error (.ite .error (.ite .error (.ite .error (.ite .error ?_)))))
  simp only [firstFailure,copySteps]
  iterate 13 refine .step ?_
  refine .ite .error (.ite .error (.ite .error (.ite .error (.bind fun s => ?_))))
  refine .ite .error (.ite .error fun res k' h => ?_)
  cases h
  rfl

end Results

section Counts
variable {b : Build} {e : Env} {k k' : Kernel} {c : CloneCall} {args : KernelCloneArgs}
variable {s : Sharing} {self caller t y : Tid} {p : Part} {new o : ObjId} {r : Int}

/-- Wherever `copy_process` fails, all that it has taken is given back and nothing else; and when
it succeeds, every object the child points to has one user more. -/
theorem failed_copy_restores (hmay : mayShare s (.clone self caller c)) (hm : Meets b k c)
    (hflags : args.flags = c.flags) (hvalid : invalidFlags c.env c.flags = false) :
    (∀ r k', copyProcess b e args c.env k = .ok (.error r,k') → cloneShared self c s = (r,s)) ∧
      ∀ p k', copyProcess b e args c.env k = .ok (.ok p,k') →
        ∃ n : UserCounts, cloneShared self c s =
            ((self : Int),⟨s.live ++ [self],Function.update s.part self c.part,n⟩) ∧
          ∀ p o, n.users p o = s.counts.users p o + if c.part p = some o then 1 else 0 := by
  have hresult := copyProcess_result (e := e) hm hflags hvalid
  obtain ⟨hfailed,hcloned⟩ := cloneShared_spec hmay
  exact ⟨fun r k' h => hfailed r (hresult (.error r) k' h),
    fun p k' h => hcloned (hresult (.ok p) k' h)⟩

/-- In every run of clones, exits and unsharings an object has as many users as tasks point to
it, so that it is freed when the last of them gives it up and not before. -/
theorem users_counted (h : SharingReach s) (p : Part) (o : ObjId) :
    s.counts.users p o = (s.live.countP fun t => s.part t p = some o) ∧
      (s.counts.users p o = 0 ↔ ∀ t ∈ s.live, s.part t p ≠ some o) := by
  have husers := (sharingReach_shared h).users p o
  refine ⟨husers,?_⟩
  rw [husers,List.countP_eq_zero]
  simp only [decide_eq_true_eq,ne_eq]

end Counts

section Threads

/-- A clone by the first task that shares all but its files, in which `step` may fail. -/
def sharingCall (step : CopyStep → Int) : CloneCall where
  flags := cloneFs ||| cloneSighand ||| cloneVm
  cur := sharingStart.part 0
  fresh := fun _ => 1
  env := { pid := 1, step }
  schedFork := (schedFork (fairWaits.task fairWaits.rq.curr) 1
    { fairWaits.task fairWaits.rq.curr with piTopTask := none }).1
  tooMany := decide (fairWaits.nrThreads ≥ Build.versatile.maxThreads)
  ioContext := true

/-- There is no memory left when the namespaces are to be copied. -/
def noNamespaces : CloneCall := sharingCall fun st => if st = .copyNamespaces then -enomem else 0

def clonedOnce : Sharing := sharingOp (.clone 1 0 (sharingCall fun _ => 0)) sharingStart

theorem sharingStart_free (p : Part) : sharingStart.counts.users p 1 = 0 := by
  cases p <;> rfl

theorem clonedOnce_reach : SharingReach clonedOnce :=
  .step .init ⟨by decide,by decide,rfl,sharingStart_free⟩

theorem failed_copy_restores_namespaces :
    (∀ r k', copyProcess .versatile .quiet { flags := noNamespaces.flags } noNamespaces.env
        fairWaits = .ok (.error r,k') →
      cloneShared 1 noNamespaces sharingStart = (r,sharingStart)) ∧
      ∀ p k', copyProcess .versatile .quiet { flags := noNamespaces.flags } noNamespaces.env
          fairWaits = .ok (.ok p,k') →
        ∃ n : UserCounts, cloneShared 1 noNamespaces sharingStart =
            (1,⟨[0,1],Function.update sharingStart.part 1 noNamespaces.part,n⟩) ∧
          ∀ p o, n.users p o =
            sharingStart.counts.users p o + if noNamespaces.part p = some o then 1 else 0 :=
  failed_copy_restores
    (show mayShare sharingStart (.clone 1 0 noNamespaces) from
      ⟨by decide,by decide,rfl,sharingStart_free⟩)
    ⟨rfl,rfl⟩ rfl (by decide +kernel)

theorem users_counted_cloned : clonedOnce.counts.users .fs 0 =
      (clonedOnce.live.countP fun t => clonedOnce.part t .fs = some 0) ∧
    (clonedOnce.counts.users .fs 0 = 0 ↔ ∀ t ∈ clonedOnce.live, clonedOnce.part t .fs ≠ some 0) :=
  users_counted clonedOnce_reach .fs 0

end Threads

end LotteryScheduler.Properties
