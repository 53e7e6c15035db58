import LotteryScheduler.Proofs.Runs

namespace LotteryScheduler.Properties
open Lib Model Proofs

/-- The operation calls through no pointer that its class leaves NULL. -/
def CallsProvided (b : Build) (e : Env) (op : Op) (s : Kernel) : Prop :=
  ∀ c hook, exec b e op s ≠ .error (.nullHook c hook)

section Hooks
variable {b : Build} {e : Env} {s : Kernel} {op : Op}

/-- In every reachable state an operation is free of NULL calls exactly when it asks
the lottery class for none of the functions that the class lacks. -/
theorem calls_provided_iff (h : Reachable b s) (he : enabled b s op) :
    CallsProvided b e op s ↔ ¬hitsNullHook b e s op := by
  obtain ⟨⟨r,hr⟩,_⟩ := reachable_inv h
  constructor
  · intro hcalls hn
    obtain ⟨hook,herr⟩ := exec_missing e hr he hn
    exact hcalls _ hook herr
  · intro hn c hook herr
    rcases exec_spec e hr he hn with hbad | hdone
    · rw [hbad] at herr
      cases herr
    · exact hdone.ne_error _ herr

theorem calls_provided_tick :
    CallsProvided .versatile .quiet .schedulerTick lotteryRuns ↔
      ¬hitsNullHook .versatile .quiet lotteryRuns .schedulerTick :=
  calls_provided_iff lotteryRuns_reachable trivial

/-- The CPU time of a running lottery task is asked for through a NULL pointer. -/
theorem runtime_query_faults : Reachable .versatile lotteryRuns ∧
    enabled .versatile lotteryRuns (.taskSchedRuntime 1) ∧
    exec .versatile .quiet (.taskSchedRuntime 1) lotteryRuns =
      .error (.nullHook .lottery .updateCurr) ∧
    ¬CallsProvided .versatile .quiet (.taskSchedRuntime 1) lotteryRuns := by
  obtain ⟨⟨r,hr⟩,_⟩ := reachable_inv lotteryRuns_reachable
  have hmiss := taskSchedRuntime_missing (p := 1) .quiet hr (by decide +kernel) (by decide +kernel)
  have hfault := bind_error (f := fun a : Nat × Kernel => Except.ok a.2) hmiss
  exact ⟨lotteryRuns_reachable,by decide +kernel,hfault,fun h => h _ _ hfault⟩

end Hooks

end LotteryScheduler.Properties
