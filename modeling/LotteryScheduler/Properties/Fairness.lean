import LotteryScheduler.Lib.Trials
import LotteryScheduler.Properties.Inheritance
import LotteryScheduler.Properties.Journals
import Mathlib.Data.Int.CardIntervalMod

namespace LotteryScheduler.Properties
open Lib Model Proofs

/-- A lottery task has the CPU, and `q` is the lottery queue. -/
structure OnLottery (b : Build) (s : Kernel) (q : List Tid) : Prop where
  queue : ∃ r, Inv b s r ∧ r .lottery = q
  ticketed : Ticketed s
  current : (s.task s.rq.curr).schedClass = .lottery

/-- The task that a random word draws among tasks of five tickets each. -/
def winner (q : List Tid) (word : UInt32) : Option Tid :=
  draw (fun _ => 5) q (word.toNat % (5 * q.length))

/-- The same surroundings with another random word. -/
def withWord (e : Env) (word : Nat) : Env := { e with randomWord := .ofNat word }

/-- One operation again and again, each time with a random word of its own. -/
def repeated (op : Op) (es : Fin n → Env) (ws : Fin n → Fin (2 ^ 32)) : List (Env × Op) :=
  (List.ofFn fun i => withWord (es i) (ws i)).map fun e => (e,op)

section Preemptions
variable {b : Build} {e : Env} {s t : Kernel} {r : Ready} {p : Tid} {q : List Tid} {n : Nat}

theorem total_five (q : List Tid) : total (fun _ => 5) q = 5 * q.length := by
  simp [total,Nat.mul_comm]

theorem winner_some (hq : q ≠ []) (word : UInt32) : ∃ p ∈ q, winner q word = some p := by
  have hpos := List.length_pos_iff.mpr hq
  have hlt : word.toNat % (5 * q.length) < total (fun _ => 5) q := by
    rw [total_five]
    exact Nat.mod_lt _ (by omega)
  obtain ⟨p,hp⟩ := draw_some hlt
  exact ⟨p,draw_mem hp,hp⟩

theorem OnLottery.nonempty (h : OnLottery b s q) : q ≠ [] := by
  obtain ⟨r,hr,rfl⟩ := h.queue
  refine List.ne_nil_of_mem (a := s.rq.curr) ?_
  refine (hr.ready _ _).mpr ⟨hr.curr.resolve_left fun hi => ?_,hr.currQueued,h.current⟩
  have hclass := h.current
  rw [hi,hr.idleTask.idle] at hclass
  cases hclass

/-- The draw of `pick_next_task_lottery` on a queue of such tasks. -/
theorem books_winner (h : Books b s r) (hk : Ticketed s) (e : Env)
    (hp : winner (r .lottery) e.randomWord = some p) :
    pickNextTaskLottery e s = .ok (some p,logEvent e p .s s) := by
  have hne : r .lottery ≠ [] := List.ne_nil_of_mem (draw_mem hp)
  have hfive : ∀ x ∈ r .lottery, ticketsOf s x = 5 :=
    fun x hx => ticketsOf_five hk ((h.ready _ x).mp hx).1
  have htotal : total (ticketsOf s) (r .lottery) = 5 * (r .lottery).length :=
    (books_total h hk).symm.trans (h.totalTickets hk)
  refine (books_drawable h hk hne).picked h.lottery_le e ?_
  rw [htotal,draw_congr hfive]
  exact hp

/-- On one CPU, a preempted lottery task gives way to the task that the word draws, and
the queue stays as it is. -/
theorem OnLottery.preempted (h : OnLottery b s q) (hsmp : b.smp = false) (e : Env)
    (hp : winner q e.randomWord = some p) :
    ∃ t, schedule b e true s = .ok t ∧ OnLottery b t q ∧ t.rq.curr = p := by
  obtain ⟨r,hr,rfl⟩ := h.queue
  have hq := (shiftFlags_quiet s).trans (updateRqClock_quiet e _)
  have hbefore : beforePick b e true s = .ok (updateRqClock e { s with
      rq := { s.rq with clockUpdateFlags := s.rq.clockUpdateFlags <<< 1 } }) := by
    simp [beforePick,blockPrev]
  generalize updateRqClock e _ = u at hq hbefore
  have hn : ¬(b.smp = true ∧ (u.task s.rq.curr).schedClass = .lottery) := by simp [hsmp]
  have hslow : fastPath u s.rq.curr = false := by
    apply fastPath_lottery
    rw [hq.task,h.current]
  obtain ⟨v,hv,hquiet⟩ := putPrevTaskBalance_quiet e u hn
  have hq := hq.trans hquiet
  have hbooks := hr.toBooks.quiet hq
  have hk : Ticketed v := hq.toFrame.evolves.ticketed h.ticketed
  have hpick := pickNextTask_lottery hslow hv (books_winner hbooks hk e hp)
  have hmem : p ∈ r .lottery := draw_mem hp
  have hlog := hbooks.quiet (logSelect_quiet e p v)
  refine ⟨switchTo p (logEvent e p .s v),?_,⟨⟨r,hlog.switchTo (c := .lottery) hmem,rfl⟩,hk,?_⟩,rfl⟩
  · unfold schedule
    dsimp only
    rw [hbefore]
    change pickNextTaskCore b e s.rq.curr u >>= _ = _
    rw [pickNextTaskCore_alone (selectsForCore_smp hsmp),hpick]
    rfl
  · exact ((hbooks.ready _ p).mp hmem).2.2

/-- Preemptions in any number complete, and the draws of their words get the CPU. -/
theorem OnLottery.preemptions (h : OnLottery b s q) (hsmp : b.smp = false) (es : List Env) :
    (∃ t, runOps b (es.map fun e => (e,.schedule true)) s = .ok t) ∧
      (switches b (es.map fun e => (e,.schedule true)) s).map some =
        es.map fun e => winner q e.randomWord := by
  induction es generalizing s with
  | nil => exact ⟨⟨s,rfl⟩,rfl⟩
  | cons e es ih =>
    obtain ⟨p,-,hp⟩ := winner_some h.nonempty e.randomWord
    obtain ⟨t,ht,hon,hcurr⟩ := h.preempted hsmp e hp
    obtain ⟨⟨u,hu⟩,hrest⟩ := ih hon
    have hexec : exec b e (.schedule true) s = .ok t := ht
    have hswitch : switched (.schedule true) t = [p] := by
      rw [← hcurr]
      exact if_pos hon.current
    constructor
    · have he : enabled b s (.schedule true) := trivial
      exact ⟨u,(runOps_cons he hexec _).trans hu⟩
    · simp only [List.map_cons,switches,hexec,hswitch,List.map_append,hrest,hp]
      rfl

theorem toNat_word (w : Fin (2 ^ 32)) : (UInt32.ofNat w).toNat = w := by
  rw [UInt32.toNat_ofNat',Nat.mod_eq_of_lt w.isLt]

/-- The words that draw one of the tasks, up to the rounding of the last turn. -/
theorem winner_share (hq : q.Nodup) (hp : p ∈ q) :
    5 * (2 ^ 32 / (5 * q.length)) ≤
        Nat.count (fun w => draw (fun _ => 5) q (w % (5 * q.length)) = some p) (2 ^ 32) ∧
      Nat.count (fun w => draw (fun _ => 5) q (w % (5 * q.length)) = some p) (2 ^ 32) ≤
        5 * ((2 ^ 32 + 5 * q.length - 1) / (5 * q.length)) := by
  have hpos := List.length_pos_of_mem hp
  have hshare := count_draw (w := fun _ => 5) hq hp
  rw [total_five] at hshare
  have hbounds := count_residues (P := fun v => draw (fun _ => 5) q v = some p)
    (T := 5 * q.length) (by omega) (2 ^ 32)
  rw [hshare] at hbounds
  exact hbounds

/-- A task stays off the CPU through `n` preemptions for exactly the sequences of words of
which none draws it, and every word draws it with the share of one among all. So however
long a lottery task has waited, the next preemption picks it with the same chance. -/
theorem starvation_count (h : Reachable b s) (hsmp : b.smp = false)
    (hc : (s.task s.rq.curr).schedClass = .lottery) (hp : waiting s .lottery p) :
    ∃ q c, Accounted s q ∧ 5 * (2 ^ 32 / (5 * q.length)) ≤ c ∧
      c ≤ 5 * ((2 ^ 32 + 5 * q.length - 1) / (5 * q.length)) ∧
      ∀ n (es : Fin n → Env),
        (∀ ws, ∃ t, runOps b (repeated (.schedule true) es ws) s = .ok t) ∧
        Finset.card {ws | p ∉ switches b (repeated (.schedule true) es ws) s} =
          (2 ^ 32 - c) ^ n := by
  obtain ⟨⟨r,hr⟩,hk⟩ := reachable_inv h
  have hmem : p ∈ r .lottery := (hr.ready _ p).mpr hp
  obtain ⟨hlow,hhigh⟩ := winner_share (hr.nodup _) hmem
  have hon : OnLottery b s (r .lottery) := ⟨⟨r,hr,rfl⟩,hk,hc⟩
  refine ⟨r .lottery,_,books_accounted hr.toBooks,hlow,hhigh,fun n es => ⟨fun ws => ?_,?_⟩⟩
  · exact (hon.preemptions hsmp _).1
  · rw [← card_no_hit_below]
    refine congrArg Finset.card (Finset.filter_congr fun ws _ => ?_)
    have hrun := (hon.preemptions hsmp (List.ofFn fun i => withWord (es i) (ws i))).2
    have hiff : p ∈ switches b (repeated (.schedule true) es ws) s ↔
        ∃ i, winner (r .lottery) (.ofNat (ws i)) = some p := by
      rw [← List.mem_map_of_injective (Option.some_injective Tid)]
      unfold repeated
      rw [hrun,List.map_ofFn,List.mem_ofFn]
      rfl
    rw [hiff,not_exists]
    refine forall_congr' fun i => ?_
    rw [winner,toNat_word]

end Preemptions

section Ticks
variable {b : Build} {e : Env} {s t : Kernel} {q : List Tid} {n : Nat}

/-- A tick asks for a reschedule when the lottery task is not alone and the word is a
multiple of ten. -/
def tickPreempts (q : List Tid) (word : Nat) : Prop := 1 < q.length ∧ word % 10 = 0

instance (q : List Tid) : DecidablePred (tickPreempts q) :=
  fun _ => inferInstanceAs (Decidable (_ ∧ _))

theorem updateRqClock_needResched (e : Env) (s : Kernel) :
    (updateRqClock e s).rq.needResched = s.rq.needResched := by
  unfold updateRqClock
  split
  · rfl
  split <;> rfl

theorem reschedCurr_needResched (s : Kernel) : (reschedCurr s).rq.needResched = true := by
  unfold reschedCurr
  split
  next hn => exact hn
  next => rfl

theorem taskTickLottery_needResched (h : Accounted s q) (e : Env) :
    (taskTickLottery e s).rq.needResched =
      (s.rq.needResched || decide (tickPreempts q e.randomWord.toNat)) := by
  have hone : s.rq.ltr.nrRunning ≤ 1 ↔ q.length ≤ 1 := by
    rw [UInt32.le_iff_toNat_le,h.nrRunning]
    rfl
  have hten : e.randomWord % 10 = 0 ↔ e.randomWord.toNat % 10 = 0 := by
    rw [← UInt32.toNat_inj,UInt32.toNat_mod]
    rfl
  unfold taskTickLottery tickPreempts
  simp only [hone,hten]
  by_cases hq : q.length ≤ 1
  · rw [if_pos hq]
    simp [Nat.not_lt.mpr hq]
  rw [if_neg hq]
  by_cases hw : e.randomWord.toNat % 10 = 0
  · rw [if_pos hw,reschedCurr_needResched]
    simp [Nat.not_le.mp hq,hw]
  · rw [if_neg hw]
    simp [hw]

theorem OnLottery.tick (h : OnLottery b s q) (e : Env) :
    ∃ t, schedulerTick b e s = .ok t ∧ OnLottery b t q ∧ t.rq.needResched =
      (s.rq.needResched || decide (tickPreempts q e.randomWord.toNat)) := by
  obtain ⟨r,hr,rfl⟩ := h.queue
  have hclock := updateRqClock_quiet e s
  have hneed := taskTickLottery_needResched (books_accounted (hr.toBooks.quiet hclock)) e
  have hq := hclock.trans (taskTickLottery_quiet e _)
  rw [updateRqClock_needResched] at hneed
  refine ⟨taskTickLottery e (updateRqClock e s),?_,⟨⟨r,hr.quiet hq,rfl⟩,?_,?_⟩,hneed⟩
  · have hclass : ((updateRqClock e s).task (updateRqClock e s).rq.curr).schedClass =
        .lottery := by
      rw [hclock.task,hclock.curr]
      exact h.current
    unfold schedulerTick
    dsimp only
    rw [hclass]
    rfl
  · exact hq.toFrame.evolves.ticketed h.ticketed
  · rw [hq.task,hq.curr]
    exact h.current

theorem OnLottery.ticks (h : OnLottery b s q) (es : List Env) :
    ∃ t, runOps b (es.map fun e => (e,.schedulerTick)) s = .ok t ∧
      (t.rq.needResched = false ↔
        s.rq.needResched = false ∧ ∀ e ∈ es, ¬tickPreempts q e.randomWord.toNat) := by
  induction es generalizing s with
  | nil => exact ⟨s,rfl,by simp⟩
  | cons e es ih =>
    obtain ⟨t,ht,hon,hneed⟩ := h.tick e
    obtain ⟨u,hu,hrest⟩ := ih hon
    have he : enabled b s .schedulerTick := trivial
    refine ⟨u,(runOps_cons he ht _).trans hu,?_⟩
    rw [hrest,hneed]
    simp [and_assoc]

theorem count_tens (hq : 1 < q.length) : Nat.count (tickPreempts q) (2 ^ 32) = 429496730 := by
  have hmod : Nat.count (tickPreempts q) (2 ^ 32) = Nat.count (· ≡ 0 [MOD 10]) (2 ^ 32) :=
    count_congr fun w _ => by simp [tickPreempts,hq,Nat.ModEq]
  rw [hmod,Nat.count_modEq_card _ (by decide)]
  decide

/-- A lottery task that is alone keeps the CPU through any number of ticks, and one that is
not loses it with each tick for one word in ten: it is past `n` ticks for exactly this many
of the sequences of words. -/
theorem tick_count (h : Reachable b s) (hc : (s.task s.rq.curr).schedClass = .lottery)
    (hn : s.rq.needResched = false) :
    ∃ q, Accounted s q ∧ ∀ n (es : Fin n → Env),
      Finset.card {ws | (runOps b (repeated .schedulerTick es ws) s).toOption.map
        (·.rq.needResched) = some false} =
          if q.length ≤ 1 then (2 ^ 32) ^ n else (2 ^ 32 - 429496730) ^ n := by
  obtain ⟨⟨r,hr⟩,hk⟩ := reachable_inv h
  have hon : OnLottery b s (r .lottery) := ⟨⟨r,hr,rfl⟩,hk,hc⟩
  refine ⟨r .lottery,books_accounted hr.toBooks,fun n es => ?_⟩
  have hcount : Finset.card {ws | (runOps b (repeated .schedulerTick es ws) s).toOption.map
      (·.rq.needResched) = some false} =
      (2 ^ 32 - Nat.count (tickPreempts (r .lottery)) (2 ^ 32)) ^ n := by
    rw [← card_no_hit_below]
    refine congrArg Finset.card (Finset.filter_congr fun ws _ => ?_)
    obtain ⟨t,ht,hneed⟩ := hon.ticks (List.ofFn fun i => withWord (es i) (ws i))
    unfold repeated
    rw [ht,show (Except.ok t : Except Fault Kernel).toOption.map (·.rq.needResched) =
      some t.rq.needResched from rfl,Option.some_inj,hneed,List.forall_mem_ofFn_iff]
    simp only [hn,true_and]
    refine forall_congr' fun i => ?_
    rw [show (withWord (es i) (ws i)).randomWord = .ofNat (ws i) from rfl,toNat_word]
  rw [hcount]
  split
  next hone =>
    have hnone : Nat.count (tickPreempts (r .lottery)) (2 ^ 32) = 0 :=
      Nat.count_iff_forall_not.mpr fun _ _ ht => absurd ht.1 (Nat.not_lt.mpr hone)
    rw [hnone,Nat.sub_zero]
  next htwo => rw [count_tens (Nat.not_le.mp htwo)]

end Ticks

section Examples

/-- Two lottery tasks are queued and the first of them has the CPU. -/
def twoLotteryOps : List (Env × Op) := lotteryRunsOps ++ spawn 2 ++ [toLottery 2]

def twoLottery : Kernel := after .versatile twoLotteryOps

theorem twoLottery_reachable : Reachable .versatile twoLottery := .after (by decide +kernel)

theorem starvation_count_two :
    ∃ q c, Accounted twoLottery q ∧ 5 * (2 ^ 32 / (5 * q.length)) ≤ c ∧
      c ≤ 5 * ((2 ^ 32 + 5 * q.length - 1) / (5 * q.length)) ∧
      ∀ n (es : Fin n → Env),
        (∀ ws, ∃ t, runOps .versatile (repeated (.schedule true) es ws) twoLottery = .ok t) ∧
        Finset.card {ws | 2 ∉ switches .versatile (repeated (.schedule true) es ws) twoLottery} =
          (2 ^ 32 - c) ^ n :=
  starvation_count twoLottery_reachable rfl (by decide +kernel)
    ⟨by decide +kernel,by decide +kernel,by decide +kernel⟩

theorem tick_count_two : ∃ q, Accounted twoLottery q ∧ ∀ n (es : Fin n → Env),
    Finset.card {ws | (runOps .versatile (repeated .schedulerTick es ws) twoLottery).toOption.map
      (·.rq.needResched) = some false} =
        if q.length ≤ 1 then (2 ^ 32) ^ n else (2 ^ 32 - 429496730) ^ n :=
  tick_count twoLottery_reachable (by decide +kernel) (by decide +kernel)

end Examples

end LotteryScheduler.Properties
