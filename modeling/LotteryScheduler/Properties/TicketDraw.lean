import LotteryScheduler.Lib.Draw
import LotteryScheduler.Properties.Accounting

namespace LotteryScheduler.Properties
open Lib Model Proofs

def ticketsOf (s : Kernel) (p : Tid) : Nat := (s.task p).tickets.toNat

/-- The task with which the loop left through its break. -/
def drawn : Option (LoopEnd (Option Tid × UInt32)) → Option Tid
  | some (.broke (task,_)) => task
  | _ => none

/-- A lottery queue as the draw expects it; the tickets of a task may be zero. -/
structure Drawable (s : Kernel) (q : List Tid) : Prop where
  linked : Holds s.mem .ltrQueue (q.map .task)
  policy : ∀ p ∈ q, (s.task p).policy = schedLottery
  totalTickets : s.rq.ltr.totalTickets.toNat = total (ticketsOf s) q
  some_ticket : 0 < total (ticketsOf s) q

/-- The draw gives every queued task its tickets' share of the values, and of the
random words up to one round of the total. The loop runs for at most `n` nodes. -/
structure Proportional (s : Kernel) (q : List Tid) (n : Nat) : Prop where
  breaks : ∀ lucky, lucky < total (ticketsOf s) q → ∃ p ∈ q, ∃ cnt,
    drawLoop n s (.ofNat lucky) = some (.broke (some p,cnt))
  no_wrap : ∀ l p l' lucky task cnt, q = l ++ p :: l' →
    forEach (drawStep s.task lucky) (l.map .task) (none,0) = .ran (task,cnt) →
      cnt.toNat + ticketsOf s p < 2 ^ 32
  share : ∀ p ∈ q, Nat.count (fun lucky => drawn (drawLoop n s (.ofNat lucky)) = some p)
    (total (ticketsOf s) q) = ticketsOf s p
  words : ∀ p ∈ q,
    let words := Nat.count
      (fun word => drawn (drawLoop n s (.ofNat word % s.rq.ltr.totalTickets)) = some p) (2 ^ 32)
    ticketsOf s p * (2 ^ 32 / total (ticketsOf s) q) ≤ words ∧
      words ≤ ticketsOf s p * ((2 ^ 32 + total (ticketsOf s) q - 1) / total (ticketsOf s) q)
  never_zero : ∀ p lucky, ticketsOf s p = 0 → drawn (drawLoop n s lucky) ≠ some p
  picks : q.length ≤ s.live.length → ∀ e, ∃ p t, pickNextTaskLottery e s = .ok (some p,t) ∧
    drawn (drawLoop n s (e.randomWord % s.rq.ltr.totalTickets)) = some p

section Loop
variable {s : Kernel} {q l : List Tid} {cnt : UInt32}

theorem toNat_add_tickets (h : cnt.toNat + ticketsOf s p < 2 ^ 32) :
    (cnt + (s.task p).tickets).toNat = cnt.toNat + ticketsOf s p := by
  unfold ticketsOf at *
  rw [UInt32.toNat_add,Nat.mod_eq_of_lt h]

/-- The running count is the total of the tasks that were passed. -/
theorem forEach_ran (hp : ∀ p ∈ l, (s.task p).policy = schedLottery)
    (hw : cnt.toNat + total (ticketsOf s) l < 2 ^ 32)
    (hr : forEach (drawStep s.task lucky) (l.map .task) (task,cnt) = .ran (task',cnt')) :
    cnt'.toNat = cnt.toNat + total (ticketsOf s) l := by
  induction l generalizing task cnt with
  | nil =>
    cases hr
    simp
  | cons x l ih =>
    rw [total_cons] at hw ⊢
    have hadd : (cnt + (s.task x).tickets).toNat = cnt.toNat + ticketsOf s x :=
      toNat_add_tickets (by omega)
    simp only [List.map_cons,forEach,drawStep,hp x (by simp),ne_eq,not_true_eq_false,
      ↓reduceIte] at hr
    by_cases hc : lucky < cnt + (s.task x).tickets ∧ lucky ≥ cnt
    · simp [hc] at hr
    · simp only [hc,↓reduceIte] at hr
      have hrest := ih (fun p hm => hp p (List.mem_cons_of_mem _ hm)) (by omega) hr
      omega

/-- The loop cuts the values into the intervals of the general draw. -/
theorem forEach_draw (hp : ∀ p ∈ l, (s.task p).policy = schedLottery)
    (hw : cnt.toNat + total (ticketsOf s) l < 2 ^ 32) (hl : cnt ≤ lucky)
    (task : Option Tid) :
    drawn (some (forEach (drawStep s.task lucky) (l.map .task) (task,cnt))) =
      draw (ticketsOf s) l (lucky.toNat - cnt.toNat) := by
  induction l generalizing task cnt with
  | nil => rfl
  | cons x l ih =>
    rw [total_cons] at hw
    have hadd : (cnt + (s.task x).tickets).toNat = cnt.toNat + ticketsOf s x :=
      toNat_add_tickets (by omega)
    have hlow := UInt32.le_iff_toNat_le.mp hl
    simp only [List.map_cons,forEach,drawStep,hp x (by simp),ne_eq,not_true_eq_false,
      ↓reduceIte,draw]
    by_cases hc : lucky < cnt + (s.task x).tickets
    · have hin : lucky.toNat - cnt.toNat < ticketsOf s x := by
        have hlt := UInt32.lt_iff_toNat_lt.mp hc
        omega
      rw [if_pos ⟨hc,hl⟩,if_pos hin]
      rfl
    · have hpast : cnt + (s.task x).tickets ≤ lucky := UInt32.not_lt.mp hc
      have hle := UInt32.le_iff_toNat_le.mp hpast
      rw [if_neg (fun h => hc h.1),if_neg (by omega)]
      have hrest := ih (fun p hm => hp p (List.mem_cons_of_mem _ hm)) (by omega) hpast (some x)
      rw [hrest,hadd,Nat.sub_add_eq]

end Loop

section Shares
variable {s : Kernel} {q : List Tid} {n : Nat} {p : Tid}

theorem Drawable.drawn_eq (h : Drawable s q) (hn : q.length < n) (lucky : UInt32) :
    drawn (drawLoop n s lucky) = draw (ticketsOf s) q lucky.toNat := by
  have hloop : drawLoop n s lucky =
      some (forEach (drawStep s.task lucky) (q.map .task) (none,0)) :=
    h.linked.path.forEach_eq (List.nodup_cons.mp h.linked.nodup).1 n (by simpa using hn) _
  have hlt := s.rq.ltr.totalTickets.toNat_lt
  rw [hloop,forEach_draw h.policy (by simpa [← h.totalTickets] using hlt) UInt32.zero_le]
  simp

theorem Drawable.nodup (h : Drawable s q) : q.Nodup :=
  (List.nodup_map_iff (fun _ _ he => Node.task.inj he)).mp (List.nodup_cons.mp h.linked.nodup).2

theorem Drawable.total_lt (h : Drawable s q) : total (ticketsOf s) q < 2 ^ 32 := by
  have hlt := s.rq.ltr.totalTickets.toNat_lt
  rwa [h.totalTickets] at hlt

theorem drawn_some (h : drawn o = some p) : ∃ cnt, o = some (.broke (some p,cnt)) := by
  unfold drawn at h
  split at h
  next task cnt =>
    rw [h]
    exact ⟨cnt,rfl⟩
  next => cases h

/-- The draw of a random word is a value below the total. -/
theorem Drawable.word (h : Drawable s q) (hn : q.length < n) (word : UInt32) :
    drawn (drawLoop n s (word % s.rq.ltr.totalTickets)) =
      draw (ticketsOf s) q (word.toNat % total (ticketsOf s) q) := by
  rw [h.drawn_eq hn,UInt32.toNat_mod,h.totalTickets]

/-- The class returns the task that the draw of its random word names. -/
theorem Drawable.picked (h : Drawable s q) (hlen : q.length ≤ s.live.length) (e : Env)
    (hp : draw (ticketsOf s) q (e.randomWord.toNat % total (ticketsOf s) q) = some p) :
    pickNextTaskLottery e s = .ok (some p,logEvent e p .s s) := by
  obtain ⟨cnt,hbroke⟩ := drawn_some ((h.word (Nat.lt_succ_of_le hlen) e.randomWord).trans hp)
  have htotal : s.rq.ltr.totalTickets ≠ 0 := by
    intro hz
    have hpos := h.some_ticket
    rw [← h.totalTickets,hz] at hpos
    cases hpos
  have hqueue : listEmpty s.mem .ltrQueue ≠ true := by
    intro he
    have hnil : q = [] := by simpa using h.linked.empty_iff.mp he
    rw [hnil] at hp
    cases hp
  simp only [pickNextTaskLottery,if_neg htotal,if_neg hqueue,hbroke]
  rfl

/-- The draw is proportional to the tickets, for every queue and any tickets. -/
theorem draw_proportional (h : Drawable s q) (hn : q.length < n) : Proportional s q n where
  breaks lucky hl := by
    obtain ⟨p,hp⟩ := draw_some hl
    have hlt := Nat.lt_trans hl h.total_lt
    have heq := h.drawn_eq hn (.ofNat lucky)
    rw [UInt32.toNat_ofNat',Nat.mod_eq_of_lt hlt,hp] at heq
    exact ⟨p,draw_mem hp,drawn_some heq⟩
  no_wrap l p l' lucky task cnt hq hr := by
    have hlt := h.total_lt
    rw [hq,total_append,total_cons] at hlt
    have hpol : ∀ x ∈ l, (s.task x).policy = schedLottery :=
      fun x hx => h.policy x (by simp [hq,hx])
    have hcnt := forEach_ran hpol (by simpa using by omega) hr
    simp only [UInt32.toNat_zero,Nat.zero_add] at hcnt
    omega
  share p hp := by
    rw [← count_draw (w := ticketsOf s) h.nodup hp]
    refine count_congr fun lucky hl => ?_
    have hlt := Nat.lt_trans hl h.total_lt
    rw [h.drawn_eq hn,UInt32.toNat_ofNat',Nat.mod_eq_of_lt hlt]
  words p hp := by
    have hshare := count_draw (w := ticketsOf s) h.nodup hp
    have hbounds := count_residues (P := fun v => draw (ticketsOf s) q v = some p)
      h.some_ticket (2 ^ 32)
    rw [hshare] at hbounds
    have hwords : Nat.count
        (fun word => drawn (drawLoop n s (.ofNat word % s.rq.ltr.totalTickets)) = some p)
          (2 ^ 32) =
        Nat.count (fun v => draw (ticketsOf s) q (v % total (ticketsOf s) q) = some p)
          (2 ^ 32) := by
      refine count_congr fun word hw => ?_
      rw [h.word hn,UInt32.toNat_ofNat',Nat.mod_eq_of_lt hw]
    dsimp only
    rw [hwords]
    exact hbounds
  never_zero p lucky hz hd := by
    rw [h.drawn_eq hn] at hd
    have hpos := draw_weight hd
    omega
  picks hlen e := by
    obtain ⟨p,hp⟩ := draw_some (Nat.mod_lt e.randomWord.toNat h.some_ticket)
    exact ⟨p,logEvent e p .s s,h.picked hlen e hp,(h.word hn _).trans hp⟩

end Shares

section Example

/-- Two queued tasks, the first without tickets. -/
def unevenQueue : Kernel :=
  let lottery := { bootTask with policy := schedLottery, schedClass := .lottery }
  let s := (schedInit.setTask 1 lottery).setTask 2 { lottery with tickets := 3 }
  (enqueueTaskLottery .quiet 1 s >>= enqueueTaskLottery .quiet 2).toOption.getD s

theorem draw_proportional_uneven : Proportional unevenQueue [1,2] 3 :=
  draw_proportional
    ⟨⟨⟨by decide +kernel,by decide +kernel,by decide +kernel,by decide +kernel,
      by decide +kernel,by decide +kernel⟩,by decide⟩,by decide +kernel,by decide +kernel,
      by decide +kernel⟩ (by decide)

end Example

section Picks
variable {b : Build} {s : Kernel} {r : Ready}

theorem ticketsOf_five (hk : Ticketed s) (hp : p ∈ s.live) : ticketsOf s p = 5 := by
  unfold ticketsOf
  rw [hk p hp]
  rfl

theorem books_total (h : Books b s r) (hk : Ticketed s) :
    s.rq.ltr.totalTickets.toNat = total (ticketsOf s) (r .lottery) := by
  have hsum : (r .lottery).map (ticketsOf s) = (r .lottery).map fun _ => 5 :=
    List.map_congr_left fun p hp => ticketsOf_five hk ((h.ready _ _).mp hp).1
  rw [h.totalTickets hk,total,hsum]
  simp [Nat.mul_comm]

theorem books_drawable (h : Books b s r) (hk : Ticketed s) (hne : r .lottery ≠ []) :
    Drawable s (r .lottery) where
  linked := h.rep.ring
  policy p hp := by
    obtain ⟨hl,_,hc⟩ := (h.ready _ _).mp hp
    exact (h.tasks p hl).lottery.mpr hc
  totalTickets := books_total h hk
  some_ticket := by
    have hpos := List.length_pos_iff.mpr hne
    rw [← books_total h hk,h.totalTickets hk]
    omega

/-- The lottery class answers NULL exactly when it has no task, and otherwise with a
task of its queue, whatever the random word. -/
theorem lottery_pick_sound (h : PickPoint b s) : ∃ q, Accounted s q ∧
    (∀ p ∈ s.live, 0 < ticketsOf s p) ∧
    s.rq.ltr.totalTickets.toNat = total (ticketsOf s) q ∧
    ∀ e, Returns (pickNextTaskLottery e s) (fun a => (a.1 = none ↔ q = []) ∧
      ∀ p, a.1 = some p →
        p ∈ q ∧ (s.task p).policy = schedLottery ∧ (s.task p).onRq = .queued) := by
  obtain ⟨⟨r,hr⟩,hk⟩ := h.books
  have hacc := books_accounted hr
  refine ⟨r .lottery,hacc,fun p hp => by rw [ticketsOf_five hk hp]; decide,books_total hr hk,
    fun e => ?_⟩
  apply (pickNextTaskLottery_spec e hr).mono
  intro a hspec
  obtain ⟨_,ha⟩ := hspec
  cases hp : a.1 with
  | some p =>
    rw [hp] at ha
    have hne : r .lottery ≠ [] := List.ne_nil_of_mem ha.1
    refine ⟨by simp [hne],fun x hx => ?_⟩
    cases hx
    have hmem := (hacc.by_policy p).mp ha.1
    exact ⟨ha.1,hmem.2.2,hmem.2.1⟩
  | none =>
    rw [hp] at ha
    have hnil : r .lottery = [] := ha.elim id (hr.stocked hk)
    exact ⟨by simp [hnil],by simp⟩

theorem lottery_pick_sound_waiting : ∃ q, Accounted lotteryWaits q ∧
    (∀ p ∈ lotteryWaits.live, 0 < ticketsOf lotteryWaits p) ∧
    lotteryWaits.rq.ltr.totalTickets.toNat =
      total (ticketsOf lotteryWaits) q ∧
    ∀ e, Returns (pickNextTaskLottery e lotteryWaits)
      (fun a => (a.1 = none ↔ q = []) ∧ ∀ p, a.1 = some p → p ∈ q ∧
        (lotteryWaits.task p).policy = schedLottery ∧
        (lotteryWaits.task p).onRq = .queued) :=
  lottery_pick_sound (.between lotteryWaits_reachable)

end Picks

end LotteryScheduler.Properties
