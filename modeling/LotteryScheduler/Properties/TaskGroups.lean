import LotteryScheduler.Proofs.TaskGroups

namespace LotteryScheduler.Properties
open Lib Model Proofs

section Walks
variable {g : GroupBuild} {s : TaskGroups} {top : TgId} {period : UInt64}

/-- Below every group there is a tree of all the groups that the links lead up from. -/
theorem Treed.subtree (h : Treed s) (htop : top ∈ s.groups) :
    ∃ f, Rooted s.links top f ∧ f.nodes.length < s.groups.length ∧
      (∀ v ∈ f.nodes, v ∈ s.groups) ∧
      ∀ v ∈ s.groups, v ∈ f.nodes ↔ s.links.Above top v := by
  obtain ⟨f,hrooted,hperm⟩ := h.tree
  obtain ⟨hroot,hnodes⟩ := List.nodup_cons.mp hrooted.nodup
  have hlen : s.groups.length = f.nodes.length + 1 := hperm.length_eq
  have hin : ∀ v ∈ f.nodes, v ∈ s.groups :=
    fun v hv => hperm.mem_iff.mpr (List.mem_cons_of_mem _ hv)
  have hsub : ∃ f', Rooted s.links top f' ∧ f'.nodes.length < s.groups.length ∧
      ∀ v ∈ f'.nodes, v ∈ s.groups := by
    rcases List.mem_cons.mp (hperm.mem_iff.mp htop) with rfl | hmem
    · exact ⟨f,hrooted,by omega,hin⟩
    · obtain ⟨f',hrooted',hless,hmem'⟩ := hrooted.holds.subtree hnodes hmem
      exact ⟨f',hrooted',by omega,fun v hv => hin v (hmem' v hv)⟩
  obtain ⟨f',hrooted',hless,hmem'⟩ := hsub
  refine ⟨f',hrooted',hless,hmem',fun v hv => ⟨hrooted'.holds.above_of_mem,fun ha => ?_⟩⟩
  rcases List.mem_cons.mp (hperm.mem_iff.mp hv) with rfl | hmem
  · obtain ⟨b,hb⟩ := ha.parent
    cases h.top.symm.trans hb
  · exact hrooted.mem_of_above h.top hrooted' hmem ha

theorem Treed.acyclic (h : Treed s) (hv : top ∈ s.groups) : ¬s.links.Above top top := by
  obtain ⟨f,hrooted,hperm⟩ := h.tree
  exact hrooted.acyclic h.top (hperm.mem_iff.mp hv)

/-- The walk with its jumps comes to every group from `top` on down once and leaves it once, the
groups below it in between, and stops at the first visit that fails. -/
theorem walk_visits_groups (h : GroupReach g period s) (htop : top ∈ s.groups) :
    ∃ stops : List (Forest.Stop TgId), stops.Nodup ∧
      (∀ v, .enter v ∈ stops ∨ .leave v ∈ stops → v ∈ s.groups) ∧
      (∀ v ∈ s.groups, v = top ∨ s.links.Above top v → [.enter v,.leave v].Sublist stops) ∧
      (∀ v, .enter v ∈ stops ∨ .leave v ∈ stops → v = top ∨ s.links.Above top v) ∧
      (∀ a v, .enter a ∈ stops → v ∈ s.groups → s.links.Above a v →
        [.enter a,.enter v,.leave v,.leave a].Sublist stops) ∧
      ∀ (σ : Type) (down up : TgId → σ → Int × σ) (data : σ),
        walkTgTreeFrom s.links s.groups top down up data =
          some (Forest.perform down up stops data) := by
  have htreed := groupReach_treed h
  obtain ⟨f,hrooted,hless,hmem,habove⟩ := Treed.subtree htreed htop
  obtain ⟨hout,hnodes⟩ := List.nodup_cons.mp hrooted.nodup
  have hstops : ∀ v, .enter v ∈ f.tourFrom top ∨ .leave v ∈ f.tourFrom top ↔
      v = top ∨ v ∈ f.nodes := by
    intro v
    simp only [Forest.tourFrom,List.mem_cons,List.mem_append,Forest.mem_tour,
      Forest.Stop.enter.injEq,Forest.Stop.leave.injEq,reduceCtorEq,List.not_mem_nil,or_false,
      false_or]
    tauto
  have hpair : ∀ v, v = top ∨ v ∈ f.nodes → [.enter v,.leave v].Sublist (f.tourFrom top) := by
    rintro v (rfl | hv)
    · apply List.Sublist.cons_cons
      exact List.sublist_append_right ..
    · exact ((Forest.tour_pair hv).trans (List.sublist_append_left ..)).cons _
  refine ⟨f.tourFrom top,?_,fun v hv => ?_,fun v hv ha => ?_,fun v hv => ?_,
    fun a v ha hv habv => ?_,fun σ down up data => ?_⟩
  · rw [Forest.tourFrom,List.nodup_cons,List.nodup_append]
    refine ⟨?_,Forest.nodup_tour hnodes,List.pairwise_singleton ..,fun x hx y hy => ?_⟩
    · simp only [List.mem_append,Forest.mem_tour,List.mem_singleton,reduceCtorEq,or_false]
      exact hout
    · rintro rfl
      rw [List.mem_singleton] at hy
      subst hy
      exact hout (Forest.mem_tour.2.mp hx)
  · rcases (hstops v).mp hv with rfl | hv
    · exact htop
    · exact hmem v hv
  · exact hpair v (ha.imp_right (habove v hv).mpr)
  · exact ((hstops v).mp hv).imp_right fun hv => hrooted.holds.above_of_mem hv
  · rcases (hstops a).mp (.inl ha) with rfl | ha
    · apply List.Sublist.cons_cons
      exact (Forest.tour_pair ((habove v hv).mpr habv)).append (List.Sublist.refl _)
    · have hup := hrooted.holds.above_of_mem ha
      have hv : v ∈ f.nodes := (habove v hv).mpr (hup.trans habv)
      have hunder : f.Under a v := by
        rcases hrooted.holds.above_cases hnodes hv habv with hu | he | hback
        · exact hu
        · exact absurd (he ▸ ha) hout
        · exact absurd (hup.trans hback) (Treed.acyclic htreed htop)
      exact (hunder.nested.trans (List.sublist_append_left ..)).cons _
  · have hfuel : 3 * s.groups.length =
        3 * f.nodes.length + 2 + (3 * s.groups.length - (3 * f.nodes.length + 2)) := by omega
    rw [walkTgTreeFrom,hfuel]
    exact walk_tour hrooted _

end Walks

section Limits
variable {g : GroupBuild} {s s' : TaskGroups} {tg : TgId} {start period quota burst : UInt64}
variable {us ret : Int}

/-- A request is granted exactly when it is in range and, on the old hierarchy, leaves no group
with more than a group above it; and a refused one changes nobody's limits. Shares are compared
as `to_ratio` rounds them, and a `long` has to have room for them. -/
theorem bandwidth_granted_iff (h : RoomyReach g start s) (hf : g.long.Fits period quota)
    (tg : TgId) (burst : UInt64) :
    ∃ ret s', tgSetCfsBandwidth g tg period quota burst s = some (ret,s') ∧
      (ret = 0 ↔ tg ≠ rootTaskGroup ∧ InRange period quota burst ∧
        (g.onDfl = false → Hierarchy s (asked s tg period quota))) ∧
      (ret = 0 → Granted s tg period quota burst s') ∧
      (ret ≠ 0 → ret = -einval ∧ SameLimits s s') := by
  have hgrouped := roomyReach_grouped h
  obtain ⟨ret,s',hrun,hgranted,hrefused⟩ :=
    tgSetCfsBandwidth_ends (g := g) hgrouped.toTreed tg period quota burst
  exact ⟨ret,s',hrun,tgSetCfsBandwidth_zero hgrouped hf hrun,hgranted,hrefused⟩

/-- On the old hierarchy no group is ever granted more than any group above it, in whatever
order groups come and go and limits are set, as long as a `long` has room for them. -/
theorem hierarchy_kept (h : RoomyReach g start s) (hv1 : g.onDfl = false) :
    Hierarchy s fun v => share (s.cfsBandwidth v) := (roomyReach_grouped h).within hv1

/-- What the files of a group read: its quota, its period and its burst. -/
def reads (g : GroupBuild) (b : CfsBandwidth) : Int × Int × Int :=
  (tgGetCfsQuota g b,tgGetCfsPeriod g b,tgGetCfsBurst g b)

/-- What they are to read after a file was written. -/
def written (op : GroupOp) (old : Int × Int × Int) : Int × Int × Int :=
  match op with
  | .setQuota _ us => (max us (-1),old.2)
  | .setPeriod _ us => (old.1,us,old.2.2)
  | .setBurst _ us => (old.1,old.2.1,us)
  | _ => old

theorem reads_congr {b b' : CfsBandwidth} (hp : b'.period = b.period) (hq : b'.quota = b.quota)
    (hb : b'.burst = b.burst) : reads g b' = reads g b := by
  unfold reads tgGetCfsQuota tgGetCfsPeriod tgGetCfsBurst
  rw [hp,hq,hb]

/-- A `long` of microseconds comes back from the nanoseconds. -/
theorem usec_back {l : LongModel} (hlong : l.signed us = us) (hle : UInt64.ofInt us ≤ maxUsec) :
    (UInt64.ofInt us * nsecPerUsec).toNat = us.toNat * 1000 ∧ 0 ≤ us := by
  have hbound : -2 ^ 63 ≤ us ∧ us < 2 ^ 63 := by
    unfold LongModel.signed at hlong
    have hpos : 0 < 2 ^ l.bits := Nat.two_pow_pos _
    have hlow := Int.le_bmod (x := us) hpos
    have hhigh := Int.bmod_lt (x := us) hpos
    rw [hlong] at hlow hhigh
    cases l with
    | ilp32 =>
      simp only [LongModel.bits] at hlow hhigh
      omega
    | lp64 =>
      simp only [LongModel.bits] at hlow hhigh
      omega
  have hval : (UInt64.ofInt us).toNat = (us % 2 ^ 64).toNat := by
    simp only [UInt64.ofInt,UInt64.toNat_ofNat']
    omega
  have hmax : maxUsec.toNat = 18446744073709551 := rfl
  rw [UInt64.le_iff_toNat_le,hval,hmax] at hle
  have hnonneg : 0 ≤ us := by omega
  refine ⟨?_,hnonneg⟩
  rw [UInt64.toNat_mul,hval]
  change _ * 1000 % 2 ^ 64 = _
  rw [Int.emod_eq_of_lt hnonneg (by omega)] at hle ⊢
  exact Nat.mod_eq_of_lt (by omega)

theorem reads_granted (h : Granted s tg period quota burst s') :
    reads g (s'.cfsBandwidth tg) = reads g ⟨period,quota,burst,0⟩ ∧
      ∀ v, v ≠ tg → reads g (s'.cfsBandwidth v) = reads g (s.cfsBandwidth v) := by
  obtain ⟨hp,hq,hb⟩ := h.self
  refine ⟨reads_congr hp hq hb,fun v hv => ?_⟩
  obtain ⟨hp,hq,hb⟩ := h.other v hv
  exact reads_congr hp hq hb

theorem reads_same (h : SameLimits s s') (v : TgId) :
    reads g (s'.cfsBandwidth v) = reads g (s.cfsBandwidth v) := by
  have hv := h.limits v
  simp only [Prod.mk.injEq] at hv
  exact reads_congr hv.1 hv.2.1 hv.2.2

/-- A file of a group reads what was last written to it, if that was granted, and all other files
read as before. -/
theorem limits_read_back (h : GroupReach g start s) (hlong : g.long.signed us = us)
    (hop : op = .setQuota tg us ∨ op = .setPeriod tg us ∨ op = .setBurst tg us) :
    ∃ ret s', groupOp g op s = some (ret,s') ∧
      (ret = 0 → reads g (s'.cfsBandwidth tg) = written op (reads g (s.cfsBandwidth tg)) ∧
        ∀ v, v ≠ tg → reads g (s'.cfsBandwidth v) = reads g (s.cfsBandwidth v)) ∧
      (ret ≠ 0 → ret = -einval ∧ ∀ v, reads g (s'.cfsBandwidth v) = reads g (s.cfsBandwidth v)) := by
  have htreed := groupReach_treed h
  have hset : ∀ p q b,
      reads g ⟨p,q,b,0⟩ = written op (reads g (s.cfsBandwidth tg)) →
      ∃ ret s', tgSetCfsBandwidth g tg p q b s = some (ret,s') ∧
        (ret = 0 → reads g (s'.cfsBandwidth tg) = written op (reads g (s.cfsBandwidth tg)) ∧
          ∀ v, v ≠ tg → reads g (s'.cfsBandwidth v) = reads g (s.cfsBandwidth v)) ∧
        (ret ≠ 0 → ret = -einval ∧
          ∀ v, reads g (s'.cfsBandwidth v) = reads g (s.cfsBandwidth v)) := by
    intro p q b hreads
    obtain ⟨ret,s',hrun,hgranted,hrefused⟩ := tgSetCfsBandwidth_ends (g := g) htreed tg p q b
    refine ⟨ret,s',hrun,fun hz => ?_,fun hz => ?_⟩
    · obtain ⟨hself,hother⟩ := reads_granted (g := g) (hgranted hz)
      exact ⟨hself.trans hreads,hother⟩
    · exact ⟨(hrefused hz).1,reads_same (hrefused hz).2⟩
  have hrefuse : ∃ ret s', some (-einval,s) = some (ret,s') ∧
      (ret = 0 → reads g (s'.cfsBandwidth tg) = written op (reads g (s.cfsBandwidth tg)) ∧
        ∀ v, v ≠ tg → reads g (s'.cfsBandwidth v) = reads g (s.cfsBandwidth v)) ∧
      (ret ≠ 0 → ret = -einval ∧
        ∀ v, reads g (s'.cfsBandwidth v) = reads g (s.cfsBandwidth v)) := by
    refine ⟨-einval,s,rfl,fun hz => ?_,fun _ => ⟨rfl,fun _ => rfl⟩⟩
    exact absurd hz (by decide)
  have husec : UInt64.ofInt us ≤ maxUsec →
      g.long.signed (UInt64.ofInt us * nsecPerUsec / nsecPerUsec).toNat = us ∧ 0 ≤ us := by
    intro hle
    obtain ⟨hval,hnonneg⟩ := usec_back hlong hle
    have hback : ((UInt64.ofInt us * nsecPerUsec / nsecPerUsec).toNat : Int) = us := by
      rw [usec_toNat,hval]
      omega
    rw [hback]
    exact ⟨hlong,hnonneg⟩
  rcases hop with rfl | rfl | rfl
  · unfold groupOp tgSetCfsQuota
    dsimp only
    split
    next hneg =>
      refine hset _ _ _ ?_
      have hmax : max us (-1) = -1 := by omega
      simp only [reads,written,tgGetCfsQuota,hmax,if_true]
      rfl
    next hneg =>
      split
      next hle =>
        obtain ⟨hread,hnonneg⟩ := husec hle
        refine hset _ _ _ ?_
        have hmax : max us (-1) = us := by omega
        have hfinite : UInt64.ofInt us * nsecPerUsec ≠ runtimeInf := by
          intro he
          have hval := congrArg UInt64.toNat he
          rw [(usec_back hlong hle).1] at hval
          change _ = 2 ^ 64 - 1 at hval
          omega
        simp only [reads,written,tgGetCfsQuota,hmax,if_neg hfinite,hread]
        rfl
      next => exact hrefuse
  · unfold groupOp tgSetCfsPeriod
    dsimp only
    split
    next => exact hrefuse
    next hle =>
      refine hset _ _ _ ?_
      have hread := (husec (UInt64.not_lt.mp hle)).1
      simp only [reads,written,tgGetCfsPeriod,hread]
      rfl
  · unfold groupOp tgSetCfsBurst
    dsimp only
    split
    next => exact hrefuse
    next hle =>
      refine hset _ _ _ ?_
      have hread := (husec (UInt64.not_lt.mp hle)).1
      simp only [reads,written,tgGetCfsBurst,hread]
      rfl

end Limits

section Nesting

/-- A machine with a `long` of 32 bits and the old hierarchy. -/
def oldBuild : GroupBuild := ⟨.ilp32,false⟩

def defaultPeriod : UInt64 := 100000000

/-- A group with half a CPU, and in it one with a fifth. -/
def nestedOps : List GroupOp :=
  let fresh : CfsBandwidth := ⟨defaultPeriod,runtimeInf,0,0⟩
  [.online 1 rootTaskGroup fresh,.setQuota 1 50000,.online 2 1 fresh,.setQuota 2 60000,
    .setQuota 2 20000]

def nestedGroups : TaskGroups :=
  (runGroups oldBuild nestedOps (groupsStart defaultPeriod)).getD (groupsStart defaultPeriod)

theorem nestedGroups_reach : RoomyReach oldBuild defaultPeriod nestedGroups := by
  have hsome : (runGroups oldBuild nestedOps (groupsStart defaultPeriod)).isSome = true := by
    decide +kernel
  obtain ⟨s,hs⟩ := Option.isSome_iff_exists.mp hsome
  rw [nestedGroups,hs]
  exact RoomyReach.init.runGroups hs

/-- The request for more than the group above has was refused. -/
example : (nestedGroups.cfsBandwidth 2).quota = 20000000 := by decide +kernel

theorem walk_visits_groups_nested :
    ∃ stops : List (Forest.Stop TgId), stops.Nodup ∧
      (∀ v, .enter v ∈ stops ∨ .leave v ∈ stops → v ∈ nestedGroups.groups) ∧
      (∀ v ∈ nestedGroups.groups, v = 1 ∨ nestedGroups.links.Above 1 v →
        [.enter v,.leave v].Sublist stops) ∧
      (∀ v, .enter v ∈ stops ∨ .leave v ∈ stops → v = 1 ∨ nestedGroups.links.Above 1 v) ∧
      (∀ a v, .enter a ∈ stops → v ∈ nestedGroups.groups → nestedGroups.links.Above a v →
        [.enter a,.enter v,.leave v,.leave a].Sublist stops) ∧
      ∀ (σ : Type) (down up : TgId → σ → Int × σ) (data : σ),
        walkTgTreeFrom nestedGroups.links nestedGroups.groups 1 down up data =
          some (Forest.perform down up stops data) :=
  walk_visits_groups nestedGroups_reach.groupReach (by decide +kernel)

theorem bandwidth_granted_iff_nested :
    ∃ ret s', tgSetCfsBandwidth oldBuild 2 defaultPeriod 60000000 0 nestedGroups =
        some (ret,s') ∧
      (ret = 0 ↔ 2 ≠ rootTaskGroup ∧ InRange defaultPeriod 60000000 0 ∧
        (oldBuild.onDfl = false →
          Hierarchy nestedGroups (asked nestedGroups 2 defaultPeriod 60000000))) ∧
      (ret = 0 → Granted nestedGroups 2 defaultPeriod 60000000 0 s') ∧
      (ret ≠ 0 → ret = -einval ∧ SameLimits nestedGroups s') :=
  bandwidth_granted_iff nestedGroups_reach (by decide +kernel) 2 0

theorem hierarchy_kept_nested :
    Hierarchy nestedGroups fun v => share (nestedGroups.cfsBandwidth v) :=
  hierarchy_kept nestedGroups_reach rfl

theorem limits_read_back_nested :
    ∃ ret s', groupOp oldBuild (.setQuota 2 30000) nestedGroups = some (ret,s') ∧
      (ret = 0 → reads oldBuild (s'.cfsBandwidth 2) =
          written (.setQuota 2 30000) (reads oldBuild (nestedGroups.cfsBandwidth 2)) ∧
        ∀ v, v ≠ 2 → reads oldBuild (s'.cfsBandwidth v) =
          reads oldBuild (nestedGroups.cfsBandwidth v)) ∧
      (ret ≠ 0 → ret = -einval ∧ ∀ v, reads oldBuild (s'.cfsBandwidth v) =
        reads oldBuild (nestedGroups.cfsBandwidth v)) :=
  limits_read_back nestedGroups_reach.groupReach
    (show oldBuild.long.signed 30000 = 30000 by decide) (.inl rfl)

end Nesting

end LotteryScheduler.Properties
