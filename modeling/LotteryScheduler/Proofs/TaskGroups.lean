import LotteryScheduler.Model.TaskGroups
import Mathlib.Order.Lattice
import Mathlib.Tactic.ByContra

namespace LotteryScheduler.Proofs
open Lib Model

/-- The share of a CPU that a limit grants, rounded down to units of `2 ^ -20`. -/
def shareOf (period quota : UInt64) : Option Nat :=
  if quota = runtimeInf then none
  else some (quota.toNat / 1000 * 2 ^ 20 / (period.toNat / 1000))

def share (b : CfsBandwidth) : Option Nat := shareOf b.period b.quota

/-- The arguments that `tg_set_cfs_bandwidth` does not refuse at sight. -/
structure InRange (period quota burst : UInt64) : Prop where
  quota_ge : 1000000 ≤ quota.toNat
  period_ge : 1000000 ≤ period.toNat
  period_le : period.toNat ≤ 1000000000
  quota_le : quota ≠ runtimeInf → quota.toNat ≤ (2 ^ 44 - 1) * 1000
  burst_le : quota ≠ runtimeInf → burst.toNat ≤ quota.toNat
  sum_le : quota ≠ runtimeInf → burst.toNat + quota.toNat ≤ (2 ^ 44 - 1) * 1000

/-- A share as `hierarchical_quota` has it. -/
def encode : Option Nat → Int
  | none => -1
  | some r => r

section Numbers
variable {l : LongModel} {period quota burst n : UInt64}

theorem toS64_inf : toS64 runtimeInf = -1 := by decide

theorem toS64_of_lt (h : n.toNat < 2 ^ 63) : toS64 n = n.toNat := by
  unfold toS64
  apply Int.bmod_eq_of_le
  · omega
  · omega

theorem ofInt_toNat (n : UInt64) : UInt64.ofInt n.toNat = n := by
  apply UInt64.toNat_inj.mp
  have hlt := n.toNat_lt
  simp only [UInt64.ofInt,UInt64.toNat_ofNat']
  omega

theorem LongModel.signed_of_lt (h : n.toNat < 2 ^ (l.bits - 1)) : l.signed n.toNat = n.toNat := by
  unfold Model.LongModel.signed
  cases l with
  | ilp32 =>
    change n.toNat < 2 ^ 31 at h
    apply Int.bmod_eq_of_le
    · simp only [Model.LongModel.bits]
      omega
    · simp only [Model.LongModel.bits]
      omega
  | lp64 =>
    change n.toNat < 2 ^ 63 at h
    apply Int.bmod_eq_of_le
    · simp only [Model.LongModel.bits]
      omega
    · simp only [Model.LongModel.bits]
      omega

theorem LongModel.unsigned_of_lt (h : n.toNat < 2 ^ l.bits) : l.unsigned n = n := by
  unfold Model.LongModel.unsigned
  rw [Nat.mod_eq_of_lt h]
  simp

theorem usec_toNat (n : UInt64) : (n / nsecPerUsec).toNat = n.toNat / 1000 := UInt64.toNat_div ..

theorem usec_ne_inf (n : UInt64) : n / nsecPerUsec ≠ runtimeInf := by
  intro he
  have hval := congrArg UInt64.toNat he
  rw [usec_toNat] at hval
  change n.toNat / 1000 = 2 ^ 64 - 1 at hval
  have hlt := n.toNat_lt
  omega

end Numbers

section Ratios
variable {g : GroupBuild} {b : CfsBandwidth} {period quota burst : UInt64} {v tg : TgId}

/-- The limit of a group is one that was accepted, and that a `long` has room for. -/
def Sound (l : LongModel) (b : CfsBandwidth) : Prop :=
  b.quota ≠ runtimeInf → InRange b.period b.quota b.burst ∧ l.Fits b.period b.quota

/-- The request in microseconds that `__cfs_schedulable` passes on. -/
def requestData (tg : TgId) (period quota : UInt64) : CfsSchedulableData :=
  if quota ≠ runtimeInf then ⟨tg,period / nsecPerUsec,quota / nsecPerUsec⟩
  else ⟨tg,period,quota⟩

theorem requestData_tg (tg : TgId) (period quota : UInt64) :
    (requestData tg period quota).tg = tg := by
  unfold requestData
  split <;> rfl

/-- The ratio of an accepted limit neither overflows nor is cut. -/
theorem toRatio_usec (hr : InRange period quota burst) (hf : g.long.Fits period quota)
    (hq : quota ≠ runtimeInf) :
    toS64 (toRatio g (period / nsecPerUsec) (quota / nsecPerUsec)) =
      encode (shareOf period quota) := by
  have hquota := hr.quota_le hq
  have hge := hr.period_ge
  have hus : quota.toNat / 1000 ≤ 2 ^ 44 - 1 := Nat.div_le_of_le_mul (by omega)
  have hperiod : 1000 ≤ period.toNat / 1000 := (Nat.le_div_iff_mul_le (by omega)).mpr (by omega)
  have hpos : period / nsecPerUsec ≠ 0 := by
    intro he
    have hval := congrArg UInt64.toNat he
    rw [usec_toNat] at hval
    change period.toNat / 1000 = 0 at hval
    omega
  have hval : (((quota / nsecPerUsec) <<< bwShift) / (period / nsecPerUsec)).toNat =
      quota.toNat / 1000 * 2 ^ 20 / (period.toNat / 1000) := by
    rw [UInt64.toNat_div,UInt64.toNat_shiftLeft,usec_toNat,usec_toNat]
    change (quota.toNat / 1000) <<< 20 % 2 ^ 64 / _ = _
    rw [Nat.shiftLeft_eq,Nat.mod_eq_of_lt (by omega)]
  have hlt : quota.toNat / 1000 * 2 ^ 20 / (period.toNat / 1000) < 2 ^ 63 := by
    rw [Nat.div_lt_iff_lt_mul (by omega)]
    calc quota.toNat / 1000 * 2 ^ 20 < 2 ^ 63 * 1000 := by omega
      _ ≤ 2 ^ 63 * (period.toNat / 1000) := Nat.mul_le_mul_left _ hperiod
  have hfits : (((quota / nsecPerUsec) <<< bwShift) / (period / nsecPerUsec)).toNat <
      2 ^ g.long.bits := by
    rw [hval]
    cases hl : g.long with
    | lp64 => exact hlt.trans (by decide)
    | ilp32 =>
      rcases hf with he | he | he
      · rw [hl] at he
        cases he
      · exact absurd he hq
      · exact he.2
  unfold toRatio
  rw [if_neg (usec_ne_inf quota),if_neg hpos,LongModel.unsigned_of_lt hfits,
    toS64_of_lt (by rw [hval]; exact hlt),hval,shareOf,if_neg hq]
  rfl

theorem normalize_self (hr : InRange period quota burst) (hf : g.long.Fits period quota) :
    toS64 (normalizeCfsQuota g (requestData tg period quota) tg b) =
      encode (shareOf period quota) := by
  unfold normalizeCfsQuota
  simp only [requestData_tg,if_true]
  by_cases hq : quota = runtimeInf
  · have hdata : requestData tg period quota = ⟨tg,period,quota⟩ := if_neg (not_not.mpr hq)
    rw [hdata,if_pos (.inl hq),toS64_inf,shareOf,if_pos hq]
    rfl
  · have hdata : requestData tg period quota =
        ⟨tg,period / nsecPerUsec,quota / nsecPerUsec⟩ := if_pos hq
    have hnot : ¬(quota / nsecPerUsec = runtimeInf ∨ quota / nsecPerUsec = .ofInt (-1)) := by
      rintro (he | he)
      · exact usec_ne_inf quota he
      · exact usec_ne_inf quota he
    rw [hdata,if_neg hnot]
    exact toRatio_usec hr hf hq

theorem normalize_other (hs : Sound g.long b) (hne : v ≠ tg) :
    toS64 (normalizeCfsQuota g (requestData tg period quota) v b) = encode (share b) := by
  have hother : v ≠ (requestData tg period quota).tg := by
    rw [requestData_tg]
    exact hne
  unfold normalizeCfsQuota tgGetCfsQuota tgGetCfsPeriod
  simp only [if_neg hother]
  by_cases hq : b.quota = runtimeInf
  · rw [if_pos hq,if_pos (.inr rfl),toS64_inf,share,shareOf,if_pos hq]
    rfl
  · obtain ⟨hr,hf⟩ := hs hq
    have hquota := hr.quota_le hq
    have hle := hr.period_le
    have hsigned : g.long.signed (b.quota / nsecPerUsec).toNat = (b.quota / nsecPerUsec).toNat := by
      apply LongModel.signed_of_lt
      rw [usec_toNat]
      cases hl : g.long with
      | lp64 => exact Nat.div_lt_of_lt_mul (by simp only [Model.LongModel.bits]; omega)
      | ilp32 =>
        rcases hf with he | he | he
        · rw [hl] at he
          cases he
        · exact absurd he hq
        · exact he.1
    have hperiod : g.long.signed (b.period / nsecPerUsec).toNat =
        (b.period / nsecPerUsec).toNat := by
      apply LongModel.signed_of_lt
      rw [usec_toNat]
      cases g.long with
      | lp64 => exact Nat.div_lt_of_lt_mul (by simp only [Model.LongModel.bits]; omega)
      | ilp32 => exact Nat.div_lt_of_lt_mul (by simp only [Model.LongModel.bits]; omega)
    have hnot : ¬(b.quota / nsecPerUsec = runtimeInf ∨ b.quota / nsecPerUsec = .ofInt (-1)) := by
      rintro (he | he)
      · exact usec_ne_inf b.quota he
      · exact usec_ne_inf b.quota he
    rw [if_neg hq,hsigned,hperiod,ofInt_toNat,ofInt_toNat,if_neg hnot]
    exact toRatio_usec hr hf hq

end Ratios

section Checks
variable {g : GroupBuild} {d : CfsSchedulableData} {s s' t : TaskGroups} {f : Forest TgId}
variable {v p tg : TgId} {limit : TgId → Option Nat} {q : Option Nat}

/-- Nothing but hierarchical quotas has changed. -/
structure SameLimits (s s' : TaskGroups) : Prop where
  groups : s'.groups = s.groups
  links : s'.links = s.links
  limits : ∀ v, ((s'.cfsBandwidth v).period,(s'.cfsBandwidth v).quota,(s'.cfsBandwidth v).burst) =
    ((s.cfsBandwidth v).period,(s.cfsBandwidth v).quota,(s.cfsBandwidth v).burst)

theorem SameLimits.refl (s : TaskGroups) : SameLimits s s := ⟨rfl,rfl,fun _ => rfl⟩

theorem SameLimits.trans (h : SameLimits s t) (h' : SameLimits t s') : SameLimits s s' :=
  ⟨h'.groups.trans h.groups,h'.links.trans h.links,fun v => (h'.limits v).trans (h.limits v)⟩

theorem setHierarchicalQuota_same (s : TaskGroups) (v : TgId) (n : Int) :
    SameLimits s (s.setHierarchicalQuota v n) := by
  refine ⟨rfl,rfl,fun x => ?_⟩
  rcases eq_or_ne x v with rfl | hx
  · simp [TaskGroups.setHierarchicalQuota]
  · simp [TaskGroups.setHierarchicalQuota,hx]

theorem normalize_congr (h : SameLimits s s') (v : TgId) :
    normalizeCfsQuota g d v (s'.cfsBandwidth v) = normalizeCfsQuota g d v (s.cfsBandwidth v) := by
  have hv := h.limits v
  simp only [Prod.mk.injEq] at hv
  unfold normalizeCfsQuota tgGetCfsQuota tgGetCfsPeriod
  rw [hv.1,hv.2.1]

/-- What the check of a group comes to on the old hierarchy, given the limit that is in force
above it. -/
theorem down_legacy (hv1 : g.onDfl = false) (hp : s.links.parent v = some p)
    (hq : (s.cfsBandwidth p).hierarchicalQuota = encode q)
    (hl : toS64 (normalizeCfsQuota g d v (s.cfsBandwidth v)) = encode (limit v)) :
    tgCfsSchedulableDown g d v s =
      if ∀ r ∈ limit v, ∀ b ∈ q, r ≤ b then
        (0,s.setHierarchicalQuota v (encode (limit v <|> q)))
      else (-einval,s) := by
  unfold tgCfsSchedulableDown
  simp only [hp,hl,hq,hv1,toS64_inf,Bool.false_eq_true,if_false]
  cases limit v with
  | none => simp [encode]
  | some r =>
    have hr : (r : Int) ≠ -1 := by omega
    cases q with
    | none => simp [encode,hr]
    | some b =>
      have hb : (b : Int) ≠ -1 := by omega
      simp only [encode,hr,hb,Option.mem_some_iff,forall_eq',if_false,ne_eq,not_false_eq_true,
        true_and]
      by_cases hle : r ≤ b
      · rw [if_neg (by omega),if_pos hle]
        rfl
      · rw [if_pos (by omega),if_neg hle]

theorem down_same (v : TgId) (s : TaskGroups) :
    SameLimits s (tgCfsSchedulableDown g d v s).2 := by
  unfold tgCfsSchedulableDown
  split
  · exact setHierarchicalQuota_same ..
  · dsimp only
    split
    · exact setHierarchicalQuota_same ..
    · split
      · exact setHierarchicalQuota_same ..
      · split
        · exact .refl s
        · exact setHierarchicalQuota_same ..

theorem down_result (v : TgId) (s : TaskGroups) :
    (tgCfsSchedulableDown g d v s).1 = 0 ∨ (tgCfsSchedulableDown g d v s).1 = -einval := by
  unfold tgCfsSchedulableDown
  split
  · exact .inl rfl
  · dsimp only
    split
    · exact .inl rfl
    · split
      · exact .inl rfl
      · split
        · exact .inr rfl
        · exact .inl rfl

/-- Whatever the limits are, the walk passes or refuses, and changes hierarchical quotas at most. -/
theorem visit_outcome : ((f.visit (tgCfsSchedulableDown g d) tgNop s).1 = 0 ∨
      (f.visit (tgCfsSchedulableDown g d) tgNop s).1 = -einval) ∧
    SameLimits s (f.visit (tgCfsSchedulableDown g d) tgNop s).2 := by
  induction f generalizing s with
  | nil => exact ⟨.inl rfl,.refl s⟩
  | cons v below beside ihb ihs =>
    have hdown := down_result (g := g) (d := d) v s
    have hsame : SameLimits s (tgCfsSchedulableDown g d v s).2 := down_same v s
    rw [Forest.visit,Forest.andThen]
    split
    · exact ⟨hdown,hsame⟩
    obtain ⟨hb,hsb⟩ := ihb (s := (tgCfsSchedulableDown g d v s).2)
    rw [Forest.andThen]
    split
    · exact ⟨hb,hsame.trans hsb⟩
    obtain ⟨hs,hss⟩ := ihs (s := (below.visit (tgCfsSchedulableDown g d) tgNop
      (tgCfsSchedulableDown g d v s).2).2)
    exact ⟨hs,(hsame.trans hsb).trans hss⟩

/-- The result of a check below a group, and what it leaves alone. -/
structure Checked (s : TaskGroups) (f : Forest TgId) (passes : Prop) (r : Int × TaskGroups) :
    Prop where
  passed : passes → r.1 = 0
  refused : ¬passes → r.1 = -einval
  same : SameLimits s r.2
  other : ∀ x ∉ f.nodes, r.2.cfsBandwidth x = s.cfsBandwidth x

theorem Checked.zero {P : Prop} {r : Int × TaskGroups} (h : Checked s f P r) : r.1 = 0 ↔ P := by
  constructor
  · intro hz
    by_contra hn
    rw [h.refused hn] at hz
    cases hz
  · exact h.passed

/-- On the old hierarchy the walk finds out whether the limits are bounded. -/
theorem visit_legacy (hv1 : g.onDfl = false) (h : f.Holds s.links p) (hn : (p :: f.nodes).Nodup)
    (hq : (s.cfsBandwidth p).hierarchicalQuota = encode q)
    (hl : ∀ v ∈ f.nodes, toS64 (normalizeCfsQuota g d v (s.cfsBandwidth v)) = encode (limit v)) :
    Checked s f (f.Bounded limit q) (f.visit (tgCfsSchedulableDown g d) tgNop s) := by
  induction f generalizing p q s with
  | nil => exact ⟨fun _ => rfl,fun hf => absurd trivial hf,.refl s,fun _ _ => rfl⟩
  | cons v below beside ihb ihs =>
    obtain ⟨hp,-,hbelow,hbeside⟩ := h
    simp only [Forest.nodes,List.nodup_cons,List.mem_cons,List.mem_append,not_or,
      List.nodup_append] at hn
    obtain ⟨⟨hpv,hpb,hps⟩,⟨hvb,hvs⟩,hnb,hns,hapart⟩ := hn
    simp only [Forest.nodes,List.mem_cons,List.mem_append] at hl
    rw [Forest.visit,Forest.Bounded,down_legacy hv1 hp hq (hl v (.inl rfl)),Forest.andThen]
    by_cases hpass : ∀ r ∈ limit v, ∀ b ∈ q, r ≤ b
    · rw [if_pos hpass,if_neg (by simp),Forest.andThen]
      let s₁ := s.setHierarchicalQuota v (encode (limit v <|> q))
      have hsame : SameLimits s s₁ := setHierarchicalQuota_same ..
      have hset : (s₁.cfsBandwidth v).hierarchicalQuota = encode (limit v <|> q) := by
        simp only [s₁,TaskGroups.setHierarchicalQuota,Function.update_self]
      have hfirst := ihb (s := s₁) hbelow (List.nodup_cons.mpr ⟨hvb,hnb⟩) hset
        fun x hx => (congrArg _ (normalize_congr hsame x)).trans (hl x (.inr (.inl hx)))
      generalize below.visit (tgCfsSchedulableDown g d) tgNop s₁ = r at hfirst
      have hother : ∀ x, x ≠ v → x ∉ below.nodes → r.2.cfsBandwidth x = s.cfsBandwidth x :=
        fun x hx hb => (hfirst.other x hb).trans (Function.update_of_ne hx ..)
      by_cases hz : r.1 = 0
      · have hbounded := hfirst.zero.mp hz
        have hmid := hsame.trans hfirst.same
        have hlast := ihs (s := r.2) (p := p) (q := q) (by rw [hmid.links]; exact hbeside)
          (List.nodup_cons.mpr ⟨hps,hns⟩) (by rw [hother p hpv hpb]; exact hq)
          fun x hx => (congrArg _ (normalize_congr hmid x)).trans (hl x (.inr (.inr hx)))
        rw [if_neg (not_not.mpr hz)]
        change Checked s _ _ (beside.visit (tgCfsSchedulableDown g d) tgNop r.2)
        refine ⟨fun hall => hlast.passed hall.2.2,fun hno => hlast.refused fun hs => ?_,
          hmid.trans hlast.same,fun x hx => ?_⟩
        · exact hno ⟨hpass,hbounded,hs⟩
        · simp only [Forest.nodes,List.mem_cons,List.mem_append,not_or] at hx
          rw [hlast.other x hx.2.2,hother x hx.1 hx.2.1]
      · have hno := mt hfirst.passed hz
        rw [if_pos hz]
        refine ⟨fun hall => absurd hall.2.1 hno,fun _ => hfirst.refused hno,
          hsame.trans hfirst.same,fun x hx => ?_⟩
        simp only [Forest.nodes,List.mem_cons,List.mem_append,not_or] at hx
        exact hother x hx.1 hx.2.1
    · rw [if_neg hpass,if_pos (show -einval ≠ 0 by decide)]
      exact ⟨fun hall => absurd hall.1 hpass,fun _ => rfl,.refl s,fun _ _ => rfl⟩

/-- On the default hierarchy nothing is refused. -/
theorem down_default (hv2 : g.onDfl = true) (v : TgId) (s : TaskGroups) :
    (tgCfsSchedulableDown g d v s).1 = 0 := by
  unfold tgCfsSchedulableDown
  split
  · rfl
  · simp [hv2]

theorem visit_default (hv2 : g.onDfl = true) :
    (f.visit (tgCfsSchedulableDown g d) tgNop s).1 = 0 := by
  induction f generalizing s with
  | nil => rfl
  | cons v below beside ihb ihs =>
    rw [Forest.visit,Forest.andThen,if_neg (not_not.mpr (down_default hv2 v s)),Forest.andThen,
      if_neg (not_not.mpr ihb)]
    exact ihs

end Checks

section Requests
variable {g : GroupBuild} {s s' : TaskGroups} {tg : TgId} {period quota burst : UInt64}

theorem inRange_iff : InRange period quota burst ↔
    ¬(quota < minCfsQuotaPeriod ∨ period < minCfsQuotaPeriod) ∧ ¬period > maxCfsQuotaPeriod ∧
      ¬(quota ≠ runtimeInf ∧ quota > maxCfsRuntime) ∧
      ¬(quota ≠ runtimeInf ∧ (burst > quota ∨ burst + quota > maxCfsRuntime)) := by
  have hmin : minCfsQuotaPeriod.toNat = 1000000 := rfl
  have hmax : maxCfsQuotaPeriod.toNat = 1000000000 := rfl
  have hrun : maxCfsRuntime.toNat = (2 ^ 44 - 1) * 1000 := rfl
  simp only [GT.gt,UInt64.lt_iff_toNat_lt,UInt64.toNat_add,hmin,hmax,hrun,not_or,not_and,Nat.not_lt]
  constructor
  · intro h
    refine ⟨⟨h.quota_ge,h.period_ge⟩,h.period_le,h.quota_le,fun hq => ⟨h.burst_le hq,?_⟩⟩
    exact (Nat.mod_le ..).trans (h.sum_le hq)
  · rintro ⟨⟨hq,hp⟩,hle,hquota,hburst⟩
    refine ⟨hq,hp,hle,hquota,fun hn => (hburst hn).1,fun hn => ?_⟩
    obtain ⟨hb,hsum⟩ := hburst hn
    have hno := hquota hn
    rw [Nat.mod_eq_of_lt (by omega)] at hsum
    exact hsum

/-- No group has more than any group above it. -/
def Hierarchy (s : TaskGroups) (limit : TgId → Option Nat) : Prop :=
  ∀ a ∈ s.groups, ∀ v ∈ s.groups, s.links.Above a v → ∀ r ∈ limit v, ∀ b ∈ limit a, r ≤ b

/-- The shares of the groups with the one that a request asks for. -/
def asked (s : TaskGroups) (tg : TgId) (period quota : UInt64) (v : TgId) : Option Nat :=
  if v = tg then shareOf period quota else share (s.cfsBandwidth v)

/-- The groups are a tree. -/
structure Treed (s : TaskGroups) : Prop where
  tree : ∃ f, Rooted s.links rootTaskGroup f ∧ s.groups.Perm (rootTaskGroup :: f.nodes)
  top : s.links.parent rootTaskGroup = none

/-- Their limits were accepted besides. -/
structure Grouped (g : GroupBuild) (s : TaskGroups) : Prop extends Treed s where
  unlimited : (s.cfsBandwidth rootTaskGroup).quota = runtimeInf
  sound : ∀ v ∈ s.groups, Sound g.long (s.cfsBandwidth v)
  within : g.onDfl = false → Hierarchy s fun v => share (s.cfsBandwidth v)

theorem within_iff {limit : TgId → Option Nat} {f : Forest TgId}
    (h : Rooted s.links rootTaskGroup f) (hperm : s.groups.Perm (rootTaskGroup :: f.nodes))
    (htop : s.links.parent rootTaskGroup = none) (hroot : limit rootTaskGroup = none) :
    Hierarchy s limit ↔ f.Bounded limit none := by
  rw [h.bounded_iff htop]
  constructor
  · intro hall a ha v hv
    exact hall a (hperm.mem_iff.mpr (List.mem_cons_of_mem _ ha)) v
      (hperm.mem_iff.mpr (List.mem_cons_of_mem _ hv))
  · intro hall a ha v hv habove r hr b hb
    rcases List.mem_cons.mp (hperm.mem_iff.mp ha) with rfl | ha
    · cases hroot.symm.trans hb
    · rcases List.mem_cons.mp (hperm.mem_iff.mp hv) with rfl | hv
      · cases hroot.symm.trans hr
      · exact hall a ha v hv habove r hr b hb

/-- The check of a request is a visit of all groups below the root. -/
theorem cfsSchedulable_visit {f : Forest TgId} (h : Rooted s.links rootTaskGroup f)
    (hperm : s.groups.Perm (rootTaskGroup :: f.nodes)) (htop : s.links.parent rootTaskGroup = none) :
    cfsSchedulable g tg period quota s =
      some (f.visit (tgCfsSchedulableDown g (requestData tg period quota)) tgNop
        (s.setHierarchicalQuota rootTaskGroup (encode none))) := by
  have hdata : cfsSchedulable g tg period quota s =
      walkTgTree s.links s.groups (tgCfsSchedulableDown g (requestData tg period quota)) tgNop s :=
    rfl
  have hfuel : 3 * s.groups.length = 3 * f.nodes.length + 2 + 1 := by
    rw [hperm.length_eq,List.length_cons]
    omega
  have hroot : tgCfsSchedulableDown g (requestData tg period quota) rootTaskGroup s =
      (0,s.setHierarchicalQuota rootTaskGroup (encode none)) := by
    unfold tgCfsSchedulableDown
    rw [htop,toS64_inf]
    rfl
  rw [hdata,walkTgTree,walkTgTreeFrom,hfuel,walk_rooted h,hroot]
  exact congrArg some (Forest.andThen_nop _)

/-- The walk over all groups ends. -/
theorem cfsSchedulable_ends (h : Treed s) (tg : TgId) (period quota : UInt64) :
    ∃ ret s', cfsSchedulable g tg period quota s = some (ret,s') ∧ SameLimits s s' ∧
      (ret = 0 ∨ ret = -einval) := by
  obtain ⟨f,hrooted,hperm⟩ := h.tree
  obtain ⟨hret,hsame⟩ := visit_outcome (g := g) (d := requestData tg period quota) (f := f)
    (s := s.setHierarchicalQuota rootTaskGroup (encode none))
  exact ⟨_,_,cfsSchedulable_visit hrooted hperm h.top,
    (setHierarchicalQuota_same ..).trans hsame,hret⟩

/-- On the old hierarchy it refuses what would exceed a limit. -/
theorem cfsSchedulable_zero (h : Grouped g s) (hne : tg ≠ rootTaskGroup)
    (hr : InRange period quota burst) (hf : g.long.Fits period quota)
    (hrun : cfsSchedulable g tg period quota s = some (ret,s')) :
    ret = 0 ↔ (g.onDfl = false → Hierarchy s (asked s tg period quota)) := by
  obtain ⟨f,hrooted,hperm⟩ := h.tree
  rw [cfsSchedulable_visit hrooted hperm h.top] at hrun
  let d := requestData tg period quota
  let s₁ := s.setHierarchicalQuota rootTaskGroup (encode none)
  have hret : (f.visit (tgCfsSchedulableDown g d) tgNop s₁).1 = ret :=
    congrArg Prod.fst (Option.some.inj hrun)
  rw [← hret]
  have hsame : SameLimits s s₁ := setHierarchicalQuota_same ..
  cases hdfl : g.onDfl with
  | true => exact ⟨fun _ => nofun,fun _ => visit_default hdfl⟩
  | false =>
    have htgs : ∀ v ∈ f.nodes, v ∈ s.groups :=
      fun v hv => hperm.mem_iff.mpr (List.mem_cons_of_mem _ hv)
    have hlimits : ∀ v ∈ f.nodes, toS64 (normalizeCfsQuota g d v (s₁.cfsBandwidth v)) =
        encode (asked s tg period quota v) := by
      intro v hv
      rw [normalize_congr hsame,asked]
      by_cases he : v = tg
      · rw [if_pos he,he]
        exact normalize_self hr hf
      · rw [if_neg he]
        exact normalize_other (h.sound v (htgs v hv)) he
    have hset : (s₁.cfsBandwidth rootTaskGroup).hierarchicalQuota = encode none := by
      simp only [s₁,TaskGroups.setHierarchicalQuota,Function.update_self]
    have hchecked := visit_legacy hdfl (s := s₁) hrooted.holds hrooted.nodup hset hlimits
    have hnone : asked s tg period quota rootTaskGroup = none := by
      rw [asked,if_neg (Ne.symm hne),share,shareOf,if_pos h.unlimited]
    rw [hchecked.zero,← within_iff hrooted hperm h.top hnone]
    exact ⟨fun hw _ => hw,fun hw => hw rfl⟩

/-- What the limits of `s` are after the request in `s'`. -/
structure Granted (s : TaskGroups) (tg : TgId) (period quota burst : UInt64) (s' : TaskGroups) :
    Prop where
  groups : s'.groups = s.groups
  links : s'.links = s.links
  self : (s'.cfsBandwidth tg).period = period ∧ (s'.cfsBandwidth tg).quota = quota ∧
    (s'.cfsBandwidth tg).burst = burst
  other : ∀ v, v ≠ tg → (s'.cfsBandwidth v).period = (s.cfsBandwidth v).period ∧
    (s'.cfsBandwidth v).quota = (s.cfsBandwidth v).quota ∧
    (s'.cfsBandwidth v).burst = (s.cfsBandwidth v).burst

/-- A request that is not refused at sight goes by the check. -/
theorem tgSetCfsBandwidth_checked (hne : tg ≠ rootTaskGroup) (hr : InRange period quota burst)
    (hcheck : cfsSchedulable g tg period quota s = some (ret,t)) :
    tgSetCfsBandwidth g tg period quota burst s =
      if ret ≠ 0 then some (ret,t)
      else some (0,{ t with
        cfsBandwidth := Function.update t.cfsBandwidth tg
          { t.cfsBandwidth tg with period, quota, burst } }) := by
  obtain ⟨h1,h2,h3,h4⟩ := inRange_iff.mp hr
  unfold tgSetCfsBandwidth
  rw [if_neg hne,if_neg h1,if_neg h2,if_neg h3,if_neg h4,hcheck]
  rfl

theorem tgSetCfsBandwidth_barred (hno : ¬(tg ≠ rootTaskGroup ∧ InRange period quota burst)) :
    tgSetCfsBandwidth g tg period quota burst s = some (-einval,s) := by
  unfold tgSetCfsBandwidth
  by_cases hroot : tg = rootTaskGroup
  · rw [if_pos hroot]
  have hr : ¬InRange period quota burst := fun hr => hno ⟨hroot,hr⟩
  rw [inRange_iff] at hr
  rw [if_neg hroot]
  by_cases h1 : quota < minCfsQuotaPeriod ∨ period < minCfsQuotaPeriod
  · rw [if_pos h1]
  by_cases h2 : period > maxCfsQuotaPeriod
  · rw [if_neg h1,if_pos h2]
  by_cases h3 : quota ≠ runtimeInf ∧ quota > maxCfsRuntime
  · rw [if_neg h1,if_neg h2,if_pos h3]
  by_cases h4 : quota ≠ runtimeInf ∧ (burst > quota ∨ burst + quota > maxCfsRuntime)
  · rw [if_neg h1,if_neg h2,if_neg h3,if_pos h4]
  exact absurd ⟨h1,h2,h3,h4⟩ hr

/-- A request ends: it is granted, or refused without a trace in any limit. -/
theorem tgSetCfsBandwidth_ends (h : Treed s) (tg : TgId) (period quota burst : UInt64) :
    ∃ ret s', tgSetCfsBandwidth g tg period quota burst s = some (ret,s') ∧
      (ret = 0 → Granted s tg period quota burst s') ∧
      (ret ≠ 0 → ret = -einval ∧ SameLimits s s') := by
  by_cases hsight : tg ≠ rootTaskGroup ∧ InRange period quota burst
  · obtain ⟨ret,t,hcheck,hsame,hret⟩ := cfsSchedulable_ends (g := g) h tg period quota
    rw [tgSetCfsBandwidth_checked hsight.1 hsight.2 hcheck]
    by_cases hz : ret = 0
    · rw [if_neg (not_not.mpr hz)]
      refine ⟨_,_,rfl,fun _ => ?_,fun hn => absurd rfl hn⟩
      refine ⟨hsame.groups,hsame.links,by simp,fun v hv => ?_⟩
      have hold := hsame.limits v
      simp only [Prod.mk.injEq] at hold
      simp only [Function.update_of_ne hv]
      exact hold
    · rw [if_pos hz]
      exact ⟨_,_,rfl,fun he => absurd he hz,fun _ => ⟨hret.resolve_left hz,hsame⟩⟩
  · rw [tgSetCfsBandwidth_barred hsight]
    exact ⟨_,_,rfl,fun he => absurd he (by decide),fun _ => ⟨rfl,.refl s⟩⟩

/-- It is granted exactly when it is in range and keeps the hierarchy. -/
theorem tgSetCfsBandwidth_zero (h : Grouped g s) (hf : g.long.Fits period quota)
    (hrun : tgSetCfsBandwidth g tg period quota burst s = some (ret,s')) :
    ret = 0 ↔ tg ≠ rootTaskGroup ∧ InRange period quota burst ∧
      (g.onDfl = false → Hierarchy s (asked s tg period quota)) := by
  by_cases hsight : tg ≠ rootTaskGroup ∧ InRange period quota burst
  · obtain ⟨checked,t,hcheck,-,-⟩ := cfsSchedulable_ends (g := g) h.toTreed tg period quota
    have hzero := cfsSchedulable_zero h hsight.1 hsight.2 hf hcheck
    have hsame : ret = checked := by
      rw [tgSetCfsBandwidth_checked hsight.1 hsight.2 hcheck] at hrun
      split at hrun
      next => exact (congrArg Prod.fst (Option.some.inj hrun)).symm
      next hz => exact (congrArg Prod.fst (Option.some.inj hrun)).symm.trans (not_not.mp hz).symm
    rw [hsame,hzero]
    exact ⟨fun hw => ⟨hsight.1,hsight.2,hw⟩,fun hall => hall.2.2⟩
  · rw [tgSetCfsBandwidth_barred hsight] at hrun
    cases hrun
    exact ⟨fun he => absurd he (by decide),fun hall => absurd ⟨hall.1,hall.2.1⟩ hsight⟩

theorem share_congr {b b' : CfsBandwidth} (hp : b'.period = b.period) (hq : b'.quota = b.quota) :
    share b' = share b := by
  unfold share
  rw [hp,hq]

theorem sound_congr {l : LongModel} {b b' : CfsBandwidth} (hp : b'.period = b.period)
    (hq : b'.quota = b.quota) (hb : b'.burst = b.burst) (h : Sound l b) : Sound l b' := by
  unfold Sound at h ⊢
  rw [hp,hq,hb]
  exact h

theorem Treed.congr (h : Treed s) (hg : s'.groups = s.groups) (hl : s'.links = s.links) :
    Treed s' := by
  obtain ⟨f,hrooted,hperm⟩ := h.tree
  refine ⟨⟨f,?_,?_⟩,?_⟩
  · rw [hl]
    exact hrooted
  · rw [hg]
    exact hperm
  · rw [hl]
    exact h.top

theorem Grouped.same (h : Grouped g s) (hs : SameLimits s s') : Grouped g s' := by
  have hfields : ∀ v, (s'.cfsBandwidth v).period = (s.cfsBandwidth v).period ∧
      (s'.cfsBandwidth v).quota = (s.cfsBandwidth v).quota ∧
      (s'.cfsBandwidth v).burst = (s.cfsBandwidth v).burst := by
    intro v
    have hv := hs.limits v
    simp only [Prod.mk.injEq] at hv
    exact hv
  have hshare : (fun v => share (s'.cfsBandwidth v)) = fun v => share (s.cfsBandwidth v) :=
    funext fun v => share_congr (hfields v).1 (hfields v).2.1
  refine ⟨h.toTreed.congr hs.groups hs.links,?_,fun v hv => ?_,fun hv1 => ?_⟩
  · exact (hfields _).2.1.trans h.unlimited
  · obtain ⟨hp,hq,hb⟩ := hfields v
    exact sound_congr hp hq hb (h.sound v (hs.groups ▸ hv))
  · have hw := h.within hv1
    unfold Hierarchy at hw ⊢
    rw [hs.groups,hs.links,hshare]
    exact hw

theorem Grouped.granted (h : Grouped g s) (hne : tg ≠ rootTaskGroup)
    (hr : InRange period quota burst) (hf : g.long.Fits period quota)
    (hw : g.onDfl = false → Hierarchy s (asked s tg period quota))
    (hs : Granted s tg period quota burst s') : Grouped g s' := by
  obtain ⟨hp,hq,hb⟩ := hs.self
  have hshare : (fun v => share (s'.cfsBandwidth v)) = asked s tg period quota := by
    funext v
    unfold asked
    by_cases he : v = tg
    · rw [if_pos he,he,share,hp,hq]
    · rw [if_neg he]
      exact share_congr (hs.other v he).1 (hs.other v he).2.1
  refine ⟨h.toTreed.congr hs.groups hs.links,?_,fun v hv => ?_,fun hv1 => ?_⟩
  · exact (hs.other _ (Ne.symm hne)).2.1.trans h.unlimited
  · by_cases he : v = tg
    · subst he
      intro _
      rw [hp,hq,hb]
      exact ⟨hr,hf⟩
    · obtain ⟨hp,hq,hb⟩ := hs.other v he
      exact sound_congr hp hq hb (h.sound v (hs.groups ▸ hv))
  · have hall := hw hv1
    unfold Hierarchy at hall ⊢
    rw [hs.groups,hs.links,hshare]
    exact hall

theorem Treed.setBandwidth (h : Treed s) :
    ∃ ret s', tgSetCfsBandwidth g tg period quota burst s = some (ret,s') ∧ Treed s' := by
  obtain ⟨ret,s',hrun,hgranted,hrefused⟩ := tgSetCfsBandwidth_ends (g := g) h tg period quota burst
  refine ⟨ret,s',hrun,?_⟩
  by_cases hz : ret = 0
  · exact h.congr (hgranted hz).groups (hgranted hz).links
  · exact h.congr (hrefused hz).2.groups (hrefused hz).2.links

theorem Grouped.setBandwidth (h : Grouped g s) (hf : g.long.Fits period quota) :
    ∃ ret s', tgSetCfsBandwidth g tg period quota burst s = some (ret,s') ∧ Grouped g s' := by
  obtain ⟨ret,s',hrun,hgranted,hrefused⟩ :=
    tgSetCfsBandwidth_ends (g := g) h.toTreed tg period quota burst
  refine ⟨ret,s',hrun,?_⟩
  by_cases hz : ret = 0
  · obtain ⟨hne,hr,hw⟩ := (tgSetCfsBandwidth_zero h hf hrun).mp hz
    exact h.granted hne hr hf hw (hgranted hz)
  · exact h.same (hrefused hz).2

end Requests

section Runs
variable {g : GroupBuild} {s s' : TaskGroups} {tg parent : TgId} {fresh : CfsBandwidth}
variable {op : GroupOp} {period quota : UInt64}

theorem Treed.online (h : Treed s) (hnew : tg ∉ s.groups) (hp : parent ∈ s.groups)
    (fresh : CfsBandwidth) : Treed (schedOnlineGroup tg parent fresh s) := by
  obtain ⟨f,hrooted,hperm⟩ := h.tree
  have hout : tg ∉ rootTaskGroup :: f.nodes := fun hm => hnew (hperm.mem_iff.mpr hm)
  have hne : rootTaskGroup ≠ tg := fun he => hout (he ▸ List.mem_cons_self)
  obtain ⟨f',hrooted',hperm'⟩ := hrooted.graft (hperm.mem_iff.mp hp) hout
  exact ⟨⟨f',hrooted',(hperm.cons tg).trans hperm'.symm⟩,
    (Function.update_of_ne hne ..).trans h.top⟩

theorem Grouped.online (h : Grouped g s) (hnew : tg ∉ s.groups) (hp : parent ∈ s.groups)
    (hfresh : fresh.quota = runtimeInf) : Grouped g (schedOnlineGroup tg parent fresh s) := by
  obtain ⟨f,hrooted,hperm⟩ := h.tree
  have hout : tg ∉ rootTaskGroup :: f.nodes := fun hm => hnew (hperm.mem_iff.mpr hm)
  have hne : rootTaskGroup ≠ tg := fun he => hout (he ▸ List.mem_cons_self)
  have hself : (schedOnlineGroup tg parent fresh s).cfsBandwidth tg = fresh :=
    Function.update_self ..
  have hother : ∀ v, v ≠ tg →
      (schedOnlineGroup tg parent fresh s).cfsBandwidth v = s.cfsBandwidth v :=
    fun v hv => Function.update_of_ne hv ..
  refine ⟨h.toTreed.online hnew hp fresh,?_,fun v hv => ?_,
    fun hv1 a ha v hv habove r hr b hb => ?_⟩
  · rw [hother _ hne]
    exact h.unlimited
  · by_cases he : v = tg
    · rw [he,hself]
      exact fun hq => absurd hfresh hq
    · rw [hother v he]
      exact h.sound v ((List.mem_cons.mp hv).resolve_left he)
  · have hnone : ∀ x, (schedOnlineGroup tg parent fresh s).cfsBandwidth tg = x → share x = none := by
      rintro _ rfl
      rw [hself,share,shareOf,if_pos hfresh]
    have hold : ∀ x, x ∈ (schedOnlineGroup tg parent fresh s).groups → ∀ n,
        share ((schedOnlineGroup tg parent fresh s).cfsBandwidth x) = some n →
        x ∈ s.groups ∧ share (s.cfsBandwidth x) = some n := by
      intro x hx n hn
      by_cases he : x = tg
      · subst he
        cases (hnone _ rfl).symm.trans hn
      · rw [hother x he] at hn
        exact ⟨(List.mem_cons.mp hx).resolve_left he,hn⟩
    obtain ⟨hv,hr⟩ := hold v hv r hr
    obtain ⟨ha,hb⟩ := hold a ha b hb
    exact h.within hv1 a ha v hv
      (hrooted.above_graft h.top hout (hperm.mem_iff.mp hv) habove) r hr b hb

theorem Treed.release (h : Treed s) (hmem : tg ∈ s.groups) (hne : tg ≠ rootTaskGroup)
    (hleaf : s.links.children tg = []) : Treed (schedReleaseGroup tg s) := by
  obtain ⟨f,hrooted,hperm⟩ := h.tree
  have htg : tg ∈ f.nodes := (List.mem_cons.mp (hperm.mem_iff.mp hmem)).resolve_left hne
  obtain ⟨parent,hparent⟩ := (hrooted.holds.above_of_mem htg).parent
  obtain ⟨f',hrooted',hperm'⟩ := hrooted.prune htg hleaf hparent
  unfold schedReleaseGroup
  rw [hparent]
  refine ⟨⟨f',hrooted',?_⟩,h.top⟩
  exact ((hperm.trans hperm').erase tg).trans (by rw [List.erase_cons_head])

theorem Grouped.release (h : Grouped g s) (hmem : tg ∈ s.groups) (hne : tg ≠ rootTaskGroup)
    (hleaf : s.links.children tg = []) : Grouped g (schedReleaseGroup tg s) := by
  have htree := h.toTreed.release hmem hne hleaf
  unfold schedReleaseGroup at htree ⊢
  cases hparent : s.links.parent tg with
  | none => exact h
  | some parent =>
    rw [hparent] at htree
    refine ⟨htree,h.unlimited,fun v hv => ?_,fun hv1 a ha v hv => ?_⟩
    · exact h.sound v (List.mem_of_mem_erase hv)
    · exact h.within hv1 a (List.mem_of_mem_erase ha) v (List.mem_of_mem_erase hv)

/-- A write to a file of a group is refused at once, or asks for the limits that it names. -/
theorem groupOp_request (g : GroupBuild) (ha : asksFor s op = some (tg,period,quota)) :
    groupOp g op s = some (-einval,s) ∨
      ∃ burst, groupOp g op s = tgSetCfsBandwidth g tg period quota burst s := by
  cases op with
  | online => cases ha
  | release => cases ha
  | setBandwidth =>
    cases ha
    exact .inr ⟨_,rfl⟩
  | setQuota tg us =>
    cases ha
    unfold groupOp tgSetCfsQuota
    dsimp only
    by_cases hneg : us < 0
    · rw [if_pos hneg,if_pos hneg]
      exact .inr ⟨_,rfl⟩
    · rw [if_neg hneg,if_neg hneg]
      split
      · exact .inr ⟨_,rfl⟩
      · exact .inl rfl
  | setPeriod tg us =>
    cases ha
    unfold groupOp tgSetCfsPeriod
    dsimp only
    split
    · exact .inl rfl
    · exact .inr ⟨_,rfl⟩
  | setBurst tg us =>
    cases ha
    unfold groupOp tgSetCfsBurst
    dsimp only
    split
    · exact .inl rfl
    · exact .inr ⟨_,rfl⟩

/-- Every operation ends and keeps the tree, whatever it asks for. -/
theorem groupOp_treed (g : GroupBuild) (h : Treed s) (hmay : mayGroup s op) :
    ∃ ret s', groupOp g op s = some (ret,s') ∧ Treed s' := by
  cases ha : asksFor s op with
  | none =>
    cases op with
    | online tg parent fresh => exact ⟨_,_,rfl,h.online hmay.1 hmay.2.1 fresh⟩
    | release tg => exact ⟨_,_,rfl,h.release hmay.1 hmay.2.1 hmay.2.2⟩
    | _ => cases ha
  | some r =>
    obtain ⟨tg,period,quota⟩ := r
    rcases groupOp_request g ha with hrun | ⟨burst,hrun⟩
    · exact ⟨_,_,hrun,h⟩
    · rw [hrun]
      exact h.setBandwidth

/-- It keeps the limits in order as well, if a `long` has room for them. -/
theorem groupOp_grouped (h : Grouped g s) (hmay : mayGroup s op) (hroom : roomFor g s op) :
    ∃ ret s', groupOp g op s = some (ret,s') ∧ Grouped g s' := by
  cases ha : asksFor s op with
  | none =>
    cases op with
    | online tg parent fresh => exact ⟨_,_,rfl,h.online hmay.1 hmay.2.1 hmay.2.2⟩
    | release tg => exact ⟨_,_,rfl,h.release hmay.1 hmay.2.1 hmay.2.2⟩
    | _ => cases ha
  | some r =>
    obtain ⟨tg,period,quota⟩ := r
    rcases groupOp_request g ha with hrun | ⟨burst,hrun⟩
    · exact ⟨_,_,hrun,h⟩
    · rw [hrun]
      exact h.setBandwidth (hroom _ ha)

theorem groupsStart_treed (period : UInt64) : Treed (groupsStart period) :=
  ⟨⟨.nil,⟨rfl,trivial,List.pairwise_singleton ..⟩,.refl _⟩,rfl⟩

theorem groupsStart_grouped (g : GroupBuild) (period : UInt64) : Grouped g (groupsStart period) := by
  refine ⟨groupsStart_treed period,rfl,fun v hv hq => absurd rfl hq,?_⟩
  intro _ a _ v _ habove
  obtain ⟨b,hb⟩ := habove.parent
  cases hb

theorem groupReach_treed {period : UInt64} (h : GroupReach g period s) : Treed s := by
  induction h with
  | init => exact groupsStart_treed _
  | step _ may run ih =>
    obtain ⟨ret,s',hrun,htree⟩ := groupOp_treed g ih may
    rw [run] at hrun
    cases hrun
    exact htree

theorem roomyReach_grouped {period : UInt64} (h : RoomyReach g period s) : Grouped g s := by
  induction h with
  | init => exact groupsStart_grouped g _
  | step _ may room run ih =>
    obtain ⟨ret,s',hrun,hgrouped⟩ := groupOp_grouped ih may room
    rw [run] at hrun
    cases hrun
    exact hgrouped

end Runs

end LotteryScheduler.Proofs
