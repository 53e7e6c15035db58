import LotteryScheduler.Lib.TreeWalk
import LotteryScheduler.Model.Policy

namespace LotteryScheduler.Model
open Lib

abbrev TgId := Nat

def rootTaskGroup : TgId := 0

def nsecPerUsec : UInt64 := 1000
def bwShift : UInt64 := 20
def bwUnit : UInt64 := 1 <<< bwShift
def maxBw : UInt64 := ((1 : UInt64) <<< 44) - 1
def runtimeInf : UInt64 := ~~~0
def minCfsQuotaPeriod : UInt64 := 1000000
def maxCfsQuotaPeriod : UInt64 := 1000000000
def maxCfsRuntime : UInt64 := maxBw * nsecPerUsec

/-- The sizes of a `long`. -/
inductive LongModel where
  | ilp32
  | lp64
  deriving DecidableEq, Repr

def LongModel.bits : LongModel → Nat
  | .ilp32 => 32
  | .lp64 => 64

def LongModel.signed (l : LongModel) (n : Int) : Int := n.bmod (2 ^ l.bits)

def LongModel.unsigned (l : LongModel) (n : UInt64) : UInt64 := .ofNat (n.toNat % 2 ^ l.bits)

/-- A `u64` in an `s64`. -/
def toS64 (n : UInt64) : Int := Int.bmod n.toNat (2 ^ 64)

structure CfsBandwidth where
  period : UInt64
  quota : UInt64
  burst : UInt64
  hierarchicalQuota : Int
  deriving DecidableEq, Repr

/-- The task groups that are online, with their links and their limits. -/
structure TaskGroups where
  groups : List TgId
  links : TreeLinks TgId
  cfsBandwidth : TgId → CfsBandwidth

/-- What a build and a boot decide: the size of a `long`, and whether the CPU controller is on
the default hierarchy, that of the second version of control groups. -/
structure GroupBuild where
  long : LongModel
  onDfl : Bool
  deriving DecidableEq, Repr

section Walks
variable {σ : Type}

/-- `walk_tg_tree_from`, when it takes at most three steps for every group. -/
def walkTgTreeFrom (links : TreeLinks TgId) (groups : List TgId) (top : TgId)
    (down up : TgId → σ → Int × σ) (data : σ) : Option (Int × σ) :=
  walk links top down up (3 * groups.length) (.node top) data

def walkTgTree (links : TreeLinks TgId) (groups : List TgId) (down up : TgId → σ → Int × σ)
    (data : σ) : Option (Int × σ) :=
  walkTgTreeFrom links groups rootTaskGroup down up data

def tgNop (_ : TgId) (data : σ) : Int × σ := (0,data)

end Walks

section Limits
variable (g : GroupBuild)

def toRatio (period runtime : UInt64) : UInt64 :=
  if runtime = runtimeInf then bwUnit
  else if period = 0 then 0
  else g.long.unsigned ((runtime <<< bwShift) / period)

def tgGetCfsQuota (b : CfsBandwidth) : Int :=
  if b.quota = runtimeInf then -1 else g.long.signed (b.quota / nsecPerUsec).toNat

def tgGetCfsPeriod (b : CfsBandwidth) : Int := g.long.signed (b.period / nsecPerUsec).toNat

def tgGetCfsBurst (b : CfsBandwidth) : Int := g.long.signed (b.burst / nsecPerUsec).toNat

structure CfsSchedulableData where
  tg : TgId
  period : UInt64
  quota : UInt64
  deriving DecidableEq, Repr

def normalizeCfsQuota (d : CfsSchedulableData) (tg : TgId) (b : CfsBandwidth) : UInt64 :=
  let period := if tg = d.tg then d.period else .ofInt (tgGetCfsPeriod g b)
  let quota := if tg = d.tg then d.quota else .ofInt (tgGetCfsQuota g b)
  if quota = runtimeInf ∨ quota = .ofInt (-1) then runtimeInf else toRatio g period quota

def TaskGroups.setHierarchicalQuota (s : TaskGroups) (tg : TgId) (quota : Int) : TaskGroups :=
  { s with
    cfsBandwidth := Function.update s.cfsBandwidth tg
      { s.cfsBandwidth tg with hierarchicalQuota := quota } }

def tgCfsSchedulableDown (d : CfsSchedulableData) (tg : TgId) (s : TaskGroups) :
    Int × TaskGroups :=
  match s.links.parent tg with
  | none => (0,s.setHierarchicalQuota tg (toS64 runtimeInf))
  | some parent =>
    let quota := toS64 (normalizeCfsQuota g d tg (s.cfsBandwidth tg))
    let parentQuota := (s.cfsBandwidth parent).hierarchicalQuota
    if g.onDfl then (0,s.setHierarchicalQuota tg (min quota parentQuota))
    else if quota = toS64 runtimeInf then (0,s.setHierarchicalQuota tg parentQuota)
    else if parentQuota ≠ toS64 runtimeInf ∧ quota > parentQuota then (-einval,s)
    else (0,s.setHierarchicalQuota tg quota)

/-- `__cfs_schedulable`. -/
def cfsSchedulable (tg : TgId) (period quota : UInt64) (s : TaskGroups) :
    Option (Int × TaskGroups) :=
  let data : CfsSchedulableData :=
    if quota ≠ runtimeInf then ⟨tg,period / nsecPerUsec,quota / nsecPerUsec⟩
    else ⟨tg,period,quota⟩
  walkTgTree s.links s.groups (tgCfsSchedulableDown g data) tgNop s

/-- `tg_set_cfs_bandwidth`; the runqueues of the group are not part of the model. -/
def tgSetCfsBandwidth (tg : TgId) (period quota burst : UInt64) (s : TaskGroups) :
    Option (Int × TaskGroups) :=
  if tg = rootTaskGroup then some (-einval,s)
  else if quota < minCfsQuotaPeriod ∨ period < minCfsQuotaPeriod then some (-einval,s)
  else if period > maxCfsQuotaPeriod then some (-einval,s)
  else if quota ≠ runtimeInf ∧ quota > maxCfsRuntime then some (-einval,s)
  else if quota ≠ runtimeInf ∧ (burst > quota ∨ burst + quota > maxCfsRuntime) then
    some (-einval,s)
  else do
    let (ret,s) ← cfsSchedulable g tg period quota s
    if ret ≠ 0 then some (ret,s)
    else some (0,{ s with
      cfsBandwidth := Function.update s.cfsBandwidth tg
        { s.cfsBandwidth tg with period, quota, burst } })

/-- The largest number of microseconds whose nanoseconds are a `u64`. -/
def maxUsec : UInt64 := (~~~0) / nsecPerUsec

def tgSetCfsQuota (tg : TgId) (cfsQuotaUs : Int) (s : TaskGroups) : Option (Int × TaskGroups) :=
  let b := s.cfsBandwidth tg
  if cfsQuotaUs < 0 then tgSetCfsBandwidth g tg b.period runtimeInf b.burst s
  else if UInt64.ofInt cfsQuotaUs ≤ maxUsec then
    tgSetCfsBandwidth g tg b.period (.ofInt cfsQuotaUs * nsecPerUsec) b.burst s
  else some (-einval,s)

def tgSetCfsPeriod (tg : TgId) (cfsPeriodUs : Int) (s : TaskGroups) :
    Option (Int × TaskGroups) :=
  let b := s.cfsBandwidth tg
  if UInt64.ofInt cfsPeriodUs > maxUsec then some (-einval,s)
  else tgSetCfsBandwidth g tg (.ofInt cfsPeriodUs * nsecPerUsec) b.quota b.burst s

def tgSetCfsBurst (tg : TgId) (cfsBurstUs : Int) (s : TaskGroups) : Option (Int × TaskGroups) :=
  let b := s.cfsBandwidth tg
  if UInt64.ofInt cfsBurstUs > maxUsec then some (-einval,s)
  else tgSetCfsBandwidth g tg b.period b.quota (.ofInt cfsBurstUs * nsecPerUsec) s

end Limits

section Groups

/-- `sched_create_group` and `sched_online_group`, when the fair class has prepared these
limits. -/
def schedOnlineGroup (tg parent : TgId) (fresh : CfsBandwidth) (s : TaskGroups) : TaskGroups where
  groups := tg :: s.groups
  links := s.links.graft parent tg
  cfsBandwidth := Function.update s.cfsBandwidth tg fresh

def schedReleaseGroup (tg : TgId) (s : TaskGroups) : TaskGroups :=
  match s.links.parent tg with
  | some parent => { s with
      groups := s.groups.erase tg
      links := s.links.prune parent tg }
  | none => s

end Groups

section Runs

inductive GroupOp where
  | online (tg parent : TgId) (fresh : CfsBandwidth)
  | release (tg : TgId)
  | setBandwidth (tg : TgId) (period quota burst : UInt64)
  | setQuota (tg : TgId) (us : Int)
  | setPeriod (tg : TgId) (us : Int)
  | setBurst (tg : TgId) (us : Int)

def groupOp (g : GroupBuild) (op : GroupOp) (s : TaskGroups) : Option (Int × TaskGroups) :=
  match op with
  | .online tg parent fresh => some (0,schedOnlineGroup tg parent fresh s)
  | .release tg => some (0,schedReleaseGroup tg s)
  | .setBandwidth tg period quota burst => tgSetCfsBandwidth g tg period quota burst s
  | .setQuota tg us => tgSetCfsQuota g tg us s
  | .setPeriod tg us => tgSetCfsPeriod g tg us s
  | .setBurst tg us => tgSetCfsBurst g tg us s

/-- The group, the period and the quota that an operation asks for. -/
def asksFor (s : TaskGroups) : GroupOp → Option (TgId × UInt64 × UInt64)
  | .online _ _ _ | .release _ => none
  | .setBandwidth tg period quota _ => some (tg,period,quota)
  | .setQuota tg us =>
    some (tg,(s.cfsBandwidth tg).period,if us < 0 then runtimeInf else .ofInt us * nsecPerUsec)
  | .setPeriod tg us => some (tg,.ofInt us * nsecPerUsec,(s.cfsBandwidth tg).quota)
  | .setBurst tg _ => some (tg,(s.cfsBandwidth tg).period,(s.cfsBandwidth tg).quota)

/-- What the callers see to. A group is new when it comes online, starts without a limit, and is
released when it has no children. -/
def mayGroup (s : TaskGroups) : GroupOp → Prop
  | .online tg parent fresh => tg ∉ s.groups ∧ parent ∈ s.groups ∧ fresh.quota = runtimeInf
  | .release tg => tg ∈ s.groups ∧ tg ≠ rootTaskGroup ∧ s.links.children tg = []
  | op => ∀ r ∈ asksFor s op, r.1 ∈ s.groups

instance (s : TaskGroups) : (op : GroupOp) → Decidable (mayGroup s op)
  | .online _ _ _ | .release _ => inferInstanceAs (Decidable (_ ∧ _ ∧ _))
  | .setBandwidth tg period quota burst =>
    inferInstanceAs (Decidable (∀ r ∈ asksFor s (.setBandwidth tg period quota burst), _))
  | .setQuota tg us => inferInstanceAs (Decidable (∀ r ∈ asksFor s (.setQuota tg us), _))
  | .setPeriod tg us => inferInstanceAs (Decidable (∀ r ∈ asksFor s (.setPeriod tg us), _))
  | .setBurst tg us => inferInstanceAs (Decidable (∀ r ∈ asksFor s (.setBurst tg us), _))

/-- A `long` of 32 bits has room for this quota in microseconds, and for its ratio. One of 64
bits has room for all that is not refused. -/
def LongModel.Fits (l : LongModel) (period quota : UInt64) : Prop :=
  l = .lp64 ∨ quota = runtimeInf ∨
    (quota.toNat / 1000 < 2 ^ 31 ∧ quota.toNat / 1000 * 2 ^ 20 / (period.toNat / 1000) < 2 ^ 32)

instance (l : LongModel) (period quota : UInt64) : Decidable (l.Fits period quota) :=
  inferInstanceAs (Decidable (_ ∨ _ ∨ (_ ∧ _)))

/-- The operation asks for no limit that a `long` has no room for. Nobody sees to that. -/
def roomFor (g : GroupBuild) (s : TaskGroups) (op : GroupOp) : Prop :=
  ∀ r ∈ asksFor s op, g.long.Fits r.2.1 r.2.2

instance (g : GroupBuild) (s : TaskGroups) (op : GroupOp) : Decidable (roomFor g s op) :=
  inferInstanceAs (Decidable (∀ r ∈ asksFor s op, g.long.Fits r.2.1 r.2.2))

/-- The root group alone, without a limit. -/
def groupsStart (period : UInt64) : TaskGroups where
  groups := [rootTaskGroup]
  links := ⟨fun _ => none,fun _ => []⟩
  cfsBandwidth := fun _ => ⟨period,runtimeInf,0,0⟩

/-- Every state of the task groups in any run. -/
inductive GroupReach (g : GroupBuild) (period : UInt64) : TaskGroups → Prop where
  | init : GroupReach g period (groupsStart period)
  | step (before : GroupReach g period s) (may : mayGroup s op)
    (run : groupOp g op s = some (ret,s')) : GroupReach g period s'

/-- Every state in the runs that never ask for more than a `long` has room for, which are all
runs where it has 64 bits. -/
inductive RoomyReach (g : GroupBuild) (period : UInt64) : TaskGroups → Prop where
  | init : RoomyReach g period (groupsStart period)
  | step (before : RoomyReach g period s) (may : mayGroup s op) (room : roomFor g s op)
    (run : groupOp g op s = some (ret,s')) : RoomyReach g period s'

theorem RoomyReach.groupReach (h : RoomyReach g period s) : GroupReach g period s := by
  induction h with
  | init => exact .init
  | step _ may _ run ih => exact ih.step may run

theorem GroupReach.roomy (h : GroupReach g period s) (hl : g.long = .lp64) :
    RoomyReach g period s := by
  induction h with
  | init => exact .init
  | step _ may run ih => exact ih.step may (fun _ _ => .inl hl) run

def runGroups (g : GroupBuild) : List GroupOp → TaskGroups → Option TaskGroups
  | [], s => some s
  | op :: ops, s =>
    if mayGroup s op ∧ roomFor g s op then do
      let (_,s) ← groupOp g op s
      runGroups g ops s
    else none

theorem RoomyReach.runGroups (h : RoomyReach g period s) (hr : runGroups g ops s = some s') :
    RoomyReach g period s' := by
  induction ops generalizing s with
  | nil =>
    cases hr
    exact h
  | cons op ops ih =>
    simp only [Model.runGroups] at hr
    split at hr
    next hmay =>
      obtain ⟨⟨ret,u⟩,hu,hr⟩ := Option.bind_eq_some_iff.mp hr
      exact ih (h.step hmay.1 hmay.2 hu) hr
    next => cases hr

end Runs

end LotteryScheduler.Model
