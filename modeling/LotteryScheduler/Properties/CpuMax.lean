import LotteryScheduler.Model.CpuMax
import LotteryScheduler.Properties.TaskGroups

namespace LotteryScheduler.Properties
open Model Proofs Lib

section Texts
variable {c : Char} {word rest : Text} {period quota : Int}

theorem isDigit_no_space (h : c.isDigit = true) : scanSpace c = false := by
  simp only [Char.isDigit,Bool.and_eq_true,decide_eq_true_eq] at h
  have hlow : 48 ≤ c.toNat := UInt32.le_iff_toNat_le.mp h.1
  have hhigh : c.toNat ≤ 57 := UInt32.le_iff_toNat_le.mp h.2
  simp only [scanSpace,Bool.or_eq_false_iff,Bool.and_eq_false_iff,decide_eq_false_iff_not,
    beq_eq_false_iff_ne]
  omega

theorem isDigit_no_nul (h : c.isDigit = true) : (c != '\x00') = true := by
  rw [bne_iff_ne]
  rintro rfl
  cases h

theorem isDigit_digits (n : Nat) : ∀ c ∈ Nat.toDigits 10 n, c.isDigit = true :=
  fun _ hc => Nat.isDigit_of_mem_toDigits (by decide) (by decide) hc

theorem scanWord_word (hword : ∀ c ∈ word, scanSpace c = false) (hlen : word.length ≤ 20)
    (hne : word ≠ []) : scanWord 20 (word ++ ' ' :: rest) = (word,' ' :: rest) := by
  have hskip : (word ++ ' ' :: rest).dropWhile scanSpace = word ++ ' ' :: rest := by
    cases word with
    | nil => exact absurd rfl hne
    | cons c word =>
      rw [List.cons_append,List.dropWhile_cons_of_neg (by simp [hword c List.mem_cons_self])]
  have htake : (word ++ ' ' :: rest).takeWhile (fun c => !scanSpace c) = word := by
    rw [List.takeWhile_append_of_pos (fun c hc => by simp [hword c hc]),
      List.takeWhile_cons_of_neg (by decide),List.append_nil]
  simp only [scanWord,hskip,htake,List.take_of_length_le hlen,List.drop_left]

/-- A printed number is scanned back, whatever white space is before it and whatever but a digit
is after it. -/
theorem scanUnsigned_digits (n : Nat) (hrest : ∀ c ∈ rest.head?, c.isDigit = false) :
    scanUnsigned (Nat.toDigits 10 n ++ rest) = some (.ofNat n) := by
  have hne : Nat.toDigits 10 n ≠ [] := List.ne_nil_of_length_pos Nat.length_toDigits_pos
  have hskip : (Nat.toDigits 10 n ++ rest).dropWhile scanSpace = Nat.toDigits 10 n ++ rest := by
    have hdigits := isDigit_digits n
    cases hd : Nat.toDigits 10 n with
    | nil => exact absurd hd hne
    | cons c digits =>
      rw [hd] at hdigits
      have hc := isDigit_no_space (hdigits c List.mem_cons_self)
      rw [List.cons_append,List.dropWhile_cons_of_neg (by simp [hc])]
  have hstop : rest.takeWhile Char.isDigit = [] := by
    cases rest with
    | nil => rfl
    | cons c rest => exact List.takeWhile_cons_of_neg (by simp [hrest c rfl])
  have htake : (Nat.toDigits 10 n ++ rest).takeWhile Char.isDigit = Nat.toDigits 10 n := by
    rw [List.takeWhile_append_of_pos (isDigit_digits n),hstop,List.append_nil]
  simp only [scanUnsigned,hskip,htake,if_neg hne,Nat.ofDigitChars_ten_toDigits]

theorem scanUnsigned_space : scanUnsigned (' ' :: rest) = scanUnsigned rest := by
  unfold scanUnsigned
  rw [List.dropWhile_cons_of_pos (by decide)]

theorem decimal_nonneg {n : Int} (h : 0 ≤ n) : decimal n = Nat.toDigits 10 n.toNat := by
  have habs : n.natAbs = n.toNat := by omega
  rw [decimal,if_neg (not_lt.mpr h),habs]

/-- A text of a word and a number is parsed to its end. -/
theorem takeWhile_words (hword : ∀ c ∈ word, (c != '\x00') = true) (n : Nat) :
    (word ++ ' ' :: Nat.toDigits 10 n ++ ['\n']).takeWhile (· != '\x00') =
      word ++ ' ' :: Nat.toDigits 10 n ++ ['\n'] := by
  apply List.takeWhile_eq_self_iff.mpr
  intro c hc
  simp only [List.append_assoc,List.cons_append,List.mem_append,List.mem_cons,List.not_mem_nil,
    or_false] at hc
  rcases hc with hc | rfl | hc | rfl
  · exact hword c hc
  · decide
  · exact isDigit_no_nul (isDigit_digits n c hc)
  · decide

/-- What is printed is parsed as the numbers it was printed from. -/
theorem parse_print (hp : 0 ≤ period) (hq : quota < 10 ^ 20) (old : UInt64) :
    cpuPeriodQuotaParse (cpuPeriodQuotaPrint period quota) old =
      some (.ofNat period.toNat * nsecPerUsec,
        if quota < 0 then runtimeInf else .ofNat quota.toNat * nsecPerUsec) := by
  have hrest : scanUnsigned (' ' :: decimal period ++ ['\n']) = some (.ofNat period.toNat) := by
    rw [List.cons_append,scanUnsigned_space,decimal_nonneg hp]
    exact scanUnsigned_digits _ (by simp)
  have hparse : ∀ (word : Text) (n : Option UInt64), (∀ c ∈ word, (c != '\x00') = true) →
      (∀ c ∈ word, scanSpace c = false) → word.length ≤ 20 → word ≠ [] → scanUnsigned word = n →
      cpuPeriodQuotaParse (word ++ ' ' :: decimal period ++ ['\n']) old =
        n.elim (if word = ['m','a','x'] then
          some (.ofNat period.toNat * nsecPerUsec,runtimeInf) else none)
          fun n => some (.ofNat period.toNat * nsecPerUsec,n * nsecPerUsec) := by
    intro word n hnul hword hlen hne hnumber
    have hscan : scanWord 20 (word ++ ' ' :: (decimal period ++ ['\n'])) = _ :=
      scanWord_word hword hlen hne
    have htext := takeWhile_words hnul period.toNat
    rw [← decimal_nonneg hp] at htext
    rw [cpuPeriodQuotaParse,htext]
    dsimp only
    rw [if_neg (by simp),List.append_assoc,List.cons_append,hscan]
    cases n with
    | none => simp only [hnumber,← List.cons_append,hrest,Option.getD_some,Option.elim_none]
    | some n => simp only [hnumber,← List.cons_append,hrest,Option.getD_some,Option.elim_some]
  unfold cpuPeriodQuotaPrint
  by_cases hneg : quota < 0
  · rw [if_pos hneg,if_pos hneg]
    exact hparse ['m','a','x'] none (by simp) (by simp [scanSpace]) (by decide) (by decide)
      (by decide)
  · rw [if_neg hneg,if_neg hneg,decimal_nonneg (not_lt.mp hneg)]
    have hlen : (Nat.toDigits 10 quota.toNat).length ≤ 20 :=
      (Nat.length_toDigits_le_iff (by decide) (by decide)).mpr (by omega)
    have hnumber : scanUnsigned (Nat.toDigits 10 quota.toNat ++ []) = _ :=
      scanUnsigned_digits quota.toNat nofun
    rw [List.append_nil] at hnumber
    have hdigits := isDigit_digits quota.toNat
    exact hparse _ _ (fun c hc => isDigit_no_nul (hdigits c hc))
      (fun c hc => isDigit_no_space (hdigits c hc)) hlen
      (List.ne_nil_of_length_pos Nat.length_toDigits_pos) hnumber

/-- A period whose nanoseconds are no `u64` is not refused as such, but wraps around. -/
example : cpuPeriodQuotaParse
    ['m','a','x',' ','1','8','4','4','6','7','4','4','0','7','3','7','1','0','5','5','2'] 0 =
      some (1000384,runtimeInf) := by decide +kernel

end Texts

section Files
variable {g : GroupBuild} {s s' : TaskGroups} {b : CfsBandwidth} {tg v : TgId} {buf : Text}
variable {start period quota burst : UInt64}

/-- A time without the nanoseconds beyond its last microsecond. -/
def wholeUsec (n : UInt64) : UInt64 :=
  if n = runtimeInf then runtimeInf else n / nsecPerUsec * nsecPerUsec

/-- A text asks for these limits, and nothing is against them. -/
structure Asks (g : GroupBuild) (s : TaskGroups) (tg : TgId) (buf : Text)
    (period quota : UInt64) : Prop where
  text : cpuMaxAsks g tg buf s = some (period,quota)
  group : tg ≠ rootTaskGroup
  range : InRange period quota (s.cfsBandwidth tg).burst
  hierarchy : g.onDfl = false → Hierarchy s (asked s tg period quota)

theorem cpuMaxShow_congr (h : reads g (s'.cfsBandwidth v) = reads g (s.cfsBandwidth v)) :
    cpuMaxShow g v s' = cpuMaxShow g v s := by
  unfold reads at h
  obtain ⟨hquota,hrest⟩ := Prod.mk.inj h
  rw [cpuMaxShow,cpuMaxShow,hquota,(Prod.mk.inj hrest).1]

/-- The file of a group asks for the limits of the group, in whole microseconds. -/
theorem parse_show (hf : g.long.Fits b.period b.quota) (hp : b.period.toNat ≤ 1000000000)
    (old : UInt64) :
    cpuPeriodQuotaParse (cpuPeriodQuotaPrint (tgGetCfsPeriod g b) (tgGetCfsQuota g b)) old =
      some (wholeUsec b.period,wholeUsec b.quota) := by
  have hbits : 2 ^ 31 ≤ 2 ^ (g.long.bits - 1) := by
    cases g.long <;> decide
  have hperiod : tgGetCfsPeriod g b = (b.period / nsecPerUsec).toNat := by
    refine LongModel.signed_of_lt (lt_of_lt_of_le ?_ hbits)
    rw [usec_toNat]
    omega
  have hfinite : b.period ≠ runtimeInf := by
    intro he
    rw [he] at hp
    exact absurd hp (by decide)
  rw [hperiod,wholeUsec,wholeUsec,if_neg hfinite]
  by_cases hq : b.quota = runtimeInf
  · have hread : tgGetCfsQuota g b = -1 := if_pos hq
    rw [hread,parse_print (Int.natCast_nonneg _) (by decide),if_pos hq,Int.toNat_natCast,
      UInt64.ofNat_toNat]
    rfl
  · have hlt : (b.quota / nsecPerUsec).toNat < 2 ^ (g.long.bits - 1) := by
      rw [usec_toNat]
      rcases hf with hl | he | ⟨hlt,-⟩
      · have hmax := b.quota.toNat_lt
        rw [hl]
        change _ < 2 ^ 63
        omega
      · exact absurd he hq
      · exact lt_of_lt_of_le hlt hbits
    have hread : tgGetCfsQuota g b = (b.quota / nsecPerUsec).toNat :=
      (if_neg hq).trans (LongModel.signed_of_lt hlt)
    have hsmall : ((b.quota / nsecPerUsec).toNat : Int) < 10 ^ 20 := by
      have hmax := (b.quota / nsecPerUsec).toNat_lt
      omega
    rw [hread,parse_print (Int.natCast_nonneg _) hsmall,if_neg hq,
      if_neg (not_lt.mpr (Int.natCast_nonneg _)),Int.toNat_natCast,Int.toNat_natCast,
      UInt64.ofNat_toNat,UInt64.ofNat_toNat]

theorem cpuMaxWrite_granted (h : Grouped g s) (hf : g.long.Fits period quota)
    (ha : Asks g s tg buf period quota) (nbytes : Int) :
    ∃ s', cpuMaxWrite g tg buf nbytes s = some (nbytes,s') ∧
      Granted s tg period quota (s.cfsBandwidth tg).burst s' := by
  obtain ⟨ret,s',hrun,hgranted,-⟩ :=
    tgSetCfsBandwidth_ends (g := g) h.toTreed tg period quota (s.cfsBandwidth tg).burst
  have hz := (tgSetCfsBandwidth_zero h hf hrun).mpr ⟨ha.group,ha.range,ha.hierarchy⟩
  refine ⟨s',?_,hgranted hz⟩
  subst hz
  simp only [cpuMaxWrite,ha.text,hrun]
  rfl

theorem cpuMaxWrite_refused (h : Grouped g s)
    (hf : ∀ r ∈ cpuMaxAsks g tg buf s, g.long.Fits r.1 r.2)
    (hno : ∀ period quota, ¬Asks g s tg buf period quota) (nbytes : Int) :
    ∃ s', cpuMaxWrite g tg buf nbytes s = some (-einval,s') ∧ SameLimits s s' := by
  cases hasks : cpuMaxAsks g tg buf s with
  | none => exact ⟨s,by simp only [cpuMaxWrite,hasks],.refl s⟩
  | some r =>
    obtain ⟨period,quota⟩ := r
    obtain ⟨ret,s',hrun,-,hrefused⟩ :=
      tgSetCfsBandwidth_ends (g := g) h.toTreed tg period quota (s.cfsBandwidth tg).burst
    have hz : ret ≠ 0 := by
      intro hz
      obtain ⟨hgroup,hrange,hhierarchy⟩ := (tgSetCfsBandwidth_zero h (hf _ hasks) hrun).mp hz
      exact hno period quota ⟨hasks,hgroup,hrange,hhierarchy⟩
    obtain ⟨rfl,hsame⟩ := hrefused hz
    refine ⟨s',?_,hsame⟩
    simp only [cpuMaxWrite,hasks,hrun]
    rfl

theorem wholeUsec_toNat {n : UInt64} (h : n ≠ runtimeInf) :
    (wholeUsec n).toNat = n.toNat / 1000 * 1000 ∧ wholeUsec n ≠ runtimeInf := by
  have hlt := n.toNat_lt
  have hval : (wholeUsec n).toNat = n.toNat / 1000 * 1000 := by
    rw [wholeUsec,if_neg h,UInt64.toNat_mul,usec_toNat]
    change _ * 1000 % 2 ^ 64 = _
    exact Nat.mod_eq_of_lt (by omega)
  refine ⟨hval,fun he => ?_⟩
  rw [he] at hval
  change 2 ^ 64 - 1 = _ at hval
  omega

theorem wholeUsec_usec (n : UInt64) : (wholeUsec n).toNat / 1000 = n.toNat / 1000 := by
  by_cases h : n = runtimeInf
  · rw [h]
    rfl
  · rw [(wholeUsec_toNat h).1]
    omega

theorem wholeUsec_inf {n : UInt64} : wholeUsec n = runtimeInf ↔ n = runtimeInf := by
  constructor
  · intro he
    by_contra hne
    exact (wholeUsec_toNat hne).2 he
  · intro he
    rw [wholeUsec,if_pos he]

/-- Shares and files are in microseconds. -/
theorem shareOf_whole (period quota : UInt64) :
    shareOf (wholeUsec period) (wholeUsec quota) = shareOf period quota := by
  unfold shareOf
  rw [wholeUsec_usec,wholeUsec_usec]
  by_cases hq : quota = runtimeInf
  · rw [if_pos hq,if_pos (wholeUsec_inf.mpr hq)]
  · rw [if_neg hq,if_neg fun he => hq (wholeUsec_inf.mp he)]

theorem reads_whole (b : CfsBandwidth) (n : Int) :
    reads g ⟨wholeUsec b.period,wholeUsec b.quota,b.burst,n⟩ = reads g b := by
  have hdiv : ∀ m : UInt64, wholeUsec m / nsecPerUsec = m / nsecPerUsec := by
    intro m
    apply UInt64.toNat.inj
    rw [usec_toNat,usec_toNat,wholeUsec_usec]
  unfold reads tgGetCfsQuota tgGetCfsPeriod tgGetCfsBurst
  simp only [hdiv,wholeUsec_inf]

theorem inRange_whole (h : InRange period quota burst) (hburst : burst.toNat % 1000 = 0) :
    InRange (wholeUsec period) (wholeUsec quota) burst := by
  have hperiod : period ≠ runtimeInf := by
    intro he
    have hle := h.period_le
    rw [he] at hle
    exact absurd hle (by decide)
  have hp := (wholeUsec_toNat hperiod).1
  have hpge := h.period_ge
  have hple := h.period_le
  by_cases hq : quota = runtimeInf
  · have hinf := wholeUsec_inf.mpr hq
    refine ⟨?_,by omega,by omega,fun hn => absurd hinf hn,fun hn => absurd hinf hn,
      fun hn => absurd hinf hn⟩
    rw [hinf]
    decide
  · have hw := (wholeUsec_toNat hq).1
    have hge := h.quota_ge
    have hle := h.quota_le hq
    have hb := h.burst_le hq
    have hsum := h.sum_le hq
    exact ⟨by omega,by omega,by omega,fun _ => by omega,fun _ => by omega,fun _ => by omega⟩

/-- The period is in range and the burst in whole microseconds, as the files ask for them. -/
structure Settled (b : CfsBandwidth) : Prop where
  period_ge : 1000000 ≤ b.period.toNat
  period_le : b.period.toNat ≤ 1000000000
  burst_whole : b.burst.toNat % 1000 = 0

/-- Writing back to the file of a group what it shows is granted and changes no file. -/
theorem cpuMaxWrite_show (h : Grouped g s) (htg : tg ∈ s.groups) (hne : tg ≠ rootTaskGroup)
    (hb : Settled (s.cfsBandwidth tg)) (nbytes : Int) :
    ∃ s', cpuMaxWrite g tg (cpuMaxShow g tg s) nbytes s = some (nbytes,s') ∧
      ∀ v, cpuMaxShow g v s' = cpuMaxShow g v s := by
  have hsound := h.sound tg htg
  have hfits : g.long.Fits (s.cfsBandwidth tg).period (s.cfsBandwidth tg).quota := by
    by_cases hq : (s.cfsBandwidth tg).quota = runtimeInf
    · exact .inr (.inl hq)
    · exact (hsound hq).2
  have hrange : InRange (s.cfsBandwidth tg).period (s.cfsBandwidth tg).quota
      (s.cfsBandwidth tg).burst := by
    by_cases hq : (s.cfsBandwidth tg).quota = runtimeInf
    · refine ⟨?_,hb.period_ge,hb.period_le,fun hn => absurd hq hn,fun hn => absurd hq hn,
        fun hn => absurd hq hn⟩
      rw [hq]
      decide
    · exact (hsound hq).1
  have hasked : asked s tg (wholeUsec (s.cfsBandwidth tg).period)
      (wholeUsec (s.cfsBandwidth tg).quota) = fun v => share (s.cfsBandwidth v) := by
    funext v
    unfold asked
    split
    next he => rw [he,shareOf_whole,share]
    next => rfl
  have hfits' : g.long.Fits (wholeUsec (s.cfsBandwidth tg).period)
      (wholeUsec (s.cfsBandwidth tg).quota) := by
    rcases hfits with hl | hq | hlt
    · exact .inl hl
    · exact .inr (.inl (wholeUsec_inf.mpr hq))
    · refine .inr (.inr ?_)
      rw [wholeUsec_usec,wholeUsec_usec]
      exact hlt
  have ha : Asks g s tg (cpuMaxShow g tg s) (wholeUsec (s.cfsBandwidth tg).period)
      (wholeUsec (s.cfsBandwidth tg).quota) := by
    refine ⟨parse_show hfits hb.period_le _,hne,inRange_whole hrange hb.burst_whole,fun hv1 => ?_⟩
    rw [hasked]
    exact h.within hv1
  obtain ⟨s',hrun,hgranted⟩ := cpuMaxWrite_granted h hfits' ha nbytes
  refine ⟨s',hrun,fun v => cpuMaxShow_congr ?_⟩
  obtain ⟨hself,hother⟩ := reads_granted (g := g) hgranted
  by_cases hv : v = tg
  · rw [hv]
    exact hself.trans (reads_whole _ _)
  · exact hother v hv

/-- A text written to the file of a group is refused without a trace in any file, or the file then
asks for just what was written, up to the microsecond, and all other files are as before. What a
file shows can be written back to it, and nothing changes. -/
theorem cpu_max_reads_back (h : RoomyReach g start s)
    (hf : ∀ r ∈ cpuMaxAsks g tg buf s, g.long.Fits r.1 r.2) (nbytes : Int) :
    (∃ ret s', cpuMaxWrite g tg buf nbytes s = some (ret,s') ∧
      (∀ period quota, Asks g s tg buf period quota → ret = nbytes ∧
        cpuMaxAsks g tg (cpuMaxShow g tg s') s' = some (wholeUsec period,wholeUsec quota) ∧
        ∀ v, v ≠ tg → cpuMaxShow g v s' = cpuMaxShow g v s) ∧
      ((∀ period quota, ¬Asks g s tg buf period quota) → ret = -einval ∧
        ∀ v, cpuMaxShow g v s' = cpuMaxShow g v s)) ∧
    ∀ v ∈ s.groups, v ≠ rootTaskGroup → Settled (s.cfsBandwidth v) →
      ∃ s', cpuMaxWrite g v (cpuMaxShow g v s) nbytes s = some (nbytes,s') ∧
        ∀ x, cpuMaxShow g x s' = cpuMaxShow g x s := by
  have hgrouped := roomyReach_grouped h
  refine ⟨?_,fun v hv hne hb => cpuMaxWrite_show hgrouped hv hne hb nbytes⟩
  by_cases hany : ∃ period quota, Asks g s tg buf period quota
  · obtain ⟨period,quota,ha⟩ := hany
    have hfits : g.long.Fits period quota := hf _ ha.text
    obtain ⟨s',hrun,hgranted⟩ := cpuMaxWrite_granted hgrouped hfits ha nbytes
    refine ⟨nbytes,s',hrun,fun p q hpq => ?_,fun hno => absurd ha (hno period quota)⟩
    cases ha.text.symm.trans hpq.text
    obtain ⟨hp,hq,-⟩ := hgranted.self
    refine ⟨rfl,?_,fun v hv => cpuMaxShow_congr ((reads_granted hgranted).2 v hv)⟩
    rw [← hp,← hq]
    refine parse_show ?_ ?_ _
    · rw [hp,hq]
      exact hfits
    · rw [hp]
      exact ha.range.period_le
  · have hno : ∀ period quota, ¬Asks g s tg buf period quota := fun p q ha => hany ⟨p,q,ha⟩
    obtain ⟨s',hrun,hsame⟩ := cpuMaxWrite_refused hgrouped hf hno nbytes
    exact ⟨-einval,s',hrun,fun p q ha => absurd ha (hno p q),
      fun _ => ⟨rfl,fun v => cpuMaxShow_congr (reads_same hsame v)⟩⟩

end Files

section Unlimited

/-- A machine with a `long` of 64 bits and the default hierarchy. -/
def newBuild : GroupBuild := ⟨.lp64,true⟩

def unlimitedGroup : TaskGroups :=
  schedOnlineGroup 1 rootTaskGroup ⟨defaultPeriod,runtimeInf,0,0⟩ (groupsStart defaultPeriod)

theorem unlimitedGroup_reach : GroupReach newBuild defaultPeriod unlimitedGroup :=
  .step .init
    (show mayGroup _ (.online 1 rootTaskGroup ⟨defaultPeriod,runtimeInf,0,0⟩) by decide)
    rfl

/-- Half a CPU. -/
def halfText : Text := ['5','0','0','0','0',' ','1','0','0','0','0','0','\n']

theorem cpu_max_reads_back_half :
    (∃ ret s', cpuMaxWrite newBuild 1 halfText 13 unlimitedGroup = some (ret,s') ∧
      (∀ period quota, Asks newBuild unlimitedGroup 1 halfText period quota → ret = 13 ∧
        cpuMaxAsks newBuild 1 (cpuMaxShow newBuild 1 s') s' =
          some (wholeUsec period,wholeUsec quota) ∧
        ∀ v, v ≠ 1 → cpuMaxShow newBuild v s' = cpuMaxShow newBuild v unlimitedGroup) ∧
      ((∀ period quota, ¬Asks newBuild unlimitedGroup 1 halfText period quota) →
        ret = -einval ∧
          ∀ v, cpuMaxShow newBuild v s' = cpuMaxShow newBuild v unlimitedGroup)) ∧
    ∀ v ∈ unlimitedGroup.groups, v ≠ rootTaskGroup → Settled (unlimitedGroup.cfsBandwidth v) →
      ∃ s', cpuMaxWrite newBuild v (cpuMaxShow newBuild v unlimitedGroup) 13 unlimitedGroup =
          some (13,s') ∧
        ∀ x, cpuMaxShow newBuild x s' = cpuMaxShow newBuild x unlimitedGroup :=
  cpu_max_reads_back (unlimitedGroup_reach.roomy rfl) (fun _ _ => .inl rfl) 13

end Unlimited

end LotteryScheduler.Properties
