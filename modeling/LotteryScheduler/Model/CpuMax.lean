import LotteryScheduler.Model.Monitor
import LotteryScheduler.Model.TaskGroups

namespace LotteryScheduler.Model

section Texts

/-- `%ld`. -/
def decimal (n : Int) : Text :=
  if n < 0 then '-' :: Nat.toDigits 10 n.natAbs else Nat.toDigits 10 n.natAbs

/-- The white space of the kernel's `sscanf`. -/
def scanSpace (c : Char) : Bool :=
  (9 ≤ c.toNat && c.toNat ≤ 13) || c.toNat == 32 || c.toNat == 160

/-- A conversion `%s` of a width, with the word and what follows it. -/
def scanWord (width : Nat) (str : Text) : Text × Text :=
  let str := str.dropWhile scanSpace
  let tok := (str.takeWhile fun c => !scanSpace c).take width
  (tok,str.drop tok.length)

/-- A conversion `%llu`; a number of too many digits wraps around. -/
def scanUnsigned (str : Text) : Option UInt64 :=
  let digits := (str.dropWhile scanSpace).takeWhile Char.isDigit
  if digits = [] then none else some (.ofNat (Nat.ofDigitChars 10 digits 0))

def cpuPeriodQuotaPrint (period quota : Int) : Text :=
  (if quota < 0 then ['m','a','x'] else decimal quota) ++ ' ' :: decimal period ++ ['\n']

/-- `cpu_period_quota_parse`: the period and the quota, if it does not return `-EINVAL`. A
text ends at its first NUL. -/
def cpuPeriodQuotaParse (buf : Text) (period : UInt64) : Option (UInt64 × UInt64) :=
  let buf := buf.takeWhile (· != '\x00')
  if buf = [] then none
  else
    let (tok,rest) := scanWord 20 buf
    let period := (scanUnsigned rest).getD period * nsecPerUsec
    match scanUnsigned tok with
    | some quota => some (period,quota * nsecPerUsec)
    | none => if tok = ['m','a','x'] then some (period,runtimeInf) else none

end Texts

section Files
variable (g : GroupBuild)

def cpuMaxShow (tg : TgId) (s : TaskGroups) : Text :=
  let b := s.cfsBandwidth tg
  cpuPeriodQuotaPrint (tgGetCfsPeriod g b) (tgGetCfsQuota g b)

/-- What a text asks for, when it is written to the file of a group. -/
def cpuMaxAsks (tg : TgId) (buf : Text) (s : TaskGroups) : Option (UInt64 × UInt64) :=
  cpuPeriodQuotaParse buf (.ofInt (tgGetCfsPeriod g (s.cfsBandwidth tg)))

def cpuMaxWrite (tg : TgId) (buf : Text) (nbytes : Int) (s : TaskGroups) :
    Option (Int × TaskGroups) :=
  let burst := (s.cfsBandwidth tg).burst
  match cpuMaxAsks g tg buf s with
  | none => some (-einval,s)
  | some (period,quota) => do
    let (ret,s) ← tgSetCfsBandwidth g tg period quota burst s
    some (if ret ≠ 0 then ret else nbytes,s)

end Files

end LotteryScheduler.Model
