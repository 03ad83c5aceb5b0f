import FileWebServer.Bytes

namespace FileWebServer

/-- The fields of `struct tm` that the source reads. -/
structure Tm where
  sec : Int := 0
  min : Int := 0
  hour : Int := 0
  mday : Int := 0
  mon : Int := 0
  year : Int := 0
  wday : Int := 0
  deriving DecidableEq, Repr

/-- `gmtime_r`: the proleptic Gregorian date and time of day of a Unix time stamp. -/
def gmtimeR (t : Int) : Tm :=
  let days := t.fdiv 86400
  let rest := t.fmod 86400
  let z := days + 719468
  let era := z.fdiv 146097
  let doe := z.fmod 146097
  let yoe := (doe - doe / 1460 + doe / 36524 - doe / 146096) / 365
  let doy := doe - (365 * yoe + yoe / 4 - yoe / 100)
  let mp := (5 * doy + 2) / 153
  let mon := if mp < 10 then mp + 2 else mp - 10
  { sec := rest % 60
    min := rest / 60 % 60
    hour := rest / 3600
    mday := doy - (153 * mp + 2) / 5 + 1
    mon := mon
    year := yoe + era * 400 + (if mon ≤ 1 then 1 else 0) - 1900
    wday := (days + 4).fmod 7 }

/-- `timegm`: the Unix time stamp of a date and time of day in UTC. -/
def timegm (tm : Tm) : Int :=
  let year := tm.year + 1900 + tm.mon.fdiv 12
  let mon := tm.mon.fmod 12
  let y := if mon ≤ 1 then year - 1 else year
  let era := y.fdiv 400
  let yoe := y.fmod 400
  let mp := if 2 ≤ mon then mon - 2 else mon + 10
  let doy := (153 * mp + 2) / 5 + tm.mday - 1
  let doe := yoe * 365 + yoe / 4 - yoe / 100 + doy
  (era * 146097 + doe - 719468) * 86400 + tm.hour * 3600 + tm.min * 60 + tm.sec

/-- The functions of the C library whose result depends on the process's time zone. -/
structure Libc where
  strptime : Bytes → Option Tm
  localtimeR : Int → Tm

/-- Both functions of a process whose time zone is UTC and that is handed no date. -/
def Libc.utc : Libc := ⟨fun _ => none, gmtimeR⟩

/-- White space of `isspace` in the C locale. -/
def isspace (c : UInt8) : Bool := c == 32 || (9 ≤ c && c ≤ 13)

def hexDigit? (c : UInt8) : Option Nat :=
  if 48 ≤ c ∧ c ≤ 57 then some (c.toNat - 48)
  else if 65 ≤ c ∧ c ≤ 70 then some (c.toNat - 55)
  else if 97 ≤ c ∧ c ≤ 102 then some (c.toNat - 87)
  else none

/-- The value of the leading hexadecimal digits and their number. -/
def hexDigits (acc count : Nat) : Bytes → Nat × Nat
  | [] => (acc, count)
  | c :: rest =>
    match hexDigit? c with
    | some d => hexDigits (acc * 16 + d) (count + 1) rest
    | none => (acc, count)

/-- The optional prefix of a hexadecimal number, skipped only in front of a digit. -/
def skipHexPrefix : Bytes → Bytes × Nat
  | a :: b :: c :: rest =>
    if a = 48 ∧ (b = 120 ∨ b = 88) ∧ (hexDigit? c).isSome then (c :: rest, 2)
    else (a :: b :: c :: rest, 0)
  | s => (s, 0)

/-- `std::strtol` with base 16: the value and the number of bytes consumed. -/
def strtol16 (s : Bytes) : Int × Nat :=
  let blanks := (s.takeWhile isspace).length
  let s := s.dropWhile isspace
  let sign := match s with
    | 45 :: _ => (-1, 1)
    | 43 :: _ => (1, 1)
    | _ => ((1 : Int), 0)
  let (s, skipped) := skipHexPrefix (s.drop sign.2)
  let (value, count) := hexDigits 0 0 s
  if count = 0 then (0, 0) else (sign.1 * value, blanks + sign.2 + skipped + count)

end FileWebServer
