import FileWebServer.Http.Fields
import FileWebServer.Http.Range

namespace FileWebServer
set_option autoImplicit true

/-- A time stamp as a time of day and a day of an era of four hundred years, whose years begin in
March. -/
structure CivilTime (t : Int) where
  days : Int
  rest : Int
  era : Int
  doe : Int
  yoe : Int
  doy : Int
  mp : Int
  mon : Int
  wday : Int
  time : t = days * 86400 + rest
  rest_bounds : 0 ≤ rest ∧ rest < 86400
  day : days + 719468 = era * 146097 + doe
  doe_bounds : 0 ≤ doe ∧ doe < 146097
  year : yoe = (doe - doe / 1460 + doe / 36524 - doe / 146096) / 365
  dayOfYear : doy = doe - (365 * yoe + yoe / 4 - yoe / 100)
  month : mp = (5 * doy + 2) / 153
  monthOfYear : mon = if mp < 10 then mp + 2 else mp - 10
  wday_bounds : 0 ≤ wday ∧ wday < 7

namespace CivilTime
variable {t : Int}

def tm (p : CivilTime t) : Tm :=
  { sec := p.rest % 60
    min := p.rest / 60 % 60
    hour := p.rest / 3600
    mday := p.doy - (153 * p.mp + 2) / 5 + 1
    mon := p.mon
    year := p.yoe + p.era * 400 + (if p.mon ≤ 1 then 1 else 0) - 1900
    wday := p.wday }

theorem yoe_bounds (p : CivilTime t) : 0 ≤ p.yoe ∧ p.yoe < 400 := by
  obtain ⟨h0, h1⟩ := p.doe_bounds
  have hy := p.year
  omega

theorem doy_bounds (p : CivilTime t) : 0 ≤ p.doy ∧ p.doy ≤ 365 := by
  obtain ⟨h0, h1⟩ := p.doe_bounds
  obtain ⟨hy0, hy1⟩ := p.yoe_bounds
  have hy := p.year
  have hd := p.dayOfYear
  -- the day's leap years and centuries are those of its year, but for the last of them
  have hleap : p.doe / 1460 = p.yoe / 4 ∨ p.doe / 1460 = p.yoe / 4 + 1 := by omega
  have hdoy : 0 ≤ p.doy := by omega
  have hcentury : p.yoe / 100 ≤ p.doe / 36524 := by
    have hquarter : 25 * (p.yoe / 100) ≤ p.yoe / 4 := by omega
    omega
  have hlast : p.yoe / 100 ≤ p.doe / 36524 - p.doe / 146096 := by omega
  omega

theorem mp_bounds (p : CivilTime t) : 0 ≤ p.mp ∧ p.mp ≤ 11 := by
  obtain ⟨h0, h1⟩ := p.doy_bounds
  have hm := p.month
  omega

theorem mon_bounds (p : CivilTime t) : 0 ≤ p.mon ∧ p.mon ≤ 11 := by
  obtain ⟨h0, h1⟩ := p.mp_bounds
  have hm := p.monthOfYear
  split at hm <;> omega

theorem mp_eq (p : CivilTime t) : (if 2 ≤ p.mon then p.mon - 2 else p.mon + 10) = p.mp := by
  obtain ⟨h0, h1⟩ := p.mp_bounds
  have hm := p.monthOfYear
  split at hm <;> split <;> omega

theorem timegm_tm (p : CivilTime t) : timegm p.tm = t := by
  obtain ⟨hm0, hm1⟩ := p.mon_bounds
  obtain ⟨hy0, hy1⟩ := p.yoe_bounds
  have hmon : p.mon.fdiv 12 = 0 ∧ p.mon.fmod 12 = p.mon :=
    ⟨Int.fdiv_eq_zero_of_lt hm0 (by omega), Int.fmod_eq_of_lt hm0 (by omega)⟩
  have hyear : (if p.mon ≤ 1 then p.tm.year + 1900 + 0 - 1 else p.tm.year + 1900 + 0) =
      p.yoe + p.era * 400 := by
    unfold tm
    dsimp only
    split <;> omega
  have hera : (p.yoe + p.era * 400).fdiv 400 = p.era := by
    rw [Int.fdiv_eq_ediv_of_nonneg _ (by decide)]
    omega
  have hyoe : (p.yoe + p.era * 400).fmod 400 = p.yoe := by
    rw [Int.fmod_eq_emod_of_nonneg _ (by decide)]
    omega
  have htm : p.tm.mon = p.mon := rfl
  have htime := p.time
  have hday := p.day
  have hdoy := p.dayOfYear
  unfold timegm
  dsimp only
  rw [htm, hmon.1, hmon.2, hyear, hera, hyoe, mp_eq]
  unfold tm
  dsimp only
  omega

end CivilTime

def civilTime (t : Int) : CivilTime t where
  days := t.fdiv 86400
  rest := t.fmod 86400
  era := (t.fdiv 86400 + 719468).fdiv 146097
  doe := (t.fdiv 86400 + 719468).fmod 146097
  yoe := _
  doy := _
  mp := _
  mon := _
  wday := (t.fdiv 86400 + 4).fmod 7
  time := (Int.fdiv_mul_add_fmod t 86400).symm
  rest_bounds := ⟨Int.fmod_nonneg_of_pos _ (by decide), Int.fmod_lt_of_pos _ (by decide)⟩
  day := (Int.fdiv_mul_add_fmod _ 146097).symm
  doe_bounds := ⟨Int.fmod_nonneg_of_pos _ (by decide), Int.fmod_lt_of_pos _ (by decide)⟩
  year := rfl
  dayOfYear := rfl
  month := rfl
  monthOfYear := rfl
  wday_bounds := ⟨Int.fmod_nonneg_of_pos _ (by decide), Int.fmod_lt_of_pos _ (by decide)⟩

theorem gmtimeR_eq (t : Int) : gmtimeR t = (civilTime t).tm := rfl

theorem timegm_gmtimeR (t : Int) : timegm (gmtimeR t) = t := (civilTime t).timegm_tm
/-- The names by which dates are written, as `strptime` reads them in the C locale. -/
def weekdays : List Bytes :=
  [bytes "Sun", bytes "Mon", bytes "Tue", bytes "Wed", bytes "Thu", bytes "Fri", bytes "Sat"]

def months : List Bytes :=
  [bytes "Jan", bytes "Feb", bytes "Mar", bytes "Apr", bytes "May", bytes "Jun",
    bytes "Jul", bytes "Aug", bytes "Sep", bytes "Oct", bytes "Nov", bytes "Dec"]

/-- A broken-down time that can be written with two digits a number and four for the year. -/
structure IsDate (tm : Tm) : Prop where
  sec : 0 ≤ tm.sec ∧ tm.sec < 60
  min : 0 ≤ tm.min ∧ tm.min < 60
  hour : 0 ≤ tm.hour ∧ tm.hour < 24
  mday : 1 ≤ tm.mday ∧ tm.mday ≤ 31
  mon : 0 ≤ tm.mon ∧ tm.mon < 12
  year : 0 ≤ tm.year + 1900 ∧ tm.year + 1900 < 10000
  wday : 0 ≤ tm.wday ∧ tm.wday < 7

/-- A broken-down time written in the format `%a, %d %b %Y %H:%M:%S`, in the zone GMT. -/
def dateText (tm : Tm) : Bytes :=
  [space].intercalate
    [weekdays.getD tm.wday.toNat [] ++ bytes ",", zeroPadded 2 tm.mday,
      months.getD tm.mon.toNat [], zeroPadded 4 (tm.year + 1900),
      (bytes ":").intercalate [zeroPadded 2 tm.hour, zeroPadded 2 tm.min, zeroPadded 2 tm.sec],
      bytes "GMT"]

/-- The C library of macOS and the BSDs, in a process whose time zone is so many seconds ahead of
UTC at a time. When `strptime` has matched the zone `GMT`, it converts what it has read to local
time. -/
structure BsdLibc (libc : Libc) (offset : Int → Int) : Prop where
  localtimeR : ∀ t, libc.localtimeR t = gmtimeR (t + offset t)
  strptime : ∀ tm, IsDate tm → libc.strptime (dateText tm) = some (libc.localtimeR (timegm tm))

variable {t : Int} {tm : Tm} {libc : Libc} {offset : Int → Int} {req : HttpRequest}

/-- From the first second of 1970 to the last of 9999, every time stamp has a date. -/
theorem isDate_gmtimeR (h0 : 0 ≤ t) (h1 : t ≤ 253402300799) : IsDate (gmtimeR t) := by
  rw [gmtimeR_eq]
  generalize civilTime t = p
  obtain ⟨hr0, hr1⟩ := p.rest_bounds
  obtain ⟨hd0, hd1⟩ := p.doe_bounds
  obtain ⟨hy0, hy1⟩ := p.yoe_bounds
  obtain ⟨hdoy0, hdoy1⟩ := p.doy_bounds
  obtain ⟨hm0, hm1⟩ := p.mon_bounds
  have htime := p.time
  have hday := p.day
  have hdoy := p.dayOfYear
  have hmonth := p.month
  have hmon := p.monthOfYear
  constructor
  · change 0 ≤ p.rest % 60 ∧ p.rest % 60 < 60
    omega
  · change 0 ≤ p.rest / 60 % 60 ∧ p.rest / 60 % 60 < 60
    omega
  · change 0 ≤ p.rest / 3600 ∧ p.rest / 3600 < 24
    omega
  · change 1 ≤ p.doy - (153 * p.mp + 2) / 5 + 1 ∧ p.doy - (153 * p.mp + 2) / 5 + 1 ≤ 31
    omega
  · change 0 ≤ p.mon ∧ p.mon < 12
    omega
  · change 0 ≤ p.yoe + p.era * 400 + (if p.mon ≤ 1 then 1 else 0) - 1900 + 1900 ∧
      p.yoe + p.era * 400 + (if p.mon ≤ 1 then 1 else 0) - 1900 + 1900 < 10000
    split
    · split at hmon <;> omega
    · omega
  · exact p.wday_bounds

theorem weekdayName_eq {wday : Int} (h : 0 ≤ wday ∧ wday < 7) :
    weekdayName wday = weekdays.getD wday.toNat [] := by
  obtain ⟨h0, h1⟩ := h
  interval_cases wday <;> rfl

theorem monthName_eq {mon : Int} (h : 0 ≤ mon ∧ mon < 12) :
    monthName mon = months.getD mon.toNat [] := by
  obtain ⟨h0, h1⟩ := h
  interval_cases mon <;> rfl

/-- The formatter, with its own tables, writes dates as they are read. -/
theorem formatTime_eq (h : IsDate (gmtimeR t)) : formatTime t = dateText (gmtimeR t) := by
  have hcomma : bytes ", " = bytes "," ++ [space] := by decide
  have hspace : bytes " " = [space] := by decide
  have hgmt : bytes " GMT" = [space] ++ bytes "GMT" := by decide
  unfold formatTime dateText
  dsimp only
  rw [weekdayName_eq h.wday, monthName_eq h.mon, hcomma, hspace, hgmt]
  simp only [List.intercalate_cons_cons, List.intercalate_singleton, List.append_assoc]

theorem formatTime_ne_nil (t : Int) : formatTime t ≠ [] :=
  List.append_ne_nil_of_right_ne_nil _ (by decide)

/-- What the server reads in the date that it has written: the process's offset is added. -/
theorem parse_formatTime (hlibc : BsdLibc libc offset) (h0 : 0 ≤ t) (h1 : t ≤ 253402300799)
    (hreq : req.header (bytes "if-modified-since") = formatTime t) :
    req.parseIfModifiedSince libc = some (t + offset t) := by
  have hdate := isDate_gmtimeR h0 h1
  have hwhole : (formatTime t).takeWhile (· ≠ 0) = formatTime t := by
    rw [List.takeWhile_eq_self_iff]
    intro b hb
    have hle := printable_formatTime t b hb
    refine decide_eq_true ?_
    rintro rfl
    exact absurd hle (by decide)
  rw [HttpRequest.parseIfModifiedSince, hreq, if_neg (formatTime_ne_nil t), hwhole, formatTime_eq hdate, hlibc.strptime _ hdate,
    timegm_gmtimeR, hlibc.localtimeR, Option.map_some, timegm_gmtimeR]

theorem number_zeros (k : Nat) (ds : Bytes) :
    HttpRequest.number (List.replicate k 48 ++ ds) = HttpRequest.number ds := by
  induction k with
  | zero => rfl
  | succ k ih => exact ih

theorem number_decimal (n : Nat) : HttpRequest.number (decimal n) = n := by
  have hfold (cs : List Char) (hcs : ∀ c ∈ cs, c.isDigit) (acc : Nat) :
      (cs.map fun c => c.toNat.toUInt8).foldl (fun n c => n * 10 + ((c.toNat : Int) - 48)) (acc : Int) =
        (Nat.ofDigitChars 10 cs acc : Nat) := by
    induction cs generalizing acc with
    | nil => rfl
    | cons c cs ih =>
      have hc : 48 ≤ c.toNat ∧ c.toNat ≤ 57 := by
        have hdigit := hcs c List.mem_cons_self
        simp only [Char.isDigit, Bool.and_eq_true, decide_eq_true_eq] at hdigit
        exact hdigit
      have hsize : UInt8.size = 256 := rfl
      have hbyte : c.toNat.toUInt8.toNat = c.toNat := UInt8.toNat_ofNat_of_lt' (by omega)
      have hnext : (acc : Int) * 10 + ((c.toNat : Int) - 48) =
          (10 * acc + (c.toNat - '0'.toNat) : Nat) := by
        have hzero : '0'.toNat = 48 := rfl
        omega
      rw [List.map_cons, List.foldl_cons, hbyte, hnext, Nat.ofDigitChars_cons]
      exact ih (fun d hd => hcs d (List.mem_cons_of_mem _ hd)) _
  have hdigits (c : Char) (hc : c ∈ Nat.toDigits 10 n) : c.isDigit :=
    Nat.isDigit_of_mem_toDigits (by decide) (by decide) hc
  have hn := hfold (Nat.toDigits 10 n) hdigits 0
  rwa [Nat.ofDigitChars_ten_toDigits] at hn

theorem mem_zeroPadded {w : Nat} {n : Int} {b : UInt8} (hn : 0 ≤ n) (h : b ∈ zeroPadded w n) :
    48 ≤ b ∧ b ≤ 57 := by
  unfold zeroPadded at h
  dsimp only at h
  rw [if_neg (Int.not_lt.2 hn)] at h
  rcases List.mem_append.1 h with h | h
  · rw [List.eq_of_mem_replicate h]
    decide
  · exact mem_decimal h

theorem number_zeroPadded {n : Int} (w : Nat) (hn : 0 ≤ n) :
    HttpRequest.number (zeroPadded w n) = n := by
  unfold zeroPadded
  dsimp only
  rw [if_neg (Int.not_lt.2 hn), number_zeros, number_decimal]
  omega

/-- A date in the format of `dateText`, read back. -/
def readDate (s : Bytes) : Option Tm :=
  match s.splitOn space with
  | [wday, mday, mon, year, time, _] =>
    match time.splitOn 58 with
    | [hour, min, sec] =>
      some
        { sec := HttpRequest.number sec
          min := HttpRequest.number min
          hour := HttpRequest.number hour
          mday := HttpRequest.number mday
          mon := months.idxOf mon
          year := HttpRequest.number year - 1900
          wday := weekdays.idxOf wday.dropLast }
    | _ => none
  | _ => none

/-- The two functions, in a process whose time zone is so many seconds ahead of UTC at a time. -/
def bsdLibc (offset : Int → Int) : Libc where
  strptime s := (readDate s).map fun tm => gmtimeR (timegm tm + offset (timegm tm))
  localtimeR t := gmtimeR (t + offset t)

theorem notMem_zeroPadded {w : Nat} {n : Int} {b : UInt8} (hn : 0 ≤ n) (hb : b < 48 ∨ 57 < b) :
    b ∉ zeroPadded w n := by
  intro hmem
  obtain ⟨hlo, hhi⟩ := mem_zeroPadded hn hmem
  rcases hb with hb | hb
  · exact UInt8.not_lt.2 hlo hb
  · exact UInt8.not_lt.2 hhi hb

theorem weekdays_read {wday : Int} (h : 0 ≤ wday ∧ wday < 7) :
    space ∉ weekdays.getD wday.toNat [] ++ bytes "," ∧
      weekdays.idxOf (weekdays.getD wday.toNat [] ++ bytes ",").dropLast = wday := by
  obtain ⟨h0, h1⟩ := h
  interval_cases wday <;> decide

theorem months_read {mon : Int} (h : 0 ≤ mon ∧ mon < 12) :
    space ∉ months.getD mon.toNat [] ∧ months.idxOf (months.getD mon.toNat []) = mon := by
  obtain ⟨h0, h1⟩ := h
  interval_cases mon <;> decide

theorem readDate_dateText (h : IsDate tm) : readDate (dateText tm) = some tm := by
  obtain ⟨hwday, hwdayRead⟩ := weekdays_read h.wday
  obtain ⟨hmon, hmonRead⟩ := months_read h.mon
  have hmday : 0 ≤ tm.mday := by
    have hm := h.mday
    omega
  have hspace {w : Nat} {n : Int} (hn : 0 ≤ n) : space ∉ zeroPadded w n :=
    notMem_zeroPadded hn (by decide)
  have hcolon {w : Nat} {n : Int} (hn : 0 ≤ n) : 58 ∉ zeroPadded w n :=
    notMem_zeroPadded hn (by decide)
  have htime : [58].intercalate [zeroPadded 2 tm.hour, zeroPadded 2 tm.min, zeroPadded 2 tm.sec] =
      (bytes ":").intercalate [zeroPadded 2 tm.hour, zeroPadded 2 tm.min, zeroPadded 2 tm.sec] := rfl
  have htimeSpace : space ∉ (bytes ":").intercalate
      [zeroPadded 2 tm.hour, zeroPadded 2 tm.min, zeroPadded 2 tm.sec] := by
    have hsep : space ∉ bytes ":" := by decide
    simp only [List.intercalate_cons_cons, List.intercalate_singleton, List.mem_append, not_or]
    exact ⟨⟨hspace h.hour.1, hsep⟩, ⟨hspace h.min.1, hsep⟩, hspace h.sec.1⟩
  unfold readDate dateText
  rw [List.splitOn_intercalate]
  · dsimp only
    rw [← htime, List.splitOn_intercalate]
    · dsimp only
      rw [number_zeroPadded 2 h.sec.1, number_zeroPadded 2 h.min.1, number_zeroPadded 2 h.hour.1,
        number_zeroPadded 2 hmday, number_zeroPadded 4 h.year.1, hmonRead, hwdayRead,
        Int.add_sub_cancel]
    · simp only [List.forall_mem_cons]
      exact ⟨hcolon h.hour.1, hcolon h.min.1, hcolon h.sec.1, fun _ hs => (List.not_mem_nil hs).elim⟩
    · exact List.cons_ne_nil _ _
  · simp only [List.forall_mem_cons]
    exact ⟨hwday, hspace hmday, hmon, hspace h.year.1, htimeSpace, by decide,
      fun _ hs => (List.not_mem_nil hs).elim⟩
  · exact List.cons_ne_nil _ _

theorem bsdLibc_bsd (offset : Int → Int) : BsdLibc (bsdLibc offset) offset := by
  refine ⟨fun _ => rfl, fun tm h => ?_⟩
  change (readDate (dateText tm)).map _ = _
  rw [readDate_dateText h]
  rfl

end FileWebServer
