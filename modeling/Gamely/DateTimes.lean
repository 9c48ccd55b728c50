import Gamely.Json

/-!
# Datetimes

A datetime is a local clock reading and, when it is aware, the offset from UTC
that goes with it. Its ISO text is written and read as `datetime.isoformat` and
`datetime.fromisoformat` of the C module do. The reader takes more forms than the
writer has, and takes an offset of less than a second for UTC.
-/

set_option autoImplicit false

namespace Gamely.DateTimes
open Gamely.Json (Text isDigit number)

/-- Microseconds of the local clock since 0001-01-01, up to the end of 9999, and
an offset of less than a day. -/
structure DateTime where
  clock : ℕ
  utcoffset : Option ℤ
  clock_lt : clock < 315537897600000000
  offset_lt : ∀ o ∈ utcoffset, -86400000000 < o ∧ o < 86400000000
  deriving DecidableEq, Repr

def DateTime.make (clock : ℕ) (utcoffset : Option ℤ) : Option DateTime :=
  if h : clock < 315537897600000000 ∧
      ∀ o ∈ utcoffset, -86400000000 < o ∧ o < 86400000000 then
    some ⟨clock, utcoffset, h.1, h.2⟩
  else none

/-- An offset of no whole second is read as UTC. -/
def wholeOffset (o : ℤ) : ℤ := if o.natAbs < 1000000 then 0 else o

/-- What comes back of a datetime that is written and read. -/
def DateTime.read (t : DateTime) : DateTime where
  clock := t.clock
  utcoffset := t.utcoffset.map wholeOffset
  clock_lt := t.clock_lt
  offset_lt := by
    intro x hx
    obtain ⟨o, ho, rfl⟩ := Option.map_eq_some_iff.mp hx
    have := t.offset_lt o ho
    unfold wholeOffset
    split <;> omega

/-- The instant an aware datetime denotes, in microseconds. -/
def DateTime.instant (t : DateTime) : ℤ := t.clock-t.utcoffset.getD 0

/-! ## The calendar -/

def isLeap (year : ℕ) : Bool := year%4 = 0 && (year%100 ≠ 0 || year%400 = 0)

def daysInMonth (leap : Bool) (month : ℕ) : ℕ :=
  if month = 2 then (if leap then 29 else 28)
  else if month = 4 ∨ month = 6 ∨ month = 9 ∨ month = 11 then 30
  else 31

def daysBeforeMonth (leap : Bool) (month : ℕ) : ℕ :=
  ((List.range (month-1)).map (fun i => daysInMonth leap (i+1))).sum

def daysBeforeYear (year : ℕ) : ℕ := (year-1)*365+(year-1)/4-(year-1)/100+(year-1)/400

structure Date where
  year : ℕ
  month : ℕ
  day : ℕ
  deriving DecidableEq, Repr

/-- `_check_date_fields`. -/
def Date.valid (d : Date) : Bool :=
  1 ≤ d.year && d.year ≤ 9999 && 1 ≤ d.month && d.month ≤ 12 && 1 ≤ d.day &&
    d.day ≤ daysInMonth (isLeap d.year) d.month

/-- `_ymd2ord`: 1 is January 1 of year 1. -/
def ymd2ord (d : Date) : ℕ :=
  daysBeforeYear d.year+daysBeforeMonth (isLeap d.year) d.month+d.day

/-- The month is first guessed, never too low, from the day of the year. -/
def monthOf (leap : Bool) (n : ℕ) : ℕ × ℕ :=
  let month := (n+50)/32
  if daysBeforeMonth leap month ≤ n then (month, n-daysBeforeMonth leap month+1)
  else (month-1, n-daysBeforeMonth leap (month-1)+1)

def ord2ymd (ordinal : ℕ) : Date :=
  let n := ordinal-1
  let n400 := n/146097
  let n := n%146097
  let n100 := n/36524
  let n := n%36524
  let n4 := n/1461
  let n := n%1461
  let n1 := n/365
  let n := n%365
  let year := n400*400+n100*100+n4*4+n1+1
  if n1 = 4 ∨ n100 = 4 then ⟨year-1, 12, 31⟩
  else
    let found := monthOf (n1 = 3 && (n4 ≠ 24 || n100 = 3)) n
    ⟨year, found.1, found.2⟩

/-! ## Writing -/

def pad2 (n : ℕ) : Text := [48+n/10, 48+n%10]

def pad4 (n : ℕ) : Text := pad2 (n/100) ++ pad2 (n%100)

def pad6 (n : ℕ) : Text := pad2 (n/10000) ++ pad4 (n%10000)

structure Time where
  hour : ℕ
  minute : ℕ
  second : ℕ
  microsecond : ℕ
  deriving DecidableEq, Repr

def Time.micros (t : Time) : ℕ := ((t.hour*60+t.minute)*60+t.second)*1000000+t.microsecond

def timeOf (micros : ℕ) : Time :=
  ⟨micros/3600000000, micros/60000000%60, micros/1000000%60, micros%1000000⟩

def fractionText (microsecond : ℕ) : Text :=
  if microsecond = 0 then [] else 46 :: pad6 microsecond

def dateText (d : Date) : Text := pad4 d.year ++ 45 :: (pad2 d.month ++ 45 :: pad2 d.day)

def timeText (t : Time) : Text :=
  pad2 t.hour ++ 58 :: (pad2 t.minute ++ 58 :: (pad2 t.second ++ fractionText t.microsecond))

/-- `_format_offset`: the seconds only when there are any. -/
def offsetText (t : Time) : Text :=
  pad2 t.hour ++ 58 :: (pad2 t.minute ++
    if t.second = 0 ∧ t.microsecond = 0 then []
    else 58 :: (pad2 t.second ++ fractionText t.microsecond))

def zoneText : Option ℤ → Text
  | none => []
  | some o => (if o < 0 then 45 else 43) :: offsetText (timeOf o.natAbs)

def isoformat (t : DateTime) : Text :=
  dateText (ord2ymd (t.clock/86400000000+1)) ++
    84 :: (timeText (timeOf (t.clock%86400000000)) ++ zoneText t.utcoffset)

/-! ## Reading -/

def parseDigits (k : ℕ) (s : Text) : Option (ℕ × Text) :=
  if (s.take k).length = k ∧ (s.take k).all isDigit then some (number (s.take k), s.drop k)
  else none

/-- `_find_isoformat_datetime_separator` of a text of at least seven characters. -/
def findSeparator (s : Text) : Option ℕ :=
  if s.length = 7 then some 7
  else if s[4]? = some 45 then
    if s[5]? = some 87 then
      if s[8]? = some 45 then
        if s.length = 9 then none
        else if (s[10]?.map isDigit) = some true then some 8
        else some 10
      else some 8
    else some 10
  else if s[4]? = some 87 then
    let pos := 7+((s.drop 7).takeWhile isDigit).length
    if pos < 9 then some pos else if pos%2 = 0 then some 7 else some 8
  else some 8

/-- `_isoweek_to_gregorian`, as an ordinal. -/
def isoweekOrdinal (year week day : ℕ) : Option ℕ :=
  let first := ymd2ord ⟨year, 1, 1⟩
  let weekday := (first+6)%7
  let monday := if 3 < weekday then first-weekday+7 else first-weekday
  if year = 0 then none
  else if week = 0 ∨ 53 < week ∨
      (week = 53 ∧ weekday ≠ 3 ∧ ¬ (weekday = 2 ∧ isLeap year = true)) then none
  else if day = 0 ∨ 7 < day then none
  else some (monday+(week-1)*7+(day-1))

def parseWeekDate (year : ℕ) (dashed : Bool) (s : Text) : Option ℕ := do
  let (week, s) ← parseDigits 2 s
  if s = [] then isoweekOrdinal year week 1
  else do
    let s ← if dashed then Json.accept 45 s else some s
    let (day, s) ← parseDigits 1 s
    if s = [] then isoweekOrdinal year week day else none

def parseMonthDay (year : ℕ) (dashed : Bool) (s : Text) : Option ℕ := do
  let (month, s) ← parseDigits 2 s
  let s ← if dashed then Json.accept 45 s else some s
  let (day, s) ← parseDigits 2 s
  if s = [] ∧ Date.valid ⟨year, month, day⟩ = true then some (ymd2ord ⟨year, month, day⟩) else none

/-- `_parse_isoformat_date`, as an ordinal. -/
def parseDate (s : Text) : Option ℕ := do
  let (year, s) ← parseDigits 4 s
  let dashed := (Json.accept 45 s).isSome
  let s := (Json.accept 45 s).getD s
  match Json.accept 87 s with
  | some s => parseWeekDate year dashed s
  | none => parseMonthDay year dashed s

/-- Whether anything is left; the text ends at a NUL, and `more` tells whether
another part follows it. -/
def goesOn (more : Bool) : Text → Bool
  | [] => more
  | c::_ => c ≠ 0

/-- At most six digits count, and further ones are skipped. -/
def parseFraction (more : Bool) (s : Text) : Option (ℕ × Bool) := do
  let (n, rest) ← parseDigits (min s.length 6) s
  some (n*10^(6-min s.length 6), goesOn more (rest.dropWhile isDigit))

/-- What stands behind a field of the time. -/
inductive Behind where
  | ended (more : Bool)
  | fraction (s : Text)
  | field (s : Text)

/-- The last byte of a part is passed over, whatever it is. -/
def behind (more colons : Bool) : Text → Option Behind
  | [] => some (.ended more)
  | c::s =>
    if s = [] ∧ c < 128 then some (.ended (c ≠ 0))
    else if colons ∧ c = 58 then some (.field s)
    else if c = 46 ∨ c = 44 then some (.fraction s)
    else if colons then none
    else some (.field (c::s))

/-- The seconds and a fraction, whose mark may be a colon or, without colons, missing. -/
def parseSecond (more colons : Bool) (hour minute : ℕ) (s : Text) : Option (Time × Bool) := do
  let (second, s) ← parseDigits 2 s
  match ← behind more colons s with
  | .ended more => some (⟨hour, minute, second, 0⟩, more)
  | .fraction s | .field s => do
    let (microsecond, more) ← parseFraction more s
    some (⟨hour, minute, second, microsecond⟩, more)

def parseMinute (more colons : Bool) (hour : ℕ) (s : Text) : Option (Time × Bool) := do
  let (minute, s) ← parseDigits 2 s
  match ← behind more colons s with
  | .ended more => some (⟨hour, minute, 0, 0⟩, more)
  | .fraction s => do
    let (microsecond, more) ← parseFraction more s
    some (⟨hour, minute, 0, microsecond⟩, more)
  | .field s => parseSecond more colons hour minute s

/-- `parse_hh_mm_ss_ff` of the C module: the time, and whether the text goes on. -/
def parseTime (more : Bool) (s : Text) : Option (Time × Bool) := do
  let (hour, s) ← parseDigits 2 s
  let colons := decide (s.head? = some 58)
  match ← behind more colons s with
  | .ended more => some (⟨hour, 0, 0, 0⟩, more)
  | .fraction s => do
    let (microsecond, more) ← parseFraction more s
    some (⟨hour, 0, 0, microsecond⟩, more)
  | .field s => parseMinute more colons hour s

def isZone (c : ℕ) : Bool := c = 43 || c = 45 || c = 90

def Time.valid (t : Time) : Bool := t.hour < 24 && t.minute < 60 && t.second < 60

/-- The offset; none in the outer option is a malformed one. An offset of no whole
second is UTC. -/
def parseZone : Text → Option (Option ℤ)
  | [] => some none
  | c::s =>
    if c = 90 then (if goesOn false s = true then none else some (some 0))
    else do
      let (t, more) ← parseTime false s
      if more = true then none
      else if t.micros < 1000000 then some (some 0)
      else some (some (if c = 45 then -(t.micros : ℤ) else t.micros))

/-- `parse_isoformat_time` of the C module: what stands between the time and an
offset is passed over. -/
def parseTimeZone (s : Text) : Option (Time × Option ℤ) := do
  let zone := s.dropWhile (fun c => !isZone c)
  let (t, more) ← parseTime (zone ≠ []) (s.takeWhile (fun c => !isZone c))
  let offset ← parseZone zone
  if zone = [] ∧ more = true then none else some (t, offset)

def isSurrogate (c : ℕ) : Bool := 55296 ≤ c && c < 57344

/-- `_sanitize_isoformat_str`: a surrogate may stand in the place of the `T`. -/
def sanitize (s : Text) : Text :=
  match [7, 8, 10].find? (fun n => (s[n]?.map isSurrogate) = some true) with
  | some n => s.set n 84
  | none => s

/-- `datetime.fromisoformat` of the C module. -/
def fromisoformat (s : Text) : Option DateTime :=
  let s := sanitize s
  if s.length < 7 ∨ s.any isSurrogate = true then none
  else do
    let separator ← findSeparator s
    let ordinal ← parseDate (s.take separator)
    if s.drop separator = [] then DateTime.make ((ordinal-1)*86400000000) none
    else do
      let (t, offset) ← parseTimeZone (s.drop (separator+1))
      if t.valid = true then DateTime.make ((ordinal-1)*86400000000+t.micros) offset else none

end Gamely.DateTimes
