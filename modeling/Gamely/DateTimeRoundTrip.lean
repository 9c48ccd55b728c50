import Gamely.DateTimes
import Mathlib.Tactic.Ring

/-!
# Reading back a datetime

The calendar is inverted first, then each field of the ISO text. A datetime comes
back as it was but for an offset of less than a second.
-/

set_option autoImplicit false

namespace Gamely.DateTimes
open Gamely.Json (Text isDigit number isDigit_iff)

/-! ## The calendar -/

theorem month_table : ∀ leap : Bool, ∀ n < 366, n < (if leap then 366 else 365) →
    1 ≤ (monthOf leap n).1 ∧ (monthOf leap n).1 ≤ 12 ∧ 1 ≤ (monthOf leap n).2 ∧
    (monthOf leap n).2 ≤ daysInMonth leap (monthOf leap n).1 ∧
    daysBeforeMonth leap (monthOf leap n).1+(monthOf leap n).2 = n+1 := by
  decide +kernel

theorem before_december (leap : Bool) :
    daysBeforeMonth leap 12 = (if leap then 335 else 334) := by
  cases leap <;> rfl

theorem isLeap_iff (year : ℕ) :
    isLeap year = true ↔ year%4 = 0 ∧ (year%100 ≠ 0 ∨ year%400 = 0) := by
  simp [isLeap]

theorem isLeap_split (a b c d : ℕ) (hb : b < 4) (hc : c < 25) (hd : d < 4) :
    isLeap (a*400+b*100+c*4+d+1) = (d = 3 && (c ≠ 24 || b = 3)) := by
  rw [Bool.eq_iff_iff, isLeap_iff]
  simp only [Bool.and_eq_true, Bool.or_eq_true, decide_eq_true_eq]
  omega

theorem daysBeforeYear_split (a b c d : ℕ) (hb : b < 4) (hc : c < 25) (hd : d < 4) :
    daysBeforeYear (a*400+b*100+c*4+d+1) = a*146097+b*36524+c*1461+d*365 := by
  unfold daysBeforeYear
  omega

/-- The last day of a leap year, where the division gives a fifth year or century. -/
theorem december_31 (year n : ℕ) (hy : 1 ≤ year ∧ year ≤ 9999) (hl : isLeap year = true)
    (hn : daysBeforeYear year+365 = n) :
    Date.valid ⟨year, 12, 31⟩ = true ∧ ymd2ord ⟨year, 12, 31⟩ = n+1 := by
  constructor
  · simp [Date.valid, hy, daysInMonth]
  · simp only [ymd2ord, before_december, hl, if_true]
    omega

/-- `_ord2ymd` gives a valid date, and `_ymd2ord` takes it back. -/
theorem ord2ymd_spec (n : ℕ) (h : n < 3652059) :
    (ord2ymd (n+1)).valid = true ∧ ymd2ord (ord2ymd (n+1)) = n+1 := by
  have h1 : n/146097 < 25 := by omega
  obtain ⟨a, ha⟩ : ∃ a, a = n/146097 := ⟨_, rfl⟩
  obtain ⟨n', hn'⟩ : ∃ n', n' = n%146097 := ⟨_, rfl⟩
  obtain ⟨b, hb⟩ : ∃ b, b = n'/36524 := ⟨_, rfl⟩
  obtain ⟨n'', hn''⟩ : ∃ n'', n'' = n'%36524 := ⟨_, rfl⟩
  obtain ⟨c, hc⟩ : ∃ c, c = n''/1461 := ⟨_, rfl⟩
  obtain ⟨m, hm⟩ : ∃ m, m = n''%1461 := ⟨_, rfl⟩
  obtain ⟨d, hd⟩ : ∃ d, d = m/365 := ⟨_, rfl⟩
  obtain ⟨r, hr⟩ : ∃ r, r = m%365 := ⟨_, rfl⟩
  have hlt : c < 25 := by omega
  simp only [ord2ymd, Nat.add_sub_cancel, ← ha, ← hn', ← hb, ← hn'', ← hc, ← hm, ← hd, ← hr]
  by_cases hlast : d = 4 ∨ b = 4
  · rw [if_pos hlast]
    -- Either the fourth century of 400 years or the fourth year of four ends here.
    have hfields : b = 4 ∧ c = 0 ∧ d = 0 ∧ r = 0 ∨ b < 4 ∧ c < 24 ∧ d = 4 ∧ r = 0 := by
      rcases hlast with h | h
      · have hb4 : b ≠ 4 := by
          intro hb4
          have hz : n'' = 0 := by omega
          omega
        have hm' : m = 1460 := by omega
        omega
      · have hz : n'' = 0 := by omega
        omega
    rcases hfields with ⟨hb4, hc0, hd0, hr0⟩ | ⟨hb4, hc24, hd4, hr0⟩
    · have hyear : a*400+b*100+c*4+d = a*400+3*100+24*4+3+1 := by omega
      have hy := daysBeforeYear_split a 3 24 3 (by decide) (by decide) (by decide)
      rw [hyear]
      apply december_31
      · omega
      · rw [isLeap_split a 3 24 3 (by decide) (by decide) (by decide)]
        rfl
      · omega
    · have hyear : a*400+b*100+c*4+d = a*400+b*100+c*4+3+1 := by omega
      have hy := daysBeforeYear_split a b c 3 hb4 hlt (by decide)
      rw [hyear]
      apply december_31
      · omega
      · have hc : c ≠ 24 := by omega
        simp [isLeap_split a b c 3 hb4 hlt (by decide), hc]
      · omega
  · rw [if_neg hlast]
    have hd4 : d < 4 := by omega
    have hb4 : b < 4 := by omega
    have hleap := isLeap_split a b c d hb4 hlt hd4
    obtain ⟨leap, hl⟩ : ∃ leap, leap = (decide (d = 3) && (decide (c ≠ 24) || decide (b = 3))) :=
      ⟨_, rfl⟩
    rw [← hl] at hleap
    have hrl : r < 366 := by omega
    obtain ⟨hm1, hm12, hd1, hdm, hsum⟩ := month_table leap r hrl (by split <;> omega)
    rw [← hl]
    constructor
    · simp [Date.valid, hleap, hm1, hm12, hd1, hdm]
      omega
    · have hy := daysBeforeYear_split a b c d hb4 hlt hd4
      simp only [ymd2ord, hleap, hy]
      omega

/-! ## Fields -/

theorem parseDigits_append (ds rest : Text) (h : ∀ c ∈ ds, isDigit c = true) :
    parseDigits ds.length (ds ++ rest) = some (number ds, rest) := by
  have hall : ds.all isDigit = true := List.all_eq_true.mpr h
  simp [parseDigits, hall]

theorem pad2_digits (n : ℕ) (h : n < 100) : ∀ c ∈ pad2 n, isDigit c = true := by
  simp only [pad2, List.mem_cons, List.not_mem_nil, or_false, isDigit_iff]
  omega

theorem number_pad2 (n : ℕ) : number (pad2 n) = n := by
  simp [number, pad2]
  omega

theorem number_append (s t : Text) : number (s ++ t) = number s*10^t.length+number t := by
  have shift : ∀ (t : Text) (k : ℕ), t.foldl (fun n c => 10*n+(c-48)) k =
      k*10^t.length+t.foldl (fun n c => 10*n+(c-48)) 0 := by
    intro t
    induction t with
    | nil => simp
    | cons c t ih =>
      intro k
      rw [List.foldl_cons, List.foldl_cons, ih, ih (10*0+(c-48)), List.length_cons, pow_succ]
      ring
  rw [number, List.foldl_append, shift]
  rfl

theorem pad4_digits (n : ℕ) (h : n < 10000) : ∀ c ∈ pad4 n, isDigit c = true := by
  intro c hc
  rcases List.mem_append.mp hc with hc | hc
  · exact pad2_digits _ (by omega) c hc
  · exact pad2_digits _ (by omega) c hc

theorem number_pad4 (n : ℕ) : number (pad4 n) = n := by
  rw [pad4, number_append, number_pad2, number_pad2]
  change n/100*10^2+n%100 = n
  omega

theorem pad6_digits (n : ℕ) (h : n < 1000000) : ∀ c ∈ pad6 n, isDigit c = true := by
  intro c hc
  rcases List.mem_append.mp hc with hc | hc
  · exact pad2_digits _ (by omega) c hc
  · exact pad4_digits _ (by omega) c hc

theorem number_pad6 (n : ℕ) : number (pad6 n) = n := by
  rw [pad6, number_append, number_pad2, number_pad4]
  change n/10000*10^4+n%10000 = n
  omega

theorem parse_pad2 (n : ℕ) (h : n < 100) (rest : Text) :
    parseDigits 2 (pad2 n ++ rest) = some (n, rest) := by
  have hp := parseDigits_append (pad2 n) rest (pad2_digits n h)
  rwa [number_pad2] at hp

theorem parse_pad4 (n : ℕ) (h : n < 10000) (rest : Text) :
    parseDigits 4 (pad4 n ++ rest) = some (n, rest) := by
  have hp := parseDigits_append (pad4 n) rest (pad4_digits n h)
  rwa [number_pad4] at hp

theorem accept_pad2 (n : ℕ) (h : n < 100) (rest : Text) {c : ℕ} (hc : isDigit c = false) :
    Json.accept c (pad2 n ++ rest) = none := by
  have hd := pad2_digits n h (48+n/10) (by simp [pad2])
  have hne : 48+n/10 ≠ c := by
    rintro rfl
    rw [hd] at hc
    cases hc
  simp [pad2, Json.accept, hne]

@[simp] theorem accept_self (c : ℕ) (s : Text) : Json.accept c (c::s) = some s := by
  simp [Json.accept]

@[simp] theorem pad2_ne_nil (n : ℕ) : pad2 n ≠ [] := by simp [pad2]

/-! ## Dates and times -/

theorem parseDate_dateText (d : Date) (h : d.valid = true) :
    parseDate (dateText d) = some (ymd2ord d) := by
  obtain ⟨year, month, day⟩ := d
  have hv := h
  simp only [Date.valid, Bool.and_eq_true, decide_eq_true_eq] at h
  obtain ⟨⟨⟨⟨⟨-, hy⟩, -⟩, hm⟩, -⟩, hd⟩ := h
  have hday : day < 100 := by
    have : ∀ leap, daysInMonth leap month ≤ 31 := by
      intro leap
      unfold daysInMonth
      split_ifs <;> omega
    have := this (isLeap year)
    omega
  have hend := parse_pad2 day hday []
  rw [List.append_nil] at hend
  have hw : Json.accept 87 (pad2 month ++ 45 :: pad2 day) = none :=
    accept_pad2 month (by omega) _ (by decide)
  simp [parseDate, dateText, parse_pad4 year (by omega), hw, parseMonthDay,
    parse_pad2 month (by omega), hend, hv]

theorem parseFraction_pad6 (more : Bool) (n : ℕ) (h : n < 1000000) :
    parseFraction more (pad6 n) = some (n, more) := by
  have hp : parseDigits 6 (pad6 n ++ []) = some (n, []) := by
    have hp := parseDigits_append (pad6 n) [] (pad6_digits n h)
    rwa [number_pad6] at hp
  have hl : (pad6 n).length = 6 := rfl
  rw [List.append_nil] at hp
  simp only [parseFraction, hl, min_self, hp, bind, Option.bind, Nat.sub_self, pow_zero, mul_one,
    List.dropWhile_nil, goesOn]

def Time.Fits (t : Time) : Prop :=
  t.hour < 24 ∧ t.minute < 60 ∧ t.second < 60 ∧ t.microsecond < 1000000

theorem timeOf_fits (micros : ℕ) (h : micros < 86400000000) : (timeOf micros).Fits := by
  simp only [Time.Fits, timeOf]
  omega

theorem micros_timeOf (micros : ℕ) : (timeOf micros).micros = micros := by
  simp only [timeOf, Time.micros]
  omega

theorem behind_nil (more colons : Bool) : behind more colons [] = some (.ended more) := rfl

theorem behind_colon (more : Bool) (s : Text) (h : s ≠ []) :
    behind more true (58::s) = some (.field s) := by
  simp [behind, h]

theorem behind_point (more : Bool) (s : Text) (h : s ≠ []) :
    behind more true (46::s) = some (.fraction s) := by
  simp [behind, h]

theorem parseSecond_text (more : Bool) (hour minute second microsecond : ℕ) (hs : second < 60)
    (hf : microsecond < 1000000) :
    parseSecond more true hour minute (pad2 second ++ fractionText microsecond) =
      some (⟨hour, minute, second, microsecond⟩, more) := by
  unfold parseSecond fractionText
  rw [parse_pad2 second (by omega)]
  split
  case isTrue hz =>
    subst hz
    simp only [bind, Option.bind, behind_nil]
  case isFalse =>
    have hne : pad6 microsecond ≠ [] := by simp [pad6]
    simp only [bind, Option.bind, behind_point more _ hne, parseFraction_pad6 more _ hf]

theorem parseTime_timeText (more : Bool) (t : Time) (h : t.Fits) :
    parseTime more (timeText t) = some (t, more) := by
  obtain ⟨hour, minute, second, microsecond⟩ := t
  obtain ⟨hh, hm, hs, hf⟩ := h
  simp only at hh hm hs hf
  have hsecond : pad2 second ++ fractionText microsecond ≠ [] := by simp
  have hminute : pad2 minute ++ 58::(pad2 second ++ fractionText microsecond) ≠ [] := by simp
  simp only [parseTime, timeText, parse_pad2 hour (by omega), bind, Option.bind, List.head?_cons,
    decide_true, behind_colon more _ hminute, parseMinute, parse_pad2 minute (by omega),
    behind_colon more _ hsecond, parseSecond_text more hour minute second microsecond hs hf]

theorem parseTime_offsetText (more : Bool) (t : Time) (h : t.Fits) :
    parseTime more (offsetText t) = some (t, more) := by
  by_cases hz : t.second = 0 ∧ t.microsecond = 0
  · obtain ⟨hour, minute, second, microsecond⟩ := t
    obtain ⟨hh, hm, -, -⟩ := h
    simp only at hh hm
    obtain ⟨rfl, rfl⟩ := hz
    have hend := parse_pad2 minute (by omega) []
    have hminute : pad2 minute ++ ([] : Text) ≠ [] := by simp
    simp only [parseTime, offsetText, and_self, if_true, parse_pad2 hour (by omega), bind,
      Option.bind, List.head?_cons, decide_true, behind_colon more _ hminute, parseMinute, hend,
      behind_nil]
  · have he : offsetText t = timeText t := by simp [offsetText, timeText, hz]
    rw [he]
    exact parseTime_timeText more t h

theorem timeText_plain (t : Time) (h : t.Fits) : ∀ c ∈ timeText t, isZone c = false := by
  obtain ⟨hh, hm, hs, hf⟩ := h
  have digit : ∀ c, isDigit c = true → isZone c = false := by
    intro c hc
    rw [isDigit_iff] at hc
    simp only [isZone, Bool.or_eq_false_iff, decide_eq_false_iff_not]
    omega
  intro c hc
  simp only [timeText, fractionText, List.mem_append, List.mem_cons] at hc
  rcases hc with hc | rfl | hc | rfl | hc | hc
  · exact digit c (pad2_digits _ (by omega) c hc)
  · rfl
  · exact digit c (pad2_digits _ (by omega) c hc)
  · rfl
  · exact digit c (pad2_digits _ (by omega) c hc)
  · split at hc
    · cases hc
    · rcases List.mem_cons.mp hc with rfl | hc
      · rfl
      · exact digit c (pad6_digits _ hf c hc)

theorem span_zone (t : Time) (h : t.Fits) (o : Option ℤ) :
    (timeText t ++ zoneText o).takeWhile (fun c => !isZone c) = timeText t ∧
    (timeText t ++ zoneText o).dropWhile (fun c => !isZone c) = zoneText o := by
  have hplain : ∀ c ∈ timeText t, (!isZone c) = true := by
    intro c hc
    rw [timeText_plain t h c hc]
    rfl
  have stop : (zoneText o).takeWhile (fun c => !isZone c) = [] ∧
      (zoneText o).dropWhile (fun c => !isZone c) = zoneText o := by
    cases o with
    | none => exact ⟨rfl, rfl⟩
    | some o =>
      unfold zoneText
      split <;> simp [isZone]
  constructor
  · rw [List.takeWhile_append_of_pos hplain, stop.1, List.append_nil]
  · rw [List.dropWhile_append_of_pos hplain, stop.2]

theorem wholeOffset_idem (o : ℤ) : wholeOffset (wholeOffset o) = wholeOffset o := by
  unfold wholeOffset
  split <;> simp_all

@[simp] theorem DateTime.read_read (t : DateTime) : t.read.read = t.read := by
  simp only [DateTime.read, Option.map_map, Function.comp_def, wholeOffset_idem]

@[simp] theorem DateTime.read_none (t : DateTime) :
    t.read.utcoffset = none ↔ t.utcoffset = none := by
  simp [DateTime.read]

theorem parseZone_sign (sign : ℕ) (hsign : sign ≠ 90) (micros : ℕ) (h : micros < 86400000000) :
    parseZone (sign :: offsetText (timeOf micros)) =
      if micros < 1000000 then some (some 0)
      else some (some (if sign = 45 then -(micros : ℤ) else micros)) := by
  have htime := parseTime_offsetText false _ (timeOf_fits micros h)
  rw [parseZone, if_neg hsign, htime, Option.bind_eq_bind, Option.bind_some]
  simp only [Bool.false_eq_true, if_false, micros_timeOf]

theorem parseZone_zoneText (o : Option ℤ)
    (h : ∀ x ∈ o, -86400000000 < x ∧ x < 86400000000) :
    parseZone (zoneText o) = some (o.map wholeOffset) := by
  cases o with
  | none => rfl
  | some o =>
    obtain ⟨hlo, hhi⟩ := h o rfl
    rw [zoneText, parseZone_sign _ (by split <;> decide) _ (by omega), Option.map_some, wholeOffset]
    by_cases hwhole : o.natAbs < 1000000
    · rw [if_pos hwhole, if_pos hwhole]
    · rw [if_neg hwhole, if_neg hwhole]
      congr 2
      by_cases hneg : o < 0
      · rw [if_pos hneg, if_pos rfl]
        omega
      · rw [if_neg hneg, if_neg (by decide)]
        omega

theorem parseTimeZone_text (t : Time) (h : t.Fits) (o : Option ℤ)
    (ho : ∀ x ∈ o, -86400000000 < x ∧ x < 86400000000) :
    parseTimeZone (timeText t ++ zoneText o) = some (t, o.map wholeOffset) := by
  obtain ⟨hspan, hspan'⟩ := span_zone t h o
  simp only [parseTimeZone, hspan, hspan', parseTime_timeText _ t h, parseZone_zoneText o ho, bind,
    Option.bind]
  simp

theorem findSeparator_dateText (d : Date) (h : d.valid = true) (c : ℕ) (rest : Text) :
    findSeparator (dateText d ++ c::rest) = some 10 := by
  have hm : d.month ≤ 12 := by
    simp only [Date.valid, Bool.and_eq_true, decide_eq_true_eq] at h
    omega
  have h5 : ¬ 48+d.month/10 = 87 := by omega
  simp [findSeparator, dateText, pad4, pad2, h5]

/-! ## Characters -/

def Ascii (s : Text) : Prop := ∀ c ∈ s, c < 128

theorem ascii_digits {s : Text} (h : ∀ c ∈ s, isDigit c = true) : Ascii s := by
  intro c hc
  have := (isDigit_iff c).mp (h c hc)
  omega

theorem ascii_nil : Ascii [] := fun _ h => absurd h (List.not_mem_nil)

theorem ascii_cons {c : ℕ} {s : Text} (hc : c < 128) (hs : Ascii s) : Ascii (c::s) := by
  intro d hd
  rcases List.mem_cons.mp hd with rfl | hd
  · exact hc
  · exact hs d hd

theorem ascii_append {s t : Text} (hs : Ascii s) (ht : Ascii t) : Ascii (s ++ t) := by
  intro c hc
  rcases List.mem_append.mp hc with hc | hc
  · exact hs c hc
  · exact ht c hc

theorem ascii_pad2 {n : ℕ} (h : n < 100) : Ascii (pad2 n) := ascii_digits (pad2_digits n h)

theorem fractionText_ascii {n : ℕ} (h : n < 1000000) : Ascii (fractionText n) := by
  unfold fractionText
  split
  · exact ascii_nil
  · exact ascii_cons (by decide) (ascii_digits (pad6_digits n h))

theorem timeText_ascii (t : Time) (h : t.Fits) : Ascii (timeText t) := by
  obtain ⟨hh, hm, hs, hf⟩ := h
  apply ascii_append (ascii_pad2 (by omega))
  apply ascii_cons (by decide)
  apply ascii_append (ascii_pad2 (by omega))
  apply ascii_cons (by decide)
  exact ascii_append (ascii_pad2 (by omega)) (fractionText_ascii hf)

theorem offsetText_ascii (t : Time) (h : t.Fits) : Ascii (offsetText t) := by
  have hlong := timeText_ascii t h
  obtain ⟨hh, hm, -, -⟩ := h
  unfold offsetText
  split
  · apply ascii_append (ascii_pad2 (by omega))
    apply ascii_cons (by decide)
    exact ascii_append (ascii_pad2 (by omega)) ascii_nil
  · exact hlong

theorem isoformat_ascii (t : DateTime) : Ascii (isoformat t) := by
  obtain ⟨hvalid, -⟩ := ord2ymd_spec (t.clock/86400000000) (by have := t.clock_lt; omega)
  obtain ⟨d, hd⟩ : ∃ d, d = ord2ymd (t.clock/86400000000+1) := ⟨_, rfl⟩
  rw [isoformat, ← hd]
  rw [← hd] at hvalid
  simp only [Date.valid, Bool.and_eq_true, decide_eq_true_eq] at hvalid
  obtain ⟨⟨⟨⟨⟨-, hy⟩, -⟩, hm⟩, -⟩, hday⟩ := hvalid
  have hday : d.day < 100 := by
    unfold daysInMonth at hday
    split_ifs at hday <;> omega
  apply ascii_append
  · apply ascii_append (ascii_digits (pad4_digits _ (by omega)))
    apply ascii_cons (by decide)
    apply ascii_append (ascii_pad2 (by omega))
    exact ascii_cons (by decide) (ascii_pad2 hday)
  · apply ascii_cons (by decide)
    apply ascii_append
    · exact timeText_ascii _ (timeOf_fits _ (Nat.mod_lt _ (by decide)))
    · have hoffset := t.offset_lt
      cases ho : t.utcoffset with
      | none => exact ascii_nil
      | some o =>
        obtain ⟨hlo, hhi⟩ := hoffset o ho
        have hfits := timeOf_fits o.natAbs (by omega)
        exact ascii_cons (by split <;> decide) (offsetText_ascii _ hfits)

theorem not_surrogate {c : ℕ} (h : c < 128) : isSurrogate c = false := by
  simp only [isSurrogate, Bool.and_eq_false_iff, decide_eq_false_iff_not]
  omega

theorem sanitize_ascii {s : Text} (h : Ascii s) : sanitize s = s := by
  have hnone : [7, 8, 10].find? (fun n => (s[n]?.map isSurrogate) = some true) = none := by
    rw [List.find?_eq_none]
    intro n _ hn
    obtain ⟨c, hc, hs⟩ := Option.map_eq_some_iff.mp (of_decide_eq_true hn)
    rw [not_surrogate (h c (List.mem_of_getElem? hc))] at hs
    cases hs
  rw [sanitize, hnone]

theorem any_surrogate_ascii {s : Text} (h : Ascii s) : s.any isSurrogate = false :=
  List.any_eq_false.mpr (fun c hc => by simp [not_surrogate (h c hc)])

/-! ## Reading back -/

theorem fromisoformat_isoformat (t : DateTime) : fromisoformat (isoformat t) = some t.read := by
  have hascii := isoformat_ascii t
  obtain ⟨clock, utcoffset, hclock, hoffset⟩ := t
  obtain ⟨hvalid, hord⟩ := ord2ymd_spec (clock/86400000000) (by omega)
  have hfits := timeOf_fits (clock%86400000000) (Nat.mod_lt _ (by decide))
  obtain ⟨d, hd⟩ : ∃ d, d = ord2ymd (clock/86400000000+1) := ⟨_, rfl⟩
  obtain ⟨time, ht⟩ : ∃ time, time = timeOf (clock%86400000000) := ⟨_, rfl⟩
  have hmicros : time.micros = clock%86400000000 := by rw [ht, micros_timeOf]
  rw [← hd] at hvalid hord
  rw [← ht] at hfits
  have htext : isoformat ⟨clock, utcoffset, hclock, hoffset⟩ =
      dateText d ++ 84::(timeText time ++ zoneText utcoffset) := by
    simp only [isoformat, ← hd, ← ht]
  have hlen : (dateText d).length = 10 := rfl
  have hsep := findSeparator_dateText d hvalid 84 (timeText time ++ zoneText utcoffset)
  have htake : (dateText d ++ 84::(timeText time ++ zoneText utcoffset)).take 10 = dateText d :=
    List.take_left' hlen
  have hdrop : (dateText d ++ 84::(timeText time ++ zoneText utcoffset)).drop (10+1) =
      timeText time ++ zoneText utcoffset := rfl
  have hmore : (dateText d ++ 84::(timeText time ++ zoneText utcoffset)).drop 10 ≠ [] := by
    rw [List.drop_left' hlen]
    exact List.cons_ne_nil _ _
  have hval : time.valid = true := by
    obtain ⟨hh, hm, hs, -⟩ := hfits
    simp [Time.valid, hh, hm, hs]
  have hsum : (ymd2ord d-1)*86400000000+time.micros = clock := by
    rw [hord, hmicros]
    omega
  have hshort : ¬ (dateText d ++ 84::(timeText time ++ zoneText utcoffset)).length < 7 := by
    simp only [List.length_append, hlen]
    omega
  have hmake : DateTime.make clock (utcoffset.map wholeOffset) =
      some (DateTime.read ⟨clock, utcoffset, hclock, hoffset⟩) :=
    dif_pos ⟨hclock, (DateTime.read ⟨clock, utcoffset, hclock, hoffset⟩).offset_lt⟩
  rw [htext] at hascii ⊢
  simp only [fromisoformat, sanitize_ascii hascii, any_surrogate_ascii hascii, hshort,
    Bool.false_eq_true, or_self, if_false, hsep, bind, Option.bind, htake, hdrop, hmore,
    parseDate_dateText d hvalid,
    parseTimeZone_text time hfits utcoffset hoffset, hval, if_true, hsum, hmake]

theorem whole_parseZone {s : Text} {o : Option ℤ} (h : parseZone s = some o) :
    o.map wholeOffset = o := by
  unfold parseZone at h
  split at h
  · cases h
    rfl
  · split at h
    · split at h
      · cases h
      · cases h
        rfl
    · obtain ⟨⟨t, more⟩, -, h⟩ := Option.bind_eq_some_iff.mp h
      dsimp only at h
      split at h
      · cases h
      · split at h
        · cases h
          rfl
        · cases h
          have hwhole : ∀ x : ℤ, x.natAbs = t.micros → wholeOffset x = x :=
            fun x hx => if_neg (by omega)
          rw [Option.map_some, hwhole _ (by split <;> omega)]

theorem read_make {clock : ℕ} {o : Option ℤ} {t : DateTime} (h : DateTime.make clock o = some t)
    (ho : o.map wholeOffset = o) : t.read = t := by
  unfold DateTime.make at h
  split at h
  · cases h
    simp only [DateTime.read, ho]
  · cases h

theorem read_fromisoformat {s : Text} {t : DateTime} (h : fromisoformat s = some t) :
    t.read = t := by
  unfold fromisoformat at h
  dsimp only at h
  split at h
  · cases h
  · obtain ⟨separator, -, h⟩ := Option.bind_eq_some_iff.mp h
    obtain ⟨ordinal, -, h⟩ := Option.bind_eq_some_iff.mp h
    split at h
    · exact read_make h rfl
    · obtain ⟨⟨time, offset⟩, hzone, h⟩ := Option.bind_eq_some_iff.mp h
      dsimp only at h
      split at h
      · refine read_make h ?_
        obtain ⟨⟨time', more⟩, -, hzone⟩ := Option.bind_eq_some_iff.mp hzone
        obtain ⟨offset', ho, hzone⟩ := Option.bind_eq_some_iff.mp hzone
        split at hzone
        · cases hzone
        · cases hzone
          exact whole_parseZone ho
      · cases h

end Gamely.DateTimes
