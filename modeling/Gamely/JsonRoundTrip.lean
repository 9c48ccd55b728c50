import Gamely.Json
import Mathlib.Data.Nat.Digits.Lemmas

/-!
# Reading back what was written

The scanner returns a written value and stops right behind it, so members and
items are read one after the other. Values with floats are left out, and so are
objects that name a member twice. A high surrogate with a low one behind it is
read as the code point the two encode, and written alike.
-/

set_option autoImplicit false

namespace Gamely.Json

/-! ## Strings -/

/-- A code point of a text that can be encoded: no surrogate. -/
def IsScalar (c : ℕ) : Prop := c < 1114112 ∧ (c < 55296 ∨ 57344 ≤ c)

theorem scalar_text (s : String) : ∀ c ∈ text s, IsScalar c := by
  intro c hc
  obtain ⟨x, -, rfl⟩ := List.mem_map.mp hc
  have hx : x.toNat.isValidChar := x.valid
  rcases hx with h | ⟨h, h'⟩
  · exact ⟨by omega, Or.inl h⟩
  · exact ⟨h', Or.inr (by omega)⟩

/-- No high surrogate stands right before a low one. -/
def Unpaired : Text → Prop
  | [] => True
  | [_] => True
  | u::v::rest => (isHigh u && isLow v) = false ∧ Unpaired (v::rest)

/-- A text that is read back as it was written. -/
def Whole (s : Text) : Prop := (∀ c ∈ s, c < 1114112) ∧ Unpaired s

theorem unpaired_tail {c : ℕ} {s : Text} (h : Unpaired (c::s)) : Unpaired s := by
  cases s with
  | nil => trivial
  | cons v rest => exact h.2

theorem whole_tail {c : ℕ} {s : Text} (h : Whole (c::s)) : Whole s :=
  ⟨fun d hd => h.1 d (by simp [hd]), unpaired_tail h.2⟩

theorem scalar_not_high {c : ℕ} (h : IsScalar c) : isHigh c = false := by
  have := h.2
  simp only [isHigh, Bool.and_eq_false_iff, decide_eq_false_iff_not]
  omega

theorem unpaired_scalar (s : Text) (h : ∀ c ∈ s, IsScalar c) : Unpaired s := by
  induction s with
  | nil => trivial
  | cons u rest ih =>
    cases rest with
    | nil => trivial
    | cons v rest =>
      have hu := scalar_not_high (h u (by simp))
      exact ⟨by rw [hu, Bool.false_and], ih (fun c hc => h c (by simp [hc]))⟩

theorem whole_scalar (s : Text) (h : ∀ c ∈ s, IsScalar c) : Whole s :=
  ⟨fun c hc => (h c hc).1, unpaired_scalar s h⟩

theorem whole_text (s : String) : Whole (text s) := whole_scalar _ (scalar_text s)

theorem hexDigit_hex (d : ℕ) (h : d < 16) : hexDigit (hex d) = some d := by
  revert d
  decide

theorem hex4_unicode (n : ℕ) (h : n < 65536) (rest : Text) :
    hex4 (hex (n/4096%16) :: hex (n/256%16) :: hex (n/16%16) :: hex (n%16) :: rest) =
      .ok (n, rest) := by
  have hn : ((n/4096%16*16+n/256%16)*16+n/16%16)*16+n%16 = n := by omega
  simp only [hex4, hexDigit_hex _ (Nat.mod_lt _ (by decide : 0 < 16)), hn]

/-- What follows an escape that is read by itself: no escaped low surrogate. -/
def Apart (s : Text) : Prop :=
  (accept 92 s).bind (accept 117) = none ∨
    ∃ m rest, m < 65536 ∧ isLow m = false ∧ s = unicode m ++ rest

theorem scanEscape_unicode (n : ℕ) (h : n < 65536) (rest : Text)
    (hn : isHigh n = true → Apart rest) :
    scanEscape ((unicode n).tail ++ rest) = .ok (n, rest) := by
  change unicodeEscape (hex _ :: hex _ :: hex _ :: hex _ :: rest) = _
  cases hh : isHigh n with
  | false => simp [unicodeEscape, bind, Except.bind, hex4_unicode n h, hh]
  | true =>
    rcases hn hh with hnone | ⟨m, beyond, hm, hl, rfl⟩
    · simp [unicodeEscape, bind, Except.bind, hex4_unicode n h, hnone]
    · have hbehind : (accept 92 (unicode m ++ beyond)).bind (accept 117) =
          some (hex (m/4096%16) :: hex (m/256%16) :: hex (m/16%16) :: hex (m%16) :: beyond) := rfl
      simp only [unicodeEscape, bind, Except.bind, hex4_unicode n h, hh, hbehind,
        hex4_unicode m hm, hl]
      rfl

/-- A pair of escapes is read as the one code point it stands for. -/
theorem scanEscape_pair (high low : ℕ) (hh : isHigh high = true) (hl : isLow low = true)
    (rest : Text) : scanEscape ((unicode high).tail ++ (unicode low ++ rest)) =
      .ok (joined high low, rest) := by
  have h1 : high < 65536 := by
    simp only [isHigh, Bool.and_eq_true, decide_eq_true_eq] at hh
    omega
  have h2 : low < 65536 := by
    simp only [isLow, Bool.and_eq_true, decide_eq_true_eq] at hl
    omega
  change unicodeEscape (hex _ :: hex _ :: hex _ :: hex _ :: 92 :: 117 ::
    hex _ :: hex _ :: hex _ :: hex _ :: rest) = _
  simp [unicodeEscape, bind, Except.bind, hex4_unicode high h1, hh, accept,
    hex4_unicode low h2, hl]

theorem scanString_backslash (fuel : ℕ) (s s' : Text) (c : ℕ)
    (h : scanEscape s = .ok (c, s')) {x rest : Text}
    (hx : scanString fuel s' = .ok (x, rest)) :
    scanString (fuel+1) (92::s) = .ok (c::x, rest) := by
  simp [scanString, bind, Except.bind, h, hx]

/-- How a code point is written: after a backslash, as itself, or as one or two units. -/
theorem escape_cases (c : ℕ) :
    (∃ k, k ≠ 117 ∧ (32 ≤ k ∧ k ≤ 126) ∧ plainEscape k = some c ∧ escape c = [92, k]) ∨
    (c ≠ 34 ∧ c ≠ 92 ∧ (32 ≤ c ∧ c ≤ 126) ∧ escape c = [c]) ∨
    (c < 65536 ∧ escape c = unicode c) ∨
    (65536 ≤ c ∧
      escape c = unicode (55296+(c-65536)/1024) ++ unicode (56320+(c-65536)%1024)) := by
  have short : ∀ k, k ≠ 117 → 32 ≤ k ∧ k ≤ 126 → plainEscape k = some c → escape c = [92, k] →
      ∃ k, k ≠ 117 ∧ (32 ≤ k ∧ k ≤ 126) ∧ plainEscape k = some c ∧ escape c = [92, k] :=
    fun k hk hp hc he => ⟨k, hk, hp, hc, he⟩
  by_cases hshort : c = 34 ∨ c = 92 ∨ c = 10 ∨ c = 13 ∨ c = 9 ∨ c = 12 ∨ c = 8
  · left
    rcases hshort with rfl | rfl | rfl | rfl | rfl | rfl | rfl
    · exact short 34 (by decide) (by decide) rfl rfl
    · exact short 92 (by decide) (by decide) rfl rfl
    · exact short 110 (by decide) (by decide) rfl rfl
    · exact short 114 (by decide) (by decide) rfl rfl
    · exact short 116 (by decide) (by decide) rfl rfl
    · exact short 102 (by decide) (by decide) rfl rfl
    · exact short 98 (by decide) (by decide) rfl rfl
  · right
    simp only [not_or] at hshort
    obtain ⟨h34, h92, h10, h13, h9, h12, h8⟩ := hshort
    unfold escape
    rw [if_neg h34, if_neg h92, if_neg h10, if_neg h13, if_neg h9, if_neg h12, if_neg h8]
    by_cases hprint : 32 ≤ c ∧ c ≤ 126
    · rw [if_pos hprint]
      exact Or.inl ⟨h34, h92, hprint, rfl⟩
    · rw [if_neg hprint]
      by_cases hbmp : c < 65536
      · rw [if_pos hbmp]
        exact Or.inr (Or.inl ⟨hbmp, rfl⟩)
      · rw [if_neg hbmp]
        exact Or.inr (Or.inr ⟨not_lt.mp hbmp, rfl⟩)

/-- What a code point is written as is no low surrogate, unless it is one. -/
theorem apart_escape {c : ℕ} (hc : c < 1114112) (hl : isLow c = false) (s : Text) :
    Apart (escape c ++ s) := by
  rcases escape_cases c with ⟨k, hk, -, -, he⟩ | ⟨-, h92, -, he⟩ | ⟨hbmp, he⟩ | ⟨hlarge, he⟩
  · left
    simp [he, accept, hk]
  · left
    simp [he, accept, h92]
  · right
    exact ⟨c, s, hbmp, hl, by rw [he]⟩
  · right
    have hhigh : isLow (55296+(c-65536)/1024) = false := by
      simp only [isLow, Bool.and_eq_false_iff, decide_eq_false_iff_not]
      omega
    exact ⟨_, _, by omega, hhigh, by rw [he, List.append_assoc]⟩

theorem scanString_escape (fuel c : ℕ) (hc : c < 1114112) (s : Text)
    (hs : isHigh c = true → Apart s) {x rest : Text}
    (h : scanString fuel s = .ok (x, rest)) :
    scanString (fuel+1) (escape c ++ s) = .ok (c::x, rest) := by
  rcases escape_cases c with ⟨k, hk, -, hp, he⟩ | ⟨h34, h92, hprint, he⟩ | ⟨hbmp, he⟩ | ⟨hlarge, he⟩
  · rw [he]
    apply scanString_backslash fuel (k::s) s c _ h
    simp [scanEscape, hk, hp]
  · have hge : ¬ c < 32 := by omega
    rw [he]
    simp [scanString, bind, Except.bind, h34, h92, hge, h]
  · rw [he]
    exact scanString_backslash fuel _ s c (scanEscape_unicode c hbmp s hs) h
  · have hh : isHigh (55296+(c-65536)/1024) = true := by
      simp only [isHigh, Bool.and_eq_true, decide_eq_true_eq]
      omega
    have hl : isLow (56320+(c-65536)%1024) = true := by
      simp only [isLow, Bool.and_eq_true, decide_eq_true_eq]
      omega
    have hj : joined (55296+(c-65536)/1024) (56320+(c-65536)%1024) = c := by
      unfold joined
      omega
    have hpair := scanEscape_pair _ _ hh hl s
    rw [hj] at hpair
    rw [he, List.append_assoc]
    exact scanString_backslash fuel _ s c hpair h

theorem apart_rest {c : ℕ} {s : Text} (hs : Whole (c::s)) (rest : Text) (hh : isHigh c = true) :
    Apart (s.flatMap escape ++ 34 :: rest) := by
  cases s with
  | nil =>
    left
    rfl
  | cons v s =>
    have hl : isLow v = false := by
      have := hs.2.1
      simpa [hh] using this
    rw [List.flatMap_cons, List.append_assoc]
    exact apart_escape (hs.1 v (by simp)) hl _

theorem scanString_quoted (s : Text) (hs : Whole s) (rest : Text) :
    ∀ fuel, s.length < fuel →
      scanString fuel (s.flatMap escape ++ 34 :: rest) = .ok (s, rest) := by
  induction s with
  | nil =>
    intro fuel hf
    obtain ⟨fuel, rfl⟩ := Nat.exists_eq_add_one.mpr hf
    rfl
  | cons c s ih =>
    intro fuel hf
    simp only [List.length_cons] at hf
    obtain ⟨fuel, rfl⟩ := Nat.exists_eq_add_one.mpr (Nat.zero_lt_of_lt hf)
    rw [List.flatMap_cons, List.append_assoc]
    apply scanString_escape fuel c (hs.1 c (by simp)) _ (apart_rest hs rest)
    exact ih (whole_tail hs) fuel (by omega)

theorem escape_length (c : ℕ) : 0 < (escape c).length := by
  rcases escape_cases c with ⟨k, -, -, -, he⟩ | ⟨-, -, -, he⟩ | ⟨-, he⟩ | ⟨-, he⟩
  · simp [he]
  · simp [he]
  · simp [he, unicode]
  · simp [he, unicode]

theorem flatMap_escape_length (s : Text) : s.length ≤ (s.flatMap escape).length := by
  induction s with
  | nil => simp
  | cons c s ih =>
    have := escape_length c
    simp only [List.flatMap_cons, List.length_cons, List.length_append]
    omega

theorem scanString_written (s : Text) (hs : Whole s) (rest : Text) :
    scanString ((s.flatMap escape ++ 34 :: rest).length+1) (s.flatMap escape ++ 34 :: rest) =
      .ok (s, rest) := by
  apply scanString_quoted s hs rest
  have := flatMap_escape_length s
  simp only [List.length_append, List.length_cons]
  omega

/-! ## Split pairs -/

theorem isHigh_iff (n : ℕ) : isHigh n = true ↔ 55296 ≤ n ∧ n < 56320 := by
  simp [isHigh]

theorem isLow_iff (n : ℕ) : isLow n = true ↔ 56320 ≤ n ∧ n < 57344 := by
  simp [isLow]

theorem escape_large {c : ℕ} (h : 65536 ≤ c) :
    escape c = unicode (55296+(c-65536)/1024) ++ unicode (56320+(c-65536)%1024) := by
  unfold escape
  repeat rw [if_neg (by omega)]

theorem escape_unit {u : ℕ} (h : 55296 ≤ u) (h' : u < 65536) : escape u = unicode u := by
  unfold escape
  repeat rw [if_neg (by omega)]
  rw [if_pos h']

theorem joined_range {u v : ℕ} (hu : isHigh u = true) (hv : isLow v = true) :
    65536 ≤ joined u v ∧ joined u v < 1114112 := by
  rw [isHigh_iff] at hu
  rw [isLow_iff] at hv
  unfold joined
  omega

/-- A pair is written as the code point it encodes is. -/
theorem escape_joined {u v : ℕ} (hu : isHigh u = true) (hv : isLow v = true) :
    escape (joined u v) = escape u ++ escape v := by
  have hj := (joined_range hu hv).1
  rw [isHigh_iff] at hu
  rw [isLow_iff] at hv
  have h1 : 55296+(joined u v-65536)/1024 = u := by
    unfold joined
    omega
  have h2 : 56320+(joined u v-65536)%1024 = v := by
    unfold joined
    omega
  rw [escape_large hj, h1, h2, escape_unit hu.1 (by omega), escape_unit (by omega) (by omega)]

theorem joinUnits_escape (s : Text) : (joinUnits s).flatMap escape = s.flatMap escape := by
  fun_induction joinUnits s with
  | case1 => rfl
  | case2 u => rfl
  | case3 u v rest hpair ih =>
    rw [Bool.and_eq_true] at hpair
    simp only [List.flatMap_cons, ih, escape_joined hpair.1 hpair.2, List.append_assoc]
  | case4 u v rest hpair ih =>
    rw [List.flatMap_cons, ih]
    rfl

theorem quoted_joinUnits (s : Text) : quoted (joinUnits s) = quoted s := by
  rw [quoted, joinUnits_escape, quoted]

theorem joinUnits_range (s : Text) (hs : ∀ c ∈ s, c < 1114112) :
    ∀ c ∈ joinUnits s, c < 1114112 := by
  fun_induction joinUnits s with
  | case1 => exact hs
  | case2 u => exact hs
  | case3 u v rest hpair ih =>
    rw [Bool.and_eq_true] at hpair
    intro c hc
    rcases List.mem_cons.mp hc with he | hc
    · rw [he]
      exact (joined_range hpair.1 hpair.2).2
    · exact ih (fun c hc => hs c (by simp [hc])) c hc
  | case4 u v rest hpair ih =>
    intro c hc
    rcases List.mem_cons.mp hc with rfl | hc
    · exact hs _ (by simp)
    · exact ih (fun c hc => hs c (by simp [hc])) c hc

theorem large_unit {c : ℕ} (h : 65536 ≤ c) : isHigh c = false ∧ isLow c = false := by
  constructor
  · rw [← Bool.not_eq_true, isHigh_iff]
    omega
  · rw [← Bool.not_eq_true, isLow_iff]
    omega

theorem joined_unit {u v : ℕ} (hu : isHigh u = true) (hv : isLow v = true) :
    isHigh (joined u v) = false ∧ isLow (joined u v) = false :=
  large_unit (joined_range hu hv).1

theorem unpaired_cons {u : ℕ} {s : Text} (hs : Unpaired s)
    (hu : ∀ v ∈ s.head?, (isHigh u && isLow v) = false) : Unpaired (u::s) := by
  cases s with
  | nil => trivial
  | cons v rest => exact ⟨hu v rfl, hs⟩

theorem joinUnits_head (v : ℕ) (rest : Text) (w : ℕ) (hw : w ∈ (joinUnits (v::rest)).head?) :
    isLow w = true → w = v := by
  intro hl
  cases rest with
  | nil => exact (Option.some.inj hw).symm
  | cons x rest =>
    rw [joinUnits] at hw
    split at hw
    case isTrue hpair =>
      rw [Bool.and_eq_true] at hpair
      have he : joined v x = w := Option.some.inj hw
      have hno := (joined_unit hpair.1 hpair.2).2
      rw [he, hl] at hno
      cases hno
    case isFalse => exact (Option.some.inj hw).symm

theorem unpaired_joinUnits (s : Text) : Unpaired (joinUnits s) := by
  fun_induction joinUnits s with
  | case1 => trivial
  | case2 u => trivial
  | case3 u v rest hpair ih =>
    rw [Bool.and_eq_true] at hpair
    apply unpaired_cons ih
    intro w _
    rw [(joined_unit hpair.1 hpair.2).1, Bool.false_and]
  | case4 u v rest hpair ih =>
    apply unpaired_cons ih
    intro w hw
    by_contra h
    simp only [Bool.not_eq_false, Bool.and_eq_true] at h hpair
    have := joinUnits_head v rest w hw h.2
    subst this
    exact hpair h

theorem whole_joinUnits (s : Text) (hs : ∀ c ∈ s, c < 1114112) : Whole (joinUnits s) :=
  ⟨joinUnits_range s hs, unpaired_joinUnits s⟩

theorem joinUnits_unpaired (s : Text) (h : Unpaired s) : joinUnits s = s := by
  fun_induction joinUnits s with
  | case1 => rfl
  | case2 u => rfl
  | case3 u v rest hpair _ =>
    rw [h.1] at hpair
    cases hpair
  | case4 u v rest hpair ih => rw [ih h.2]

theorem joinUnits_length (s : Text) : (joinUnits s).length ≤ s.length := by
  fun_induction joinUnits s with
  | case1 => simp
  | case2 u => simp
  | case3 u v rest hpair ih =>
    simp only [List.length_cons]
    omega
  | case4 u v rest hpair ih =>
    simp only [List.length_cons] at ih ⊢
    omega

theorem mem_joinUnits {c : ℕ} (hc : IsScalar c) {s : Text} (h : c ∈ s) : c ∈ joinUnits s := by
  have hne : isHigh c = false ∧ isLow c = false := by
    refine ⟨scalar_not_high hc, ?_⟩
    have := hc.2
    simp only [isLow, Bool.and_eq_false_iff, decide_eq_false_iff_not]
    omega
  fun_induction joinUnits s with
  | case1 => exact h
  | case2 u => exact h
  | case3 u v rest hpair ih =>
    rw [Bool.and_eq_true] at hpair
    simp only [List.mem_cons] at h ⊢
    rcases h with rfl | rfl | h
    · rw [hne.1] at hpair
      cases hpair.1
    · rw [hne.2] at hpair
      cases hpair.2
    · exact Or.inr (ih h)
  | case4 u v rest hpair ih =>
    rcases List.mem_cons.mp h with rfl | h
    · exact List.mem_cons_self
    · exact List.mem_cons_of_mem _ (ih h)

/-! ## Numbers -/

theorem decimal_digits (n : ℕ) : ∀ c ∈ decimal n, isDigit c = true := by
  intro c hc
  rw [isDigit_iff]
  unfold decimal at hc
  split at hc
  · simp only [List.mem_singleton] at hc
    omega
  · obtain ⟨d, hd, rfl⟩ := List.mem_map.mp hc
    have := Nat.digits_lt_base (by decide : 1 < 10) (List.mem_reverse.mp hd)
    omega

theorem number_map (ds : List ℕ) : number (ds.reverse.map (48+·)) = Nat.ofDigits 10 ds := by
  rw [number, List.foldl_map, List.foldl_reverse, Nat.ofDigits_eq_foldr]
  congr 1
  funext d n
  simp [Nat.add_comm]

theorem number_decimal (n : ℕ) : number (decimal n) = n := by
  unfold decimal
  split
  case isTrue h => simp [number, h]
  case isFalse h => rw [number_map, Nat.ofDigits_digits]

/-- No leading zero. -/
theorem decimal_cons (n : ℕ) : ∃ c rest, decimal n = c::rest ∧ isDigit c = true ∧
    (c = 48 → rest = []) := by
  by_cases hn : n = 0
  · exact ⟨48, [], by simp [decimal, hn], by decide, fun _ => rfl⟩
  · have hd : (Nat.digits 10 n) ≠ [] := Nat.digits_ne_nil_iff_ne_zero.mpr hn
    have hl := Nat.getLast_digit_ne_zero 10 hn
    have hr : (Nat.digits 10 n).reverse =
        (Nat.digits 10 n).getLast hd :: (Nat.digits 10 n).dropLast.reverse := by
      conv_lhs => rw [← List.dropLast_append_getLast hd]
      simp
    refine ⟨48+(Nat.digits 10 n).getLast hd, (Nat.digits 10 n).dropLast.reverse.map (48+·),
      ?_, ?_, ?_⟩
    · simp only [decimal, hn, if_false, hr, List.map_cons]
    · apply decimal_digits n
      simp only [decimal, hn, if_false, hr, List.map_cons]
      exact List.mem_cons_self
    · intro h
      exact absurd (by omega) hl

/-- What may stand behind a number without being read as part of it. -/
def Delimited : Text → Prop
  | [] => True
  | c::_ => isDigit c = false ∧ c ≠ 46 ∧ c ≠ 101 ∧ c ≠ 69

theorem takeWhile_digits (ds rest : Text) (h : ∀ c ∈ ds, isDigit c = true)
    (hr : Delimited rest) :
    (ds ++ rest).takeWhile isDigit = ds ∧ (ds ++ rest).dropWhile isDigit = rest := by
  have stop : rest.takeWhile isDigit = [] ∧ rest.dropWhile isDigit = rest := by
    cases rest with
    | nil => exact ⟨rfl, rfl⟩
    | cons c rest => simp [hr.1]
  constructor
  · rw [List.takeWhile_append_of_pos h, stop.1, List.append_nil]
  · rw [List.dropWhile_append_of_pos h, stop.2]

theorem integerPart_decimal (n : ℕ) (rest : Text) (hr : Delimited rest) :
    integerPart (decimal n ++ rest) = .ok (decimal n, rest) := by
  obtain ⟨c, ds, he, hc, hz⟩ := decimal_cons n
  have hds : ∀ d ∈ ds, isDigit d = true := fun d hd => decimal_digits n d (by simp [he, hd])
  obtain ⟨ht, hd⟩ := takeWhile_digits ds rest hds hr
  rw [he]
  simp only [List.cons_append, integerPart, hc, ht, hd]
  split
  case isTrue h => rw [hz h, List.nil_append]
  case isFalse h => rfl

theorem fractionPart_delimited (rest : Text) (hr : Delimited rest) :
    fractionPart rest = ([], rest) := by
  cases rest with
  | nil => rfl
  | cons c rest =>
    have h : c ≠ 46 := hr.2.1
    simp [fractionPart, accept, h]

theorem exponentPart_delimited (rest : Text) (hr : Delimited rest) :
    exponentPart rest = ([], rest) := by
  cases rest with
  | nil => rfl
  | cons c rest =>
    have h : c ≠ 101 ∧ c ≠ 69 := hr.2.2
    simp [exponentPart, h]

variable {F : Type} (py : Runtime F)

theorem scanNumber_signed (n : ℤ) (hn : (decimal n.natAbs).length ≤ maxStrDigits) (rest : Text)
    (hr : Delimited rest) : scanNumber py (signed n ++ rest) = .ok (.int n, rest) := by
  have hlong : ¬ maxStrDigits < (decimal n.natAbs).length := by omega
  unfold signed
  split
  case isTrue h =>
    have he : -|n| = n := by rw [abs_of_neg h, neg_neg]
    simp [scanNumber, bind, Except.bind, accept, integerPart_decimal _ _ hr,
      fractionPart_delimited _ hr, exponentPart_delimited _ hr, hlong, number_decimal, he]
  case isFalse h =>
    have ha : accept 45 (decimal n.natAbs ++ rest) = none := by
      obtain ⟨c, ds, hd, hc, -⟩ := decimal_cons n.natAbs
      rw [isDigit_iff] at hc
      have : c ≠ 45 := by omega
      simp [hd, accept, this]
    simp [scanNumber, bind, Except.bind, ha, integerPart_decimal _ _ hr,
      fractionPart_delimited _ hr, exponentPart_delimited _ hr, hlong, number_decimal]
    omega

/-! ## Values -/

mutual

/-- A value that survives: no float, no split pair, and no name given twice. -/
def Plain : Value F → Prop
  | .null => True
  | .bool _ => True
  | .int _ => True
  | .float _ => False
  | .str s => Whole s
  | .arr items => PlainItems items
  | .obj members => (members.map Prod.fst).Nodup ∧ PlainMembers members

def PlainItems : List (Value F) → Prop
  | [] => True
  | v::vs => Plain v ∧ PlainItems vs

def PlainMembers : List (Text × Value F) → Prop
  | [] => True
  | (key, v)::rest => Whole key ∧ Plain v ∧ PlainMembers rest

end

theorem bind_ok {E A B : Type} {x : Except E A} {f : A → Except E B} {b : B}
    (h : x >>= f = .ok b) : ∃ a, x = .ok a ∧ f a = .ok b := by
  cases x with
  | error e => cases h
  | ok a => exact ⟨a, rfl, h⟩

theorem skip_cons {c : ℕ} (h : isSpace c = false) (s : Text) : skip (c::s) = c::s := by
  simp [skip, h]

/-- The character a written value starts with. -/
def Opens (c : ℕ) : Prop := isSpace c = false ∧ c ≠ 93 ∧ c ≠ 125

theorem signed_opens (n : ℤ) : ∃ c rest, signed n = c::rest ∧ (c = 45 ∨ isDigit c = true) ∧
    (c = 45 → ∃ d ds, rest = d::ds ∧ isDigit d = true) := by
  obtain ⟨d, ds, he, hd, -⟩ := decimal_cons n.natAbs
  unfold signed
  split
  case isTrue h => exact ⟨45, _, rfl, Or.inl rfl, fun _ => ⟨d, ds, he, hd⟩⟩
  case isFalse h =>
    refine ⟨d, ds, he, Or.inr hd, ?_⟩
    rintro rfl
    cases hd

theorem dumps_opens (depth : ℕ) (v : Value F) (hv : Plain v) (t : Text)
    (h : dumps py depth v = .ok t) : ∃ c rest, t = c::rest ∧ Opens c := by
  cases v with
  | null =>
    cases h
    exact ⟨_, _, rfl, by decide, by decide, by decide⟩
  | bool b =>
    cases b with
    | true =>
      cases h
      exact ⟨_, _, rfl, by decide, by decide, by decide⟩
    | false =>
      cases h
      exact ⟨_, _, rfl, by decide, by decide, by decide⟩
  | int n =>
    simp only [dumps] at h
    split at h
    · cases h
    · cases h
      obtain ⟨c, rest, he, hc, -⟩ := signed_opens n
      refine ⟨c, rest, he, ?_⟩
      rcases hc with rfl | hc
      · exact ⟨by decide, by decide, by decide⟩
      · rw [isDigit_iff] at hc
        refine ⟨?_, by omega, by omega⟩
        simp only [isSpace, Bool.or_eq_false_iff, decide_eq_false_iff_not]
        omega
  | float x => cases hv
  | str s =>
    cases h
    exact ⟨34, _, rfl, by decide, by decide, by decide⟩
  | arr items =>
    cases depth with
    | zero => cases h
    | succ depth =>
      obtain ⟨ts, -, ht⟩ := bind_ok h
      cases ht
      exact ⟨91, _, rfl, by decide, by decide, by decide⟩
  | obj members =>
    cases depth with
    | zero => cases h
    | succ depth =>
      obtain ⟨ts, -, ht⟩ := bind_ok h
      cases ht
      exact ⟨123, _, rfl, by decide, by decide, by decide⟩

theorem word_mismatch {w s : Text} {c d : ℕ} (h : d ≠ c) : word (d::w) (c::s) = none := by
  simp [word, h]

theorem text_words : text "null" = [110, 117, 108, 108] ∧ text "true" = [116, 114, 117, 101] ∧
    text "false" = [102, 97, 108, 115, 101] ∧ text "NaN" = [78, 97, 78] ∧
    text "Infinity" = [73, 110, 102, 105, 110, 105, 116, 121] ∧
    text "-Infinity" = [45, 73, 110, 102, 105, 110, 105, 116, 121] := by
  decide +kernel

theorem constant_signed (n : ℤ) (rest : Text) : constant py (signed n ++ rest) = none := by
  obtain ⟨c, cs, he, hc, hneg⟩ := signed_opens n
  obtain ⟨h1, h2, h3, h4, h5, h6⟩ := text_words
  have hc' : c = 45 ∨ 48 ≤ c ∧ c ≤ 57 := by rwa [isDigit_iff] at hc
  have hw : ∀ d w, d ≠ c → word (d::w) (c::(cs ++ rest)) = none := fun d w h => word_mismatch h
  have hm : ∀ w, word (45::73::w) (c::(cs ++ rest)) = none := by
    intro w
    by_cases h : c = 45
    · obtain ⟨d, ds, rfl, hd⟩ := hneg h
      rw [isDigit_iff] at hd
      have hne : 73 ≠ d := by omega
      simp [word, h, hne]
    · exact hw 45 _ (Ne.symm h)
  rw [he, List.cons_append]
  simp only [constant, h1, h2, h3, h4, h5, h6, List.findSome?_cons, hw 110 _ (by omega),
    hw 116 _ (by omega), hw 102 _ (by omega), hw 78 _ (by omega), hw 73 _ (by omega), hm,
    Option.map_none, List.findSome?_nil]

/-- A value behind which scanning goes on. -/
def ScansAs (depth : ℕ) (v : Value F) (t : Text) : Prop :=
  ∀ fuel rest, 2*t.length ≤ fuel → Delimited rest →
    scanOnce py (fuel+1) depth (t ++ rest) = .ok (v, rest)

theorem scans_str (depth : ℕ) (s : Text) (hs : Whole s) :
    ScansAs py depth (.str s) (quoted s) := by
  intro fuel rest _ _
  have h := scanString_written s hs rest
  have he : quoted s ++ rest = 34 :: (s.flatMap escape ++ 34 :: rest) := by simp [quoted]
  rw [he]
  simp only [scanOnce, if_true, bind, Except.bind, h]

theorem scans_word (depth : ℕ) (v : Value F) (w : Text)
    (hc : ∀ rest, constant py (w ++ rest) = some (v, rest)) (c : ℕ) (cs : Text) (hw : w = c::cs)
    (h : c ≠ 34 ∧ c ≠ 123 ∧ c ≠ 91) : ScansAs py depth v w := by
  intro fuel rest _ _
  have he := hc rest
  rw [hw, List.cons_append] at he ⊢
  simp [scanOnce, h, he]

theorem scans_int (depth : ℕ) (n : ℤ) (hn : (decimal n.natAbs).length ≤ maxStrDigits) :
    ScansAs py depth (.int n) (signed n) := by
  intro fuel rest _ hr
  have hnone := constant_signed py n rest
  have hscan := scanNumber_signed py n hn rest hr
  obtain ⟨c, cs, he, hc, -⟩ := signed_opens n
  have hc' : c = 45 ∨ 48 ≤ c ∧ c ≤ 57 := by rwa [isDigit_iff] at hc
  have h34 : c ≠ 34 := by omega
  have h123 : c ≠ 123 := by omega
  have h91 : c ≠ 91 := by omega
  rw [he, List.cons_append] at hnone hscan ⊢
  simp [scanOnce, h34, h123, h91, hnone, hscan]

/-! ## Containers -/

def Opening (s : Text) : Prop := ∃ c rest, s = c::rest ∧ Opens c

theorem skip_opening {s : Text} (h : Opening s) (rest : Text) : skip (s ++ rest) = s ++ rest := by
  obtain ⟨c, cs, rfl, hc⟩ := h
  exact skip_cons hc.1 _

theorem accept_opening {s : Text} (h : Opening s) (rest : Text) {c : ℕ} (hc : c = 93 ∨ c = 125) :
    accept c (s ++ rest) = none := by
  obtain ⟨d, cs, rfl, hd⟩ := h
  have hne : d ≠ c := by
    rcases hc with rfl | rfl
    · exact hd.2.1
    · exact hd.2.2
  simp [accept, hne]

theorem skip_blank {s : Text} (h : Opening s) (rest : Text) :
    skip (32 :: (s ++ rest)) = s ++ rest := by
  have h32 : skip (32 :: (s ++ rest)) = skip (s ++ rest) := by simp [skip, isSpace]
  rw [h32, skip_opening h]

theorem opening_append {s : Text} (h : Opening s) (rest : Text) : Opening (s ++ rest) := by
  obtain ⟨c, cs, rfl, hc⟩ := h
  exact ⟨c, cs ++ rest, rfl, hc⟩

@[simp] theorem expect_cons (c : ℕ) (s : Text) : expect c (c::s) = .ok s := by
  simp [expect, accept]

theorem delimited_comma (s : Text) : Delimited (44::s) := by
  simp [Delimited, isDigit]

/-- The items of an array, up to its closing bracket. -/
def ItemsScan (depth : ℕ) (vs : List (Value F)) (s : Text) : Prop :=
  ∀ fuel rest, 2*s.length ≤ fuel → scanItems py (fuel+2) depth (s ++ 93::rest) = .ok (vs, rest)

/-- The members of an object, read into those that came before. -/
def MembersScan (depth : ℕ) (ms : List (Text × Value F)) (s : Text) : Prop :=
  ∀ fuel rest (before : List (Text × Value F)), 2*s.length ≤ fuel →
    ((before ++ ms).map Prod.fst).Nodup →
      scanMembers py (fuel+2) depth (s ++ 125::rest) before = .ok (before ++ ms, rest)

variable {py} {depth : ℕ} {v : Value F} {t : Text}

theorem items_last (hv : ScansAs py depth v t) : ItemsScan py depth [v] t := by
  intro fuel rest hf
  have hd : Delimited (93::rest) := by simp [Delimited, isDigit]
  have h := hv fuel (93::rest) hf hd
  rw [scanItems]
  simp [bind, Except.bind, h, skip_cons, isSpace, accept]

theorem items_cons {vs : List (Value F)} {s : Text} (hv : ScansAs py depth v t)
    (ho : Opening s) (hs : ItemsScan py depth vs s) :
    ItemsScan py depth (v::vs) (t ++ [44, 32] ++ s) := by
  intro fuel rest hf
  simp only [List.length_append, List.length_cons, List.length_nil] at hf
  obtain ⟨fuel, rfl⟩ := Nat.exists_eq_add_of_le' (by omega : 1 ≤ fuel)
  have h := hv (fuel+1) (44::32::(s ++ 93::rest)) (by omega) (delimited_comma _)
  have hn := hs fuel rest (by omega)
  have he : t ++ [44, 32] ++ s ++ 93::rest = t ++ 44::32::(s ++ 93::rest) := by simp
  rw [he, scanItems]
  simp [bind, Except.bind, h, skip_cons, isSpace, accept, skip_blank ho, hn]

theorem setMember_new (before : List (Text × Value F)) (key : Text)
    (h : key ∉ before.map Prod.fst) : setMember before key v = before ++ [(key, v)] := by
  have ha : before.any (fun m => m.1 = key) = false := by
    simp only [List.any_eq_false, decide_eq_true_eq]
    rintro m hm rfl
    exact h (List.mem_map_of_mem hm)
  simp [setMember, ha]

theorem scanMembers_step {key : Text} (hk : Whole key) (ho : Opening t)
    (hv : ScansAs py depth v t) (fuel : ℕ) (hf : 2*t.length ≤ fuel) (rest : Text)
    (hr : Delimited rest) (before : List (Text × Value F)) :
    scanMembers py (fuel+2) depth (quoted key ++ [58, 32] ++ t ++ rest) before =
      (match accept 125 (skip rest) with
        | some rest => .ok (setMember before key v, rest)
        | none => do
          let rest ← expect 44 (skip rest)
          scanMembers py (fuel+1) depth (skip rest) (setMember before key v)) := by
  have h := hv fuel rest hf hr
  have hs := scanString_written key hk (58::32::(t ++ rest))
  have he : quoted key ++ [58, 32] ++ t ++ rest =
      34 :: (key.flatMap escape ++ 34 :: 58::32::(t ++ rest)) := by simp [quoted]
  have hc : skip (58::32::(t ++ rest)) = 58::32::(t ++ rest) := skip_cons (by decide) _
  rw [he, scanMembers]
  cases ha : accept 125 (skip rest) <;>
    simp only [expect_cons, Bind.bind, Except.bind, hs, hc, skip_blank ho, h, ha]

theorem nodup_next {before ms : List (Text × Value F)} {key : Text}
    (h : ((before ++ (key, v)::ms).map Prod.fst).Nodup) :
    setMember before key v = before ++ [(key, v)] ∧
      ((before ++ [(key, v)] ++ ms).map Prod.fst).Nodup := by
  constructor
  · apply setMember_new
    intro hk
    simp only [List.map_append, List.map_cons, List.nodup_append] at h
    exact h.2.2 key hk key (by simp) rfl
  · simpa using h

theorem members_last {key : Text} (hk : Whole key) (ho : Opening t)
    (hv : ScansAs py depth v t) :
    MembersScan py depth [(key, v)] (quoted key ++ [58, 32] ++ t) := by
  intro fuel rest before hf hn
  simp only [List.length_append] at hf
  obtain ⟨hset, -⟩ := nodup_next hn
  have hd : Delimited (125::rest) := by simp [Delimited, isDigit]
  rw [scanMembers_step hk ho hv fuel (by omega) _ hd, skip_cons (by decide)]
  simp [accept, hset]

theorem members_cons {key : Text} {ms : List (Text × Value F)} {s : Text}
    (hk : Whole key) (ho : Opening t) (hv : ScansAs py depth v t) (hs : Opening s)
    (h : MembersScan py depth ms s) :
    MembersScan py depth ((key, v)::ms) (quoted key ++ [58, 32] ++ t ++ [44, 32] ++ s) := by
  intro fuel rest before hf hn
  simp only [List.length_append, List.length_cons, List.length_nil] at hf
  obtain ⟨hset, hn'⟩ := nodup_next hn
  obtain ⟨fuel, rfl⟩ := Nat.exists_eq_add_of_le' (by omega : 1 ≤ fuel)
  have he : quoted key ++ [58, 32] ++ t ++ [44, 32] ++ s ++ 125::rest =
      quoted key ++ [58, 32] ++ t ++ (44::32::(s ++ 125::rest)) := by simp
  have hm := h fuel rest (before ++ [(key, v)]) (by omega) hn'
  rw [he, scanMembers_step hk ho hv (fuel+1) (by omega) _ (delimited_comma _),
    skip_cons (by decide)]
  simp [accept, bind, Except.bind, skip_blank hs, hset, hm]

/-! ## The round trip -/

theorem opening_of_dumps (hv : Plain v) (h : dumps py depth v = .ok t) : Opening t :=
  dumps_opens py depth v hv t h

theorem opening_members {ms : List (Text × Value F)} {ts : List Text} (hm : ms ≠ [])
    (h : dumpsMembers py depth ms = .ok ts) : Opening (List.intercalate [44, 32] ts) := by
  cases ms with
  | nil => exact absurd rfl hm
  | cons m ms =>
    obtain ⟨key, v⟩ := m
    obtain ⟨t, -, h⟩ := bind_ok h
    obtain ⟨ts, -, h⟩ := bind_ok h
    cases h
    have ho : ∀ s, Opening (quoted key ++ s) :=
      fun s => ⟨34, _, rfl, by decide, by decide, by decide⟩
    cases ts with
    | nil =>
      rw [List.intercalate_singleton, List.append_assoc]
      exact ho _
    | cons t' ts =>
      rw [List.intercalate_cons_cons, List.append_assoc, List.append_assoc, List.append_assoc]
      exact ho _

theorem opening_items {vs : List (Value F)} {ts : List Text} (hv : vs ≠ []) (hp : PlainItems vs)
    (h : dumpsItems py depth vs = .ok ts) : Opening (List.intercalate [44, 32] ts) := by
  cases vs with
  | nil => exact absurd rfl hv
  | cons v vs =>
    obtain ⟨t, ht, h⟩ := bind_ok h
    obtain ⟨ts, -, h⟩ := bind_ok h
    cases h
    have ho := opening_of_dumps hp.1 ht
    cases ts with
    | nil => simpa using ho
    | cons t' ts =>
      rw [List.intercalate_cons_cons, List.append_assoc]
      exact opening_append ho _

theorem scans_arr {vs : List (Value F)} {s : Text} (ho : Opening s)
    (hs : ItemsScan py depth vs s) :
    ScansAs py (depth+1) (.arr vs) (91 :: s ++ [93]) := by
  intro fuel rest hf _
  simp only [List.length_append, List.length_cons, List.length_nil] at hf
  obtain ⟨fuel, rfl⟩ := Nat.exists_eq_add_of_le' (by omega : 2 ≤ fuel)
  have he : 91 :: s ++ [93] ++ rest = 91 :: (s ++ 93::rest) := by simp
  rw [he]
  simp [scanOnce, skip_opening ho, accept_opening ho, bind, Except.bind,
    hs fuel rest (by omega)]

theorem scans_obj {ms : List (Text × Value F)} {s : Text} (ho : Opening s)
    (hn : (ms.map Prod.fst).Nodup) (hs : MembersScan py depth ms s) :
    ScansAs py (depth+1) (.obj ms) (123 :: s ++ [125]) := by
  intro fuel rest hf _
  simp only [List.length_append, List.length_cons, List.length_nil] at hf
  obtain ⟨fuel, rfl⟩ := Nat.exists_eq_add_of_le' (by omega : 2 ≤ fuel)
  have he : 123 :: s ++ [125] ++ rest = 123 :: (s ++ 125::rest) := by simp
  have hm := hs fuel rest [] (by omega) (by simpa using hn)
  rw [he]
  simp [scanOnce, skip_opening ho, accept_opening ho, bind, Except.bind, hm]

mutual

theorem scans_dumps : ∀ (v : Value F) (depth : ℕ) (t : Text), Plain v →
    dumps py depth v = .ok t → ScansAs py depth v t
  | .null, depth, t, _, h => by
    cases h
    obtain ⟨h1, -⟩ := text_words
    apply scans_word py depth .null _ _ 110 [117, 108, 108] h1 (by decide)
    intro rest
    simp [constant, word, h1]
  | .bool b, depth, t, _, h => by
    obtain ⟨h1, h2, h3, -⟩ := text_words
    cases b with
    | true =>
      cases h
      apply scans_word py depth _ _ _ 116 [114, 117, 101] h2 (by decide)
      intro rest
      simp [constant, word, h1, h2]
    | false =>
      cases h
      apply scans_word py depth _ _ _ 102 [97, 108, 115, 101] h3 (by decide)
      intro rest
      simp [constant, word, h1, h2, h3]
  | .int n, depth, t, _, h => by
    simp only [dumps] at h
    split at h
    · cases h
    case isFalse hn =>
      cases h
      exact scans_int py depth n (by omega)
  | .float _, _, _, hv, _ => hv.elim
  | .str s, depth, t, hv, h => by
    cases h
    exact scans_str py depth s hv
  | .arr _, 0, _, _, h => by cases h
  | .arr vs, depth+1, t, hv, h => by
    obtain ⟨ts, hts, h⟩ := bind_ok h
    cases h
    by_cases hvs : vs = []
    · subst hvs
      cases hts
      intro fuel rest _ _
      simp [scanOnce, accept, skip, isSpace]
    · exact scans_arr (opening_items hvs hv hts) (scans_items vs depth ts hvs hv hts)
  | .obj _, 0, _, _, h => by cases h
  | .obj ms, depth+1, t, hv, h => by
    obtain ⟨ts, hts, h⟩ := bind_ok h
    cases h
    by_cases hms : ms = []
    · subst hms
      cases hts
      intro fuel rest _ _
      simp [scanOnce, accept, skip, isSpace]
    · exact scans_obj (opening_members hms hts) hv.1 (scans_members ms depth ts hms hv.2 hts)

theorem scans_items : ∀ (vs : List (Value F)) (depth : ℕ) (ts : List Text), vs ≠ [] →
    PlainItems vs → dumpsItems py depth vs = .ok ts →
      ItemsScan py depth vs (List.intercalate [44, 32] ts)
  | [], _, _, hne, _, _ => absurd rfl hne
  | v::vs, depth, ts, _, hv, h => by
    obtain ⟨t, ht, h⟩ := bind_ok h
    obtain ⟨ts', hts, h⟩ := bind_ok h
    cases h
    have hscan := scans_dumps v depth t hv.1 ht
    by_cases hvs : vs = []
    · subst hvs
      cases hts
      simpa using items_last hscan
    · have ho := opening_items hvs hv.2 hts
      have hrest := scans_items vs depth ts' hvs hv.2 hts
      obtain ⟨t', ts'', rfl⟩ : ∃ t' ts'', ts' = t'::ts'' := by
        cases ts' with
        | nil => simp [Opening] at ho
        | cons t' ts'' => exact ⟨t', ts'', rfl⟩
      rw [List.intercalate_cons_cons]
      exact items_cons hscan ho hrest

theorem scans_members : ∀ (ms : List (Text × Value F)) (depth : ℕ) (ts : List Text), ms ≠ [] →
    PlainMembers ms → dumpsMembers py depth ms = .ok ts →
      MembersScan py depth ms (List.intercalate [44, 32] ts)
  | [], _, _, hne, _, _ => absurd rfl hne
  | (key, v)::ms, depth, ts, _, hv, h => by
    obtain ⟨t, ht, h⟩ := bind_ok h
    obtain ⟨ts', hts, h⟩ := bind_ok h
    cases h
    have hscan := scans_dumps v depth t hv.2.1 ht
    have hopen := opening_of_dumps hv.2.1 ht
    by_cases hms : ms = []
    · subst hms
      cases hts
      simpa using members_last hv.1 hopen hscan
    · have ho := opening_members hms hts
      have hrest := scans_members ms depth ts' hms hv.2.2 hts
      obtain ⟨t', ts'', rfl⟩ : ∃ t' ts'', ts' = t'::ts'' := by
        cases ts' with
        | nil => simp [Opening] at ho
        | cons t' ts'' => exact ⟨t', ts'', rfl⟩
      rw [List.intercalate_cons_cons]
      exact members_cons hv.1 hopen hscan ho hrest

end

/-! ## Bytes -/

def Printable (s : Text) : Prop := ∀ c ∈ s, 32 ≤ c ∧ c ≤ 126

theorem printable_append {s : Text} (hs : Printable s) (ht : Printable t) :
    Printable (s ++ t) := by
  intro c hc
  rcases List.mem_append.mp hc with h | h
  · exact hs c h
  · exact ht c h

theorem printable_intercalate {sep : Text} (hsep : Printable sep) (ts : List Text)
    (h : ∀ t ∈ ts, Printable t) : Printable (List.intercalate sep ts) := by
  induction ts with
  | nil => simp [Printable]
  | cons t ts ih =>
    cases ts with
    | nil => simpa using h t (by simp)
    | cons t' ts =>
      rw [List.intercalate_cons_cons]
      apply printable_append
      · exact printable_append (h t (by simp)) hsep
      · exact ih (fun t ht => h t (by simp [ht]))

theorem hex_printable (d : ℕ) (h : d < 16) : 32 ≤ hex d ∧ hex d ≤ 126 := by
  unfold hex
  split <;> omega

theorem unicode_printable (n : ℕ) : Printable (unicode n) := by
  have h : ∀ k, 32 ≤ hex (k%16) ∧ hex (k%16) ≤ 126 :=
    fun k => hex_printable _ (Nat.mod_lt _ (by decide))
  simp [Printable, unicode, h]

theorem escape_printable (c : ℕ) : Printable (escape c) := by
  rcases escape_cases c with ⟨k, -, hk, -, he⟩ | ⟨-, -, hprint, he⟩ | ⟨-, he⟩ | ⟨-, he⟩
  · rw [he]
    simpa [Printable] using hk
  · rw [he]
    simpa [Printable] using hprint
  · rw [he]
    exact unicode_printable c
  · rw [he]
    exact printable_append (unicode_printable _) (unicode_printable _)

theorem quoted_printable (s : Text) : Printable (quoted s) := by
  intro c hc
  simp only [quoted, List.cons_append, List.mem_cons, List.mem_append, List.mem_flatMap,
    List.not_mem_nil, or_false] at hc
  rcases hc with rfl | ⟨d, -, hd⟩ | rfl
  · decide
  · exact escape_printable d c hd
  · decide

theorem signed_printable (n : ℤ) : Printable (signed n) := by
  have hd : Printable (decimal n.natAbs) := by
    intro c hc
    have := (isDigit_iff c).mp (decimal_digits _ c hc)
    omega
  unfold signed
  split
  · have h45 : Printable [45] := by simp [Printable]
    exact printable_append h45 hd
  · exact hd

theorem printable_wrapped (a b : ℕ) (ha : 32 ≤ a ∧ a ≤ 126) (hb : 32 ≤ b ∧ b ≤ 126)
    (h : Printable t) : Printable (a :: t ++ [b]) := by
  have hl : Printable [a] := by simpa [Printable] using ha
  have hr : Printable [b] := by simpa [Printable] using hb
  exact printable_append (printable_append hl h) hr

theorem printable_comma : Printable [44, 32] := by simp [Printable]

mutual

theorem dumps_printable : ∀ (v : Value F) (depth : ℕ) (t : Text), Plain v →
    dumps py depth v = .ok t → Printable t
  | .null, _, _, _, h => by
    cases h
    rw [text_words.1]
    simp [Printable]
  | .bool b, _, _, _, h => by
    obtain ⟨-, h2, h3, -⟩ := text_words
    cases b with
    | true =>
      cases h
      simp [Printable, h2]
    | false =>
      cases h
      simp [Printable, h3]
  | .int n, _, _, _, h => by
    simp only [dumps] at h
    split at h
    · cases h
    · cases h
      exact signed_printable n
  | .float _, _, _, hv, _ => hv.elim
  | .str s, _, _, _, h => by
    cases h
    exact quoted_printable s
  | .arr _, 0, _, _, h => by cases h
  | .arr vs, depth+1, t, hv, h => by
    obtain ⟨ts, hts, h⟩ := bind_ok h
    cases h
    exact printable_wrapped 91 93 (by decide) (by decide)
      (printable_intercalate printable_comma ts (items_printable vs depth ts hv hts))
  | .obj _, 0, _, _, h => by cases h
  | .obj ms, depth+1, t, hv, h => by
    obtain ⟨ts, hts, h⟩ := bind_ok h
    cases h
    exact printable_wrapped 123 125 (by decide) (by decide)
      (printable_intercalate printable_comma ts (members_printable ms depth ts hv.2 hts))

theorem items_printable : ∀ (vs : List (Value F)) (depth : ℕ) (ts : List Text), PlainItems vs →
    dumpsItems py depth vs = .ok ts → ∀ t ∈ ts, Printable t
  | [], _, _, _, h => by
    cases h
    simp
  | v::vs, depth, ts, hv, h => by
    obtain ⟨t, ht, h⟩ := bind_ok h
    obtain ⟨ts', hts, h⟩ := bind_ok h
    cases h
    intro t' ht'
    rcases List.mem_cons.mp ht' with rfl | ht'
    · exact dumps_printable v depth _ hv.1 ht
    · exact items_printable vs depth ts' hv.2 hts t' ht'

theorem members_printable : ∀ (ms : List (Text × Value F)) (depth : ℕ) (ts : List Text),
    PlainMembers ms → dumpsMembers py depth ms = .ok ts → ∀ t ∈ ts, Printable t
  | [], _, _, _, h => by
    cases h
    simp
  | (key, v)::ms, depth, ts, hv, h => by
    obtain ⟨t, ht, h⟩ := bind_ok h
    obtain ⟨ts', hts, h⟩ := bind_ok h
    cases h
    intro t' ht'
    rcases List.mem_cons.mp ht' with rfl | ht'
    · have hcolon : Printable [58, 32] := by simp [Printable]
      exact printable_append (printable_append (quoted_printable key) hcolon)
        (dumps_printable v depth _ hv.2.1 ht)
    · exact members_printable ms depth ts' hv.2.2 hts t' ht'

end

theorem decodeUtf8_printable (s : Text) (h : Printable s) : decodeUtf8 s = some s := by
  induction s with
  | nil => rfl
  | cons c s ih =>
    have hc : c < 128 := by
      have := h c (by simp)
      omega
    have hs := ih (fun c hc => h c (by simp [hc]))
    rw [decodeUtf8.eq_def]
    simp only [hc, if_true, hs, Option.map_eq_map, Option.map_some]

theorem detectEncoding_printable (s : Text) (h : Printable s) :
    detectEncoding s = (.utf8, s) := by
  unfold detectEncoding
  split
  case h_6 b₀ b₁ b₂ b₃ rest _ _ _ _ _ =>
    have h0 := h b₀ (by simp)
    have h1 := h b₁ (by simp)
    rw [if_neg (by omega), if_neg (by omega)]
  case h_7 b₀ b₁ _ _ =>
    have h0 := h b₀ (by simp)
    have h1 := h b₁ (by simp)
    rw [if_neg (by omega), if_neg (by omega)]
  case h_8 => rfl
  all_goals simp [Printable] at h

theorem decode_encode (h : Printable t) : decode (encode t) = .ok t := by
  have hb : (encode t).map UInt8.toNat = t := by
    have hc : ∀ c ∈ t, (UInt8.toNat ∘ UInt8.ofNat) c = id c := by
      intro c hc
      have := h c hc
      have hlt : c < 256 := by omega
      simp [Nat.mod_eq_of_lt hlt]
    rw [encode, List.map_map, List.map_congr_left hc, List.map_id]
  simp only [decode, hb, detectEncoding_printable t h, decodeUtf8_printable t h]

theorem loads_dumps (hv : Plain v) (h : dumps py py.depth v = .ok t) :
    loads py (encode t) = .ok v := by
  have ho := opening_of_dumps hv h
  have hskip := skip_opening ho []
  have hscan := scans_dumps v py.depth t hv h (2*t.length+1) [] (by omega) trivial
  rw [List.append_nil] at hscan hskip
  rw [loads, decode_encode (dumps_printable v py.depth t hv h)]
  simp only [bind, Except.bind, loadsText, hskip, hscan]
  rfl

end Gamely.Json
