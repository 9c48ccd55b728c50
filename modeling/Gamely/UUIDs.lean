import Gamely.Digits
import Mathlib.Data.List.TakeWhile

/-!
# UUIDs as text

`str` of a `UUID` and the constructor that reads it back, with what `int` permits
in a text of hexadecimal digits.
-/

set_option autoImplicit false

namespace Gamely.UUIDs
open Gamely.Digits

structure UUID where
  int : BitVec 128
  deriving DecidableEq, Repr

def UUID.hex (u : UUID) : List Char := (bigEndian 16 32 u.int.toNat).map Nat.digitChar

/-- `str` of a `UUID`: the digits in five groups with dashes between them. -/
def UUID.str (u : UUID) : List Char := ['-'].intercalate (chunks [8, 4, 4, 4] u.hex)

/-! ## Reading -/

/-- `text.replace(word, '')`, after the next `skip` characters of a word that was found. -/
def remove (word : List Char) : ℕ → List Char → List Char
  | _, [] => []
  | skip+1, _::text => remove word skip text
  | 0, c::text =>
    if word.isPrefixOf (c::text) then remove word (word.length-1) text else c :: remove word 0 text

/-- `text.strip(chars)`. -/
def strip (chars text : List Char) : List Char :=
  ((text.dropWhile chars.contains).reverse.dropWhile chars.contains).reverse

def whitespace : List Char := [' ', '\t', '\n', '\r', '\x0b', '\x0c']

/-- After `0x` one underscore is permitted. -/
def unprefixed : List Char → List Char
  | '0'::x::digits =>
    if x = 'x' || x = 'X' then (match digits with
      | '_'::rest => rest
      | _ => digits)
    else '0'::x::digits
  | digits => digits

/-- Digits with single underscores between them. -/
def intDigits (text : List Char) : Option ℕ :=
  let groups := (unprefixed text).splitOn '_'
  if [] ∈ groups then none else (groups.flatten.mapM hexValue).map (fromBigEndian 16)

/-- `int(text, 16)`; `transform` replaces the spaces and digits of other scripts. -/
def intHex (transform : List Char → List Char) (text : List Char) : Option ℤ :=
  let ascii := if text.all (fun c => c.toNat < 128) then text else transform text
  match strip whitespace ascii with
  | '-'::digits => (intDigits digits).map (fun n => -Int.ofNat n)
  | '+'::digits => (intDigits digits).map Int.ofNat
  | digits => (intDigits digits).map Int.ofNat

/-- `UUID(text)`. -/
def UUID.parse (transform : List Char → List Char) (text : List Char) : Option UUID :=
  let hex := (strip ['\x7b', '\x7d'] (remove ['u', 'u', 'i', 'd', ':'] 0
    (remove ['u', 'r', 'n', ':'] 0 text))).filter (· ≠ '-')
  if hex.length ≠ 32 then none
  else match intHex transform hex with
    | some n => if 0 ≤ n ∧ n < 2^128 then some ⟨.ofInt 128 n⟩ else none
    | none => none

/-! ## Reading what was printed -/

theorem remove_plain {word text : List Char} {c : Char} (hc : c ∈ word) (ht : c ∉ text) :
    remove word 0 text = text := by
  induction text with
  | nil => rfl
  | cons x text ih =>
    have hword : ¬ word.isPrefixOf (x::text) = true := by
      intro h
      exact ht ((List.isPrefixOf_iff_prefix.mp h).subset hc)
    rw [remove, if_neg hword, ih (fun h => ht (List.mem_cons_of_mem x h))]

theorem strip_plain {chars text : List Char} (h : ∀ c ∈ text, c ∉ chars) :
    strip chars text = text := by
  have keep : ∀ l : List Char, (∀ c ∈ l, c ∉ chars) → l.dropWhile chars.contains = l := by
    intro l hl
    cases l with
    | nil => rfl
    | cons c l =>
      apply List.dropWhile_cons_of_neg
      simpa using hl c List.mem_cons_self
  rw [strip, keep text h, keep text.reverse (fun c hc => h c (List.mem_reverse.mp hc)),
    List.reverse_reverse]

theorem hex_length (u : UUID) : u.hex.length = 32 := by
  rw [UUID.hex, List.length_map, bigEndian_length]

/-- Not a character with a meaning of its own. -/
def Plain (c : Char) : Prop :=
  c.toNat < 128 ∧ c ∉ ['-', '+', '_', 'x', 'X', ':', '\x7b', '\x7d'] ++ whitespace

theorem digitChar_plain : ∀ d < 16, (Nat.digitChar d).toNat < 128 ∧
    Nat.digitChar d ∉ ['-', '+', '_', 'x', 'X', ':', '\x7b', '\x7d'] ++ whitespace := by decide

theorem hex_plain {u : UUID} {c : Char} (h : c ∈ u.hex) : Plain c := by
  obtain ⟨d, hd, rfl⟩ := List.mem_map.mp h
  exact digitChar_plain d (bigEndian_lt (by decide) 32 _ d hd)

theorem not_mem_plain {text : List Char} (h : ∀ c ∈ text, Plain c) {c : Char}
    (hc : c ∈ ['-', '+', '_', 'x', 'X', ':', '\x7b', '\x7d'] ++ whitespace) : c ∉ text :=
  fun ht => (h c ht).2 hc

theorem unprefixed_plain {text : List Char} (h : ∀ c ∈ text, Plain c) :
    unprefixed text = text := by
  unfold unprefixed
  split
  case h_1 x digits =>
    have hx : ¬ (x = 'x' ∨ x = 'X') := by
      rintro (rfl | rfl)
      · exact not_mem_plain h (c := 'x') (by decide) (by simp)
      · exact not_mem_plain h (c := 'X') (by decide) (by simp)
    rw [if_neg (by simpa using hx)]
  case h_2 => rfl

theorem intHex_plain (transform : List Char → List Char) {text : List Char}
    (h : ∀ c ∈ text, Plain c) (hne : text ≠ []) {digits : List ℕ}
    (hdigits : text.mapM hexValue = some digits) :
    intHex transform text = some (fromBigEndian 16 digits : ℤ) := by
  have hascii : text.all (fun c => c.toNat < 128) = true := by
    rw [List.all_eq_true]
    exact fun c hc => decide_eq_true (h c hc).1
  have hspace : ∀ c ∈ text, c ∉ whitespace :=
    fun c hc hw => (h c hc).2 (List.mem_append_right _ hw)
  have hsplit : text.splitOn '_' = [text] :=
    List.splitOn_eq_singleton (not_mem_plain h (by decide))
  have hint : intDigits text = some (fromBigEndian 16 digits) := by
    rw [intDigits, unprefixed_plain h, hsplit, if_neg (by simpa using hne.symm),
      List.flatten_singleton, hdigits, Option.map_some]
  rw [intHex, if_pos hascii, strip_plain hspace]
  split
  case h_1 => exact absurd (by simp) (not_mem_plain h (c := '-') (by decide))
  case h_2 => exact absurd (by simp) (not_mem_plain h (c := '+') (by decide))
  case h_3 =>
    rw [hint]
    rfl

theorem mem_str {u : UUID} {c : Char} (h : c ∈ u.str) : c = '-' ∨ c ∈ u.hex := by
  rcases mem_intercalate h with h | ⟨part, hp, hc⟩
  · exact Or.inl h
  · right
    rw [← flatten_chunks [8, 4, 4, 4] u.hex]
    exact List.mem_flatten_of_mem hp hc

theorem filter_str (u : UUID) : u.str.filter (· ≠ '-') = u.hex := by
  have hdash : '-' ∉ u.hex := not_mem_plain (fun c hc => hex_plain hc) (by decide)
  rw [UUID.str, filter_intercalate, flatten_chunks]
  intro part hp hc
  rw [← flatten_chunks [8, 4, 4, 4] u.hex] at hdash
  exact hdash (List.mem_flatten_of_mem hp hc)

theorem intHex_hex (transform : List Char → List Char) (u : UUID) :
    intHex transform u.hex = some (u.int.toNat : ℤ) := by
  have hne : u.hex ≠ [] := by
    intro he
    have hlen := hex_length u
    rw [he] at hlen
    cases hlen
  have hdigits : u.hex.mapM hexValue = some (bigEndian 16 32 u.int.toNat) :=
    mapM_map (fun d hd => hexValue_digitChar d (bigEndian_lt (by decide) 32 _ d hd))
  rw [intHex_plain transform (fun c hc => hex_plain hc) hne hdigits, fromBigEndian_bigEndian,
    Nat.mod_eq_of_lt (by simpa using u.int.isLt)]

theorem str_not_mem {u : UUID} {c : Char} (hd : c ≠ '-')
    (hc : c ∈ ['-', '+', '_', 'x', 'X', ':', '\x7b', '\x7d'] ++ whitespace) : c ∉ u.str := by
  intro h
  rcases mem_str h with h | h
  · exact hd h
  · exact (hex_plain h).2 hc

theorem parse_str (transform : List Char → List Char) (u : UUID) :
    UUID.parse transform u.str = some u := by
  have hcolon : ':' ∉ u.str := str_not_mem (by decide) (by decide)
  have hbraces : ∀ c ∈ u.str, c ∉ ['\x7b', '\x7d'] := by
    intro c hc hb
    simp only [List.mem_cons, List.not_mem_nil, or_false] at hb
    rcases hb with rfl | rfl
    · exact str_not_mem (by decide) (by decide) hc
    · exact str_not_mem (by decide) (by decide) hc
  unfold UUID.parse
  rw [remove_plain (c := ':') (by decide) hcolon, remove_plain (c := ':') (by decide) hcolon,
    strip_plain hbraces, filter_str]
  dsimp only
  rw [if_neg (by rw [hex_length]; simp), intHex_hex]
  dsimp only
  rw [if_pos]
  · simp
  · have := u.int.isLt
    omega

theorem str_inj {u v : UUID} (h : u.str = v.str) : u = v := by
  have hread := parse_str id u
  rw [h, parse_str] at hread
  exact (Option.some.inj hread).symm

end Gamely.UUIDs
