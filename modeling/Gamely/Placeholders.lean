import Mathlib.Data.List.Basic

/-!
# Placeholders in configuration values

A YAML scalar may hold placeholders, `$` and a name in braces, with or without a
fallback after `:-`. A scalar that is one placeholder without a value leaves its key out;
a placeholder inside a longer text must have a value.
-/

set_option autoImplicit false

namespace Gamely.Placeholders

/-- Variables visible to the placeholders. -/
abbrev Environ := String → Option String

/-- `[A-Za-z_]`. -/
def nameStart (c : Char) : Bool := c.isAlpha || c = '_'

/-- `[A-Za-z0-9_]`. -/
def nameChar (c : Char) : Bool := c.isAlphanum || c = '_'

def marker : Char := '\x00'

/-- `raw.replace`: every `$$` before a brace becomes the marker, brace included. -/
def marked : List Char → List Char
  | '$' :: '$' :: '\x7b' :: cs => marker :: marked cs
  | c::cs => c :: marked cs
  | [] => []

/-- The other way round, each marker becomes `$` and a brace. -/
def unmarked : List Char → List Char
  | [] => []
  | c::cs => if c = marker then '$' :: '\x7b' :: unmarked cs else c :: unmarked cs

structure Placeholder where
  name : String
  fallback : Option String
  deriving DecidableEq, Repr

/-- What follows the name: the closing brace, or a fallback up to it. -/
def fallbackOf : List Char → Option (Option String × List Char)
  | '\x7d' :: rest => some (none, rest)
  | ':' :: '-' :: cs => match cs.dropWhile (· ≠ '\x7d') with
    | _::rest => some (some (String.ofList (cs.takeWhile (· ≠ '\x7d'))), rest)
    | [] => none
  | _ => none

/-- `_PLACEHOLDER.match` at the start of a text, with the text after the match. -/
def placeholder : List Char → Option (Placeholder × List Char)
  | '$' :: '\x7b' :: c :: cs =>
    if nameStart c then
      (fallbackOf (cs.dropWhile nameChar)).map (fun r =>
        (⟨String.ofList (c :: cs.takeWhile nameChar), r.1⟩, r.2))
    else none
  | _ => none

/-- `_PLACEHOLDER.fullmatch`. -/
def wholePlaceholder (text : List Char) : Option Placeholder :=
  match placeholder text with
  | some (p, []) => some p
  | _ => none

variable (env : Environ)

def resolve (p : Placeholder) : Option String := (env p.name).or p.fallback

/-- `_PLACEHOLDER.sub`: the first argument counts the characters of the last match
still to be passed over. A placeholder without a value is an error. -/
def substitute : ℕ → List Char → Except String (List Char)
  | _, [] => .ok []
  | k+1, _::cs => substitute k cs
  | 0, c::cs => match placeholder (c::cs) with
    | some (p, rest) => match resolve env p with
      | some value => (value.toList ++ ·) <$> substitute (cs.length-rest.length) cs
      | none => .error p.name
    | none => (c :: ·) <$> substitute 0 cs

/-- `_interpolate`: no text for a bare placeholder without a value, when the key may be
left out, and otherwise the text or the name of the placeholder that has no value. -/
def interpolate (raw : String) (allowAbsent : Bool) : Except String (Option String) :=
  let text := marked raw.toList
  match wholePlaceholder text, allowAbsent with
  | some p, true => .ok ((resolve env p).map (fun value => String.ofList (unmarked value.toList)))
  | _, _ => (fun cs => some (String.ofList (unmarked cs))) <$> substitute env 0 text

/-! ## Bare placeholders -/

def isName : List Char → Bool
  | [] => false
  | c::cs => nameStart c && cs.all nameChar

/-- The text is `$` and a name in braces, and nothing supplies the name. -/
def Unresolved (raw : String) : Prop :=
  ∃ name : String, isName name.toList = true ∧ env name = none ∧
    raw.toList = '$' :: '\x7b' :: name.toList ++ ['\x7d']

theorem takeWhile_append_of_all {p : Char → Bool} {xs ys : List Char}
    (hx : xs.all p = true) (hy : ∀ y, ys.head? = some y → p y = false) :
    (xs ++ ys).takeWhile p = xs ∧ (xs ++ ys).dropWhile p = ys := by
  induction xs with
  | nil =>
    cases ys with
    | nil => exact ⟨rfl, rfl⟩
    | cons y ys => simp [hy y rfl]
  | cons x xs ih =>
    rw [List.all_cons, Bool.and_eq_true] at hx
    obtain ⟨h₁, h₂⟩ := ih hx.2
    simp [hx.1, h₁, h₂]

theorem marked_of_no_marker {cs : List Char} (h : marker ∉ marked cs) : marked cs = cs := by
  fun_induction marked cs with
  | case1 cs ih => simp at h
  | case2 c cs hne ih =>
    rw [ih (fun hm => h (List.mem_cons_of_mem c hm))]
  | case3 => rfl

theorem nameChar_ne_marker {c : Char} (h : nameChar c = true) : c ≠ marker := by
  rintro rfl
  revert h
  decide

theorem fallbackOf_none {cs rest : List Char} (h : fallbackOf cs = some (none, rest)) :
    cs = '\x7d' :: rest := by
  unfold fallbackOf at h
  split at h
  · cases h
    rfl
  · split at h
    · cases h
    · cases h
  · cases h

/-- A text that is one placeholder without a fallback. -/
theorem wholePlaceholder_bare {text : List Char} {p : Placeholder}
    (h : wholePlaceholder text = some p) (hp : p.fallback = none) :
    isName p.name.toList = true ∧ text = '$' :: '\x7b' :: p.name.toList ++ ['\x7d'] := by
  unfold wholePlaceholder at h
  split at h
  case h_2 => cases h
  case h_1 p' hm =>
    cases h
    unfold placeholder at hm
    split at hm
    case h_2 => cases hm
    case h_1 c cs =>
      split at hm
      case isFalse => cases hm
      case isTrue hstart =>
        obtain ⟨⟨fallback, rest⟩, hf, he⟩ := Option.map_eq_some_iff.mp hm
        cases he
        subst hp
        have hend := fallbackOf_none hf
        have hcs : cs = cs.takeWhile nameChar ++ ['\x7d'] := by
          rw [← hend, List.takeWhile_append_dropWhile]
        constructor
        · simp [isName, hstart]
        · rw [String.toList_ofList, List.cons_append, List.cons_append, List.cons_append, ← hcs]

theorem placeholder_bare {name : String} (h : isName name.toList = true) :
    wholePlaceholder ('$' :: '\x7b' :: name.toList ++ ['\x7d']) = some ⟨name, none⟩ := by
  cases hl : name.toList with
  | nil =>
    rw [hl] at h
    cases h
  | cons c cs =>
    rw [hl, isName, Bool.and_eq_true] at h
    have hend : ∀ y, ['\x7d'].head? = some y → nameChar y = false := by
      intro y hy
      cases hy
      decide
    obtain ⟨htake, hdrop⟩ := takeWhile_append_of_all h.2 hend
    have hname : String.ofList (c :: cs) = name := by rw [← hl, String.ofList_toList]
    simp [wholePlaceholder, placeholder, h.1, htake, hdrop, fallbackOf, hname]

theorem marked_plain {cs : List Char} (h : '$' ∉ cs) : marked cs = cs := by
  fun_induction marked cs with
  | case1 cs ih => simp at h
  | case2 c cs hne ih => rw [ih (fun hm => h (List.mem_cons_of_mem c hm))]
  | case3 => rfl

theorem marked_bare {cs : List Char} (h : '$' ∉ cs) :
    marked ('$' :: '\x7b' :: cs) = '$' :: '\x7b' :: cs := by
  have hrest : '$' ∉ '\x7b' :: cs := by simp [h]
  rw [marked, marked_plain hrest]
  intro cs' _ he
  exact absurd (List.head_eq_of_cons_eq he) (by decide)

theorem isName_all {cs : List Char} (h : isName cs = true) : ∀ c ∈ cs, nameChar c = true := by
  cases cs with
  | nil => simp
  | cons c cs =>
    rw [isName, Bool.and_eq_true] at h
    have hc : nameChar c = true := by
      have := h.1
      simp only [nameStart, nameChar, Char.isAlphanum, Bool.or_eq_true] at this ⊢
      tauto
    intro c' hc'
    rcases List.mem_cons.mp hc' with rfl | hc'
    · exact hc
    · exact List.all_eq_true.mp h.2 c' hc'

theorem interpolate_none_iff (raw : String) :
    interpolate env raw true = .ok none ↔ Unresolved env raw := by
  constructor
  · intro h
    unfold interpolate at h
    dsimp only at h
    split at h
    case h_1 p hw _ =>
      have hr : resolve env p = none := by simpa using h
      obtain ⟨henv, hfallback⟩ := Option.or_eq_none_iff.mp hr
      obtain ⟨hname, htext⟩ := wholePlaceholder_bare hw hfallback
      have hmark : marker ∉ marked raw.toList := by
        rw [htext]
        intro hm
        simp only [List.cons_append, List.mem_cons, List.mem_append, List.not_mem_nil,
          or_false] at hm
        rcases hm with hm | hm | hm | hm
        · revert hm
          decide
        · revert hm
          decide
        · exact nameChar_ne_marker (isName_all hname _ hm) rfl
        · revert hm
          decide
      rw [marked_of_no_marker hmark] at htext
      exact ⟨p.name, hname, henv, htext⟩
    case h_2 =>
      cases hs : substitute env 0 (marked raw.toList) with
      | error e =>
        rw [hs] at h
        cases h
      | ok cs =>
        rw [hs] at h
        cases h
  · rintro ⟨name, hname, henv, hraw⟩
    have hplain : '$' ∉ name.toList ++ ['\x7d'] := by
      intro hm
      rcases List.mem_append.mp hm with hm | hm
      · have := isName_all hname _ hm
        revert this
        decide
      · simp at hm
    have htext : marked raw.toList = '$' :: '\x7b' :: name.toList ++ ['\x7d'] := by
      rw [hraw, List.cons_append, List.cons_append]
      exact marked_bare hplain
    have hwhole := placeholder_bare hname
    rw [← htext] at hwhole
    simp [interpolate, hwhole, resolve, henv]

end Gamely.Placeholders
