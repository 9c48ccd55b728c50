import Gamely.Placeholders

/-!
# Placeholders read from left to right

The source marks the escapes, replaces the placeholders and writes the escapes
back, each over the whole text. The reading below goes over the text once, and
on texts without the marker both give the same.
-/

set_option autoImplicit false

namespace Gamely.Interpolation
open Gamely.Placeholders

/-! ## The reading -/

inductive Piece where
  | char (c : Char)
  | escape
  | hole (p : Placeholder)
  deriving DecidableEq, Repr

/-- An escape stands for `$` and a brace. -/
def unescaped : List Char → List Char
  | '$' :: '$' :: '\x7b' :: cs => '$' :: '\x7b' :: unescaped cs
  | c::cs => c :: unescaped cs
  | [] => []

theorem fallbackOf_suffix {cs rest : List Char} {fallback : Option String}
    (h : fallbackOf cs = some (fallback, rest)) : rest <:+ cs := by
  unfold fallbackOf at h
  split at h
  case h_1 =>
    cases h
    exact List.suffix_cons _ _
  case h_2 cs =>
    split at h
    case h_1 c rest' hd =>
      cases h
      have hdrop : c :: rest <:+ cs := hd ▸ List.dropWhile_suffix _
      exact ((List.suffix_cons c rest).trans hdrop).trans
        ((List.suffix_cons '-' cs).trans (List.suffix_cons ':' _))
    case h_2 => cases h
  case h_3 => cases h

/-- A placeholder is followed by an end of the text behind its first character. -/
theorem placeholder_suffix {c : Char} {cs rest : List Char} {p : Placeholder}
    (h : placeholder (c::cs) = some (p, rest)) : rest <:+ cs := by
  unfold placeholder at h
  split at h
  case h_1 c' cs' heq =>
    split at h
    case isTrue =>
      cases heq
      obtain ⟨⟨fallback, rest'⟩, hf, he⟩ := Option.map_eq_some_iff.mp h
      cases he
      have hdrop := (fallbackOf_suffix hf).trans (List.dropWhile_suffix nameChar)
      exact hdrop.trans ((List.suffix_cons c' cs').trans (List.suffix_cons _ _))
    case isFalse => cases h
  case h_2 => cases h

/-- One scan: an escape, else a placeholder, else a character as it stands. -/
def pieces : List Char → List Piece
  | '$' :: '$' :: '\x7b' :: cs => .escape :: pieces cs
  | c::cs => match _h : placeholder (c::cs) with
    | some (p, rest) => .hole p :: pieces rest
    | none => .char c :: pieces cs
  | [] => []
  termination_by cs => cs.length
  decreasing_by
  all_goals try have hle := (placeholder_suffix _h).length_le
  all_goals simp only [List.length_cons]
  all_goals omega

/-- The text begins with an escape. -/
def Escaped (cs : List Char) : Prop := ∃ rest, cs = '$' :: '$' :: '\x7b' :: rest

theorem pieces_escape (cs : List Char) :
    pieces ('$' :: '$' :: '\x7b' :: cs) = .escape :: pieces cs := by rw [pieces]

theorem pieces_hole {c : Char} {cs rest : List Char} {p : Placeholder} (h : ¬ Escaped (c::cs))
    (hp : placeholder (c::cs) = some (p, rest)) : pieces (c::cs) = .hole p :: pieces rest := by
  rw [pieces]
  · split
    case h_1 heq =>
      rw [hp] at heq
      cases heq
      rfl
    case h_2 heq =>
      rw [hp] at heq
      cases heq
  · rintro cs' rfl rfl
    exact h ⟨cs', rfl⟩

theorem pieces_char {c : Char} {cs : List Char} (h : ¬ Escaped (c::cs))
    (hp : placeholder (c::cs) = none) : pieces (c::cs) = .char c :: pieces cs := by
  rw [pieces]
  · split
    case h_1 heq =>
      rw [hp] at heq
      cases heq
    case h_2 => rfl
  · rintro cs' rfl rfl
    exact h ⟨cs', rfl⟩

variable (env : Environ)

/-- The value of a variable, or else the fallback, with the escapes inside it read. -/
def supplied (p : Placeholder) : Option (List Char) :=
  match env p.name with
  | some value => some value.toList
  | none => p.fallback.map (fun fallback => unescaped fallback.toList)

/-- What the pieces stand for; a placeholder nothing supplies is an error. -/
def emit : List Piece → Except String (List Char)
  | [] => .ok []
  | .char c :: ps => (c :: ·) <$> emit ps
  | .escape :: ps => ('$' :: '\x7b' :: ·) <$> emit ps
  | .hole p :: ps => match supplied env p with
    | some value => (value ++ ·) <$> emit ps
    | none => .error p.name

def reading (raw : String) (allowAbsent : Bool) : Except String (Option String) :=
  match pieces raw.toList, allowAbsent with
  | [.hole ⟨name, none⟩], true => .ok (env name)
  | ps, _ => (fun cs => some (String.ofList cs)) <$> emit env ps

/-- `$` and a brace written as escapes. -/
def escaped : List Char → List Char
  | '$' :: '\x7b' :: cs => '$' :: '$' :: '\x7b' :: escaped cs
  | c::cs => c :: escaped cs
  | [] => []

/-! ## Marked texts -/

theorem marked_escape (cs : List Char) :
    marked ('$' :: '$' :: '\x7b' :: cs) = marker :: marked cs := by rw [marked]

theorem marked_cons {c : Char} {cs : List Char} (h : ¬ Escaped (c::cs)) :
    marked (c::cs) = c :: marked cs := by
  rw [marked]
  rintro cs' rfl rfl
  exact h ⟨cs', rfl⟩

theorem unescaped_cons {c : Char} {cs : List Char} (h : ¬ Escaped (c::cs)) :
    unescaped (c::cs) = c :: unescaped cs := by
  rw [unescaped]
  rintro cs' rfl rfl
  exact h ⟨cs', rfl⟩

theorem not_escaped {c : Char} (cs : List Char) (h : c ≠ '$') : ¬ Escaped (c::cs) := by
  rintro ⟨rest, he⟩
  exact h (List.head_eq_of_cons_eq he)

theorem nameChar_dollar {c : Char} (h : nameChar c = true) : c ≠ '$' := by
  rintro rfl
  revert h
  decide

/-- Writing the escapes back reads them. -/
theorem unmarked_marked {cs : List Char} (h : marker ∉ cs) :
    unmarked (marked cs) = unescaped cs := by
  fun_induction marked cs with
  | case1 cs ih =>
    rw [unmarked, if_pos rfl, unescaped, ih]
    intro hm
    exact h (by simp [hm])
  | case2 c cs hne ih =>
    have hcs : ¬ Escaped (c::cs) := by
      rintro ⟨rest, he⟩
      cases he
      exact hne rest rfl rfl
    rw [List.mem_cons, not_or] at h
    rw [unmarked, if_neg (Ne.symm h.1), unescaped_cons hcs, ih h.2]
  | case3 => rfl

theorem unmarked_append (xs ys : List Char) : unmarked (xs ++ ys) = unmarked xs ++ unmarked ys := by
  induction xs with
  | nil => rfl
  | cons x xs ih =>
    rw [List.cons_append, unmarked, unmarked]
    split
    · rw [ih, List.cons_append, List.cons_append]
    · rw [ih, List.cons_append]

theorem unmarked_plain {cs : List Char} (h : marker ∉ cs) : unmarked cs = cs := by
  induction cs with
  | nil => rfl
  | cons c cs ih =>
    rw [List.mem_cons, not_or] at h
    rw [unmarked, if_neg (Ne.symm h.1), ih h.2]

/-- A marked text begins with the marker, or as it did. -/
theorem marked_head (c : Char) (cs : List Char) :
    ∃ x xs, marked (c::cs) = x :: xs ∧ (x = marker ∨ x = c ∧ xs = marked cs) := by
  by_cases he : Escaped (c::cs)
  · obtain ⟨rest, he⟩ := he
    exact ⟨marker, marked rest, by rw [he, marked_escape], Or.inl rfl⟩
  · exact ⟨c, marked cs, marked_cons he, Or.inr ⟨rfl, rfl⟩⟩

theorem name_marked (cs : List Char) :
    (marked cs).takeWhile nameChar = cs.takeWhile nameChar ∧
      (marked cs).dropWhile nameChar = marked (cs.dropWhile nameChar) := by
  induction cs with
  | nil => exact ⟨rfl, rfl⟩
  | cons c cs ih =>
    by_cases hc : nameChar c = true
    · rw [marked_cons (not_escaped cs (nameChar_dollar hc))]
      simp [hc, ih]
    · obtain ⟨x, xs, hm, hx⟩ := marked_head c cs
      have hend : ¬ nameChar x = true := by
        rcases hx with rfl | ⟨rfl, -⟩
        · decide
        · exact hc
      rw [List.takeWhile_cons_of_neg hc, List.dropWhile_cons_of_neg hc, hm,
        List.takeWhile_cons_of_neg hend, List.dropWhile_cons_of_neg hend]
      exact ⟨rfl, rfl⟩

/-- What goes past escapes ends at the same place after they are marked. -/
theorem while_marked (p : Char → Bool) (dollar : p '$' = true) (brace : p '\x7b' = true)
    (mark : p marker = true) (cs : List Char) :
    (marked cs).takeWhile p = marked (cs.takeWhile p) ∧
      (marked cs).dropWhile p = marked (cs.dropWhile p) := by
  fun_induction marked cs with
  | case1 cs ih =>
    rw [List.takeWhile_cons_of_pos mark, List.dropWhile_cons_of_pos mark,
      List.takeWhile_cons_of_pos dollar, List.dropWhile_cons_of_pos dollar,
      List.takeWhile_cons_of_pos dollar, List.dropWhile_cons_of_pos dollar,
      List.takeWhile_cons_of_pos brace, List.dropWhile_cons_of_pos brace,
      marked_escape, ih.1, ih.2]
    exact ⟨rfl, rfl⟩
  | case2 c cs hne ih =>
    by_cases hc : p c = true
    · have hshort : ¬ Escaped (c :: cs.takeWhile p) := by
        rintro ⟨rest, he⟩
        obtain ⟨hd, he⟩ := List.cons.inj he
        obtain ⟨more, hmore⟩ := List.takeWhile_prefix (l := cs) p
        rw [he] at hmore
        exact hne (rest ++ more) hd (by rw [← hmore]; rfl)
      rw [List.takeWhile_cons_of_pos hc, List.takeWhile_cons_of_pos hc,
        List.dropWhile_cons_of_pos hc, List.dropWhile_cons_of_pos hc, marked_cons hshort,
        ih.1, ih.2]
      exact ⟨rfl, rfl⟩
    · have hcs : ¬ Escaped (c::cs) := by
        rintro ⟨rest, he⟩
        cases he
        exact hne rest rfl rfl
      rw [List.takeWhile_cons_of_neg hc, List.takeWhile_cons_of_neg hc,
        List.dropWhile_cons_of_neg hc, List.dropWhile_cons_of_neg hc, marked_cons hcs]
      exact ⟨rfl, rfl⟩
  | case3 => exact ⟨rfl, rfl⟩

/-! ## Placeholders of marked texts -/

/-- A fallback with its escapes marked. -/
def markedFallback (fallback : Option String) : Option String :=
  fallback.map (fun text => String.ofList (marked text.toList))

theorem fallbackOf_close (rest : List Char) : fallbackOf ('\x7d' :: rest) = some (none, rest) := rfl

theorem fallbackOf_ended {c : Char} {cs rest : List Char}
    (h : cs.dropWhile (· ≠ '\x7d') = c::rest) : fallbackOf (':' :: '-' :: cs) =
      some (some (String.ofList (cs.takeWhile (· ≠ '\x7d'))), rest) := by
  simp only [fallbackOf, h]

theorem fallbackOf_unended {cs : List Char} (h : cs.dropWhile (· ≠ '\x7d') = []) :
    fallbackOf (':' :: '-' :: cs) = none := by
  simp only [fallbackOf, h]

theorem fallbackOf_other {c : Char} {cs : List Char} (close : c ≠ '\x7d')
    (dash : ∀ rest, c = ':' → cs ≠ '-' :: rest) : fallbackOf (c::cs) = none := by
  unfold fallbackOf
  split
  case h_1 heq =>
    cases heq
    exact absurd rfl close
  case h_2 heq =>
    cases heq
    exact absurd rfl (dash _ rfl)
  case h_3 => rfl

theorem fallbackOf_marked_other {c : Char} {cs : List Char} (close : c ≠ '\x7d')
    (dash : ∀ rest, c = ':' → cs ≠ '-' :: rest) : fallbackOf (marked (c::cs)) = none := by
  obtain ⟨x, xs, hm, hx⟩ := marked_head c cs
  rw [hm]
  rcases hx with rfl | ⟨rfl, rfl⟩
  · exact fallbackOf_other (by decide) (fun _ h => absurd h (by decide))
  · apply fallbackOf_other close
    rintro rest rfl he
    cases cs with
    | nil => cases he
    | cons d ds =>
      obtain ⟨y, ys, hn, hy⟩ := marked_head d ds
      rw [hn] at he
      cases he
      rcases hy with hy | ⟨hy, -⟩
      · revert hy
        decide
      · exact dash ds rfl (by rw [← hy])

theorem fallbackOf_marked (cs : List Char) :
    fallbackOf (marked cs) = (fallbackOf cs).map (fun r => (markedFallback r.1, marked r.2)) := by
  cases cs with
  | nil => rfl
  | cons c cs =>
    by_cases close : c = '\x7d'
    · subst close
      rw [marked_cons (not_escaped cs (by decide)), fallbackOf_close, fallbackOf_close]
      rfl
    · by_cases dash : ∃ rest, c = ':' ∧ cs = '-' :: rest
      · obtain ⟨rest, rfl, rfl⟩ := dash
        rw [marked_cons (not_escaped _ (by decide)), marked_cons (not_escaped _ (by decide))]
        obtain ⟨htake, hdrop⟩ :=
          while_marked (· ≠ '\x7d') (by decide) (by decide) (by decide) rest
        cases hd : rest.dropWhile (· ≠ '\x7d') with
        | nil =>
          rw [hd] at hdrop
          rw [fallbackOf_unended hd, fallbackOf_unended hdrop]
          rfl
        | cons d ds =>
          have hend : d = '\x7d' := by
            have := List.head?_dropWhile_not (· ≠ '\x7d') rest
            rw [hd] at this
            simpa using this
          subst hend
          rw [hd, marked_cons (not_escaped ds (by decide))] at hdrop
          rw [fallbackOf_ended hd, fallbackOf_ended hdrop, htake]
          simp [markedFallback]
      · have hdash : ∀ rest, c = ':' → cs ≠ '-' :: rest := fun rest hc hcs => dash ⟨rest, hc, hcs⟩
        rw [fallbackOf_marked_other close hdash, fallbackOf_other close hdash]
        rfl

theorem placeholder_other {cs : List Char} (h : ∀ rest, cs ≠ '\x7b' :: rest) :
    placeholder ('$' :: cs) = none := by
  unfold placeholder
  split
  case h_1 heq =>
    cases heq
    exact absurd rfl (h _)
  case h_2 => rfl

theorem placeholder_plain {c : Char} (cs : List Char) (h : c ≠ '$') :
    placeholder (c::cs) = none := by
  unfold placeholder
  split
  case h_1 heq =>
    cases heq
    exact absurd rfl h
  case h_2 => rfl

/-- Marking the escapes keeps every placeholder, with those inside its fallback marked. -/
theorem placeholder_marked {c : Char} {cs : List Char} (h : ¬ Escaped (c::cs)) :
    placeholder (c :: marked cs) = (placeholder (c::cs)).map (fun r =>
      (⟨r.1.name, markedFallback r.1.fallback⟩, marked r.2)) := by
  by_cases hc : c = '$'
  · subst hc
    cases cs with
    | nil => rfl
    | cons d ds =>
      by_cases hd : d = '\x7b'
      · subst hd
        rw [marked_cons (not_escaped ds (by decide))]
        cases ds with
        | nil => rfl
        | cons e es =>
          by_cases he : nameStart e = true
          · have hdollar : e ≠ '$' := by
              rintro rfl
              revert he
              decide
            obtain ⟨htake, hdrop⟩ := name_marked es
            rw [marked_cons (not_escaped es hdollar)]
            simp only [placeholder, if_pos he, htake, hdrop, fallbackOf_marked, Option.map_map]
            rfl
          · obtain ⟨x, xs, hm, hx⟩ := marked_head e es
            have hstart : ¬ nameStart x = true := by
              rcases hx with rfl | ⟨rfl, -⟩
              · decide
              · exact he
            rw [hm]
            simp only [placeholder, if_neg he, if_neg hstart]
            rfl
      · have hplain : ∀ rest, d :: ds ≠ '\x7b' :: rest := fun rest heq => hd (List.cons.inj heq).1
        have hmarked : ∀ rest, marked (d::ds) ≠ '\x7b' :: rest := by
          intro rest heq
          obtain ⟨x, xs, hm, hx⟩ := marked_head d ds
          rw [hm] at heq
          cases heq
          rcases hx with hx | ⟨hx, -⟩
          · revert hx
            decide
          · exact hd hx.symm
        rw [placeholder_other hplain, placeholder_other hmarked]
        rfl
  · rw [placeholder_plain _ hc, placeholder_plain _ hc]
    rfl

/-! ## One scan for three passes -/

theorem substitute_skip (xs ys : List Char) :
    substitute env xs.length (xs ++ ys) = substitute env 0 ys := by
  induction xs with
  | nil => rfl
  | cons x xs ih => exact ih

theorem substitute_value {c : Char} {cs rest : List Char} {p : Placeholder} {value : String}
    (h : placeholder (c::cs) = some (p, rest)) (hr : resolve env p = some value) :
    substitute env 0 (c::cs) = (value.toList ++ ·) <$> substitute env 0 rest := by
  obtain ⟨before, rfl⟩ := placeholder_suffix h
  have hskip : (before ++ rest).length-rest.length = before.length := by
    rw [List.length_append, Nat.add_sub_cancel]
  rw [substitute, h]
  dsimp only
  rw [hr]
  dsimp only
  rw [hskip, substitute_skip]

theorem substitute_absent {c : Char} {cs rest : List Char} {p : Placeholder}
    (h : placeholder (c::cs) = some (p, rest)) (hr : resolve env p = none) :
    substitute env 0 (c::cs) = .error p.name := by
  rw [substitute, h]
  dsimp only
  rw [hr]

theorem substitute_char {c : Char} {cs : List Char} (h : placeholder (c::cs) = none) :
    substitute env 0 (c::cs) = (c :: ·) <$> substitute env 0 cs := by
  rw [substitute, h]

/-- The values of the environment and the text are free of the marker. -/
def Plain (env : Environ) : Prop := ∀ name value, env name = some value → marker ∉ value.toList

theorem supplied_marked (henv : Plain env) (p : Placeholder)
    (h : ∀ fallback, p.fallback = some fallback → marker ∉ fallback.toList) :
    (resolve env ⟨p.name, markedFallback p.fallback⟩).map (fun value => unmarked value.toList) =
      supplied env p := by
  unfold resolve supplied
  cases hv : env p.name with
  | some value =>
    simp only [Option.some_or, Option.map_some]
    rw [unmarked_plain (henv _ _ hv)]
  | none =>
    cases hf : p.fallback with
    | none => rfl
    | some fallback =>
      simp only [markedFallback, Option.map_some, Option.none_or, String.toList_ofList]
      rw [unmarked_marked (h fallback hf)]

theorem fallback_mem {cs rest : List Char} {p : Placeholder} {fallback : String}
    (h : placeholder cs = some (p, rest)) (hf : p.fallback = some fallback) :
    ∀ c ∈ fallback.toList, c ∈ cs := by
  unfold placeholder at h
  split at h
  case h_2 => cases h
  case h_1 c cs =>
    split at h
    case isFalse => cases h
    case isTrue =>
      obtain ⟨⟨found, rest'⟩, hend, he⟩ := Option.map_eq_some_iff.mp h
      cases he
      subst hf
      have hcs : ∀ c' ∈ cs.dropWhile nameChar, c' ∈ '$' :: '\x7b' :: c :: cs := by
        intro c' hc'
        have := (List.dropWhile_suffix nameChar (l := cs)).subset hc'
        simp [this]
      unfold fallbackOf at hend
      split at hend
      case h_1 => cases hend
      case h_3 => cases hend
      case h_2 ds heq =>
        split at hend
        case h_2 => cases hend
        case h_1 =>
          cases hend
          intro c' hc'
          rw [String.toList_ofList] at hc'
          have hds := (List.takeWhile_prefix (· ≠ '\x7d')).subset hc'
          exact hcs c' (by rw [heq]; simp [hds])

/-- The three passes and the scan emit the same. -/
theorem substitute_marked (henv : Plain env) (cs : List Char) (h : marker ∉ cs) :
    unmarked <$> substitute env 0 (marked cs) = emit env (pieces cs) := by
  fun_induction pieces cs with
  | case1 cs ih =>
    have hcs : marker ∉ cs := fun hm => h (by simp [hm])
    have hnone : placeholder (marker :: marked cs) = none := placeholder_plain _ (by decide)
    rw [marked_escape, substitute_char env hnone, emit, ← ih hcs]
    cases substitute env 0 (marked cs) <;> rfl
  | case2 c cs hne p rest hp ih =>
    have hesc : ¬ Escaped (c::cs) := by
      rintro ⟨rest, he⟩
      cases he
      exact hne rest rfl rfl
    have hrest : marker ∉ rest :=
      fun hm => h (List.mem_cons_of_mem c ((placeholder_suffix hp).subset hm))
    have hmarked := placeholder_marked hesc
    rw [hp, Option.map_some] at hmarked
    have hs := supplied_marked env henv p
      (fun fallback hf hm => h (fallback_mem hp hf marker hm))
    rw [marked_cons hesc, emit, ← hs, ← ih hrest]
    cases hr : resolve env ⟨p.name, markedFallback p.fallback⟩ with
    | none =>
      rw [substitute_absent env hmarked hr]
      rfl
    | some value =>
      rw [substitute_value env hmarked hr]
      cases substitute env 0 (marked rest) with
      | error e => rfl
      | ok out => exact congrArg Except.ok (unmarked_append _ _)
  | case3 c cs hne hp ih =>
    have hesc : ¬ Escaped (c::cs) := by
      rintro ⟨rest, he⟩
      cases he
      exact hne rest rfl rfl
    rw [List.mem_cons, not_or] at h
    have hmarked := placeholder_marked hesc
    rw [hp, Option.map_none] at hmarked
    rw [marked_cons hesc, substitute_char env hmarked, emit, ← ih h.2]
    cases substitute env 0 (marked cs) with
    | error e => rfl
    | ok out =>
      have hc : unmarked (c::out) = c :: unmarked out := by rw [unmarked, if_neg (Ne.symm h.1)]
      exact congrArg Except.ok hc
  | case4 => rfl

theorem pieces_ne_nil (c : Char) (cs : List Char) : pieces (c::cs) ≠ [] := by
  unfold pieces
  split
  · exact List.cons_ne_nil _ _
  · split
    · exact List.cons_ne_nil _ _
    · exact List.cons_ne_nil _ _
  · exact fun h => List.cons_ne_nil _ _ (by assumption)

/-- The placeholder of a text that is nothing else. -/
def onlyHole : List Piece → Option Placeholder
  | [.hole p] => some p
  | _ => none

theorem onlyHole_eq_some {ps : List Piece} {p : Placeholder} :
    onlyHole ps = some p ↔ ps = [.hole p] := by
  constructor
  · intro h
    unfold onlyHole at h
    split at h
    case h_1 p' =>
      rw [Option.some.inj h]
    case h_2 => cases h
  · rintro rfl
    rfl

theorem onlyHole_cons (q : Piece) {ps : List Piece} (h : ps ≠ []) : onlyHole (q::ps) = none := by
  cases ps with
  | nil => exact absurd rfl h
  | cons p ps => cases q <;> rfl

/-- The marked text is one placeholder when the scan reads one piece, a placeholder. -/
theorem whole_marked (cs : List Char) : wholePlaceholder (marked cs) =
    (onlyHole (pieces cs)).map (fun p => ⟨p.name, markedFallback p.fallback⟩) := by
  cases cs with
  | nil =>
    rw [pieces]
    rfl
  | cons c cs =>
    by_cases hesc : Escaped (c::cs)
    · obtain ⟨rest, he⟩ := hesc
      have hnone : placeholder (marker :: marked rest) = none := placeholder_plain _ (by decide)
      rw [he, marked_escape, pieces_escape, wholePlaceholder, hnone]
      rfl
    · have hmarked := placeholder_marked hesc
      rw [marked_cons hesc, wholePlaceholder, hmarked]
      cases hp : placeholder (c::cs) with
      | none =>
        rw [pieces_char hesc hp]
        rfl
      | some r =>
        obtain ⟨p, rest⟩ := r
        rw [pieces_hole hesc hp]
        cases rest with
        | nil =>
          rw [pieces]
          rfl
        | cons d ds =>
          obtain ⟨x, xs, hm, -⟩ := marked_head d ds
          rw [onlyHole_cons _ (pieces_ne_nil d ds), Option.map_some, hm]
          rfl

theorem hole_plain {cs : List Char} {p : Placeholder} (hp : .hole p ∈ pieces cs)
    (h : marker ∉ cs) : ∀ fallback, p.fallback = some fallback → marker ∉ fallback.toList := by
  fun_induction pieces cs with
  | case1 cs ih =>
    exact ih (by simpa using hp) (fun hm => h (by simp [hm]))
  | case2 c cs hne q rest hq ih =>
    rcases List.mem_cons.mp hp with heq | hmem
    · cases heq
      exact fun fallback hf hm => h (fallback_mem hq hf marker hm)
    · exact ih hmem (fun hm => h (List.mem_cons_of_mem c ((placeholder_suffix hq).subset hm)))
  | case3 c cs hne hq ih =>
    exact ih (by simpa using hp) (fun hm => h (List.mem_cons_of_mem c hm))
  | case4 => cases hp

/-- The source's three passes agree with the one scan. -/
theorem interpolate_eq_reading (henv : Plain env) (raw : String) (h : marker ∉ raw.toList)
    (allowAbsent : Bool) : interpolate env raw allowAbsent = reading env raw allowAbsent := by
  have passes :
      (fun cs => some (String.ofList (unmarked cs))) <$> substitute env 0 (marked raw.toList) =
        (fun cs => some (String.ofList cs)) <$> emit env (pieces raw.toList) := by
    rw [← substitute_marked env henv raw.toList h]
    cases substitute env 0 (marked raw.toList) <;> rfl
  have hwhole := whole_marked raw.toList
  unfold interpolate reading
  dsimp only
  cases allowAbsent with
  | false =>
    split
    case h_1 heq => cases heq
    case h_2 =>
      split
      case h_1 heq => cases heq
      case h_2 => exact passes
  | true =>
    cases honly : onlyHole (pieces raw.toList) with
    | none =>
      rw [honly, Option.map_none] at hwhole
      rw [hwhole]
      dsimp only
      rw [passes]
      split
      case h_1 name heq _ =>
        rw [heq] at honly
        cases honly
      case h_2 => rfl
    | some p =>
      have hps := onlyHole_eq_some.mp honly
      rw [honly, Option.map_some] at hwhole
      have hs := supplied_marked env henv p (hole_plain (by rw [hps]; simp) h)
      have hout : (resolve env ⟨p.name, markedFallback p.fallback⟩).map
          (fun value => String.ofList (unmarked value.toList)) =
            (supplied env p).map String.ofList := by
        rw [← hs, Option.map_map]
        rfl
      rw [hwhole, hps]
      dsimp only
      rw [hout]
      obtain ⟨name, fallback⟩ := p
      cases hv : env name with
      | none =>
        cases fallback with
        | none => simp [supplied, hv]
        | some fallback => simp [supplied, hv, emit]
      | some value =>
        cases fallback with
        | none => simp [supplied, hv]
        | some fallback => simp [supplied, hv, emit]

/-! ## Errors -/

/-- Some placeholder of the text has neither a value nor a fallback. -/
def Unset (raw : String) : Prop :=
  ∃ p, .hole p ∈ pieces raw.toList ∧ env p.name = none ∧ p.fallback = none

theorem resolve_none_iff (p : Placeholder) :
    resolve env ⟨p.name, markedFallback p.fallback⟩ = none ↔
      env p.name = none ∧ p.fallback = none := by
  simp [resolve, markedFallback, Option.or_eq_none_iff]

theorem map_error_iff {A B : Type} (f : A → B) (r : Except String A) :
    (∃ name, f <$> r = .error name) ↔ ∃ name, r = .error name := by
  cases r with
  | error e => exact iff_of_true ⟨e, rfl⟩ ⟨e, rfl⟩
  | ok a => exact iff_of_false (fun ⟨_, h⟩ => by cases h) (fun ⟨_, h⟩ => by cases h)

theorem substitute_error_iff (cs : List Char) :
    (∃ name, substitute env 0 (marked cs) = .error name) ↔
      ∃ p, .hole p ∈ pieces cs ∧ env p.name = none ∧ p.fallback = none := by
  fun_induction pieces cs with
  | case1 cs ih =>
    have hnone : placeholder (marker :: marked cs) = none := placeholder_plain _ (by decide)
    rw [marked_escape, substitute_char env hnone, map_error_iff, ih]
    simp
  | case2 c cs hne p rest hp ih =>
    have hesc : ¬ Escaped (c::cs) := by
      rintro ⟨rest, he⟩
      cases he
      exact hne rest rfl rfl
    have hmarked := placeholder_marked hesc
    rw [hp, Option.map_some] at hmarked
    have hresolve := resolve_none_iff env p
    rw [marked_cons hesc]
    cases hr : resolve env ⟨p.name, markedFallback p.fallback⟩ with
    | none =>
      rw [substitute_absent env hmarked hr]
      exact iff_of_true ⟨p.name, rfl⟩ ⟨p, List.mem_cons_self, hresolve.mp hr⟩
    | some value =>
      rw [substitute_value env hmarked hr, map_error_iff, ih]
      constructor
      · rintro ⟨q, hq, hn⟩
        exact ⟨q, List.mem_cons_of_mem _ hq, hn⟩
      · rintro ⟨q, hq, hn⟩
        rcases List.mem_cons.mp hq with heq | hq
        · cases heq
          rw [hresolve.mpr hn] at hr
          cases hr
        · exact ⟨q, hq, hn⟩
  | case3 c cs hne hp ih =>
    have hesc : ¬ Escaped (c::cs) := by
      rintro ⟨rest, he⟩
      cases he
      exact hne rest rfl rfl
    have hmarked := placeholder_marked hesc
    rw [hp, Option.map_none] at hmarked
    rw [marked_cons hesc, substitute_char env hmarked, map_error_iff, ih]
    simp
  | case4 => exact iff_of_false (fun ⟨_, h⟩ => by cases h) (by simp)

theorem interpolate_none (raw : String) (allowAbsent : Bool) :
    interpolate env raw allowAbsent = .ok none ↔ allowAbsent = true ∧ Unresolved env raw := by
  cases allowAbsent with
  | true => simp [interpolate_none_iff]
  | false =>
    constructor
    · intro h
      unfold interpolate at h
      dsimp only at h
      split at h
      case h_1 heq => cases heq
      case h_2 =>
        cases hs : substitute env 0 (marked raw.toList) with
        | error e =>
          rw [hs] at h
          cases h
        | ok cs =>
          rw [hs] at h
          cases h
    · rintro ⟨h, -⟩
      cases h

theorem interpolate_error (raw : String) (allowAbsent : Bool) :
    (∃ name, interpolate env raw allowAbsent = .error name) ↔
      ¬(allowAbsent = true ∧ Unresolved env raw) ∧ Unset env raw := by
  rw [← interpolate_none]
  have hwhole := whole_marked raw.toList
  unfold interpolate
  dsimp only
  split
  case h_1 p hp =>
    constructor
    · rintro ⟨name, he⟩
      cases he
    · rintro ⟨hok, q, hq, hn⟩
      rw [hp] at hwhole
      obtain ⟨p', honly, rfl⟩ := Option.map_eq_some_iff.mp hwhole.symm
      rw [onlyHole_eq_some.mp honly, List.mem_singleton] at hq
      obtain rfl := Piece.hole.inj hq
      rw [(resolve_none_iff env q).mpr hn] at hok
      exact absurd rfl hok
  case h_2 =>
    rw [map_error_iff, substitute_error_iff]
    constructor
    · intro hp
      refine ⟨?_, hp⟩
      obtain ⟨name, he⟩ := (substitute_error_iff env raw.toList).mpr hp
      rw [he]
      exact fun h => by cases h
    · exact fun hp => hp.2

/-! ## Escaped texts -/

theorem escaped_cons {c : Char} {cs : List Char} (h : ¬∃ rest, c :: cs = '$' :: '\x7b' :: rest) :
    escaped (c::cs) = c :: escaped cs := by
  rw [escaped]
  rintro rest rfl rfl
  exact h ⟨rest, rfl⟩

/-- No brace of an escaped text follows a single `$` at its beginning. -/
theorem escaped_head (cs : List Char) : ¬∃ rest, escaped cs = '$' :: '\x7b' :: rest := by
  rintro ⟨rest, he⟩
  cases cs with
  | nil => cases he
  | cons c cs =>
    by_cases h : ∃ rest, c :: cs = '$' :: '\x7b' :: rest
    · obtain ⟨rest', h⟩ := h
      rw [h, escaped] at he
      cases he
    · rw [escaped_cons h] at he
      obtain ⟨rfl, he⟩ := List.cons.inj he
      cases cs with
      | nil => cases he
      | cons d ds =>
        by_cases hd : ∃ rest, d :: ds = '$' :: '\x7b' :: rest
        · obtain ⟨rest', hd⟩ := hd
          rw [hd, escaped] at he
          cases he
        · rw [escaped_cons hd] at he
          cases he
          exact h ⟨ds, rfl⟩

theorem emit_escaped (cs : List Char) : emit env (pieces (escaped cs)) = .ok cs := by
  fun_induction escaped cs with
  | case1 cs ih =>
    rw [pieces_escape, emit, ih]
    rfl
  | case2 c cs hne ih =>
    have hlit : ¬∃ rest, c :: cs = '$' :: '\x7b' :: rest := by
      rintro ⟨rest, he⟩
      cases he
      exact hne rest rfl rfl
    have hesc : ¬ Escaped (c :: escaped cs) := by
      rintro ⟨rest, he⟩
      exact escaped_head cs ⟨rest, (List.cons.inj he).2⟩
    have hp : placeholder (c :: escaped cs) = none := by
      by_cases hc : c = '$'
      · subst hc
        apply placeholder_other
        intro rest he
        cases cs with
        | nil => cases he
        | cons d ds =>
          by_cases hd : ∃ rest, d :: ds = '$' :: '\x7b' :: rest
          · obtain ⟨rest', hd⟩ := hd
            rw [hd, escaped] at he
            cases he
          · rw [escaped_cons hd] at he
            cases he
            exact hlit ⟨ds, rfl⟩
      · exact placeholder_plain _ hc
    rw [pieces_char hesc hp, emit, ih]
    rfl
  | case3 =>
    rw [pieces]
    rfl

theorem escaped_plain {cs : List Char} (h : marker ∉ cs) : marker ∉ escaped cs := by
  fun_induction escaped cs with
  | case1 cs ih =>
    have hdollar : marker ≠ '$' := by decide
    have hbrace : marker ≠ '\x7b' := by decide
    simpa [hdollar, hbrace] using ih (fun hm => h (by simp [hm]))
  | case2 c cs hne ih =>
    rw [List.mem_cons, not_or] at h ⊢
    exact ⟨h.1, ih h.2⟩
  | case3 => exact h

theorem interpolate_escaped (henv : Plain env) (raw : String) (h : marker ∉ raw.toList)
    (allowAbsent : Bool) :
    interpolate env (String.ofList (escaped raw.toList)) allowAbsent = .ok (some raw) := by
  have hplain : marker ∉ (String.ofList (escaped raw.toList)).toList := by
    rw [String.toList_ofList]
    exact escaped_plain h
  rw [interpolate_eq_reading env henv _ hplain]
  unfold reading
  rw [String.toList_ofList]
  split
  case h_1 _ name heq =>
    -- the pieces of an escaped text emit it in the empty environment as well
    have hempty := emit_escaped (fun _ => none) raw.toList
    rw [heq] at hempty
    cases hempty
  case h_2 =>
    rw [emit_escaped]
    exact congrArg Except.ok (congrArg some String.ofList_toList)

/-- Interpolation is the reading from left to right: it leaves the key out exactly on a bare
unset placeholder where that is allowed, fails exactly when another placeholder has neither a
value nor a fallback, and gives back every text whose openings are escaped. -/
theorem interpolate_reads (henv : Plain env) (raw : String) (h : marker ∉ raw.toList)
    (allowAbsent : Bool) :
    interpolate env raw allowAbsent = reading env raw allowAbsent ∧
    (interpolate env raw allowAbsent = .ok none ↔ allowAbsent = true ∧ Unresolved env raw) ∧
    ((∃ name, interpolate env raw allowAbsent = .error name) ↔
      ¬(allowAbsent = true ∧ Unresolved env raw) ∧ Unset env raw) ∧
    interpolate env (String.ofList (escaped raw.toList)) allowAbsent = .ok (some raw) :=
  ⟨interpolate_eq_reading env henv raw h allowAbsent, interpolate_none env raw allowAbsent,
    interpolate_error env raw allowAbsent, interpolate_escaped env henv raw h allowAbsent⟩

/-- The stage of the deployment and nothing else. -/
def sampleEnv : Environ := fun name => if name = "STAGE" then some "prod" else none

theorem interpolate_reads_sample :
    reading sampleEnv "$$\x7bA\x7d $\x7bSTAGE\x7d $\x7bB:-$$\x7bc\x7d" true =
      .ok (some "$\x7bA\x7d prod $\x7bc") := by
  have henv : Plain sampleEnv := by
    intro name value h
    unfold sampleEnv at h
    split at h
    · cases h
      decide
    · cases h
  have h := (interpolate_reads sampleEnv henv
    "$$\x7bA\x7d $\x7bSTAGE\x7d $\x7bB:-$$\x7bc\x7d" (by decide) true).1
  rw [← h]
  decide +kernel

end Gamely.Interpolation
