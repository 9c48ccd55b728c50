import Mathlib.Logic.Function.Basic
import Mathlib.Data.Nat.Notation
import Mathlib.Order.Defs.LinearOrder

/-!
# A book of one-time codes

What one-time codes are for, with no store behind them. A key has the code that
was issued for it last, which is accepted once, before its deadline and before a
number of wrong codes. The deadline is renewed, in whole seconds, by a wrong one.
-/

set_option autoImplicit false

namespace Gamely.CodeBook

variable {K C : Type} [DecidableEq K] [DecidableEq C]

structure Issue (C : Type) where
  code : C
  issued : ℕ
  accepted : Bool
  wrong : ℕ
  deadline : ℕ
  deriving DecidableEq, Repr

/-- Remaining milliseconds as seconds: rounded, and one at least. -/
def renewal (remaining : ℕ) : ℕ := max ((remaining+500)/1000) 1

def Issue.Usable (tries now : ℕ) (i : Issue C) : Prop :=
  i.accepted = false ∧ i.wrong < tries ∧ now < i.deadline

instance (tries now : ℕ) (i : Issue C) : Decidable (i.Usable tries now) :=
  inferInstanceAs (Decidable (_ ∧ _))

/-- Only a code that is still usable is renewed. -/
def Issue.missed (tries now : ℕ) (i : Issue C) : Issue C where
  code := i.code
  issued := i.issued
  accepted := i.accepted
  wrong := i.wrong+1
  deadline := if i.Usable tries now then now+1000*renewal (i.deadline-now) else i.deadline

def Issue.presented (tries now : ℕ) (code : C) (i : Issue C) : Issue C :=
  if code = i.code then { i with accepted := i.accepted || decide (i.Usable tries now) }
  else i.missed tries now

/-- `quiet` is the time until which a key is issued no other code. -/
structure Book (K C : Type) where
  now : ℕ
  latest : K → Option (Issue C)
  quiet : K → ℕ

namespace Book

def start (now : ℕ) : Book K C := ⟨now, fun _ => none, fun _ => 0⟩

def elapse (milliseconds : ℕ) (b : Book K C) : Book K C := { b with now := b.now+milliseconds }

def hush (key : K) (till : ℕ) (b : Book K C) : Book K C :=
  { b with quiet := Function.update b.quiet key till }

def issue (lifetime : ℕ) (key : K) (code : C) (b : Book K C) : Book K C where
  now := b.now
  latest := Function.update b.latest key (some ⟨code, b.now, false, 0, b.now+lifetime⟩)
  quiet := b.quiet

def accepts (tries : ℕ) (key : K) (code : C) (b : Book K C) : Bool :=
  (b.latest key).any (fun i => decide (code = i.code ∧ i.Usable tries b.now))

def present (tries : ℕ) (key : K) (code : C) (b : Book K C) : Book K C where
  now := b.now
  latest := Function.update b.latest key ((b.latest key).map (Issue.presented tries b.now code))
  quiet := b.quiet

end Book

/-! ## Pages of other keys -/

section Pages

variable (b : Book K C) (lifetime tries till : ℕ) (key : K) (code : C) {k : K}

omit [DecidableEq C] in
@[simp] theorem issue_self : (b.issue lifetime key code).latest key =
    some ⟨code, b.now, false, 0, b.now+lifetime⟩ := Function.update_self ..

omit [DecidableEq C] in
theorem issue_other (h : k ≠ key) : (b.issue lifetime key code).latest k = b.latest k :=
  Function.update_of_ne h ..

@[simp] theorem present_self : (b.present tries key code).latest key =
    (b.latest key).map (Issue.presented tries b.now code) := Function.update_self ..

theorem present_other (h : k ≠ key) : (b.present tries key code).latest k = b.latest k :=
  Function.update_of_ne h ..

omit [DecidableEq C] in
@[simp] theorem hush_self : (b.hush key till).quiet key = till := Function.update_self ..

omit [DecidableEq C] in
theorem hush_other (h : k ≠ key) : (b.hush key till).quiet k = b.quiet k :=
  Function.update_of_ne h ..

end Pages

/-! ## Usable codes -/

section Usable
omit [DecidableEq C]

variable {tries now : ℕ} {i : Issue C}

theorem usable_antitone {later : ℕ} (h : now ≤ later) (hu : i.Usable tries later) :
    i.Usable tries now :=
  ⟨hu.1, hu.2.1, Nat.lt_of_le_of_lt h hu.2.2⟩

theorem lt_renewed (now remaining : ℕ) : now < now+1000*renewal remaining := by
  have hone : 1 ≤ renewal remaining := Nat.le_max_right _ _
  omega

/-- One renewal moves the deadline by less than a second either way. -/
theorem renewed_near {deadline : ℕ} (h : now < deadline) :
    deadline ≤ now+1000*renewal (deadline-now)+499 ∧
      now+1000*renewal (deadline-now) ≤ deadline+999 := by
  unfold renewal
  omega

theorem missed_usable : (i.missed tries now).Usable tries now ↔
    i.Usable tries now ∧ i.wrong+1 < tries := by
  have hlt := lt_renewed now (i.deadline-now)
  unfold Issue.missed
  constructor
  · rintro ⟨ha, hw, hd⟩
    dsimp only at ha hw hd
    split at hd
    case isTrue hu => exact ⟨hu, hw⟩
    case isFalse hu => exact ⟨⟨ha, by omega, hd⟩, hw⟩
  · rintro ⟨hu, hw⟩
    rw [if_pos hu]
    exact ⟨hu.1, hw, hlt⟩

theorem presented_usable [DecidableEq C] {code : C} :
    (i.presented tries now code).Usable tries now ↔
      code ≠ i.code ∧ i.Usable tries now ∧ i.wrong+1 < tries := by
  unfold Issue.presented
  by_cases hc : code = i.code
  · rw [if_pos hc]
    constructor
    · rintro ⟨ha, hw, hd⟩
      simp only [Bool.or_eq_false_iff, decide_eq_false_iff_not] at ha
      exact absurd ⟨ha.1, hw, hd⟩ ha.2
    · intro h
      exact absurd hc h.1
  · rw [if_neg hc, missed_usable]
    exact ⟨fun h => ⟨hc, h⟩, fun h => h.2⟩

end Usable

section Accepts

variable {tries : ℕ} {b : Book K C} {key : K} {code : C}

omit [DecidableEq K] in
theorem accepts_eq {i : Issue C} (h : b.latest key = some i) :
    b.accepts tries key code = decide (code = i.code ∧ i.Usable tries b.now) := by
  simp only [Book.accepts, h, Option.any_some]

omit [DecidableEq K] in
theorem accepts_closed (h : ∀ i, b.latest key = some i → ¬ i.Usable tries b.now) :
    b.accepts tries key code = false := by
  cases hl : b.latest key with
  | none => simp [Book.accepts, hl]
  | some i =>
    rw [accepts_eq hl]
    exact decide_eq_false (fun hc => h i hl hc.2)

end Accepts

/-! ## Deadlines -/

/-- How far wrong codes can have moved the deadline. -/
def Issue.Punctual (lifetime tries : ℕ) (i : Issue C) : Prop :=
  i.issued+lifetime ≤ i.deadline+499*min i.wrong tries ∧
    i.deadline ≤ i.issued+lifetime+999*min i.wrong tries

def Book.Punctual (lifetime tries : ℕ) (b : Book K C) : Prop :=
  ∀ key i, b.latest key = some i → i.Punctual lifetime tries

section Deadlines

variable {lifetime tries : ℕ} {b : Book K C} {key : K} {code : C}

omit [DecidableEq K] [DecidableEq C] in
theorem punctual_start (now : ℕ) : (Book.start now : Book K C).Punctual lifetime tries := by
  intro key i hi
  cases hi

omit [DecidableEq C] in
theorem punctual_missed (now : ℕ) {i : Issue C} (h : i.Punctual lifetime tries) :
    (i.missed tries now).Punctual lifetime tries := by
  unfold Issue.Punctual Issue.missed at *
  dsimp only
  split
  case isTrue hu =>
    have hnear := renewed_near hu.2.2
    have hw : i.wrong < tries := hu.2.1
    omega
  case isFalse hu => omega

theorem punctual_presented (now : ℕ) {i : Issue C} (h : i.Punctual lifetime tries) :
    (i.presented tries now code).Punctual lifetime tries := by
  unfold Issue.presented
  split
  · exact h
  · exact punctual_missed now h

theorem punctual_present (h : b.Punctual lifetime tries) :
    (b.present tries key code).Punctual lifetime tries := by
  intro k i hi
  by_cases hk : k = key
  · subst hk
    rw [present_self, Option.map_eq_some_iff] at hi
    obtain ⟨j, hj, rfl⟩ := hi
    exact punctual_presented b.now (h k j hj)
  · rw [present_other _ _ _ _ hk] at hi
    exact h k i hi

omit [DecidableEq C] in
theorem punctual_issue (h : b.Punctual lifetime tries) :
    (b.issue lifetime key code).Punctual lifetime tries := by
  intro k i hi
  by_cases hk : k = key
  · subst hk
    rw [issue_self, Option.some.injEq] at hi
    subst hi
    simp [Issue.Punctual]
  · rw [issue_other _ _ _ _ hk] at hi
    exact h k i hi

end Deadlines

/-! ## One key -/

/-- What a book says of one key, and when. -/
def Book.page (key : K) (b : Book K C) : ℕ × Option (Issue C) × ℕ :=
  (b.now, b.latest key, b.quiet key)

section Page

variable {b b' : Book K C} {key k : K}

omit [DecidableEq K] [DecidableEq C] in
theorem page_eq : b.page key = b'.page key ↔
    b.now = b'.now ∧ b.latest key = b'.latest key ∧ b.quiet key = b'.quiet key := by
  simp only [Book.page, Prod.mk.injEq]

omit [DecidableEq C] in
theorem page_hush_other (till : ℕ) (h : k ≠ key) : (b.hush key till).page k = b.page k :=
  page_eq.mpr ⟨rfl, rfl, hush_other b till key h⟩

omit [DecidableEq C] in
theorem page_issue_other (lifetime : ℕ) (code : C) (h : k ≠ key) :
    (b.issue lifetime key code).page k = b.page k :=
  page_eq.mpr ⟨rfl, issue_other b lifetime key code h, rfl⟩

theorem page_present_other (tries : ℕ) (code : C) (h : k ≠ key) :
    (b.present tries key code).page k = b.page k :=
  page_eq.mpr ⟨rfl, present_other b tries key code h, rfl⟩

omit [DecidableEq C] in
theorem page_hush (till : ℕ) (h : b.page key = b'.page key) :
    (b.hush key till).page key = (b'.hush key till).page key := by
  obtain ⟨hn, hl, -⟩ := page_eq.mp h
  exact page_eq.mpr ⟨hn, hl, by rw [hush_self, hush_self]⟩

omit [DecidableEq C] in
theorem page_issue (lifetime : ℕ) (code : C) (h : b.page key = b'.page key) :
    (b.issue lifetime key code).page key = (b'.issue lifetime key code).page key := by
  obtain ⟨hn, -, hq⟩ := page_eq.mp h
  exact page_eq.mpr ⟨hn, by rw [issue_self, issue_self, hn], hq⟩

theorem page_present (tries : ℕ) (code : C) (h : b.page key = b'.page key) :
    b.accepts tries key code = b'.accepts tries key code ∧
      (b.present tries key code).page key = (b'.present tries key code).page key := by
  obtain ⟨hn, hl, hq⟩ := page_eq.mp h
  constructor
  · rw [Book.accepts, Book.accepts, hn, hl]
  · exact page_eq.mpr ⟨hn, by rw [present_self, present_self, hn, hl], hq⟩

omit [DecidableEq K] [DecidableEq C] in
theorem page_elapse (milliseconds : ℕ) (h : b.page key = b'.page key) :
    (b.elapse milliseconds).page key = (b'.elapse milliseconds).page key := by
  obtain ⟨hn, hl, hq⟩ := page_eq.mp h
  exact page_eq.mpr ⟨congrArg (·+milliseconds) hn, hl, hq⟩

end Page

end Gamely.CodeBook
