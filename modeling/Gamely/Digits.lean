import Mathlib.Data.List.Induction
import Mathlib.Data.Nat.Notation
import Mathlib.Tactic.Ring

/-!
# Digits

Numbers in positional notation, hexadecimal text, and texts joined from pieces.
-/

set_option autoImplicit false

namespace Gamely.Digits

/-! ## Positional notation -/

/-- The last `k` digits of a number, the highest first. -/
def bigEndian (base : ℕ) : ℕ → ℕ → List ℕ
  | 0, _ => []
  | k+1, n => bigEndian base k (n/base) ++ [n%base]

def fromBigEndian (base : ℕ) (digits : List ℕ) : ℕ :=
  digits.foldl (fun n d => n*base+d) 0

theorem bigEndian_length (base k n : ℕ) : (bigEndian base k n).length = k := by
  induction k generalizing n with
  | zero => rfl
  | succ k ih => rw [bigEndian, List.length_append, ih, List.length_singleton]

theorem bigEndian_lt {base : ℕ} (hb : 0 < base) (k n : ℕ) : ∀ d ∈ bigEndian base k n, d < base := by
  induction k generalizing n with
  | zero => simp [bigEndian]
  | succ k ih =>
    intro d hd
    rw [bigEndian, List.mem_append, List.mem_singleton] at hd
    rcases hd with hd | rfl
    · exact ih _ d hd
    · exact Nat.mod_lt _ hb

theorem fromBigEndian_append_singleton (base : ℕ) (ds : List ℕ) (d : ℕ) :
    fromBigEndian base (ds ++ [d]) = fromBigEndian base ds*base+d := by
  simp [fromBigEndian]

theorem fromBigEndian_bigEndian (base k n : ℕ) :
    fromBigEndian base (bigEndian base k n) = n%base^k := by
  induction k generalizing n with
  | zero => simp [bigEndian, fromBigEndian, Nat.mod_one]
  | succ k ih =>
    rw [bigEndian, fromBigEndian_append_singleton, ih, pow_succ, Nat.mul_comm (base^k),
      Nat.mod_mul]
    ring

/-! ## Texts in pieces -/

theorem mapM_map {A B : Type} {parse : A → Option B} {print : B → A} {xs : List B}
    (h : ∀ x ∈ xs, parse (print x) = some x) : (xs.map print).mapM parse = some xs := by
  induction xs with
  | nil => rfl
  | cons x xs ih =>
    rw [List.map_cons, List.mapM_cons, h x List.mem_cons_self,
      ih (fun y hy => h y (List.mem_cons_of_mem _ hy))]
    rfl

theorem mem_intercalate {A : Type} {sep a : A} {parts : List (List A)}
    (h : a ∈ [sep].intercalate parts) : a = sep ∨ ∃ part ∈ parts, a ∈ part := by
  induction parts with
  | nil => simp at h
  | cons part rest ih =>
    cases rest with
    | nil => exact Or.inr ⟨part, by simp, by simpa using h⟩
    | cons next rest =>
      rw [List.intercalate_cons_cons, List.mem_append, List.mem_append, List.mem_singleton] at h
      rcases h with (h | h) | h
      · exact Or.inr ⟨part, by simp, h⟩
      · exact Or.inl h
      · exact (ih h).imp id (fun ⟨p, hp, ha⟩ => ⟨p, List.mem_cons_of_mem _ hp, ha⟩)

theorem mem_of_mapM {A B : Type} {f : A → Option B} {xs : List A} {ys : List B}
    (h : xs.mapM f = some ys) {x : A} (hx : x ∈ xs) : ∃ y, f x = some y := by
  induction xs generalizing ys with
  | nil => cases hx
  | cons x' xs ih =>
    rw [List.mapM_cons] at h
    obtain ⟨y, hy, h⟩ := Option.bind_eq_some_iff.mp h
    obtain ⟨zs, hzs, -⟩ := Option.bind_eq_some_iff.mp h
    rcases List.mem_cons.mp hx with rfl | hx
    · exact ⟨y, hy⟩
    · exact ih hzs hx

/-- Pieces of these lengths and what is left. -/
def chunks {A : Type} : List ℕ → List A → List (List A)
  | [], xs => [xs]
  | n::ns, xs => xs.take n :: chunks ns (xs.drop n)

theorem flatten_chunks {A : Type} (ns : List ℕ) (xs : List A) : (chunks ns xs).flatten = xs := by
  induction ns generalizing xs with
  | nil => simp [chunks]
  | cons n ns ih => rw [chunks, List.flatten_cons, ih, List.take_append_drop]

/-- Taking the separators out joins the pieces. -/
theorem filter_intercalate {A : Type} [DecidableEq A] {sep : A} {parts : List (List A)}
    (h : ∀ part ∈ parts, sep ∉ part) :
    ([sep].intercalate parts).filter (· ≠ sep) = parts.flatten := by
  have keep : ∀ part ∈ parts, part.filter (· ≠ sep) = part := by
    intro part hp
    rw [List.filter_eq_self]
    intro a ha
    rw [decide_eq_true_eq]
    rintro rfl
    exact h part hp ha
  induction parts with
  | nil => rfl
  | cons part rest ih =>
    have hrest := ih (fun p hp => h p (List.mem_cons_of_mem _ hp))
      (fun p hp => keep p (List.mem_cons_of_mem _ hp))
    cases rest with
    | nil => simpa using keep part (by simp)
    | cons next rest =>
      rw [List.intercalate_cons_cons, List.filter_append, List.filter_append, hrest,
        keep part (by simp), List.flatten_cons]
      simp

/-! ## Hexadecimal text -/

def hexValue (c : Char) : Option ℕ :=
  if '0' ≤ c ∧ c ≤ '9' then some (c.toNat-48)
  else if 'a' ≤ c ∧ c ≤ 'f' then some (c.toNat-87)
  else if 'A' ≤ c ∧ c ≤ 'F' then some (c.toNat-55)
  else none

def hexText (n : ℕ) : List Char := Nat.toDigits 16 n

theorem hexValue_digitChar : ∀ d < 16, hexValue (Nat.digitChar d) = some d := by decide

theorem hexText_value (n : ℕ) :
    ∃ ds, (hexText n).mapM hexValue = some ds ∧ fromBigEndian 16 ds = n := by
  induction n using Nat.strongRecOn with
  | ind n ih =>
    by_cases hn : n < 16
    · refine ⟨[n], ?_, ?_⟩
      · rw [hexText, Nat.toDigits_of_lt_base hn]
        simp [hexValue_digitChar n hn]
      · simp [fromBigEndian]
    · obtain ⟨ds, hds, hval⟩ := ih (n/16) (by omega)
      have hd := hexValue_digitChar (n%16) (by omega)
      refine ⟨ds ++ [n%16], ?_, ?_⟩
      · rw [hexText, Nat.toDigits_of_base_le (by decide) (by omega), List.mapM_append]
        rw [hexText] at hds
        simp [hds, hd]
      · rw [fromBigEndian_append_singleton, hval]
        omega

theorem hexText_chars {n : ℕ} {c : Char} (h : c ∈ hexText n) : ∃ d, hexValue c = some d := by
  obtain ⟨ds, hds, -⟩ := hexText_value n
  exact mem_of_mapM hds h

theorem hexText_ne_nil (n : ℕ) : hexText n ≠ [] := Nat.toDigits_ne_nil

theorem hexText_zero {n : ℕ} (h : hexText n = ['0']) : n = 0 := by
  obtain ⟨ds, hds, hval⟩ := hexText_value n
  rw [h] at hds
  have hzero : ['0'].mapM hexValue = some [0] := by decide
  rw [hzero, Option.some.injEq] at hds
  rw [← hval, ← hds]
  rfl

theorem hexValue_of_isDigit {c : Char} (h : c.isDigit = true) : ∃ d, hexValue c = some d := by
  rw [Char.isDigit, Bool.and_eq_true, decide_eq_true_eq, decide_eq_true_eq] at h
  exact ⟨_, if_pos h⟩

theorem digits_isDigit {n : ℕ} {c : Char} (h : c ∈ Nat.toDigits 10 n) : c.isDigit = true :=
  Nat.isDigit_of_mem_toDigits (by decide) (by decide) h

end Gamely.Digits
