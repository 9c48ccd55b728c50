import Mathlib.Algebra.Order.Ring.Nat
import Mathlib.Data.List.Chain

/-!
# Fixed windows

Timed events fall into windows: a window opens with its first event and closes
a fixed length later, and the next event opens another. An interval of that
length meets two windows at most.
-/

set_option autoImplicit false

namespace Gamely.Windows

variable {A : Type}

/-- The events from one that opens the window until it closes. -/
structure Window (time : A → ℕ) (length : ℕ) where
  first : A
  rest : List A
  within : ∀ a ∈ rest, time first ≤ time a ∧ time a < time first+length

variable {time : A → ℕ} {length : ℕ}

namespace Window

def events (w : Window time length) : List A := w.first :: w.rest

def opened (w : Window time length) : ℕ := time w.first

def closes (w : Window time length) : ℕ := w.opened+length

def start (a : A) : Window time length := ⟨a, [], by simp⟩

def extend (w : Window time length) (a : A) (h : w.opened ≤ time a) (h' : time a < w.closes) :
    Window time length where
  first := w.first
  rest := w.rest ++ [a]
  within := by
    intro b hb
    rcases List.mem_append.mp hb with hb | hb
    · exact w.within b hb
    · rw [List.mem_singleton.mp hb]
      exact ⟨h, h'⟩

theorem events_start (a : A) : (start a : Window time length).events = [a] := rfl

theorem events_extend (w : Window time length) (a : A) (h : w.opened ≤ time a)
    (h' : time a < w.closes) : (w.extend a h h').events = w.events ++ [a] := rfl

theorem opened_le (w : Window time length) {a : A} (h : a ∈ w.events) : w.opened ≤ time a := by
  rcases List.mem_cons.mp h with rfl | h
  · exact le_refl _
  · exact (w.within a h).1

theorem lt_closes (w : Window time length) (hl : 0 < length) {a : A} (h : a ∈ w.events) :
    time a < w.closes := by
  rcases List.mem_cons.mp h with rfl | h
  · exact Nat.lt_add_of_pos_right hl
  · exact (w.within a h).2

end Window

/-- One window has closed when the other opens. -/
def Precedes (v w : Window time length) : Prop := v.closes ≤ w.opened

/-- Windows in the order of time, no two of them open at once. -/
def Successive (windows : List (Window time length)) : Prop := windows.Pairwise Precedes

theorem successive_extend {windows : List (Window time length)} {w : Window time length} {a : A}
    (h : w.opened ≤ time a) (h' : time a < w.closes) (hs : Successive (windows ++ [w])) :
    Successive (windows ++ [w.extend a h h']) := by
  unfold Successive at hs ⊢
  rw [List.pairwise_append] at hs ⊢
  refine ⟨hs.1, List.pairwise_singleton _ _, ?_⟩
  intro v hv u hu
  rw [List.mem_singleton.mp hu]
  exact hs.2.2 v hv w (List.mem_singleton_self w)

/-- Windows followed by one that opens when the last of them has closed. -/
theorem successive_start {windows : List (Window time length)} {a : A}
    (h : ∀ w ∈ windows.getLast?, w.closes ≤ time a) (hs : Successive windows) :
    Successive (windows ++ [Window.start a]) := by
  have hlast : ∀ v ∈ windows, v.closes ≤ time a := by
    rcases List.eq_nil_or_concat' windows with rfl | ⟨ws, w, rfl⟩
    · intro v hv
      cases hv
    · have hw : w.closes ≤ time a := h w (by simp)
      intro v hv
      rcases List.mem_append.mp hv with hv | hv
      · have hvw : v.closes ≤ w.opened :=
          (List.pairwise_append.mp hs).2.2 v hv w (List.mem_singleton_self w)
        calc v.closes ≤ w.opened := hvw
          _ ≤ w.closes := Nat.le_add_right _ _
          _ ≤ time a := hw
      · rwa [List.mem_singleton.mp hv]
  unfold Successive at hs ⊢
  rw [List.pairwise_append]
  refine ⟨hs, List.pairwise_singleton _ _, ?_⟩
  intro v hv u hu
  rw [List.mem_singleton.mp hu]
  exact hlast v hv

/-! ## Intervals of the length of a window -/

section Interval

variable {count : Window time length → ℕ} {x bound : ℕ}

theorem sum_late (hlate : ∀ w : Window time length, x+length ≤ w.opened → count w = 0)
    (windows : List (Window time length)) (h : ∀ w ∈ windows, x+length ≤ w.opened) :
    (windows.map count).sum = 0 := by
  induction windows with
  | nil => rfl
  | cons w ws ih =>
    rw [List.map_cons, List.sum_cons, hlate w (h w List.mem_cons_self),
      ih (fun v hv => h v (List.mem_cons_of_mem w hv))]

theorem sum_inside (hlate : ∀ w : Window time length, x+length ≤ w.opened → count w = 0)
    (windows : List (Window time length)) (hbound : ∀ w ∈ windows, count w ≤ bound)
    (hs : Successive windows) (h : ∀ w ∈ windows, x ≤ w.opened) :
    (windows.map count).sum ≤ bound := by
  cases windows with
  | nil => exact Nat.zero_le _
  | cons w ws =>
    have hafter : ∀ v ∈ ws, x+length ≤ v.opened := by
      intro v hv
      have hx := h w List.mem_cons_self
      have hwv : w.opened+length ≤ v.opened := (List.pairwise_cons.mp hs).1 v hv
      omega
    rw [List.map_cons, List.sum_cons, sum_late hlate ws hafter]
    exact hbound w List.mem_cons_self

/-- What windows count only between `x` and `x+length` sums to two bounds at most. -/
theorem sum_interval (hearly : ∀ w : Window time length, w.closes ≤ x → count w = 0)
    (hlate : ∀ w : Window time length, x+length ≤ w.opened → count w = 0)
    (windows : List (Window time length)) (hbound : ∀ w ∈ windows, count w ≤ bound)
    (hs : Successive windows) : (windows.map count).sum ≤ 2*bound := by
  induction windows with
  | nil => exact Nat.zero_le _
  | cons w ws ih =>
    obtain ⟨hw, hws⟩ := List.pairwise_cons.mp hs
    have hlast : ∀ v ∈ ws, count v ≤ bound := fun v hv => hbound v (List.mem_cons_of_mem w hv)
    rw [List.map_cons, List.sum_cons]
    by_cases hclosed : w.closes ≤ x
    · rw [hearly w hclosed, Nat.zero_add]
      exact ih hlast hws
    · have hafter : ∀ v ∈ ws, x ≤ v.opened := by
        intro v hv
        have hwv : w.closes ≤ v.opened := hw v hv
        omega
      have hrest := sum_inside hlate ws hlast hws hafter
      have hfirst := hbound w List.mem_cons_self
      omega

end Interval

end Gamely.Windows
