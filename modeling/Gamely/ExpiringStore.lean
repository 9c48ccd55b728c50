import Mathlib.Logic.Function.Basic
import Mathlib.Data.Int.Notation
import Mathlib.Data.List.Basic

/-!
# Stores whose entries expire

An entry carries an optional deadline and can be read strictly before it. An
entry past its deadline may stay in the map; no operation sees it. Set-valued
entries are duplicate-free lists and vanish with their last member.
-/

set_option autoImplicit false

namespace Gamely.ExpiringStore

variable {K V M : Type} [DecidableEq K] [DecidableEq M]

structure Entry (V : Type) where
  value : V
  deadline : Option ℕ

/-- Redis itself keeps a key through the millisecond of its deadline. -/
def Entry.live (now : ℕ) (e : Entry V) : Bool :=
  match e.deadline with
  | none => true
  | some t => decide (now < t)

abbrev Store (K V : Type) := K → Option (Entry V)

def empty : Store K V := fun _ => none

/-- The entry a command issued now can see. -/
def peek (now : ℕ) (s : Store K V) (k : K) : Option (Entry V) := (s k).filter (·.live now)

def get (now : ℕ) (s : Store K V) (k : K) : Option V := (peek now s k).map Entry.value

def set (s : Store K V) (k : K) (v : V) (deadline : Option ℕ) : Store K V :=
  Function.update s k (some ⟨v, deadline⟩)

def del (s : Store K V) (k : K) : Store K V := Function.update s k none

def delAll (s : Store K V) (ks : List K) : Store K V := fun k => if k ∈ ks then none else s k

def expire (now : ℕ) (s : Store K V) (k : K) (deadline : ℕ) : Store K V :=
  match peek now s k with
  | some e => set s k e.value (some deadline)
  | none => s

/-- Remaining seconds of a key, rounded from milliseconds: `-2` when it is
absent and `-1` when it never expires. -/
def ttl (now : ℕ) (s : Store K V) (k : K) : ℤ :=
  match peek now s k with
  | none => -2
  | some ⟨_, none⟩ => -1
  | some ⟨_, some t⟩ => ((t - now + 500) / 1000 : ℕ)

def members (now : ℕ) (s : Store K (List M)) (k : K) : List M := (get now s k).getD []

def sadd (now : ℕ) (s : Store K (List M)) (k : K) (x : M) : Store K (List M) :=
  match peek now s k with
  | some e => set s k (e.value.insert x) e.deadline
  | none => set s k [x] none

def srem (now : ℕ) (s : Store K (List M)) (k : K) (x : M) : Store K (List M) :=
  match peek now s k with
  | some e =>
    if e.value.filter (· ≠ x) = [] then del s k
    else set s k (e.value.filter (· ≠ x)) e.deadline
  | none => s

omit [DecidableEq K] in
theorem peek_eq_some (now : ℕ) (s : Store K V) (k : K) (e : Entry V) :
    peek now s k = some e ↔ s k = some e ∧ e.live now = true := by
  simp [peek, Option.filter_eq_some_iff]

omit [DecidableEq K] in
theorem get_eq_some (now : ℕ) (s : Store K V) (k : K) (v : V) :
    get now s k = some v ↔ ∃ e, s k = some e ∧ e.live now = true ∧ e.value = v := by
  simp [get, peek_eq_some, and_assoc]

omit [DecidableEq K] in
theorem raw_of_get (now : ℕ) (s : Store K V) (k : K) (v : V) (h : get now s k = some v) :
    ∃ e, s k = some e ∧ e.value = v := by
  obtain ⟨e, he, -, hv⟩ := (get_eq_some now s k v).mp h
  exact ⟨e, he, hv⟩

theorem live_antitone (e : Entry V) {now later : ℕ} (h : now ≤ later)
    (hl : e.live later = true) : e.live now = true := by
  rcases e with ⟨v, _ | t⟩
  · rfl
  · simp only [Entry.live, decide_eq_true_eq] at *
    omega

@[simp] theorem set_self (s : Store K V) (k : K) (v : V) (d : Option ℕ) :
    set s k v d k = some ⟨v, d⟩ := Function.update_self ..

theorem set_ne (s : Store K V) (k : K) (v : V) (d : Option ℕ) {j : K} (h : j ≠ k) :
    set s k v d j = s j := Function.update_of_ne h ..

@[simp] theorem del_self (s : Store K V) (k : K) : del s k k = none := Function.update_self ..

theorem del_ne (s : Store K V) (k : K) {j : K} (h : j ≠ k) : del s k j = s j :=
  Function.update_of_ne h ..

theorem del_eq_some (s : Store K V) (k j : K) (e : Entry V) :
    del s k j = some e ↔ j ≠ k ∧ s j = some e := by
  by_cases h : j = k
  · subst h
    simp
  · simp [del_ne s k h, h]

theorem set_eq_some (s : Store K V) (k j : K) (v : V) (d : Option ℕ) (e : Entry V) :
    set s k v d j = some e ↔ (j = k ∧ e = ⟨v, d⟩) ∨ (j ≠ k ∧ s j = some e) := by
  by_cases h : j = k
  · subst h
    simp [eq_comm]
  · simp [set_ne s k v d h, h]

theorem delAll_eq_some (s : Store K V) (ks : List K) (j : K) (e : Entry V) :
    delAll s ks j = some e ↔ j ∉ ks ∧ s j = some e := by
  by_cases h : j ∈ ks <;> simp [delAll, h]

omit [DecidableEq K] [DecidableEq M] in
theorem members_of_live (now : ℕ) (s : Store K (List M)) (k : K) (e : Entry (List M))
    (h : s k = some e) (hl : e.live now = true) : members now s k = e.value := by
  have hp : peek now s k = some e := (peek_eq_some now s k e).mpr ⟨h, hl⟩
  simp [members, get, hp]

/-- Adding a member and renewing the deadline is one write of the whole set. -/
theorem expire_sadd (now : ℕ) (s : Store K (List M)) (k : K) (x : M) (deadline : ℕ) :
    expire now (sadd now s k x) k deadline =
      set s k ((members now s k).insert x) (some deadline) := by
  rcases hp : peek now s k with _ | e
  · have hq : peek now (set s k [x] none) k = some ⟨[x], none⟩ := by simp [peek, Entry.live]
    have hm : members now s k = [] := by simp [members, get, hp]
    simp only [sadd, hp]
    simp only [expire, hq, hm]
    simp only [set, Function.update_idem]
    rfl
  · obtain ⟨-, hl⟩ := (peek_eq_some now s k e).mp hp
    have hq : peek now (set s k (e.value.insert x) e.deadline) k =
        some ⟨e.value.insert x, e.deadline⟩ := by
      simpa [peek, Entry.live] using hl
    have hm : members now s k = e.value := by simp [members, get, hp]
    simp only [sadd, hp]
    simp only [expire, hq, hm]
    simp only [set, Function.update_idem]

theorem srem_of_ne (now : ℕ) (s : Store K (List M)) (k : K) (x : M) {j : K} (h : j ≠ k) :
    srem now s k x j = s j := by
  rcases hp : peek now s k with _ | e
  · simp only [srem, hp]
  · simp only [srem, hp]
    split
    · exact del_ne s k h
    · exact set_ne s k _ _ h

theorem srem_keeps (now : ℕ) (s : Store K (List M)) (k j : K) (x y : M) (e : Entry (List M))
    (h : s j = some e) (hl : e.live now = true) (hy : y ∈ e.value) (hne : j ≠ k ∨ y ≠ x) :
    ∃ e', srem now s k x j = some e' ∧ y ∈ e'.value ∧ e'.deadline = e.deadline := by
  by_cases hj : j = k
  · subst hj
    have hyx : y ≠ x := hne.resolve_left (by simp)
    have hp : peek now s j = some e := (peek_eq_some now s j e).mpr ⟨h, hl⟩
    have hm : y ∈ e.value.filter (· ≠ x) := by simp [hy, hyx]
    have hn : e.value.filter (· ≠ x) ≠ [] := List.ne_nil_of_mem hm
    simp only [srem, hp, if_neg hn, set_self]
    exact ⟨_, rfl, hm, rfl⟩
  · exact ⟨e, by rw [srem_of_ne now s k x hj, h], hy, rfl⟩

theorem srem_subset (now : ℕ) (s : Store K (List M)) (k j : K) (x : M) (e' : Entry (List M))
    (h : srem now s k x j = some e') :
    ∃ e, s j = some e ∧ e'.deadline = e.deadline ∧ ∀ y ∈ e'.value, y ∈ e.value := by
  by_cases hj : j = k
  · subst hj
    rcases hp : peek now s j with _ | e
    · simp only [srem, hp] at h
      exact ⟨e', h, rfl, fun y hy => hy⟩
    · simp only [srem, hp] at h
      have hs := ((peek_eq_some now s j e).mp hp).1
      split at h
      · simp at h
      · simp only [set_self, Option.some.injEq] at h
        subst h
        exact ⟨e, hs, rfl, fun y hy => List.mem_of_mem_filter hy⟩
  · exact ⟨e', by rwa [srem_of_ne now s k x hj] at h, rfl, fun y hy => hy⟩

end Gamely.ExpiringStore
