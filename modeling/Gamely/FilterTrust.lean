import Gamely.FilterMoves

/-!
# When the filter may be trusted

While a marker is published, every committed address is in the filter. Until it
is published the addresses still missing are those the last rebuild has read
and not inserted. A commit keeps this when its own insert was not dropped behind
the snapshot, and a marker when no other rebuild has dropped the filter since.
-/

set_option autoImplicit false

namespace Gamely.FilterTrust
open Gamely.Calls Gamely.Stores Gamely.EmailJobs Gamely.Services Gamely.TokenService
open Gamely.EmailFilter Gamely.Requests Gamely.Interleaving Gamely.FilterContract
open Gamely.FilterMoves

def Role.loads : Role → Bool
  | .loading .. => true
  | _ => false

/-- The last drop was made by a rebuild that has read its snapshot. -/
def loads (roles : ℕ → Role) (t : Watch) : Bool :=
  match t.dropper with
  | some r => Role.loads (roles r)
  | none => false

structure Trusted (lib : Libraries) (v : View) (roles : ℕ → Role) (t : Watch) : Prop where
  normal : ∀ a ∈ v.accounts, normalizeEmail lib a = .ok a
  pending : ∀ x ∈ v.pending, normalizeEmail lib x.2 = .ok x.2 ∧
    ∃ note, roles x.1 = .flushed x.2 note
  whole : ∀ j a, roles j ≠ .flushed a .lost
  kept : ∀ j a, j ∈ t.since → roles j = .flushed a .stored → a ∈ v.items
  loaded : ∀ r todo short, t.dropper = some r → roles r = .loading todo short →
    ∀ a ∈ v.accounts, a ∈ v.items ∨ a ∈ todo
  loader : v.marker ≠ none → loads roles t = true
  covered : v.marker ≠ none → ∀ a ∈ v.accounts, a ∈ v.items

variable {lib : Libraries} {v : View} {roles : ℕ → Role} {t : Watch} {i : ℕ}

/-! ## A change of one role -/

theorem pending_update (ht : Trusted lib v roles t) (hi : ∀ a note, roles i ≠ .flushed a note)
    (r : Role) (x : ℕ × Email) (hx : x ∈ v.pending) :
    normalizeEmail lib x.2 = .ok x.2 ∧
      ∃ note, Function.update roles i r x.1 = .flushed x.2 note := by
  obtain ⟨hn, note, hr⟩ := ht.pending x hx
  have hxi : x.1 ≠ i := by
    intro h
    rw [h] at hr
    exact hi _ _ hr
  rw [Function.update_of_ne hxi]
  exact ⟨hn, note, hr⟩

theorem whole_update (ht : Trusted lib v roles t) {r : Role} (hr : ∀ a, r ≠ .flushed a .lost)
    (j : ℕ) (a : Email) : Function.update roles i r j ≠ .flushed a .lost := by
  by_cases hji : j = i
  · subst hji
    rw [Function.update_self]
    exact hr a
  · rw [Function.update_of_ne hji]
    exact ht.whole j a

theorem kept_update (ht : Trusted lib v roles t) {r : Role} (hr : ∀ a, r ≠ .flushed a .stored)
    (j : ℕ) (a : Email) (hj : j ∈ t.since) (h : Function.update roles i r j = .flushed a .stored) :
    a ∈ v.items := by
  by_cases hji : j = i
  · subst hji
    rw [Function.update_self] at h
    exact absurd h (hr a)
  · rw [Function.update_of_ne hji] at h
    exact ht.kept j a hj h

/-! ## Inserts -/

theorem stored_all (items : List String) : stored [] items = items := by
  simp [stored]

theorem mem_of_mapM {xs : List String} {ys : List Email} {a : Email}
    (h : xs.mapM (normalizeEmail lib) = .ok ys) (ha : a ∈ xs)
    (hn : normalizeEmail lib a = .ok a) : a ∈ ys := by
  induction xs generalizing ys with
  | nil => cases ha
  | cons x xs ih =>
    rw [List.mapM_cons] at h
    rcases hx : normalizeEmail lib x with e | y
    · rw [hx] at h
      cases h
    · rcases hxs : xs.mapM (normalizeEmail lib) with e | zs
      · rw [hx, hxs] at h
        cases h
      · rw [hx, hxs] at h
        cases h
        rcases List.mem_cons.mp ha with rfl | ha
        · rw [hn] at hx
          cases hx
          exact List.mem_cons_self
        · exact List.mem_cons_of_mem _ (ih hxs ha)

theorem loads_update {r : Role} (hr : Role.loads r = Role.loads (roles i)) (t : Watch) :
    loads (Function.update roles i r) t = loads roles t := by
  unfold loads
  split
  case h_1 k hk =>
    by_cases hki : k = i
    · subst hki
      rw [Function.update_self, hr]
    · rw [Function.update_of_ne hki]
  case h_2 => rfl

theorem flushed_of_inserted {replies : List ℤ} {items : List String} {r : Role} {a : Email}
    {note : Note} (h : r.inserted replies items = .flushed a note) :
    ∃ old, r = .flushed a old ∧ note = if replies = [1] then .stored else .lost := by
  cases r with
  | flushed b old =>
    simp only [Role.inserted, Role.flushed.injEq] at h
    obtain ⟨rfl, rfl⟩ := h
    exact ⟨old, rfl, rfl⟩
  | _ => cases h

theorem loading_of_inserted {replies : List ℤ} {items todo : List String} {r : Role} {short : Bool}
    (h : r.inserted replies items = .loading todo short) :
    ∃ old was, r = .loading old was ∧ todo = old.drop items.length ∧
      short = (was || replies.any (· ≠ 1)) := by
  cases r with
  | loading old was =>
    simp only [Role.inserted, Role.loading.injEq] at h
    exact ⟨old, was, rfl, h.1.symm, h.2.symm⟩
  | _ => cases h

theorem loads_inserted (replies : List ℤ) (items : List String) (r : Role) :
    Role.loads (r.inserted replies items) = Role.loads r := by
  cases r <;> rfl

theorem trusted_insert {q : Request} {g : Hand} {items : List String} {capacity : ℕ}
    (ht : Trusted lib v roles t) (hg : g.role = roles i)
    (ha : allows lib i q g (.filter (.insert items capacity))) :
    Trusted lib { v with items := v.items ++ items }
      (Function.update roles i ((roles i).inserted (insertReplies [] items) items))
      { t with since := i :: t.since } := by
  have grows : ∀ {a}, a ∈ v.items → a ∈ v.items ++ items := fun h => List.mem_append_left _ h
  have own : ∀ a note, roles i = .flushed a note → items = [a] := by
    intro a note h
    simpa [allows, hg, h] using ha
  constructor
  · exact ht.normal
  · intro x hx
    obtain ⟨hn, note, hr⟩ := ht.pending x hx
    refine ⟨hn, ?_⟩
    by_cases hxi : x.1 = i
    · rw [hxi] at hr ⊢
      rw [Function.update_self, hr]
      exact ⟨_, rfl⟩
    · rw [Function.update_of_ne hxi]
      exact ⟨note, hr⟩
  · apply whole_update ht
    intro a ha
    obtain ⟨old, hold, hnote⟩ := flushed_of_inserted ha
    rw [own a old hold] at hnote
    cases hnote
  · intro j a hj hr
    by_cases hji : j = i
    · subst hji
      rw [Function.update_self] at hr
      obtain ⟨old, hold, -⟩ := flushed_of_inserted hr
      rw [own a old hold]
      simp
    · rw [Function.update_of_ne hji] at hr
      exact grows (ht.kept j a ((List.mem_cons.mp hj).resolve_left hji) hr)
  · intro r todo short hd hr a hacc
    by_cases hri : r = i
    · subst hri
      rw [Function.update_self] at hr
      obtain ⟨old, was, hold, rfl, -⟩ := loading_of_inserted hr
      rcases ht.loaded r old was hd hold a hacc with h | h
      · exact Or.inl (grows h)
      · have hm : (old.take items.length).mapM (normalizeEmail lib) = .ok items := by
          simpa [allows, hg, hold] using ha
        rw [← List.take_append_drop items.length old] at h
        rcases List.mem_append.mp h with h | h
        · exact Or.inl (List.mem_append_right _ (mem_of_mapM hm h (ht.normal a hacc)))
        · exact Or.inr h
    · rw [Function.update_of_ne hri] at hr
      exact (ht.loaded r todo short hd hr a hacc).imp grows id
  · intro hm
    have hl := ht.loader hm
    rwa [← loads_update (loads_inserted (insertReplies [] items) items _)] at hl
  · exact fun hm a hacc => grows (ht.covered hm a hacc)

/-! ## Rebuilds -/

theorem trusted_drop (ht : Trusted lib v roles t) (hi : roles i = .free) :
    Trusted lib { v with items := [], marker := none } (Function.update roles i .dropped)
      ⟨some i, [], []⟩ := by
  constructor
  · exact ht.normal
  · exact pending_update ht (by simp [hi]) _
  · exact whole_update ht (by simp)
  · exact fun j a hj => by cases hj
  · intro r todo short hd hr
    cases hd
    rw [Function.update_self] at hr
    cases hr
  · exact fun hm => absurd rfl hm
  · exact fun hm => absurd rfl hm

theorem trusted_snapshot (ht : Trusted lib v roles t) (hi : roles i = .dropped) :
    Trusted lib v (Function.update roles i (.loading v.accounts false)) t := by
  constructor
  · exact ht.normal
  · exact pending_update ht (by simp [hi]) _
  · exact whole_update ht (by simp)
  · exact kept_update ht (by simp)
  · intro r todo short hd hr a ha
    by_cases hri : r = i
    · subst hri
      rw [Function.update_self] at hr
      cases hr
      exact Or.inr ha
    · rw [Function.update_of_ne hri] at hr
      exact ht.loaded r todo short hd hr a ha
  · intro hm
    have hl := ht.loader hm
    unfold loads at hl ⊢
    split at hl
    case h_1 k hk =>
      have hki : k ≠ i := by
        rintro rfl
        rw [hi] at hl
        cases hl
      rw [Function.update_of_ne hki]
      exact hl
    case h_2 => cases hl
  · exact ht.covered

theorem trusted_mark {fingerprint : String} {short : Bool} (ht : Trusted lib v roles t)
    (hi : roles i = .loading [] short) (ho : t.dropper = some i ∨ v.marker ≠ none) :
    Trusted lib { v with marker := some fingerprint } roles t := by
  constructor
  · exact ht.normal
  · exact ht.pending
  · exact ht.whole
  · exact ht.kept
  · exact ht.loaded
  · intro _
    rcases ho with ho | ho
    · simp [loads, ho, hi, Role.loads]
    · exact ht.loader ho
  · intro _ a ha
    rcases ho with ho | ho
    · exact (ht.loaded i [] short ho hi a ha).resolve_right List.not_mem_nil
    · exact ht.covered ho a ha

/-! ## Accounts -/

theorem trusted_flush {email : Email} (ht : Trusted lib v roles t) (hi : roles i = .free)
    (hn : normalizeEmail lib email = .ok email) :
    Trusted lib { v with pending := v.pending ++ [(i, email)] }
      (Function.update roles i (.flushed email .pending)) t := by
  constructor
  · exact ht.normal
  · intro x hx
    rcases List.mem_append.mp hx with hx | hx
    · exact pending_update ht (by simp [hi]) _ x hx
    · rw [List.mem_singleton.mp hx]
      exact ⟨hn, .pending, Function.update_self ..⟩
  · exact whole_update ht (by simp)
  · exact kept_update ht (by simp)
  · intro r todo short hd hr a ha
    by_cases hri : r = i
    · subst hri
      rw [Function.update_self] at hr
      cases hr
    · rw [Function.update_of_ne hri] at hr
      exact ht.loaded r todo short hd hr a ha
  · intro hm
    rw [loads_update (by rw [hi]; rfl)]
    exact ht.loader hm
  · exact ht.covered

theorem loads_ended (r : Role) : Role.loads r.ended = Role.loads r := by
  cases r <;> rfl

theorem not_flushed_ended (r : Role) (a : Email) (note : Note) : r.ended ≠ .flushed a note := by
  cases r <;> simp [Role.ended]

theorem trusted_end {new : List Email} (ht : Trusted lib v roles t)
    (hnew : ∀ a ∈ new, normalizeEmail lib a = .ok a ∧ (∃ note, roles i = .flushed a note) ∧
      (loads roles t = true → a ∈ v.items)) :
    Trusted lib { v with
      accounts := v.accounts ++ new
      pending := v.pending.filter (fun x => x.1 ≠ i) }
      (Function.update roles i (roles i).ended) t := by
  constructor
  · intro a ha
    rcases List.mem_append.mp ha with ha | ha
    · exact ht.normal a ha
    · exact (hnew a ha).1
  · intro x hx
    obtain ⟨hx, hxi⟩ := List.mem_filter.mp hx
    rw [Function.update_of_ne (of_decide_eq_true hxi)]
    exact ht.pending x hx
  · exact whole_update ht (fun a => not_flushed_ended _ _ _)
  · exact kept_update ht (fun a => not_flushed_ended _ _ _)
  · intro r todo short hd hr a ha
    have hr' : roles r = .loading todo short := by
      by_cases hri : r = i
      · subst hri
        rw [Function.update_self] at hr
        cases h : roles r <;> rw [h] at hr <;> first | exact hr | cases hr
      · rwa [Function.update_of_ne hri] at hr
    rcases List.mem_append.mp ha with ha | ha
    · exact ht.loaded r todo short hd hr' a ha
    · exact Or.inl ((hnew a ha).2.2 (by simp [loads, hd, hr', Role.loads]))
  · intro hm
    rw [loads_update (loads_ended _)]
    exact ht.loader hm
  · intro hm a ha
    rcases List.mem_append.mp ha with ha | ha
    · exact ht.covered hm a ha
    · exact (hnew a ha).2.2 (ht.loader hm)

end Gamely.FilterTrust
