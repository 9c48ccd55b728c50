import Gamely.Interleaving

/-!
# What a thread did before

A protocol that remembers what it can read off the calls of its program, and allows the
next call in view of that. Every entry of a history was allowed after its thread's past.
-/

set_option autoImplicit false

namespace Gamely.Pasts
open Gamely.Calls Gamely.Interleaving

variable {C : Type} {R : C → Type} {E A W X Q D T : Type}

/-- An answered call. -/
structure Step (C : Type) (R : C → Type) (E : Type) where
  command : C
  reply : Except E (R command)

def Step.of (e : Event C R E Q) : Step C R E := ⟨e.command, e.reply⟩

/-- What can be read off the calls of one thread, in their order. -/
def past (read : Step C R E → Option T) (h : List (Event C R E Q)) (i : ℕ) : List T :=
  h.filterMap (fun e => if e.thread = i then read (Step.of e) else none)

def remembering (read : Step C R E → Option T) (allows : List T → C → Prop) :
    Protocol C R E (List T) where
  allows := allows
  next := fun before c reply => before ++ (read ⟨c, reply⟩).toList

def memory (read : Step C R E → Option T) (allows : ℕ → Q → List T → C → Prop)
    (post : Q → List T → Except E A → Prop) : Contract C R E A Q (List T) where
  start := []
  protocol := fun i q => remembering read (allows i q)
  post := post

variable {S : System C R E A W X Q D} {read : Step C R E → Option T}
  {allows : ℕ → Q → List T → C → Prop} {post : Q → List T → Except E A → Prop}

theorem past_append (h : List (Event C R E Q)) (e : Event C R E Q) (i : ℕ) :
    past read (h ++ [e]) i =
      past read h i ++ (if e.thread = i then read (Step.of e) else none).toList := by
  have hlast : past read [e] i = (if e.thread = i then read (Step.of e) else none).toList := by
    rcases ht : (if e.thread = i then read (Step.of e) else none) with _ | t <;>
      simp [past, ht]
  rw [past, List.filterMap_append, ← hlast]
  rfl

theorem ghost_memory (h : List (Event C R E Q)) (i : ℕ) :
    ghost (memory read allows post) h i = past read h i := by
  induction h using List.reverseRecOn with
  | nil => rfl
  | append_singleton h e ih =>
    rw [ghost_append, past_append]
    by_cases hi : e.thread = i
    · subst hi
      rw [Function.update_self, if_pos rfl, ih]
      rfl
    · rw [Function.update_of_ne (Ne.symm hi), if_neg hi, ih, Option.toList_none, List.append_nil]

/-- Every answered call was allowed after the past of its thread. -/
def Allowed (read : Step C R E → Option T) (allows : ℕ → Q → List T → C → Prop)
    (h : List (Event C R E Q)) : Prop :=
  ∀ n e, h[n]? = some e → allows e.thread e.request (past read (h.take n) e.thread) e.command

theorem entry_append {h : List T} {e e' : T} {n : ℕ} (hn : (h ++ [e])[n]? = some e') :
    (n < h.length ∧ h[n]? = some e') ∨ (n = h.length ∧ e' = e) := by
  by_cases hlt : n < h.length
  · rw [List.getElem?_append_left hlt] at hn
    exact Or.inl ⟨hlt, hn⟩
  · obtain ⟨hlast, rfl⟩ := List.getElem?_eq_some_iff.mp hn
    rw [List.length_append, List.length_singleton] at hlast
    have heq : n = h.length := by omega
    subst heq
    exact Or.inr ⟨rfl, by simp⟩

theorem allowed_append {h : List (Event C R E Q)} {e : Event C R E Q}
    (hh : Allowed read allows h)
    (he : allows e.thread e.request (past read h e.thread) e.command) :
    Allowed read allows (h ++ [e]) := by
  intro n e' hn
  rcases entry_append hn with ⟨hlt, hold⟩ | ⟨rfl, rfl⟩
  · rw [List.take_append_of_le_length (Nat.le_of_lt hlt)]
    exact hh n e' hold
  · rw [List.take_left]
    exact he

theorem allowed_preserved (S : System C R E A W X Q D) :
    Preserved S (memory read allows post) (fun _ _ => True)
      (fun _ h => Allowed read allows h) where
  call := by
    rintro s i x q c reply w hh - ha - -
    apply allowed_append hh
    have hghost : ghost (memory read allows post) s.history i = past read s.history i :=
      ghost_memory s.history i
    rw [hghost] at ha
    exact ha
  pass := fun _ _ hh _ => hh

/-- In a run of programs that keep the memory's protocol, every answered call was allowed. -/
theorem allowed_run (hS : Obeys S (memory read allows post)) (ls : List (Label Q X D)) (w : W) :
    Allowed read allows (run S ls (initial w)).history :=
  invariant_run hS (allowed_preserved S) ls (initial w) (following_initial w)
    (fun _ _ hn => by simp [initial] at hn) (meets_trivial ls _)

/-- What a thread that has returned did. -/
theorem post_run (hS : Obeys S (memory read allows post)) (ls : List (Label Q X D)) (w : W)
    {i : ℕ} {q : Q} {a : A} (h : returned (run S ls (initial w)) i = some (q, a)) :
    post q (past read (run S ls (initial w)).history i) (.ok a) := by
  have hpost := post_of_returned _ (following_run hS ls (initial w) (following_initial w)) i q a h
  rwa [ghost_memory] at hpost

/-! ## Programs that only need to be remembered -/

variable {B : Type} {ok : C → Prop} {may : List T → C → Prop}

theorem keeps_onward {p : Program C R E B} (hp : Only ok p)
    (h : ∀ before c, ok c → may before c) (before : List T) :
    Keeps (remembering read may) p before (fun after _ => before <+: after) := by
  refine keeps_of_kept (fun after => before <+: after) p hp before List.prefix_rfl _ ?_
    (fun _ _ hg => hg)
  intro c hc after hafter
  refine ⟨h _ c hc, fun reply => ?_⟩
  exact hafter.trans (List.prefix_append after (read ⟨c, reply⟩).toList)

/-! ## Programs that are remembered whole -/

/-- A past that goes on with calls of one kind. -/
def Continues (ok : C → Prop) (before after : List (Step C R E)) : Prop :=
  ∃ more, after = before ++ more ∧ ∀ step ∈ more, ok step.command

theorem continues_refl (before : List (Step C R E)) : Continues ok before before :=
  ⟨[], (List.append_nil before).symm, fun _ h => nomatch h⟩

theorem continues_trans {before after last : List (Step C R E)} (h : Continues ok before after)
    (h' : Continues ok after last) : Continues ok before last := by
  obtain ⟨more, rfl, hmore⟩ := h
  obtain ⟨more', rfl, hmore'⟩ := h'
  refine ⟨more ++ more', List.append_assoc before more more', fun step hstep => ?_⟩
  exact (List.mem_append.mp hstep).elim (hmore step) (hmore' step)

theorem continues_step (before : List (Step C R E)) {c : C} (hc : ok c)
    (reply : Except E (R c)) : Continues ok before (before ++ [⟨c, reply⟩]) := by
  refine ⟨[⟨c, reply⟩], rfl, fun step hstep => ?_⟩
  cases List.mem_singleton.mp hstep
  exact hc

theorem continues_subset {before after : List (Step C R E)} (h : Continues ok before after) :
    before ⊆ after := by
  obtain ⟨more, rfl, -⟩ := h
  exact List.subset_append_left before more

theorem mem_last (before : List (Step C R E)) (step : Step C R E) : step ∈ before ++ [step] :=
  List.mem_append_right _ (List.mem_singleton.mpr rfl)

variable {F : Type} {allowed : List (Step C R E) → C → Prop}

theorem ensures_continues (hok : ∀ before c, ok c → allowed before c) {p : Program C R E B}
    (hp : Only ok p) (before : List (Step C R E)) :
    Ensures (remembering some allowed) p before (fun after _ => Continues ok before after) := by
  refine ensures_of_kept (fun after => Continues ok before after) hp (continues_refl before) ?_
    (fun _ _ h => h)
  intro c hc after hafter
  exact ⟨hok after c hc, fun reply => continues_trans hafter (continues_step after hc reply)⟩

/-- Calls of one kind, before a program that goes on from what they did. -/
theorem ensures_after (hok : ∀ before c, ok c → allowed before c) {p : Program C R E B}
    {f : B → Program C R E F} {before : List (Step C R E)} {post : List (Step C R E) → F → Prop}
    (hp : Only ok p) (h : ∀ b after, Continues ok before after →
      Ensures (remembering some allowed) (f b) after post) :
    Ensures (remembering some allowed) (p >>= f) before post :=
  ensures_bind (ensures_mono (fun after b hafter => h b after hafter)
    (ensures_continues hok hp before))

theorem ensures_read (hok : ∀ before c, ok c → allowed before c) {c : C}
    {f : R c → Program C R E F} {before : List (Step C R E)} {post : List (Step C R E) → F → Prop}
    (hc : ok c) (h : ∀ reply, Continues ok before (before ++ [⟨c, .ok reply⟩]) →
      Ensures (remembering some allowed) (f reply) (before ++ [⟨c, .ok reply⟩]) post) :
    Ensures (remembering some allowed) (invoke c >>= f) before post :=
  ensures_bind (ensures_invoke (hok before c hc)
    (fun reply => h reply (continues_step before hc (.ok reply))))

/-! ## Steps of a thread -/

/-- What a thread remembers of the first entries of a history it did in one of them. -/
theorem mem_past {h : List (Event C R E Q)} {n i : ℕ} {t : T} (ht : t ∈ past read (h.take n) i) :
    ∃ m < n, ∃ e, h[m]? = some e ∧ e.thread = i ∧ read (Step.of e) = some t := by
  obtain ⟨e, he, hread⟩ := List.mem_filterMap.mp ht
  obtain ⟨m, hm, hget⟩ := List.getElem_of_mem he
  rw [List.length_take] at hm
  refine ⟨m, by omega, e, ?_, ?_⟩
  · rw [List.getElem_take] at hget
    rw [List.getElem?_eq_getElem (by omega), hget]
  · split at hread
    case isTrue hi => exact ⟨hi, hread⟩
    case isFalse => cases hread

theorem past_mem {h : List (Event C R E Q)} {n m i : ℕ} {t : T} {e : Event C R E Q} (hm : m < n)
    (he : h[m]? = some e) (hi : e.thread = i) (hread : read (Step.of e) = some t) :
    t ∈ past read (h.take n) i := by
  apply List.mem_filterMap.mpr
  refine ⟨e, ?_, ?_⟩
  · apply List.mem_of_getElem? (i := m)
    rw [List.getElem?_take_of_lt hm]
    exact he
  · rw [if_pos hi]
    exact hread

end Gamely.Pasts
