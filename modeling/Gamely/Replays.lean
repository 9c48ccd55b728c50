import Gamely.Pasts

/-!
# What the calls of a run show of a program

A program is played by a list of answered calls when it makes exactly these, is
answered as they record, and ends. The calls of a thread play the program of its
request, and a part of them whatever the request runs on its way.
-/

set_option autoImplicit false

namespace Gamely.Replays
open Gamely.Calls Gamely.Interleaving Gamely.Pasts

variable {C : Type} {R : C → Type} {E A B W X Q D : Type}

/-- The program makes the calls, is answered as they record and ends so. -/
def Returns : Program C R E A → List (Step C R E) → Except E A → Prop
  | .done a, es, r => es = [] ∧ r = .ok a
  | .raised e, es, r => es = [] ∧ r = .error e
  | .call c next, es, r => ∃ reply rest, es = ⟨c, reply⟩ :: rest ∧ Returns (next reply) rest r

variable {es : List (Step C R E)}

@[simp] theorem returns_pure (a : A) (r : Except E A) :
    Returns (pure a : Program C R E A) es r ↔ es = [] ∧ r = .ok a := Iff.rfl

@[simp] theorem returns_throw (e : E) (r : Except E A) :
    Returns (throw e : Program C R E A) es r ↔ es = [] ∧ r = .error e := Iff.rfl

@[simp] theorem returns_ofResult (result r : Except E A) :
    Returns (ofResult result : Program C R E A) es r ↔ es = [] ∧ r = result := by
  cases result <;> exact Iff.rfl

@[simp] theorem returns_invoke (c : C) (r : Except E (R c)) :
    Returns (invoke c : Program C R E (R c)) es r ↔ es = [⟨c, r⟩] := by
  simp only [invoke, Returns, returns_ofResult]
  constructor
  · rintro ⟨reply, rest, rfl, rfl, rfl⟩
    rfl
  · rintro rfl
    exact ⟨r, [], rfl, rfl, rfl⟩

theorem returns_bind (p : Program C R E A) (f : A → Program C R E B) (r : Except E B) :
    Returns (p >>= f) es r ↔
      (∃ a first rest, es = first ++ rest ∧ Returns p first (.ok a) ∧ Returns (f a) rest r) ∨
        ∃ e, Returns p es (.error e) ∧ r = .error e := by
  change Returns (Calls.bind p f) es r ↔ _
  induction p generalizing es with
  | done a => simp [Calls.bind, Returns]
  | raised e => simp [Calls.bind, Returns]
  | call c next ih =>
    simp only [Calls.bind, Returns, ih]
    constructor
    · rintro ⟨reply, rest, rfl, ⟨a, first, last, rfl, hp, hf⟩ | ⟨e, hp, rfl⟩⟩
      · exact Or.inl ⟨a, ⟨c, reply⟩ :: first, last, rfl, ⟨reply, first, rfl, hp⟩, hf⟩
      · exact Or.inr ⟨e, ⟨reply, rest, rfl, hp⟩, rfl⟩
    · rintro (⟨a, _, last, rfl, ⟨reply, first, rfl, hp⟩, hf⟩ | ⟨e, ⟨reply, rest, rfl, hp⟩, rfl⟩)
      · exact ⟨reply, first ++ last, rfl, Or.inl ⟨a, first, last, rfl, hp, hf⟩⟩
      · exact ⟨reply, rest, rfl, Or.inr ⟨e, hp, rfl⟩⟩

theorem returns_map (f : A → B) (p : Program C R E A) (r : Except E B) :
    Returns (f <$> p) es r ↔ ∃ result, Returns p es result ∧ r = result.map f := by
  change Returns (p >>= fun a => pure (f a)) es r ↔ _
  rw [returns_bind]
  constructor
  · rintro (⟨a, first, rest, rfl, hp, rfl, rfl⟩ | ⟨e, hp, rfl⟩)
    · exact ⟨.ok a, by rwa [List.append_nil], rfl⟩
    · exact ⟨.error e, hp, rfl⟩
  · rintro ⟨a | e, hp, rfl⟩
    · exact Or.inr ⟨a, hp, rfl⟩
    · exact Or.inl ⟨e, es, [], (List.append_nil es).symm, hp, rfl, rfl⟩

theorem returns_tryCatch (p : Program C R E A) (handler : E → Program C R E A)
    (r : Except E A) : Returns (tryCatchThe E p handler) es r ↔
      (∃ a, Returns p es (.ok a) ∧ r = .ok a) ∨
        ∃ e first rest, es = first ++ rest ∧ Returns p first (.error e) ∧
          Returns (handler e) rest r := by
  change Returns (Calls.tryCatch p handler) es r ↔ _
  induction p generalizing es with
  | done a => simp [Calls.tryCatch, Returns]
  | raised e => simp [Calls.tryCatch, Returns]
  | call c next ih =>
    simp only [Calls.tryCatch, Returns, ih]
    constructor
    · rintro ⟨reply, rest, rfl, ⟨a, hp, rfl⟩ | ⟨e, first, last, rfl, hp, hh⟩⟩
      · exact Or.inl ⟨a, ⟨reply, rest, rfl, hp⟩, rfl⟩
      · exact Or.inr ⟨e, ⟨c, reply⟩ :: first, last, rfl, ⟨reply, first, rfl, hp⟩, hh⟩
    · rintro (⟨a, ⟨reply, rest, rfl, hp⟩, rfl⟩ | ⟨e, _, last, rfl, ⟨reply, first, rfl, hp⟩, hh⟩)
      · exact ⟨reply, rest, rfl, Or.inl ⟨a, hp, rfl⟩⟩
      · exact ⟨reply, first ++ last, rfl, Or.inr ⟨e, first, last, rfl, hp, hh⟩⟩

/-! ## Along a run -/

/-- The entries of one thread. -/
def calls (h : List (Event C R E Q)) (i : ℕ) : List (Event C R E Q) :=
  h.filter (fun e => e.thread = i)

theorem calls_append (h : List (Event C R E Q)) (e : Event C R E Q) (i : ℕ) :
    calls (h ++ [e]) i = if e.thread = i then calls h i ++ [e] else calls h i := by
  by_cases hi : e.thread = i <;> simp [calls, hi]

theorem calls_unspawned {h : List (Event C R E Q)} {i : ℕ} (hi : ∀ e ∈ h, e.thread ≠ i) :
    calls h i = [] := by
  rw [calls, List.filter_eq_nil_iff]
  intro e he
  simpa using hi e he

/-- Where an entry of a thread stands. -/
theorem calls_split {h : List (Event C R E Q)} {i : ℕ} {before after : List (Event C R E Q)}
    {e : Event C R E Q} (hc : calls h i = before ++ e :: after) :
    ∃ n, h[n]? = some e ∧ e.thread = i ∧ calls (h.take n) i = before := by
  obtain ⟨first, last, rfl, hfirst, hlast⟩ := List.filter_eq_append_iff.mp hc
  obtain ⟨skipped, rest, rfl, hskipped, he, -⟩ := List.filter_eq_cons_iff.mp hlast
  refine ⟨(first ++ skipped).length, ?_, by simpa using he, ?_⟩
  · rw [← List.append_assoc, List.getElem?_append_right (Nat.le_refl _), Nat.sub_self]
    rfl
  · rw [← List.append_assoc, List.take_left, calls, List.filter_append, hfirst,
      List.filter_eq_nil_iff.mpr hskipped, List.append_nil]

/-- The ghost of a thread is what its last entry made of it. -/
theorem ghost_last {G : Type} {K : Contract C R E A Q G} {h : List (Event C R E Q)} {i : ℕ}
    {before : List (Event C R E Q)} {e : Event C R E Q} (hc : calls h i = before ++ [e]) :
    ∃ g, ghost K h i = (K.protocol e.thread e.request).next g e.command e.reply := by
  induction h using List.reverseRecOn with
  | nil => exact absurd hc (by simp [calls])
  | append_singleton h last ih =>
    rw [calls_append] at hc
    rw [ghost_append]
    by_cases hi : last.thread = i
    · rw [if_pos hi] at hc
      obtain rfl : last = e := by simpa using (List.append_inj' hc rfl).2
      subst hi
      exact ⟨_, Function.update_self ..⟩
    · rw [if_neg hi] at hc
      rw [Function.update_of_ne (Ne.symm hi)]
      exact ih hc

/-- What the program goes on with after the calls. -/
def Leads (p : Program C R E A) (es : List (Step C R E)) (p' : Program C R E A) : Prop :=
  ∀ rest r, Returns p' rest r → Returns p (es ++ rest) r

theorem leads_refl (p : Program C R E A) : Leads p [] p := fun _ _ h => h

theorem leads_call {p : Program C R E A} {c : C} {next : Except E (R c) → Program C R E A}
    (hl : Leads p es (.call c next)) (reply : Except E (R c)) :
    Leads p (es ++ [⟨c, reply⟩]) (next reply) := by
  intro rest r h
  rw [List.append_assoc]
  exact hl _ r ⟨reply, rest, rfl, h⟩

variable (S : System C R E A W X Q D)

/-- Every thread has come to what is left of its request by the calls it made, unless
it can be cancelled, and made them for that request. -/
structure Played (s : State C R E A W Q) : Prop where
  plays : ∀ i t, s.threads[i]? = some t → S.cancelled t.request = none →
    Leads (S.program i t.request) ((calls s.history i).map Step.of) t.rest
  asked : ∀ e ∈ s.history, s.threads[e.thread]?.map Thread.request = some e.request

variable {S}

theorem played_initial (w : W) : Played S (initial w) where
  plays := by simp [initial]
  asked := by simp [initial]

theorem request_set {threads : List (Thread C R E A Q)} {i : ℕ} {q : Q} {p : Program C R E A}
    (ht : threads[i]? = some ⟨q, p⟩) (p' : Program C R E A) (j : ℕ) :
    (threads.set i ⟨q, p'⟩)[j]?.map Thread.request = threads[j]?.map Thread.request := by
  by_cases hij : i = j
  · subst hij
    have hlt := (List.getElem?_eq_some_iff.mp ht).1
    simp [List.getElem?_set_self hlt, ht]
  · rw [List.getElem?_set_ne hij]

theorem lt_of_asked {s : State C R E A W Q} {e : Event C R E Q}
    (h : s.threads[e.thread]?.map Thread.request = some e.request) :
    e.thread < s.threads.length := by
  obtain ⟨t, ht, -⟩ := Option.map_eq_some_iff.mp h
  exact (List.getElem?_eq_some_iff.mp ht).1

theorem played_step (s : State C R E A W Q) (l : Label Q X D) (hs : Played S s) :
    Played S (step S s l) := by
  rcases step_cases (S := S) s l with ⟨q, -, he⟩ | ⟨i, x, q, c, next, reply, w, -, ht, -, he⟩ |
    ⟨i, q, c, next, p, -, ht, hc, he⟩ | ⟨d, -, he⟩ | he
  · rw [he]
    constructor
    · intro i t hi hcancel
      rcases Nat.lt_trichotomy i s.threads.length with hlt | rfl | hgt
      · exact hs.plays i t (by simpa [spawned, List.getElem?_append_left hlt] using hi) hcancel
      · obtain rfl : t = ⟨q, S.program s.threads.length q⟩ := by
          simpa [spawned, eq_comm] using hi
        have hnone : calls s.history s.threads.length = [] :=
          calls_unspawned (fun e h => Nat.ne_of_lt (lt_of_asked (hs.asked e h)))
        show Leads _ ((calls s.history _).map Step.of) _
        rw [hnone]
        exact leads_refl _
      · have hn : (spawned S s q).threads[i]? = none := by
          rw [List.getElem?_eq_none_iff]
          simp only [spawned, List.length_append, List.length_singleton]
          omega
        rw [hn] at hi
        cases hi
    · intro e h
      have hold := hs.asked e h
      rwa [spawned, List.getElem?_append_left (lt_of_asked hold)]
  · rw [he]
    have hlt : i < s.threads.length := (List.getElem?_eq_some_iff.mp ht).1
    constructor
    · intro j t hj hcancel
      show Leads _ ((calls (s.history ++ [_]) j).map Step.of) _
      rw [calls_append]
      by_cases hij : i = j
      · subst hij
        obtain rfl : t = ⟨q, next reply⟩ := by simpa [answered, hlt, eq_comm] using hj
        rw [if_pos rfl, List.map_append]
        exact leads_call (hs.plays i _ ht hcancel) reply
      · rw [if_neg hij]
        exact hs.plays j t (by simpa [answered, List.getElem?_set_ne hij] using hj) hcancel
    · intro e h
      rcases List.mem_append.mp h with h | h
      · exact (request_set ht (next reply) e.thread).trans (hs.asked e h)
      · rw [List.mem_singleton.mp h]
        simp [answered, hlt]
  · rw [he]
    have hlt : i < s.threads.length := (List.getElem?_eq_some_iff.mp ht).1
    constructor
    · intro j t hj hcancel
      by_cases hij : i = j
      · subst hij
        obtain rfl : t = ⟨q, p⟩ := by simpa [hlt, eq_comm] using hj
        rw [hc] at hcancel
        cases hcancel
      · exact hs.plays j t (by simpa [List.getElem?_set_ne hij] using hj) hcancel
    · exact fun e h => (request_set ht p e.thread).trans (hs.asked e h)
  · rw [he]
    exact ⟨hs.plays, hs.asked⟩
  · rwa [he]

theorem played_run (ls : List (Label Q X D)) (s : State C R E A W Q) (hs : Played S s) :
    Played S (run S ls s) := by
  induction ls generalizing s with
  | nil => exact hs
  | cons l ls ih => exact ih _ (played_step s l hs)

/-- The calls of a thread that has returned play its request. -/
theorem returns_of_returned {s : State C R E A W Q} (hs : Played S s) {i : ℕ} {q : Q} {a : A}
    (h : returned s i = some (q, a)) (hq : S.cancelled q = none) :
    Returns (S.program i q) ((calls s.history i).map Step.of) (.ok a) := by
  have hplays := hs.plays i _ (thread_of_returned h) hq [] (.ok a) ⟨rfl, rfl⟩
  rwa [List.append_nil] at hplays

end Gamely.Replays
