import Gamely.Calls
import Mathlib.Data.List.Induction

/-!
# Interleaved programs over one shared service

Any number of programs run against one world, one call at a time, in any
order. A label names the program that moves and settles what the service
leaves open; a call the service cannot answer yet leaves the state as it is.
The history records every answered call and is the only past a statement may
refer to.
-/

set_option autoImplicit false

namespace Gamely.Interleaving
open Gamely.Calls

variable {C : Type} {R : C → Type} {E A W X Q D G : Type}

/-- `perform` answers one call atomically, `program` is the code of a request,
`cancelled` is what is left of a request whose task is cancelled at an await and
`pass` is what the world does on its own. -/
structure System (C : Type) (R : C → Type) (E A W X Q D : Type) where
  perform : (c : C) → X → W → Option (Except E (R c) × W)
  program : ℕ → Q → Program C R E A
  cancelled : Q → Option (Program C R E A)
  pass : D → W → W

structure Event (C : Type) (R : C → Type) (E Q : Type) where
  thread : ℕ
  request : Q
  command : C
  reply : Except E (R command)

structure Thread (C : Type) (R : C → Type) (E A Q : Type) where
  request : Q
  rest : Program C R E A

structure State (C : Type) (R : C → Type) (E A W Q : Type) where
  world : W
  threads : List (Thread C R E A Q)
  history : List (Event C R E Q)

inductive Label (Q X D : Type) where
  | spawn (request : Q)
  | run (thread : ℕ) (choice : X)
  | cancel (thread : ℕ)
  | pass (change : D)

variable (S : System C R E A W X Q D)

def spawned (s : State C R E A W Q) (q : Q) : State C R E A W Q :=
  { s with threads := s.threads ++ [⟨q, S.program s.threads.length q⟩] }

def answered (s : State C R E A W Q) (i : ℕ) (q : Q) (c : C)
    (next : Except E (R c) → Program C R E A) (reply : Except E (R c)) (w : W) :
    State C R E A W Q where
  world := w
  threads := s.threads.set i ⟨q, next reply⟩
  history := s.history ++ [⟨i, q, c, reply⟩]

def step (s : State C R E A W Q) : Label Q X D → State C R E A W Q
  | .spawn q => spawned S s q
  | .run i x => match s.threads[i]? with
    | some ⟨q, .call c next⟩ => match S.perform c x s.world with
      | some (reply, w) => answered s i q c next reply w
      | none => s
    | _ => s
  | .cancel i => match s.threads[i]? with
    | some ⟨q, .call _ _⟩ => match S.cancelled q with
      | some p => { s with threads := s.threads.set i ⟨q, p⟩ }
      | none => s
    | _ => s
  | .pass d => { s with world := S.pass d s.world }

def run : List (Label Q X D) → State C R E A W Q → State C R E A W Q
  | [], s => s
  | l::ls, s => run ls (step S s l)

/-- Every step of the run meets a condition on the state it is taken in. -/
def Meets (cond : State C R E A W Q → Label Q X D → Prop) :
    List (Label Q X D) → State C R E A W Q → Prop
  | [], _ => True
  | l::ls, s => cond s l ∧ Meets cond ls (step S s l)

instance instDecidableMeets (cond : State C R E A W Q → Label Q X D → Prop)
    [∀ s l, Decidable (cond s l)] :
    ∀ (ls : List (Label Q X D)) (s : State C R E A W Q), Decidable (Meets S cond ls s)
  | [], _ => isTrue trivial
  | l::ls, s => @instDecidableAnd _ _ _ (instDecidableMeets cond ls (step S s l))

def initial (w : W) : State C R E A W Q := ⟨w, [], []⟩

/-- The call a thread makes when it is next run. -/
def upcoming (s : State C R E A W Q) (i : ℕ) : Option (Q × C) :=
  match s.threads[i]? with
  | some ⟨q, .call c _⟩ => some (q, c)
  | _ => none

def returned (s : State C R E A W Q) (i : ℕ) : Option (Q × A) :=
  match s.threads[i]? with
  | some ⟨q, .done a⟩ => some (q, a)
  | _ => none

def Called (cond : Q → C → Prop) : Option (Q × C) → Prop
  | some (q, c) => cond q c
  | none => True

/-- A condition on the calls of a run: the thread, the choice and the request it
comes with and the command. -/
def OnCall (cond : State C R E A W Q → ℕ → X → Q → C → Prop) (s : State C R E A W Q) :
    Label Q X D → Prop
  | .run i x => Called (cond s i x) (upcoming s i)
  | _ => True

instance (cond : Q → C → Prop) [∀ q c, Decidable (cond q c)] :
    ∀ o, Decidable (Called cond o)
  | some (q, c) => inferInstanceAs (Decidable (cond q c))
  | none => isTrue trivial

instance (cond : State C R E A W Q → ℕ → X → Q → C → Prop)
    [∀ s i x q c, Decidable (cond s i x q c)] (s : State C R E A W Q) :
    ∀ l : Label Q X D, Decidable (OnCall cond s l)
  | .run i x => inferInstanceAs (Decidable (Called (cond s i x) (upcoming s i)))
  | .spawn _ => isTrue trivial
  | .cancel _ => isTrue trivial
  | .pass _ => isTrue trivial

variable {S}

theorem onCall_run {cond : State C R E A W Q → ℕ → X → Q → C → Prop} {s : State C R E A W Q}
    {i : ℕ} {x : X} {q : Q} {c : C} (hu : upcoming s i = some (q, c))
    (h : OnCall cond s (.run i x : Label Q X D)) : cond s i x q c := by
  simpa only [OnCall, hu, Called] using h

theorem upcoming_call (s : State C R E A W Q) (i : ℕ) (q : Q) (c : C)
    (next : Except E (R c) → Program C R E A) (h : s.threads[i]? = some ⟨q, .call c next⟩) :
    upcoming s i = some (q, c) := by
  simp [upcoming, h]

theorem step_upcoming {s : State C R E A W Q} {i : ℕ} {x : X} {q : Q} {c : C}
    {reply : Except E (R c)} {w : W} (hu : upcoming s i = some (q, c))
    (hp : S.perform c x s.world = some (reply, w)) :
    ∃ next, step S s (.run i x) = answered s i q c next reply w := by
  unfold upcoming at hu
  split at hu
  case h_1 q' c' next ht =>
    cases hu
    exact ⟨next, by simp only [step, ht, hp]⟩
  case h_2 => cases hu

theorem run_append (ls ms : List (Label Q X D)) (s : State C R E A W Q) :
    run S (ls ++ ms) s = run S ms (run S ls s) := by
  induction ls generalizing s with
  | nil => rfl
  | cons l ls ih => exact ih (step S s l)

theorem meets_append (cond : State C R E A W Q → Label Q X D → Prop)
    (ls ms : List (Label Q X D)) (s : State C R E A W Q) :
    Meets S cond (ls ++ ms) s ↔ Meets S cond ls s ∧ Meets S cond ms (run S ls s) := by
  induction ls generalizing s with
  | nil => simp [Meets, run]
  | cons l ls ih => simp [Meets, run, ih, and_assoc]

theorem meets_trivial (ls : List (Label Q X D)) (s : State C R E A W Q) :
    Meets S (fun _ _ => True) ls s := by
  induction ls generalizing s with
  | nil => trivial
  | cons l ls ih => exact ⟨trivial, ih _⟩

theorem meets_and {cond cond' : State C R E A W Q → Label Q X D → Prop}
    (ls : List (Label Q X D)) (s : State C R E A W Q) (h : Meets S cond ls s)
    (h' : Meets S cond' ls s) : Meets S (fun s l => cond s l ∧ cond' s l) ls s := by
  induction ls generalizing s with
  | nil => trivial
  | cons l ls ih => exact ⟨⟨h.1, h'.1⟩, ih _ h.2 h'.2⟩

theorem meets_of_forall {P : Label Q X D → Prop} (ls : List (Label Q X D))
    (s : State C R E A W Q) (h : ∀ l ∈ ls, P l) : Meets S (fun _ l => P l) ls s := by
  induction ls generalizing s with
  | nil => trivial
  | cons l ls ih =>
    constructor
    · exact h l (by simp)
    · exact ih _ (fun l' hl => h l' (by simp [hl]))

/-- A property of every state on the way, one step of which shows a condition. -/
theorem meets_of_prefixes {P : State C R E A W Q → Prop}
    {cond : State C R E A W Q → Label Q X D → Prop} (s : State C R E A W Q)
    (hstep : ∀ ls l, P (run S (ls ++ [l]) s) → cond (run S ls s) l) (ls : List (Label Q X D))
    (h : ∀ ms, ms <+: ls → P (run S ms s)) : Meets S cond ls s := by
  induction ls using List.reverseRecOn with
  | nil => trivial
  | append_singleton ls l ih =>
    have hbefore := ih (fun ms hms => h ms (hms.trans (List.prefix_append ls [l])))
    refine (meets_append cond ls [l] s).mpr ⟨hbefore, ?_, trivial⟩
    exact hstep ls l (h _ (List.prefix_refl _))

theorem step_cases (s : State C R E A W Q) (l : Label Q X D) :
    (∃ q, l = .spawn q ∧ step S s l = spawned S s q) ∨
    (∃ i x q c next reply w, l = .run i x ∧ s.threads[i]? = some ⟨q, .call c next⟩ ∧
      S.perform c x s.world = some (reply, w) ∧
      step S s l = answered s i q c next reply w) ∨
    (∃ i q c next p, l = .cancel i ∧ s.threads[i]? = some ⟨q, .call c next⟩ ∧
      S.cancelled q = some p ∧
      step S s l = { s with threads := s.threads.set i ⟨q, p⟩ }) ∨
    (∃ d, l = .pass d ∧ step S s l = { s with world := S.pass d s.world }) ∨
    step S s l = s := by
  have stays : ∀ {P₁ P₂ P₃ P₄ P₅ : Prop}, P₅ → P₁ ∨ P₂ ∨ P₃ ∨ P₄ ∨ P₅ :=
    fun h => Or.inr (Or.inr (Or.inr (Or.inr h)))
  cases l with
  | spawn q => exact Or.inl ⟨q, rfl, rfl⟩
  | run i x =>
    rcases ht : s.threads[i]? with _ | ⟨q, p⟩
    · exact stays (by simp only [step, ht])
    · cases p with
      | done a => exact stays (by simp only [step, ht])
      | raised e => exact stays (by simp only [step, ht])
      | call c next =>
        rcases hp : S.perform c x s.world with _ | ⟨reply, w⟩
        · exact stays (by simp only [step, ht, hp])
        · exact Or.inr (Or.inl ⟨i, x, q, c, next, reply, w, rfl, ht, hp,
            by simp only [step, ht, hp]⟩)
  | cancel i =>
    rcases ht : s.threads[i]? with _ | ⟨q, p⟩
    · exact stays (by simp only [step, ht])
    · cases p with
      | done a => exact stays (by simp only [step, ht])
      | raised e => exact stays (by simp only [step, ht])
      | call c next =>
        rcases hc : S.cancelled q with _ | p
        · exact stays (by simp only [step, ht, hc])
        · exact Or.inr (Or.inr (Or.inl ⟨i, q, c, next, p, rfl, ht, hc,
            by simp only [step, ht, hc]⟩))
  | pass d => exact Or.inr (Or.inr (Or.inr (Or.inl ⟨d, rfl, rfl⟩)))

/-! ## Requests in a run -/

theorem request_of_upcoming {s : State C R E A W Q} {i : ℕ} {q : Q} {c : C}
    (h : upcoming s i = some (q, c)) : ∃ t ∈ s.threads, t.request = q := by
  unfold upcoming at h
  split at h
  case h_1 q' c' next ht =>
    simp only [Option.some.injEq, Prod.mk.injEq] at h
    exact ⟨_, List.mem_of_getElem? ht, h.1⟩
  case h_2 => cases h

theorem requests_step {P : Q → Prop} (s : State C R E A W Q) (l : Label Q X D)
    (hl : ∀ q, l = .spawn q → P q) (hs : ∀ t ∈ s.threads, P t.request) :
    ∀ t ∈ (step S s l).threads, P t.request := by
  have changed : ∀ (i : ℕ) (t' : Thread C R E A Q), P t'.request →
      ∀ t ∈ s.threads.set i t', P t.request := by
    intro i t' ht' t ht
    rcases List.mem_or_eq_of_mem_set ht with h | rfl
    · exact hs t h
    · exact ht'
  rcases step_cases (S := S) s l with ⟨q, hq, he⟩ | ⟨i, x, q, c, next, reply, w, -, ht, -, he⟩ |
    ⟨i, q, c, next, p, -, ht, -, he⟩ | ⟨d, -, he⟩ | he
  · rw [he]
    intro t ht
    rcases List.mem_append.mp ht with h | h
    · exact hs t h
    · rw [List.mem_singleton.mp h]
      exact hl q hq
  · rw [he]
    have hq : P q := hs ⟨q, .call c next⟩ (List.mem_of_getElem? ht)
    exact changed i _ hq
  · rw [he]
    have hq : P q := hs ⟨q, .call c next⟩ (List.mem_of_getElem? ht)
    exact changed i _ hq
  · rw [he]
    exact hs
  · rwa [he]

/-- A property of every request asked for is one of every request running. -/
theorem meets_requests {P : Q → Prop} (ls : List (Label Q X D)) (s : State C R E A W Q)
    (hl : ∀ q, .spawn q ∈ ls → P q) (hs : ∀ t ∈ s.threads, P t.request) :
    Meets S (fun s _ => ∀ t ∈ s.threads, P t.request) ls s := by
  induction ls generalizing s with
  | nil => trivial
  | cons l ls ih =>
    constructor
    · exact hs
    · apply ih
      · exact fun q hq => hl q (by simp [hq])
      · exact requests_step s l (fun q hq => hl q (by simp [hq])) hs

theorem requests_run {P : Q → Prop} (ls : List (Label Q X D)) (s : State C R E A W Q)
    (hl : ∀ q, .spawn q ∈ ls → P q) (hs : ∀ t ∈ s.threads, P t.request) :
    ∀ t ∈ (run S ls s).threads, P t.request := by
  induction ls generalizing s with
  | nil => exact hs
  | cons l ls ih =>
    apply ih _ (fun q hq => hl q (by simp [hq]))
    exact requests_step s l (fun q hq => hl q (by simp [hq])) hs

/-! ## One request at a time -/

def finished : Program C R E A → Bool
  | .call _ _ => false
  | _ => true

/-- A request is spawned only when every other has ended. -/
def Serial (s : State C R E A W Q) : Label Q X D → Prop
  | .spawn _ => ∀ t ∈ s.threads, finished t.rest = true
  | _ => True

instance (s : State C R E A W Q) : ∀ l : Label Q X D, Decidable (Serial s l)
  | .spawn _ => inferInstanceAs (Decidable (∀ t ∈ s.threads, _))
  | .run .. => isTrue trivial
  | .cancel _ => isTrue trivial
  | .pass _ => isTrue trivial

def lastThread (h : List (Event C R E Q)) : Option ℕ := h.getLast?.map Event.thread

@[simp] theorem lastThread_append (h : List (Event C R E Q)) (e : Event C R E Q) :
    lastThread (h ++ [e]) = some e.thread := by
  simp [lastThread]

/-- Only the thread spawned last is unfinished, and its calls come last. -/
structure InTurn (s : State C R E A W Q) : Prop where
  ended : ∀ j t, s.threads[j]? = some t → j+1 < s.threads.length → finished t.rest = true
  spawned : ∀ e ∈ s.history, e.thread < s.threads.length
  last : ∀ e ∈ s.history, e.thread+1 = s.threads.length → lastThread s.history = some e.thread

theorem inTurn_initial (w : W) : InTurn (initial w : State C R E A W Q) where
  ended := by simp [initial]
  spawned := by simp [initial]
  last := by simp [initial]

theorem last_of_call {s : State C R E A W Q} (hs : InTurn s) {i : ℕ} {q : Q} {c : C}
    {next : Except E (R c) → Program C R E A} (h : s.threads[i]? = some ⟨q, .call c next⟩) :
    i+1 = s.threads.length := by
  have hi : i < s.threads.length := (List.getElem?_eq_some_iff.mp h).1
  by_contra hn
  exact Bool.false_ne_true (hs.ended i _ h (by omega))

theorem inTurn_step (s : State C R E A W Q) (l : Label Q X D) (hs : InTurn s)
    (hl : Serial s l) : InTurn (step S s l) := by
  rcases step_cases (S := S) s l with ⟨q, rfl, he⟩ | ⟨i, x, q, c, next, reply, w, -, ht, -, he⟩ |
    ⟨i, q, c, next, p, -, ht, -, he⟩ | ⟨d, -, he⟩ | he
  · rw [he]
    constructor
    · intro j t hj hlen
      simp only [spawned, List.length_append, List.length_singleton] at hlen
      have hj' : j < s.threads.length := by omega
      rw [spawned, List.getElem?_append_left hj'] at hj
      exact hl t (List.mem_of_getElem? hj)
    · intro e h
      have := hs.spawned e h
      simp only [spawned, List.length_append, List.length_singleton]
      omega
    · intro e h hlen
      have := hs.spawned e h
      simp only [spawned, List.length_append, List.length_singleton] at hlen
      omega
  · rw [he]
    have hi := last_of_call hs ht
    constructor
    · intro j t hj hlen
      simp only [answered, List.length_set] at hlen
      have hij : i ≠ j := by omega
      exact hs.ended j t (by simpa [answered, List.getElem?_set_ne hij] using hj) hlen
    · intro e h
      simp only [answered, List.length_set]
      rcases List.mem_append.mp h with h | h
      · exact hs.spawned e h
      · rw [List.mem_singleton.mp h]
        show i < s.threads.length
        omega
    · intro e h hlen
      simp only [answered, List.length_set] at hlen
      have hei : e.thread = i := by omega
      rw [hei]
      exact lastThread_append ..
  · rw [he]
    have hi := last_of_call hs ht
    constructor
    · intro j t hj hlen
      simp only [List.length_set] at hlen
      have hij : i ≠ j := by omega
      exact hs.ended j t (by simpa [List.getElem?_set_ne hij] using hj) hlen
    · exact fun e h => by simpa using hs.spawned e h
    · exact fun e h hlen => hs.last e h (by simpa using hlen)
  · rw [he]
    exact ⟨hs.ended, hs.spawned, hs.last⟩
  · rwa [he]

theorem meets_inTurn (ls : List (Label Q X D)) (s : State C R E A W Q) (hs : InTurn s)
    (hl : Meets S Serial ls s) : Meets S (fun s _ => InTurn s) ls s := by
  induction ls generalizing s with
  | nil => trivial
  | cons l ls ih => exact ⟨hs, ih _ (inTurn_step s l hs hl.1) hl.2⟩

theorem turn_of_upcoming {s : State C R E A W Q} (hs : InTurn s) {i : ℕ} {r : Q × C}
    (h : upcoming s i = some r) :
    (∀ e ∈ s.history, e.thread ≠ i) ∨ lastThread s.history = some i := by
  unfold upcoming at h
  split at h
  case h_1 q c next ht =>
    have hi := last_of_call hs ht
    by_cases he : ∃ e ∈ s.history, e.thread = i
    · obtain ⟨e, he, rfl⟩ := he
      exact Or.inr (hs.last e he hi)
    · exact Or.inl (fun e h hei => he ⟨e, h, hei⟩)
  case h_2 => cases h

/-! ## Threads that have returned -/

theorem thread_of_returned {s : State C R E A W Q} {i : ℕ} {q : Q} {a : A}
    (h : returned s i = some (q, a)) : s.threads[i]? = some ⟨q, .done a⟩ := by
  unfold returned at h
  split at h
  case h_1 q' a' ht =>
    simp only [Option.some.injEq, Prod.mk.injEq] at h
    obtain ⟨rfl, rfl⟩ := h
    exact ht
  case h_2 => cases h

theorem ne_of_returned {s : State C R E A W Q} {i k : ℕ} {q : Q} {a : A} {r : Q × C}
    (h : returned s k = some (q, a)) (hi : upcoming s i = some r) : i ≠ k := by
  rintro rfl
  simp [upcoming, thread_of_returned h] at hi

theorem returned_step (s : State C R E A W Q) (l : Label Q X D) (k : ℕ) (q : Q) (a : A)
    (h : returned s k = some (q, a)) : returned (step S s l) k = some (q, a) := by
  have ht := thread_of_returned h
  have hk : k < s.threads.length := (List.getElem?_eq_some_iff.mp ht).1
  have keep : ∀ (i : ℕ) (t : Thread C R E A Q) (q' : Q) (c : C)
      (next : Except E (R c) → Program C R E A), s.threads[i]? = some ⟨q', .call c next⟩ →
      (s.threads.set i t)[k]? = some ⟨q, .done a⟩ := by
    intro i t q' c next hi
    have hik : i ≠ k := by
      rintro rfl
      rw [ht] at hi
      cases hi
    rw [List.getElem?_set_ne hik, ht]
  rcases step_cases (S := S) s l with ⟨q', -, he⟩ | ⟨i, x, q', c, next, reply, w, -, hi, -, he⟩ |
    ⟨i, q', c, next, p, -, hi, -, he⟩ | ⟨d, -, he⟩ | he
  · rw [he]
    simp only [returned, spawned, List.getElem?_append_left hk, ht]
  · rw [he]
    simp only [returned, answered, keep i _ q' c next hi]
  · rw [he]
    simp only [returned, keep i _ q' c next hi]
  · rw [he]
    exact h
  · rw [he]
    exact h

theorem meets_returned (ls : List (Label Q X D)) (s : State C R E A W Q) (k : ℕ) (q : Q) (a : A)
    (h : returned s k = some (q, a)) :
    Meets S (fun s _ => returned s k = some (q, a)) ls s := by
  induction ls generalizing s with
  | nil => trivial
  | cons l ls ih => exact ⟨h, ih _ (returned_step s l k q a h)⟩

/-! ## Order of events -/

/-- Some entry meeting the first test stands before one meeting the second. -/
def precedes {T : Type} (p q : T → Bool) : List T → Bool
  | [] => false
  | e::h => (p e && h.any q) || precedes p q h

theorem precedes_append {T : Type} (p q : T → Bool) (h : List T) (e : T) :
    precedes p q (h ++ [e]) = (precedes p q h || (h.any p && q e)) := by
  induction h with
  | nil => simp [precedes]
  | cons x h ih =>
    simp only [List.cons_append, precedes, ih, List.any_append, List.any_cons, List.any_nil,
      Bool.or_false, Bool.and_or_distrib_left, Bool.and_or_distrib_right]
    ac_rfl

/-! ## Contracts -/

/-- The protocol each thread keeps and what its ghost state tells when it ends. -/
structure Contract (C : Type) (R : C → Type) (E A Q G : Type) where
  start : G
  protocol : ℕ → Q → Protocol C R E G
  post : Q → G → Except E A → Prop

/-- Where the automaton of a thread stands after its part of the history. -/
def ghost (K : Contract C R E A Q G) (h : List (Event C R E Q)) (i : ℕ) : G :=
  h.foldl (fun g e => if e.thread = i then
    (K.protocol e.thread e.request).next g e.command e.reply else g) K.start

variable {K : Contract C R E A Q G}

@[simp] theorem ghost_nil (i : ℕ) : ghost K [] i = K.start := rfl

theorem ghost_append (h : List (Event C R E Q)) (e : Event C R E Q) :
    ghost K (h ++ [e]) = Function.update (ghost K h) e.thread
      ((K.protocol e.thread e.request).next (ghost K h e.thread) e.command e.reply) := by
  funext i
  by_cases hi : e.thread = i
  · subst hi
    simp [ghost, List.foldl_append]
  · simp [ghost, List.foldl_append, hi, Function.update_of_ne (Ne.symm hi)]

theorem ghost_unspawned (h : List (Event C R E Q)) (i : ℕ) (hi : ∀ e ∈ h, e.thread ≠ i) :
    ghost K h i = K.start := by
  induction h using List.reverseRecOn with
  | nil => rfl
  | append_singleton h e ih =>
    rw [ghost_append, Function.update_of_ne (Ne.symm (hi e (by simp)))]
    exact ih (fun e' he => hi e' (by simp [he]))

structure Following (K : Contract C R E A Q G) (s : State C R E A W Q) : Prop where
  follows : ∀ i t, s.threads[i]? = some t →
    Keeps (K.protocol i t.request) t.rest (ghost K s.history i) (K.post t.request)
  spawned : ∀ e ∈ s.history, e.thread < s.threads.length

theorem following_initial (w : W) : Following K (initial w) where
  follows := by simp [initial]
  spawned := by simp [initial]

/-- The code of every request keeps the contract, and so does what a cancelled
task still runs, at whatever point it was cancelled. -/
structure Obeys (S : System C R E A W X Q D) (K : Contract C R E A Q G) : Prop where
  program : ∀ i q, Keeps (K.protocol i q) (S.program i q) K.start (K.post q)
  cancelled : ∀ i q p, S.cancelled q = some p → ∀ g, Keeps (K.protocol i q) p g (K.post q)

theorem following_step (hS : Obeys S K) (s : State C R E A W Q) (l : Label Q X D)
    (hs : Following K s) : Following K (step S s l) := by
  rcases step_cases (S := S) s l with ⟨q, -, he⟩ | ⟨i, x, q, c, next, reply, w, -, ht, -, he⟩ |
    ⟨i, q, c, next, p, -, ht, hc, he⟩ | ⟨d, -, he⟩ | he
  · rw [he]
    refine ⟨fun i t hi => ?_, fun e h => ?_⟩
    · rcases Nat.lt_trichotomy i s.threads.length with hlt | heq | hgt
      · exact hs.follows i t (by simpa [spawned, List.getElem?_append_left hlt] using hi)
      · subst heq
        have hq : t = ⟨q, S.program s.threads.length q⟩ := by
          simpa [spawned, eq_comm] using hi
        rw [hq]
        change Keeps _ _ (ghost K s.history _) _
        rw [ghost_unspawned _ _ (fun e h => Nat.ne_of_lt (hs.spawned e h))]
        exact hS.program _ _
      · have hn : (spawned S s q).threads[i]? = none := by
          rw [List.getElem?_eq_none_iff]
          simp only [spawned, List.length_append, List.length_singleton]
          omega
        rw [hn] at hi
        cases hi
    · have := hs.spawned e h
      simp only [spawned, List.length_append, List.length_singleton]
      omega
  · rw [he]
    have hi : i < s.threads.length := (List.getElem?_eq_some_iff.mp ht).1
    refine ⟨fun j t hj => ?_, fun e h => ?_⟩
    · change Keeps _ t.rest (ghost K (s.history ++ [⟨i, q, c, reply⟩]) j) _
      rw [ghost_append]
      by_cases hij : i = j
      · subst hij
        have hq : t = ⟨q, next reply⟩ := by
          simpa [answered, hi, eq_comm] using hj
        subst hq
        rw [Function.update_self]
        exact (hs.follows i _ ht).2 reply
      · rw [Function.update_of_ne (Ne.symm hij)]
        exact hs.follows j t (by simpa [answered, List.getElem?_set_ne hij] using hj)
    · simp only [answered, List.length_set]
      rcases List.mem_append.mp h with h | h
      · exact hs.spawned e h
      · rw [List.mem_singleton.mp h]
        exact hi
  · rw [he]
    have hi : i < s.threads.length := (List.getElem?_eq_some_iff.mp ht).1
    refine ⟨fun j t hj => ?_, fun e h => by simpa using hs.spawned e h⟩
    by_cases hij : i = j
    · subst hij
      have hq : t = ⟨q, p⟩ := by simpa [hi, eq_comm] using hj
      rw [hq]
      exact hS.cancelled i q p hc _
    · exact hs.follows j t (by simpa [List.getElem?_set_ne hij] using hj)
  · rw [he]
    exact ⟨hs.follows, hs.spawned⟩
  · rwa [he]

theorem following_run (hS : Obeys S K) (ls : List (Label Q X D)) (s : State C R E A W Q)
    (hs : Following K s) : Following K (run S ls s) := by
  induction ls generalizing s with
  | nil => exact hs
  | cons l ls ih => exact ih _ (following_step hS s l hs)

theorem meets_following (hS : Obeys S K) (ls : List (Label Q X D)) (s : State C R E A W Q)
    (hs : Following K s) : Meets S (fun s _ => Following K s) ls s := by
  induction ls generalizing s with
  | nil => trivial
  | cons l ls ih => exact ⟨hs, ih _ (following_step hS s l hs)⟩

theorem post_of_returned (s : State C R E A W Q) (hs : Following K s) (i : ℕ) (q : Q) (a : A)
    (h : returned s i = some (q, a)) : K.post q (ghost K s.history i) (.ok a) := by
  exact hs.follows i _ (thread_of_returned h)

/-! ## Invariants -/

/-- What one answered call and one move of the world must preserve. The contract
supplies which calls can be made; `cond` is a condition every step of the run meets. -/
structure Preserved (S : System C R E A W X Q D) (K : Contract C R E A Q G)
    (cond : State C R E A W Q → Label Q X D → Prop)
    (I : W → List (Event C R E Q) → Prop) : Prop where
  call : ∀ (s : State C R E A W Q) i x q c reply w, I s.world s.history →
    upcoming s i = some (q, c) → (K.protocol i q).allows (ghost K s.history i) c →
    S.perform c x s.world = some (reply, w) → cond s (.run i x) →
    I w (s.history ++ [⟨i, q, c, reply⟩])
  pass : ∀ (s : State C R E A W Q) d, I s.world s.history → cond s (.pass d) →
    I (S.pass d s.world) s.history

theorem invariant_step {cond : State C R E A W Q → Label Q X D → Prop}
    {I : W → List (Event C R E Q) → Prop} (hI : Preserved S K cond I)
    (s : State C R E A W Q) (l : Label Q X D) (hs : Following K s)
    (hi : I s.world s.history) (hc : cond s l) :
    I (step S s l).world (step S s l).history := by
  rcases step_cases (S := S) s l with ⟨q, -, he⟩ | ⟨i, x, q, c, next, reply, w, hl, ht, hp, he⟩ |
    ⟨i, q, c, next, p, -, ht, -, he⟩ | ⟨d, hl, he⟩ | he
  · rw [he]
    exact hi
  · rw [he]
    subst hl
    exact hI.call s i x q c reply w hi (upcoming_call s i q c next ht) (hs.follows i _ ht).1 hp hc
  · rw [he]
    exact hi
  · rw [he]
    subst hl
    exact hI.pass s d hi hc
  · rwa [he]

theorem invariant_run {cond : State C R E A W Q → Label Q X D → Prop}
    {I : W → List (Event C R E Q) → Prop} (hS : Obeys S K) (hI : Preserved S K cond I)
    (ls : List (Label Q X D)) (s : State C R E A W Q) (hs : Following K s)
    (hi : I s.world s.history) (hm : Meets S cond ls s) :
    I (run S ls s).world (run S ls s).history := by
  induction ls generalizing s with
  | nil => exact hi
  | cons l ls ih =>
    exact ih _ (following_step hS s l hs) (invariant_step hI s l hs hi hm.1) hm.2

/-- What every state of the invariant meets, every step of the run meets. -/
theorem meets_of_invariant {cond cond' : State C R E A W Q → Label Q X D → Prop}
    {I : W → List (Event C R E Q) → Prop} (hS : Obeys S K) (hI : Preserved S K cond I)
    (h : ∀ s l, Following K s → I s.world s.history → cond s l → cond' s l)
    (ls : List (Label Q X D)) (s : State C R E A W Q) (hs : Following K s)
    (hi : I s.world s.history) (hm : Meets S cond ls s) : Meets S cond' ls s := by
  induction ls generalizing s with
  | nil => trivial
  | cons l ls ih =>
    constructor
    · exact h s l hs hi hm.1
    · exact ih _ (following_step hS s l hs) (invariant_step hI s l hs hi hm.1) hm.2

theorem allowed_of_upcoming {s : State C R E A W Q} (hs : Following K s) {i : ℕ} {q : Q} {c : C}
    (hu : upcoming s i = some (q, c)) : (K.protocol i q).allows (ghost K s.history i) c := by
  unfold upcoming at hu
  split at hu
  case h_1 q' c' next ht =>
    cases hu
    exact (hs.follows i _ ht).1
  case h_2 => cases hu

end Gamely.Interleaving
