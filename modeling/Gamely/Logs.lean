import Gamely.Interleaving

/-!
# Logs

The history of a run says which calls were answered, not when. The log keeps beside
every answered call the world it was made in.
-/

set_option autoImplicit false

namespace Gamely.Logs
open Gamely.Calls Gamely.Interleaving

variable {C : Type} {R : C → Type} {E A W X Q D G : Type}
variable (S : System C R E A W X Q D)

/-- The call a label makes, with the world it is made in. -/
def made (s : State C R E A W Q) : Label Q X D → List (W × Event C R E Q)
  | .run i x => match s.threads[i]? with
    | some ⟨q, .call c _⟩ => match S.perform c x s.world with
      | some (reply, _) => [(s.world, ⟨i, q, c, reply⟩)]
      | none => []
    | _ => []
  | _ => []

def log : List (Label Q X D) → State C R E A W Q → List (W × Event C R E Q)
  | [], _ => []
  | l::ls, s => made S s l ++ log ls (step S s l)

/-- What entry number `n` of a log says. -/
def readAt {T U : Type} (read : T → Option U) (lg : List T) (n : ℕ) : Option U :=
  lg[n]?.bind read

variable {S} {K : Contract C R E A Q G}

theorem lt_of_readAt {T U : Type} {read : T → Option U} {lg : List T} {n : ℕ} {u : U}
    (h : readAt read lg n = some u) : n < lg.length := by
  obtain ⟨x, hx, -⟩ := Option.bind_eq_some_iff.mp h
  exact (List.getElem?_eq_some_iff.mp hx).1

theorem readAt_append {T U : Type} {read : T → Option U} {lg : List T} {x : T} {n : ℕ} {u : U} :
    readAt read (lg ++ [x]) n = some u ↔
      readAt read lg n = some u ∨ n = lg.length ∧ read x = some u := by
  rcases Nat.lt_trichotomy n lg.length with hlt | heq | hgt
  · have hne : n ≠ lg.length := by omega
    simp [readAt, List.getElem?_append_left hlt, hne]
  · subst heq
    simp [readAt]
  · have hnone : (lg ++ [x])[n]? = none := by
      rw [List.getElem?_eq_none_iff, List.length_append, List.length_singleton]
      omega
    have hnone' : lg[n]? = none := List.getElem?_eq_none_iff.mpr (by omega)
    have hne : n ≠ lg.length := by omega
    simp [readAt, hnone, hnone', hne]

theorem made_cases (s : State C R E A W Q) (l : Label Q X D) :
    (∃ i x q c reply w, l = .run i x ∧ upcoming s i = some (q, c) ∧
      S.perform c x s.world = some (reply, w) ∧
      made S s l = [(s.world, ⟨i, q, c, reply⟩)] ∧ (step S s l).world = w ∧
      (step S s l).history = s.history ++ [⟨i, q, c, reply⟩]) ∨
    (∃ d, l = .pass d ∧ made S s l = [] ∧ (step S s l).world = S.pass d s.world ∧
      (step S s l).history = s.history) ∨
    (made S s l = [] ∧ (step S s l).world = s.world ∧ (step S s l).history = s.history) := by
  have stays : ∀ {P₁ P₂ P₃ : Prop}, P₃ → P₁ ∨ P₂ ∨ P₃ := fun h => Or.inr (Or.inr h)
  cases l with
  | spawn q => exact stays ⟨rfl, rfl, rfl⟩
  | pass d => exact Or.inr (Or.inl ⟨d, rfl, rfl, rfl, rfl⟩)
  | cancel i =>
    simp only [made, step]
    split
    · split
      · exact stays ⟨trivial, rfl, rfl⟩
      · exact stays ⟨trivial, rfl, rfl⟩
    · exact stays ⟨trivial, rfl, rfl⟩
  | run i x =>
    rcases ht : s.threads[i]? with _ | ⟨q, p⟩
    · simp only [made, step, ht]
      exact stays ⟨trivial, trivial, trivial⟩
    · cases p with
      | done a =>
        simp only [made, step, ht]
        exact stays ⟨trivial, trivial, trivial⟩
      | raised e =>
        simp only [made, step, ht]
        exact stays ⟨trivial, trivial, trivial⟩
      | call c next =>
        rcases hp : S.perform c x s.world with _ | ⟨reply, w⟩
        · simp only [made, step, ht, hp]
          exact stays ⟨trivial, trivial, trivial⟩
        · refine Or.inl ⟨i, x, q, c, reply, w, rfl, upcoming_call s i q c next ht, hp, ?_⟩
          simp only [made, step, ht, hp, answered]
          exact ⟨trivial, trivial, trivial⟩

/-- What one answered call and one move of the world must preserve. -/
structure Logged (S : System C R E A W X Q D) (K : Contract C R E A Q G)
    (I : W → List (W × Event C R E Q) → Prop) : Prop where
  call : ∀ (s : State C R E A W Q) lg i x q c reply w, s.history = lg.map Prod.snd →
    I s.world lg → upcoming s i = some (q, c) →
    (K.protocol i q).allows (ghost K s.history i) c →
    S.perform c x s.world = some (reply, w) → I w (lg ++ [(s.world, ⟨i, q, c, reply⟩)])
  pass : ∀ (w : W) lg d, I w lg → I (S.pass d w) lg

theorem invariant_log {I : W → List (W × Event C R E Q) → Prop} (hS : Obeys S K)
    (hI : Logged S K I) (ls : List (Label Q X D)) (s : State C R E A W Q)
    (lg : List (W × Event C R E Q)) (hs : Following K s) (hh : s.history = lg.map Prod.snd)
    (hi : I s.world lg) : I (run S ls s).world (lg ++ log S ls s) ∧
      (run S ls s).history = (lg ++ log S ls s).map Prod.snd := by
  induction ls generalizing s lg with
  | nil => exact ⟨by simpa [run, log] using hi, by simpa [run, log] using hh⟩
  | cons l ls ih =>
    have hnext := following_step hS s l hs
    rw [log, ← List.append_assoc]
    apply ih _ _ hnext
    · rcases made_cases (S := S) s l with ⟨i, x, q, c, reply, w, -, -, -, hm, -, hhist⟩ |
        ⟨d, -, hm, -, hhist⟩ | ⟨hm, -, hhist⟩
      · rw [hhist, hm, hh, List.map_append]
        rfl
      · rw [hhist, hm, List.append_nil, hh]
      · rw [hhist, hm, List.append_nil, hh]
    · rcases made_cases (S := S) s l with ⟨i, x, q, c, reply, w, -, hu, hp, hm, hw, -⟩ |
        ⟨d, -, hm, hw, -⟩ | ⟨hm, hw, -⟩
      · rw [hw, hm]
        exact hI.call s lg i x q c reply w hh hi hu (allowed_of_upcoming hs hu) hp
      · rw [hw, hm, List.append_nil]
        exact hI.pass s.world lg d hi
      · rwa [hw, hm, List.append_nil]

end Gamely.Logs
