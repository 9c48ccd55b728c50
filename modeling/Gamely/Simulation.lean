import Gamely.Relying

/-!
# Two services that cannot be told apart

The same programs run over two kinds of world. When every call they make is answered alike
in related worlds, a run over the one is a run over the other: the threads and the history
agree, and the worlds stay related.
-/

set_option autoImplicit false

namespace Gamely.Simulation
open Gamely.Calls Gamely.Interleaving

variable {C : Type} {R : C → Type} {E A W V X Q D G : Type}

/-- The same threads with the same past, over related worlds. -/
structure Alike (rel : V → W → Prop) (t : State C R E A V Q) (s : State C R E A W Q) : Prop where
  world : rel t.world s.world
  threads : t.threads = s.threads
  history : t.history = s.history

/-- Both refuse a call, or both give it the same reply and stay related. -/
def Answered (rel : V → W → Prop) {c : C} :
    Option (Except E (R c) × V) → Option (Except E (R c) × W) → Prop :=
  Option.Rel (fun a b => a.1 = b.1 ∧ rel a.2 b.2)

/-- What the calls and the moves of the two worlds owe each other. The condition is on a run
of the first system; the invariant and the contract are the second one's. -/
structure Matched (T : System C R E A V X Q D) (S : System C R E A W X Q D)
    (K : Contract C R E A Q G) (rel : V → W → Prop) (I : W → List (Event C R E Q) → Prop)
    (cond : State C R E A V Q → Label Q X D → Prop)
    (cond' : State C R E A W Q → Label Q X D → Prop) : Prop where
  program : T.program = S.program
  cancelled : T.cancelled = S.cancelled
  carried : ∀ t s l, Alike rel t s → cond t l → cond' s l
  call : ∀ (t : State C R E A V Q) (s : State C R E A W Q) i x q c, rel t.world s.world →
    I s.world s.history → upcoming s i = some (q, c) →
    (K.protocol i q).allows (ghost K s.history i) c → cond' s (.run i x) →
    Answered rel (T.perform c x t.world) (S.perform c x s.world)
  pass : ∀ (t : State C R E A V Q) (s : State C R E A W Q) d, rel t.world s.world →
    I s.world s.history → cond' s (.pass d) → rel (T.pass d t.world) (S.pass d s.world)

variable {T : System C R E A V X Q D} {S : System C R E A W X Q D} {K : Contract C R E A Q G}
  {rel : V → W → Prop} {I : W → List (Event C R E Q) → Prop}
  {cond : State C R E A V Q → Label Q X D → Prop}
  {cond' : State C R E A W Q → Label Q X D → Prop}

theorem alike_upcoming {t : State C R E A V Q} {s : State C R E A W Q} (h : Alike rel t s)
    (i : ℕ) : upcoming t i = upcoming s i := by
  simp only [upcoming, h.threads]

theorem alike_step (hT : Matched T S K rel I cond cond') {t : State C R E A V Q}
    {s : State C R E A W Q} (l : Label Q X D) (h : Alike rel t s) (hs : Following K s)
    (hi : I s.world s.history) (hl : cond t l) : Alike rel (step T t l) (step S s l) := by
  have hl' := hT.carried t s l h hl
  obtain ⟨hworld, hthreads, hhistory⟩ := h
  cases l with
  | spawn q =>
    refine ⟨hworld, ?_, hhistory⟩
    simp only [step, spawned, hthreads, hT.program]
  | pass d => exact ⟨hT.pass t s d hworld hi hl', hthreads, hhistory⟩
  | cancel i =>
    simp only [step, hthreads, hT.cancelled]
    split
    · split
      · exact ⟨hworld, rfl, hhistory⟩
      · exact ⟨hworld, hthreads, hhistory⟩
    · exact ⟨hworld, hthreads, hhistory⟩
  | run i x =>
    simp only [step, hthreads]
    split
    case h_2 => exact ⟨hworld, hthreads, hhistory⟩
    case h_1 q c next ht =>
      have hu := upcoming_call s i q c next ht
      have hc := hT.call t s i x q c hworld hi hu (allowed_of_upcoming hs hu) hl'
      rcases hv : T.perform c x t.world with _ | ⟨reply, v⟩
      · rcases hw : S.perform c x s.world with _ | r
        · exact ⟨hworld, hthreads, hhistory⟩
        · rw [hv, hw] at hc
          cases hc
      · rcases hw : S.perform c x s.world with _ | ⟨reply', w⟩
        · rw [hv, hw] at hc
          cases hc
        · rw [hv, hw] at hc
          obtain ⟨heq, hrel⟩ : reply = reply' ∧ rel v w := by
            cases hc with
            | some h => exact h
          subst heq
          refine ⟨hrel, ?_, ?_⟩
          · simp only [answered, hthreads]
          · simp only [answered, hhistory]

/-- A run of the first system is a run of the second. -/
theorem alike_run (hT : Matched T S K rel I cond cond') (hS : Obeys S K)
    (hI : Preserved S K cond' I) (ls : List (Label Q X D)) {t : State C R E A V Q}
    {s : State C R E A W Q} (h : Alike rel t s) (hs : Following K s) (hi : I s.world s.history)
    (hm : Meets T cond ls t) : Alike rel (run T ls t) (run S ls s) ∧ Meets S cond' ls s := by
  induction ls generalizing t s with
  | nil => exact ⟨h, trivial⟩
  | cons l ls ih =>
    have hl' := hT.carried t s l h hm.1
    obtain ⟨halike, hmeets⟩ := ih (alike_step hT l h hs hi hm.1) (following_step hS s l hs)
      (invariant_step hI s l hs hi hl') hm.2
    exact ⟨halike, hl', hmeets⟩

theorem meets_everywhere {cond : State C R E A W Q → Label Q X D → Prop} (ls : List (Label Q X D))
    (s : State C R E A W Q) (h : ∀ s, ∀ l ∈ ls, cond s l) : Meets S cond ls s := by
  induction ls generalizing s with
  | nil => trivial
  | cons l ls ih =>
    exact ⟨h s l List.mem_cons_self, ih _ (fun s' l' hl => h s' l' (List.mem_cons_of_mem l hl))⟩

end Gamely.Simulation
