import Gamely.Calls
import Mathlib.Data.Nat.Notation

/-!
# Runs that can be cut short

A program run alone may be cancelled before any of its calls; nothing of it runs
after that. A run keeps its answered calls, each with the world it has left, and
`Ends` says what holds wherever the run stops.
-/

set_option autoImplicit false

namespace Gamely.Interrupted
open Gamely.Calls

variable {C : Type} {R : C → Type} {E A B W X : Type}

/-- An answered call and the world after it. -/
structure Made (C : Type) (R : C → Type) (E W : Type) where
  world : W
  call : C
  reply : Except E (R call)

variable (perform : (c : C) → X → W → Option (Except E (R c) × W))

/-- How a run ended, unless it was cut, with the last world and the calls made before. -/
abbrev Stop (C : Type) (R : C → Type) (E A W : Type) :=
  Option (Except E A) × W × List (Made C R E W)

/-- A run whose call number `n` is made with the choice `schedule n`, cancelled before
call number `cut` if it makes one. -/
def runUntil (schedule : ℕ → X) (cut : Option ℕ) :
    ℕ → Program C R E A → W → List (Made C R E W) → Option (Stop C R E A W)
  | _, .done a, w, log => some (some (.ok a), w, log)
  | _, .raised e, w, log => some (some (.error e), w, log)
  | n, .call c next, w, log =>
    if cut = some n then some (none, w, log)
    else match perform c (schedule n) w with
      | some (reply, w') => runUntil schedule cut (n+1) (next reply) w' (log ++ [⟨w', c, reply⟩])
      | none => none

/-- Wherever a run stops, the calls made and the world meet the condition. -/
def Ends : Program C R E A → W → List (Made C R E W) →
    (Option (Except E A) → W → List (Made C R E W) → Prop) → Prop
  | .done a, w, log, post => post (some (.ok a)) w log
  | .raised e, w, log, post => post (some (.error e)) w log
  | .call c next, w, log, post => post none w log ∧
      ∀ x reply w', perform c x w = some (reply, w') →
        Ends (next reply) w' (log ++ [⟨w', c, reply⟩]) post

variable {perform} {w : W} {log : List (Made C R E W)}

theorem post_of_run {p : Program C R E A}
    {post : Option (Except E A) → W → List (Made C R E W) → Prop}
    (h : Ends perform p w log post) {schedule : ℕ → X} {cut : Option ℕ} {n : ℕ}
    {r : Stop C R E A W} (hr : runUntil perform schedule cut n p w log = some r) :
    post r.1 r.2.1 r.2.2 := by
  induction p generalizing n w log with
  | done a =>
    cases hr
    exact h
  | raised e =>
    cases hr
    exact h
  | call c next ih =>
    simp only [runUntil] at hr
    split at hr
    · cases hr
      exact h.1
    · split at hr
      case h_1 reply w' hc => exact ih reply (h.2 _ reply w' hc) hr
      case h_2 => cases hr

theorem ends_mono {p : Program C R E A}
    {post weaker : Option (Except E A) → W → List (Made C R E W) → Prop}
    (h : ∀ r w log, post r w log → weaker r w log) (hp : Ends perform p w log post) :
    Ends perform p w log weaker := by
  induction p generalizing w log with
  | done a => exact h _ _ _ hp
  | raised e => exact h _ _ _ hp
  | call c next ih =>
    constructor
    · exact h _ _ _ hp.1
    · intro x reply w' hc
      exact ih reply (hp.2 x reply w' hc)

theorem ends_invoke {c : C} {post : Option (Except E (R c)) → W → List (Made C R E W) → Prop}
    (hcut : post none w log)
    (h : ∀ x reply w', perform c x w = some (reply, w') →
      post (some reply) w' (log ++ [⟨w', c, reply⟩])) :
    Ends perform (invoke c) w log post := by
  apply And.intro hcut
  intro x reply w' hc
  cases reply <;> exact h x _ w' hc

theorem ends_bind {p : Program C R E A} {f : A → Program C R E B}
    {post : Option (Except E B) → W → List (Made C R E W) → Prop}
    (h : Ends perform p w log (fun r w' log' => match r with
      | none => post none w' log'
      | some (.ok a) => Ends perform (f a) w' log' post
      | some (.error e) => post (some (.error e)) w' log')) :
    Ends perform (p >>= f) w log post := by
  change Ends perform (Calls.bind p f) w log post
  induction p generalizing w log with
  | done a => exact h
  | raised e => exact h
  | call c next ih =>
    constructor
    · exact h.1
    · intro x reply w' hc
      exact ih reply (h.2 x reply w' hc)

theorem ends_tryCatch {p : Program C R E A} {handler : E → Program C R E A}
    {post : Option (Except E A) → W → List (Made C R E W) → Prop}
    (h : Ends perform p w log (fun r w' log' => match r with
      | none => post none w' log'
      | some (.ok a) => post (some (.ok a)) w' log'
      | some (.error e) => Ends perform (handler e) w' log' post)) :
    Ends perform (tryCatchThe E p handler) w log post := by
  change Ends perform (Calls.tryCatch p handler) w log post
  induction p generalizing w log with
  | done a => exact h
  | raised e => exact h
  | call c next ih =>
    constructor
    · exact h.1
    · intro x reply w' hc
      exact ih reply (h.2 x reply w' hc)

/-- What every call of a kind preserves holds wherever a program of such calls stops. -/
theorem ends_of_only {ok : C → Prop} {I : W → List (Made C R E W) → Prop}
    (step : ∀ c x w log reply w', ok c → I w log → perform c x w = some (reply, w') →
      I w' (log ++ [⟨w', c, reply⟩]))
    {p : Program C R E A} (hp : Only ok p) (h : I w log) :
    Ends perform p w log (fun _ w' log' => I w' log') := by
  induction p generalizing w log with
  | done a => exact h
  | raised e => exact h
  | call c next ih =>
    constructor
    · exact h
    · intro x reply w' hc
      exact ih reply (hp.2 reply) (step c x w log reply w' hp.1 h hc)

end Gamely.Interrupted
