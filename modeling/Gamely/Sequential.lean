import Gamely.Calls
import Mathlib.Data.Nat.Notation

/-!
# Programs run alone

A program run alone makes its calls one after the other and nothing else moves
the world. `Alone` is total: every call can be answered, and whatever the
answers, the program ends in a result and a world that meet the postcondition.
-/

set_option autoImplicit false

namespace Gamely.Sequential
open Gamely.Calls

variable {C : Type} {R : C → Type} {E A B W X : Type}
variable (perform : (c : C) → X → W → Option (Except E (R c) × W)) (may : X → Prop)

def Alone : Program C R E A → W → (Except E A → W → Prop) → Prop
  | .done a, w, post => post (.ok a) w
  | .raised e, w, post => post (.error e) w
  | .call c next, w, post => (∃ x r, may x ∧ perform c x w = some r) ∧
      ∀ x reply w', may x → perform c x w = some (reply, w') → Alone (next reply) w' post

/-- One run of a program on a list of choices. -/
def play : List X → Program C R E A → W → Option (Except E A × W)
  | _, .done a, w => some (.ok a, w)
  | _, .raised e, w => some (.error e, w)
  | [], .call _ _, _ => none
  | x::xs, .call c next, w => match perform c x w with
    | some (reply, w') => play xs (next reply) w'
    | none => none

variable {perform may}

theorem alone_pure {w : W} {post : Except E A → W → Prop} (a : A) (h : post (.ok a) w) :
    Alone perform may (pure a : Program C R E A) w post := h

theorem alone_throw {w : W} {post : Except E A → W → Prop} (e : E) (h : post (.error e) w) :
    Alone perform may (throw e : Program C R E A) w post := h

theorem alone_ofResult {w : W} {post : Except E A → W → Prop} (r : Except E A) (h : post r w) :
    Alone perform may (ofResult r : Program C R E A) w post := by
  cases r <;> exact h

theorem alone_invoke {c : C} {w : W} {post : Except E (R c) → W → Prop}
    (ha : ∃ x r, may x ∧ perform c x w = some r)
    (h : ∀ x reply w', may x → perform c x w = some (reply, w') → post reply w') :
    Alone perform may (invoke c) w post :=
  ⟨ha, fun x reply w' hx hp => alone_ofResult reply (h x reply w' hx hp)⟩

/-- A call that is answered in one way whatever is chosen. -/
theorem alone_answered {c : C} {w w' : W} {r : Except E (R c)} {post : Except E (R c) → W → Prop}
    (x₀ : X) (hx₀ : may x₀) (hc : ∀ x, may x → perform c x w = some (r, w')) (h : post r w') :
    Alone perform may (invoke c) w post := by
  apply alone_invoke
  · exact ⟨x₀, (r, w'), hx₀, hc x₀ hx₀⟩
  · intro x reply w₁ hx hp
    rw [hc x hx] at hp
    cases hp
    exact h

theorem alone_settled {c : C} {w w' : W} {r : Except E (R c)} {post : Except E (R c) → W → Prop}
    (x₀ : X) (hc : ∀ x, perform c x w = some (r, w')) (h : post r w') :
    Alone perform (fun _ => True) (invoke c) w post :=
  alone_answered x₀ trivial (fun x _ => hc x) h

theorem alone_mono {p : Program C R E A} {w : W} {post weaker : Except E A → W → Prop}
    (h : ∀ r w, post r w → weaker r w) (hp : Alone perform may p w post) :
    Alone perform may p w weaker := by
  induction p generalizing w with
  | done a => exact h _ _ hp
  | raised e => exact h _ _ hp
  | call c next ih => exact ⟨hp.1, fun x reply w' hx hr => ih reply (hp.2 x reply w' hx hr)⟩

theorem alone_bind {p : Program C R E A} {f : A → Program C R E B} {w : W}
    {post : Except E B → W → Prop}
    (h : Alone perform may p w (fun r w' =>
      match r with
      | .ok a => Alone perform may (f a) w' post
      | .error e => post (.error e) w')) :
    Alone perform may (p >>= f) w post := by
  change Alone perform may (Calls.bind p f) w post
  induction p generalizing w with
  | done a => exact h
  | raised e => exact h
  | call c next ih => exact ⟨h.1, fun x reply w' hx hr => ih reply (h.2 x reply w' hx hr)⟩

theorem alone_map {f : A → B} {p : Program C R E A} {w : W} {post : Except E B → W → Prop}
    (h : Alone perform may p w (fun r w' => post (f <$> r) w')) :
    Alone perform may (f <$> p) w post := by
  refine alone_bind (alone_mono ?_ h)
  rintro (e | a) w' hr
  · exact hr
  · exact hr

theorem alone_tryCatch {p : Program C R E A} {handler : E → Program C R E A} {w : W}
    {post : Except E A → W → Prop}
    (h : Alone perform may p w (fun r w' =>
      match r with
      | .ok a => post (.ok a) w'
      | .error e => Alone perform may (handler e) w' post)) :
    Alone perform may (tryCatchThe E p handler) w post := by
  change Alone perform may (Calls.tryCatch p handler) w post
  induction p generalizing w with
  | done a => exact h
  | raised e => exact h
  | call c next ih => exact ⟨h.1, fun x reply w' hx hr => ih reply (h.2 x reply w' hx hr)⟩

/-- A loop that cannot raise, by an invariant of the rounds ahead. -/
theorem alone_forM {Y : Type} (body : Y → Program C R E Unit) (hold : List Y → W → Prop)
    (ys : List Y) (w : W) (hw : hold ys w)
    (hbody : ∀ y ys w, hold (y::ys) w →
      Alone perform may (body y) w (fun r w' => r = .ok () ∧ hold ys w')) :
    Alone perform may (forM ys body) w (fun r w' => r = .ok () ∧ hold [] w') := by
  induction ys generalizing w with
  | nil => exact ⟨rfl, hw⟩
  | cons y ys ih =>
    rw [List.forM_cons]
    refine alone_bind (alone_mono ?_ (hbody y ys w hw))
    rintro r w' ⟨rfl, hw'⟩
    exact ih w' hw'

/-- Calls of a kind that can always be answered and preserve an invariant end, and with
it preserved. -/
theorem alone_of_only {ok : C → Prop} {I : W → Prop}
    (answered : ∀ c w, ok c → I w → ∃ x r, may x ∧ perform c x w = some r)
    (step : ∀ c x w r w', ok c → may x → I w → perform c x w = some (r, w') → I w')
    {p : Program C R E A} (hp : Only ok p) {w : W} (hw : I w) :
    Alone perform may p w (fun _ w' => I w') := by
  induction p generalizing w with
  | done a => exact hw
  | raised e => exact hw
  | call c next ih =>
    refine ⟨answered c w hp.1 hw, fun x reply w' hx hr => ?_⟩
    exact ih reply (hp.2 reply) (step c x w reply w' hp.1 hx hw hr)

theorem post_of_play {xs : List X} {p : Program C R E A} {w w' : W} {r : Except E A}
    {post : Except E A → W → Prop} (h : Alone perform may p w post) (hx : ∀ x ∈ xs, may x)
    (hp : play perform xs p w = some (r, w')) : post r w' := by
  induction p generalizing w xs with
  | done a =>
    simp only [play, Option.some.injEq, Prod.mk.injEq] at hp
    obtain ⟨rfl, rfl⟩ := hp
    exact h
  | raised e =>
    simp only [play, Option.some.injEq, Prod.mk.injEq] at hp
    obtain ⟨rfl, rfl⟩ := hp
    exact h
  | call c next ih =>
    cases xs with
    | nil => cases hp
    | cons x xs =>
      rcases hr : perform c x w with _ | ⟨reply, w1⟩
      · simp [play, hr] at hp
      · simp only [play, hr] at hp
        exact ih reply (h.2 x reply w1 (hx x (by simp)) hr) (fun y hy => hx y (by simp [hy])) hp

/-! ## Runs on a schedule -/

variable (perform) in
/-- One run of a program whose call number `n` is made with the choice `schedule n`; it
ends with the number of calls made. -/
def runOn (schedule : ℕ → X) : ℕ → Program C R E A → W → Option (Except E A × W × ℕ)
  | n, .done a, w => some (.ok a, w, n)
  | n, .raised e, w => some (.error e, w, n)
  | n, .call c next, w => match perform c (schedule n) w with
    | some (reply, w') => runOn schedule (n+1) (next reply) w'
    | none => none

section
variable (schedule : ℕ → X) (n : ℕ) (w : W)

theorem runOn_pure (a : A) :
    runOn perform schedule n (pure a : Program C R E A) w = some (.ok a, w, n) := rfl

theorem runOn_ofResult (r : Except E A) :
    runOn perform schedule n (ofResult r : Program C R E A) w = some (r, w, n) := by
  cases r <;> rfl

theorem runOn_invoke (c : C) : runOn perform schedule n (invoke c) w =
    (perform c (schedule n) w).map (fun r => (r.1, r.2, n+1)) := by
  unfold invoke runOn
  cases perform c (schedule n) w with
  | none => rfl
  | some r => exact runOn_ofResult schedule (n+1) r.2 r.1

variable (perform) in
/-- The rest of a run, unless an error ends it. -/
def afterwards (schedule : ℕ → X) (f : A → Program C R E B) :
    Except E A × W × ℕ → Option (Except E B × W × ℕ)
  | (.ok a, w, n) => runOn perform schedule n (f a) w
  | (.error e, w, n) => some (.error e, w, n)

theorem runOn_bind (p : Program C R E A) (f : A → Program C R E B) :
    runOn perform schedule n (p >>= f) w =
      (runOn perform schedule n p w).bind (afterwards perform schedule f) := by
  change runOn perform schedule n (Calls.bind p f) w = _
  induction p generalizing n w with
  | done a => rfl
  | raised e => rfl
  | call c next ih =>
    simp only [Calls.bind, runOn]
    cases perform c (schedule n) w with
    | none => rfl
    | some r => exact ih r.1 (n+1) r.2

variable (perform) in
/-- The handler of an error, if one has ended the run. -/
def recovered (schedule : ℕ → X) (handler : E → Program C R E A) :
    Except E A × W × ℕ → Option (Except E A × W × ℕ)
  | (.ok a, w, n) => some (.ok a, w, n)
  | (.error e, w, n) => runOn perform schedule n (handler e) w

theorem runOn_tryCatch (p : Program C R E A) (handler : E → Program C R E A) :
    runOn perform schedule n (tryCatchThe E p handler) w =
      (runOn perform schedule n p w).bind (recovered perform schedule handler) := by
  change runOn perform schedule n (Calls.tryCatch p handler) w = _
  induction p generalizing n w with
  | done a => rfl
  | raised e => rfl
  | call c next ih =>
    simp only [Calls.tryCatch, runOn]
    cases perform c (schedule n) w with
    | none => rfl
    | some r => exact ih r.1 (n+1) r.2

end

section
variable {schedule : ℕ → X} {n m : ℕ} {w w' : W}

theorem runOn_bind_some {p : Program C R E A} {f : A → Program C R E B} {r : Except E B}
    (h : runOn perform schedule n (p >>= f) w = some (r, w', m)) :
    (∃ e, r = .error e ∧ runOn perform schedule n p w = some (.error e, w', m)) ∨
    ∃ a w₁ k, runOn perform schedule n p w = some (.ok a, w₁, k) ∧
      runOn perform schedule k (f a) w₁ = some (r, w', m) := by
  rw [runOn_bind] at h
  obtain ⟨⟨r₁, w₁, k⟩, hp, hf⟩ := Option.bind_eq_some_iff.mp h
  cases r₁ with
  | ok a => exact Or.inr ⟨a, w₁, k, hp, hf⟩
  | error e =>
    cases hf
    exact Or.inl ⟨e, rfl, hp⟩

theorem runOn_invoke_some {c : C} {r : Except E (R c)}
    (h : runOn perform schedule n (invoke c) w = some (r, w', m)) :
    perform c (schedule n) w = some (r, w') ∧ m = n+1 := by
  rw [runOn_invoke] at h
  obtain ⟨⟨r₁, w₁⟩, hp, he⟩ := Option.map_eq_some_iff.mp h
  cases he
  exact ⟨hp, rfl⟩

theorem runOn_le {p : Program C R E A} {r : Except E A × W × ℕ}
    (h : runOn perform schedule n p w = some r) : n ≤ r.2.2 := by
  induction p generalizing n w with
  | done a =>
    cases h
    exact Nat.le_refl n
  | raised e =>
    cases h
    exact Nat.le_refl n
  | call c next ih =>
    simp only [runOn] at h
    split at h
    case h_1 reply w₁ hc => exact Nat.le_of_succ_le (ih reply h)
    case h_2 => cases h

theorem runOn_preserves {ok : C → Prop} {I : W → Prop}
    (step : ∀ c x w r w', ok c → I w → perform c x w = some (r, w') → I w')
    {p : Program C R E A} (hp : Only ok p) {r : Except E A} (hw : I w)
    (h : runOn perform schedule n p w = some (r, w', m)) : I w' := by
  induction p generalizing n w with
  | done a =>
    cases h
    exact hw
  | raised e =>
    cases h
    exact hw
  | call c next ih =>
    simp only [runOn] at h
    split at h
    case h_1 reply w₁ hc => exact ih reply (hp.2 reply) (step c _ w reply w₁ hp.1 hw hc) h
    case h_2 => cases h

theorem post_of_runOn {p : Program C R E A} {r : Except E A} {post : Except E A → W → Prop}
    (h : Alone perform may p w post) (hx : ∀ k, may (schedule k))
    (hr : runOn perform schedule n p w = some (r, w', m)) : post r w' := by
  induction p generalizing n w with
  | done a =>
    cases hr
    exact h
  | raised e =>
    cases hr
    exact h
  | call c next ih =>
    simp only [runOn] at hr
    split at hr
    case h_1 reply w₁ hc => exact ih reply (h.2 _ reply w₁ (hx n) hc) hr
    case h_2 => cases hr

end

/-! ## Sequences of operations -/

variable {Op O N M : Type}

/-- Operations run one after the other; `execute` promises a postcondition of one. -/
def Sequence (execute : Op → W → (O → W → Prop) → Prop) :
    List Op → W → (List O → W → Prop) → Prop
  | [], w, post => post [] w
  | op::ops, w, post => execute op w (fun o w' => Sequence execute ops w' (fun os => post (o::os)))

theorem sequence_mono {execute : Op → W → (O → W → Prop) → Prop}
    (mono : ∀ op w (post weaker : O → W → Prop), (∀ o w, post o w → weaker o w) →
      execute op w post → execute op w weaker)
    {ops : List Op} {w : W} {post weaker : List O → W → Prop}
    (h : ∀ os w, post os w → weaker os w) (hs : Sequence execute ops w post) :
    Sequence execute ops w weaker := by
  induction ops generalizing w post weaker with
  | nil => exact h [] w hs
  | cons op ops ih =>
    apply mono op w _ _ _ hs
    intro o w' ho
    exact ih (fun os w'' => h (o::os) w'') ho

/-- The outcomes and the last state of a machine run on operations and the names
drawn in each. -/
def trace (step : M → Op → N → O × M) : M → List (Op × N) → List O × M
  | m, [] => ([], m)
  | m, (op, n)::rest =>
    ((step m op n).1 :: (trace step (step m op n).2 rest).1, (trace step (step m op n).2 rest).2)

/-- When every operation does what some step of the machine does, every sequence
does what some run of the machine does. -/
theorem sequence_simulates {execute : Op → W → (O → W → Prop) → Prop}
    {step : M → Op → N → O × M} {rel : M → W → Prop} {valid : Op → Prop}
    (mono : ∀ op w (post weaker : O → W → Prop), (∀ o w, post o w → weaker o w) →
      execute op w post → execute op w weaker)
    (simulates : ∀ op m w, valid op → rel m w →
      execute op w (fun o w' => ∃ n, o = (step m op n).1 ∧ rel (step m op n).2 w'))
    (ops : List Op) (m : M) (w : W) (hv : ∀ op ∈ ops, valid op) (hr : rel m w) :
    Sequence execute ops w (fun os w' => ∃ ns, ns.length = ops.length ∧
      os = (trace step m (ops.zip ns)).1 ∧ rel (trace step m (ops.zip ns)).2 w') := by
  suffices h : ∀ (post : List O → W → Prop), (∀ os w' (ns : List N), ns.length = ops.length →
      os = (trace step m (ops.zip ns)).1 → rel (trace step m (ops.zip ns)).2 w' → post os w') →
      Sequence execute ops w post from
    h _ (fun os w' ns hl ho hr' => ⟨ns, hl, ho, hr'⟩)
  induction ops generalizing m w with
  | nil => exact fun post hpost => hpost [] w [] rfl rfl hr
  | cons op ops ih =>
    intro post hpost
    refine mono op w _ _ ?_ (simulates op m w (hv op (by simp)) hr)
    rintro o w' ⟨n, rfl, hr'⟩
    refine ih _ w' (fun op hop => hv op (by simp [hop])) hr' _ ?_
    rintro os w'' ns hl rfl hr''
    exact hpost _ w'' (n::ns) (by simp [hl]) rfl hr''

/-- Operations that touch nothing a view shows can be left out of a run: the others have
the same outcomes and lead to the same view. -/
theorem trace_filter {V : Type} {step : M → Op → N → O × M} (view : M → V) {about : Op → Bool}
    (other : ∀ op n m, about op = false → view (step m op n).2 = view m)
    (shown : ∀ op n m m', about op = true → view m = view m' →
      (step m op n).1 = (step m' op n).1 ∧ view (step m op n).2 = view (step m' op n).2)
    (xs : List (Op × N)) (m m' : M) (h : view m = view m') :
    ((xs.zip (trace step m xs).1).filter (fun x => about x.1.1)).map Prod.snd =
        (trace step m' (xs.filter (fun x => about x.1))).1 ∧
      view (trace step m xs).2 = view (trace step m' (xs.filter (fun x => about x.1))).2 := by
  induction xs generalizing m m' with
  | nil => exact ⟨rfl, h⟩
  | cons x xs ih =>
    obtain ⟨op, n⟩ := x
    by_cases ha : about op = true
    · obtain ⟨ho, hv⟩ := shown op n m m' ha h
      obtain ⟨hos, hvs⟩ := ih _ _ hv
      simp only [trace, List.zip_cons_cons, List.filter_cons, ha, if_true, List.map_cons]
      exact ⟨congrArg₂ List.cons ho hos, hvs⟩
    · have hf : about op = false := by simpa using ha
      obtain ⟨hos, hvs⟩ := ih (step m op n).2 m' ((other op n m hf).trans h)
      simp only [trace, List.zip_cons_cons, List.filter_cons, hf, Bool.false_eq_true, if_false]
      exact ⟨hos, hvs⟩

end Gamely.Sequential
