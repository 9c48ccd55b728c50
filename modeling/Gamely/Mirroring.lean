import Gamely.Logs
import Gamely.Replays

/-!
# Services that do what another does

A program mirrors another when it makes the same calls with the same replies, apart from
quiet calls of its own, which change nothing. Where each program of one service mirrors one
of another, every run of the first is a run of the second: the worlds are equal, and the
histories differ in quiet calls only.
-/

set_option autoImplicit false

namespace Gamely.Mirroring
open Gamely.Calls Gamely.Interleaving Gamely.Pasts Gamely.Replays

variable {C : Type} {R : C → Type} {E A B F W X P Q D : Type}

/-! ## Programs -/

theorem bind_done (p : Program C R E A) : Calls.bind p .done = p := by
  induction p with
  | done a => rfl
  | raised e => rfl
  | call c next ih => exact congrArg (Program.call c) (funext (fun reply => ih reply))

theorem bind_bind (p : Program C R E A) (f : A → Program C R E B) (g : B → Program C R E F) :
    Calls.bind (Calls.bind p f) g = Calls.bind p (fun a => Calls.bind (f a) g) := by
  induction p with
  | done a => rfl
  | raised e => rfl
  | call c next ih => exact congrArg (Program.call c) (funext (fun reply => ih reply))

scoped instance : LawfulMonad (Program C R E) :=
  LawfulMonad.mk' _ bind_done (fun _ _ => rfl) bind_bind

/-- What `ends` says of the calls made, of a result and of what is then left of the mirrored
program. -/
def Mirrors (quiet : C → Prop) (ends : List (Step C R E) → Except E A → Program C R E B → Prop)
    (made : List (Step C R E)) : Program C R E A → Program C R E B → Prop
  | .done a, q => ends made (.ok a) q
  | .raised e, q => ends made (.error e) q
  | .call c next, q =>
    (quiet c ∧ ∀ reply, Mirrors quiet ends (made ++ [⟨c, reply⟩]) (next reply) q) ∨
      ∃ next', q = .call c next' ∧
        ∀ reply, Mirrors quiet ends (made ++ [⟨c, reply⟩]) (next reply) (next' reply)

/-- A program and what is done with its result, be it an error. -/
def settle : Program C R E A → (Except E A → Program C R E B) → Program C R E B
  | .done a, f => f (.ok a)
  | .raised e, f => f (.error e)
  | .call c next, f => .call c (fun reply => settle (next reply) f)

/-- What follows a result that an error skips. -/
def onward (f : A → Program C R E B) : Except E A → Program C R E B
  | .ok a => f a
  | .error e => .raised e

def guarded (handler : E → Program C R E A) : Except E A → Program C R E A
  | .ok a => .done a
  | .error e => handler e

theorem bind_settle (p : Program C R E A) (f : A → Program C R E B) :
    p >>= f = settle p (onward f) := by
  change Calls.bind p f = _
  induction p with
  | done a => rfl
  | raised e => rfl
  | call c next ih => exact congrArg (Program.call c) (funext (fun reply => ih reply))

theorem map_settle (f : A → B) (p : Program C R E A) :
    f <$> p = settle p (onward (fun a => .done (f a))) := bind_settle p _

theorem tryCatch_settle (p : Program C R E A) (handler : E → Program C R E A) :
    tryCatchThe E p handler = settle p (guarded handler) := by
  change Calls.tryCatch p handler = _
  induction p with
  | done a => rfl
  | raised e => rfl
  | call c next ih => exact congrArg (Program.call c) (funext (fun reply => ih reply))

theorem settle_settle (p : Program C R E A) (f : Except E A → Program C R E B)
    (g : Except E B → Program C R E F) :
    settle (settle p f) g = settle p (fun r => settle (f r) g) := by
  induction p with
  | done a => rfl
  | raised e => rfl
  | call c next ih => exact congrArg (Program.call c) (funext (fun reply => ih reply))

theorem settle_onward (p : Program C R E A) (f : A → Program C R E B) (g : B → Program C R E F) :
    settle (settle p (onward f)) (onward g) =
      settle p (onward (fun a => settle (f a) (onward g))) := by
  rw [settle_settle]
  congr 1
  funext r
  cases r with
  | ok a => rfl
  | error e => rfl

theorem keeps_settle {G : Type} {K : Protocol C R E G} (p : Program C R E A)
    (f : Except E A → Program C R E B) (g : G) (post : G → Except E B → Prop) :
    Keeps K (settle p f) g post ↔ Keeps K p g (fun g' r => Keeps K (f r) g' post) := by
  induction p generalizing g with
  | done a => exact Iff.rfl
  | raised e => exact Iff.rfl
  | call c next ih =>
    exact and_congr_right (fun _ => forall_congr' (fun reply => ih reply _))

section
variable {quiet : C → Prop} {ends : List (Step C R E) → Except E A → Program C R E B → Prop}
  {made : List (Step C R E)}

theorem mirrors_quiet {c : C} {next : Except E (R c) → Program C R E A} {q : Program C R E B}
    (hc : quiet c)
    (h : ∀ reply, Mirrors quiet ends (made ++ [⟨c, reply⟩]) (next reply) q) :
    Mirrors quiet ends made (.call c next) q := Or.inl ⟨hc, h⟩

theorem mirrors_call {c : C} {next : Except E (R c) → Program C R E A}
    {next' : Except E (R c) → Program C R E B}
    (h : ∀ reply, Mirrors quiet ends (made ++ [⟨c, reply⟩]) (next reply) (next' reply)) :
    Mirrors quiet ends made (.call c next) (.call c next') := Or.inr ⟨next', rfl, h⟩

theorem mirrors_settle (p : Program C R E F) {f : Except E F → Program C R E A}
    {g : Except E F → Program C R E B}
    (h : ∀ es r, Returns p es r → Mirrors quiet ends (made ++ es) (f r) (g r)) :
    Mirrors quiet ends made (settle p f) (settle p g) := by
  induction p generalizing made with
  | done a => simpa [settle] using h [] (.ok a) ⟨rfl, rfl⟩
  | raised e => simpa [settle] using h [] (.error e) ⟨rfl, rfl⟩
  | call c next ih =>
    refine mirrors_call (fun reply => ih reply (fun es r hr => ?_))
    simpa using h (⟨c, reply⟩ :: es) r ⟨reply, es, rfl, hr⟩

theorem mirrors_shown (p : Program C R E B) {f : Except E B → Program C R E A}
    (hdone : ∀ es b, Mirrors quiet ends (made ++ es) (f (.ok b)) (.done b))
    (hraised : ∀ es e, Mirrors quiet ends (made ++ es) (f (.error e)) (.raised e)) :
    Mirrors quiet ends made (settle p f) p := by
  induction p generalizing made with
  | done b => simpa [settle] using hdone [] b
  | raised e => simpa [settle] using hraised [] e
  | call c next ih =>
    refine mirrors_call (fun reply => ih reply (fun es b => ?_) (fun es e => ?_))
    · simpa using hdone (⟨c, reply⟩ :: es) b
    · simpa using hraised (⟨c, reply⟩ :: es) e

theorem mirrors_quietly {p : Program C R E F} (hp : Only quiet p)
    {f : Except E F → Program C R E A} {q : Program C R E B}
    (h : ∀ es r, Returns p es r → Mirrors quiet ends (made ++ es) (f r) q) :
    Mirrors quiet ends made (settle p f) q := by
  induction p generalizing made with
  | done a => simpa [settle] using h [] (.ok a) ⟨rfl, rfl⟩
  | raised e => simpa [settle] using h [] (.error e) ⟨rfl, rfl⟩
  | call c next ih =>
    refine mirrors_quiet hp.1 (fun reply => ih reply (hp.2 reply) (fun es r hr => ?_))
    simpa using h (⟨c, reply⟩ :: es) r ⟨reply, es, rfl, hr⟩

end

/-! ## Runs -/

/-- A label of the one service as one of the other. -/
def heard (asked : P → Q) : Label P X D → Label Q X D
  | .spawn p => .spawn (asked p)
  | .run i x => .run i x
  | .cancel i => .cancel i
  | .pass d => .pass d

def recorded (asked : P → Q) (e : Event C R E P) : Event C R E Q :=
  ⟨e.thread, asked e.request, e.command, e.reply⟩

/-- What the programs, the calls and the world of two services owe each other. -/
structure Mirrored (T : System C R E A W X P D) (S : System C R E B W X Q D) (asked : P → Q)
    (quiet : P → C → Prop)
    (ends : ℕ → P → List (Step C R E) → Except E A → Program C R E B → Prop) : Prop where
  perform : ∀ c x w, T.perform c x w = S.perform c x w
  pass : ∀ d w, T.pass d w = S.pass d w
  program : ∀ i p, Mirrors (quiet p) (ends i p) [] (T.program i p) (S.program i (asked p))
  cancelled : ∀ i p r, T.cancelled p = some r → (∀ c, ¬quiet p c) ∧
    ∃ r', S.cancelled (asked p) = some r' ∧ ∀ made, Mirrors (quiet p) (ends i p) made r r'
  quiet : ∀ p c x w reply w', quiet p c → S.perform c x w = some (reply, w') → w' = w

/-- Two states of which the first is the second with quiet calls in between. -/
structure Mirror (asked : P → Q) (quiet : P → C → Prop)
    (ends : ℕ → P → List (Step C R E) → Except E A → Program C R E B → Prop)
    (t : State C R E A W P) (s : State C R E B W Q) : Prop where
  world : t.world = s.world
  length : t.threads.length = s.threads.length
  spawned : ∀ e ∈ t.history, e.thread < t.threads.length
  threads : ∀ i p r, t.threads[i]? = some ⟨p, r⟩ → ∃ r', s.threads[i]? = some ⟨asked p, r'⟩ ∧
    Mirrors (quiet p) (ends i p) ((calls t.history i).map Step.of) r r'
  thinned : s.history.Sublist (t.history.map (recorded asked))
  loud : ∀ loud : C → Bool, (∀ p c, quiet p c → loud c = false) →
    s.history.filter (fun e => loud e.command) =
      (t.history.map (recorded asked)).filter (fun e => loud e.command)

variable {T : System C R E A W X P D} {S : System C R E B W X Q D} {asked : P → Q}
  {quiet : P → C → Prop}
  {ends : ℕ → P → List (Step C R E) → Except E A → Program C R E B → Prop}
  {t : State C R E A W P} {s : State C R E B W Q}

theorem mirror_initial (w : W) :
    Mirror asked quiet ends (initial w : State C R E A W P) (initial w : State C R E B W Q) where
  world := rfl
  length := rfl
  spawned := by simp [initial]
  threads := by simp [initial]
  thinned := List.Sublist.slnil
  loud := fun _ _ => rfl

theorem mirror_set (hm : Mirror asked quiet ends t s) {h : List (Event C R E P)} {i : ℕ} {p : P}
    {r : Program C R E A} {r' : Program C R E B} (hi : i < t.threads.length)
    (hcalls : ∀ j, j ≠ i → calls h j = calls t.history j)
    (hr : Mirrors (quiet p) (ends i p) ((calls h i).map Step.of) r r')
    (j : ℕ) (p' : P) (u : Program C R E A)
    (hj : (t.threads.set i ⟨p, r⟩)[j]? = some ⟨p', u⟩) :
    ∃ u', (s.threads.set i ⟨asked p, r'⟩)[j]? = some ⟨asked p', u'⟩ ∧
      Mirrors (quiet p') (ends j p') ((calls h j).map Step.of) u u' := by
  by_cases hij : i = j
  · subst hij
    rw [List.getElem?_set_self hi] at hj
    cases hj
    exact ⟨r', List.getElem?_set_self (hm.length ▸ hi), hr⟩
  · rw [List.getElem?_set_ne hij] at hj
    rw [List.getElem?_set_ne hij, hcalls j (Ne.symm hij)]
    exact hm.threads j p' u hj

theorem calls_other (h : List (Event C R E P)) (e : Event C R E P) (j : ℕ) (hj : j ≠ e.thread) :
    calls (h ++ [e]) j = calls h j := by
  rw [calls_append, if_neg (Ne.symm hj)]

theorem calls_self (h : List (Event C R E P)) (e : Event C R E P) :
    (calls (h ++ [e]) e.thread).map Step.of =
      (calls h e.thread).map Step.of ++ [⟨e.command, e.reply⟩] := by
  rw [calls_append, if_pos rfl, List.map_append]
  rfl

theorem spawned_answered {next : Program C R E A} {p : P} {e : Event C R E P}
    (h : ∀ e ∈ t.history, e.thread < t.threads.length) (hi : e.thread < t.threads.length) :
    ∀ e' ∈ t.history ++ [e], e'.thread < (t.threads.set e.thread ⟨p, next⟩).length := by
  intro e' he'
  rw [List.length_set]
  rcases List.mem_append.mp he' with he' | he'
  · exact h e' he'
  · rwa [List.mem_singleton.mp he']

theorem mirror_spawned (hT : Mirrored T S asked quiet ends) (h : Mirror asked quiet ends t s)
    (p : P) : Mirror asked quiet ends (Interleaving.spawned T t p)
      (Interleaving.spawned S s (asked p)) := by
  refine ⟨h.world, ?_, fun e hmem => ?_, fun i p' r hi => ?_, h.thinned, h.loud⟩
  · simp [Interleaving.spawned, h.length]
  · have hlt := h.spawned e hmem
    simp only [Interleaving.spawned, List.length_append]
    omega
  · rcases Nat.lt_trichotomy i t.threads.length with hlt | heq | hgt
    · simp only [Interleaving.spawned, List.getElem?_append_left hlt] at hi
      simp only [Interleaving.spawned, List.getElem?_append_left (h.length ▸ hlt)]
      exact h.threads i p' r hi
    · subst heq
      have hnew : p' = p ∧ r = T.program t.threads.length p := by
        simpa [Interleaving.spawned, eq_comm] using hi
      obtain ⟨rfl, rfl⟩ := hnew
      refine ⟨S.program t.threads.length (asked p'), ?_, ?_⟩
      · simp [Interleaving.spawned, h.length]
      · have hnone : calls t.history t.threads.length = [] :=
          calls_unspawned (fun e hmem => Nat.ne_of_lt (h.spawned e hmem))
        show Mirrors _ _ ((calls t.history _).map Step.of) _ _
        rw [hnone]
        exact hT.program _ _
    · have hnone : (Interleaving.spawned T t p).threads[i]? = none := by
        rw [List.getElem?_eq_none_iff]
        simp only [Interleaving.spawned, List.length_append, List.length_singleton]
        omega
      rw [hnone] at hi
      cases hi

section
variable {i : ℕ} {p : P} {c : C} {reply : Except E (R c)} {w : W}
  {next : Except E (R c) → Program C R E A}

/-- A quiet call is no step of the mirrored service. -/
theorem mirror_quiet (h : Mirror asked quiet ends t s) (hi : i < t.threads.length)
    {q : Program C R E B} (hs : s.threads[i]? = some ⟨asked p, q⟩) (hquiet : quiet p c)
    (hw : w = s.world)
    (hnext : Mirrors (quiet p) (ends i p)
      ((calls t.history i).map Step.of ++ [⟨c, reply⟩]) (next reply) q) :
    Mirror asked quiet ends (answered t i p c next reply w) s := by
  have hcalls := calls_other t.history (⟨i, p, c, reply⟩ : Event C R E P)
  have hself := calls_self t.history (⟨i, p, c, reply⟩ : Event C R E P)
  refine ⟨hw, ?_, ?_, ?_, ?_, ?_⟩
  · simp [answered, h.length]
  · exact spawned_answered (e := ⟨i, p, c, reply⟩) h.spawned hi
  · intro j p' u hj
    have hset := mirror_set h hi hcalls (hself ▸ hnext) j p' u hj
    obtain ⟨hi', hget⟩ := List.getElem?_eq_some_iff.mp hs
    rwa [← hget, List.set_getElem_self hi'] at hset
  · simp only [answered, List.map_append]
    exact h.thinned.trans (List.sublist_append_left _ _)
  · intro loud hloud
    simp only [answered, List.map_append, List.filter_append]
    rw [h.loud loud hloud]
    simp [recorded, hloud p c hquiet]

theorem mirror_answered (h : Mirror asked quiet ends t s) (hi : i < t.threads.length)
    {next' : Except E (R c) → Program C R E B}
    (hnext : Mirrors (quiet p) (ends i p)
      ((calls t.history i).map Step.of ++ [⟨c, reply⟩]) (next reply) (next' reply)) :
    Mirror asked quiet ends (answered t i p c next reply w)
      (answered s i (asked p) c next' reply w) := by
  have hcalls := calls_other t.history (⟨i, p, c, reply⟩ : Event C R E P)
  have hself := calls_self t.history (⟨i, p, c, reply⟩ : Event C R E P)
  refine ⟨rfl, ?_, ?_, ?_, ?_, ?_⟩
  · simp [answered, h.length]
  · exact spawned_answered (e := ⟨i, p, c, reply⟩) h.spawned hi
  · exact fun j p' u hj => mirror_set h hi hcalls (hself ▸ hnext) j p' u hj
  · simp only [answered, List.map_append]
    exact h.thinned.append (List.Sublist.refl _)
  · intro loud hloud
    simp only [answered, List.map_append, List.filter_append, h.loud loud hloud]
    rfl

end

theorem mirror_cancelled (h : Mirror asked quiet ends t s) {i : ℕ} {p : P}
    {r : Program C R E A} {r' : Program C R E B} (hi : i < t.threads.length)
    (hr : Mirrors (quiet p) (ends i p) ((calls t.history i).map Step.of) r r') :
    Mirror asked quiet ends { t with threads := t.threads.set i ⟨p, r⟩ }
      { s with threads := s.threads.set i ⟨asked p, r'⟩ } := by
  refine ⟨h.world, ?_, ?_, ?_, h.thinned, h.loud⟩
  · simp [h.length]
  · simpa using h.spawned
  · exact fun j p' u hj => mirror_set h hi (fun _ _ => rfl) hr j p' u hj

theorem mirror_step (hT : Mirrored T S asked quiet ends) (h : Mirror asked quiet ends t s)
    (l : Label P X D) : ∃ ms, ms.Sublist [heard asked l] ∧
      Mirror asked quiet ends (step T t l) (run S ms s) := by
  rcases step_cases (S := T) t l with ⟨p, rfl, he⟩ |
    ⟨i, x, p, c, next, reply, w, rfl, ht, hp, he⟩ | ⟨i, p, c, next, r, rfl, ht, hc, he⟩ |
    ⟨d, rfl, he⟩ | he
  · refine ⟨[.spawn (asked p)], List.Sublist.refl _, ?_⟩
    rw [he]
    exact mirror_spawned hT h p
  · have hi : i < t.threads.length := (List.getElem?_eq_some_iff.mp ht).1
    obtain ⟨q, hs, hmirrors⟩ := h.threads i p _ ht
    have hperform : S.perform c x s.world = some (reply, w) := by
      rw [← hT.perform, ← h.world, hp]
    rw [he]
    rcases hmirrors with ⟨hquiet, hnext⟩ | ⟨next', rfl, hnext⟩
    · have hw : w = s.world := hT.quiet p c x s.world reply w hquiet hperform
      exact ⟨[], List.nil_sublist _, mirror_quiet h hi hs hquiet hw (hnext reply)⟩
    · refine ⟨[.run i x], List.Sublist.refl _, ?_⟩
      have hstep : run S [.run i x] s = answered s i (asked p) c next' reply w := by
        simp only [run, step, hs, hperform]
      rw [hstep]
      exact mirror_answered h hi (hnext reply)
  · have hi : i < t.threads.length := (List.getElem?_eq_some_iff.mp ht).1
    obtain ⟨q, hs, hmirrors⟩ := h.threads i p _ ht
    obtain ⟨hloud, r', hc', hr⟩ := hT.cancelled i p r hc
    rcases hmirrors with ⟨hquiet, -⟩ | ⟨next', rfl, -⟩
    · exact absurd hquiet (hloud c)
    · refine ⟨[.cancel i], List.Sublist.refl _, ?_⟩
      have hstep : run S [.cancel i] s =
          { s with threads := s.threads.set i ⟨asked p, r'⟩ } := by
        simp only [run, step, hs, hc']
      rw [he, hstep]
      exact mirror_cancelled h hi (hr _)
  · refine ⟨[.pass d], List.Sublist.refl _, ?_⟩
    rw [he]
    refine ⟨?_, h.length, h.spawned, h.threads, h.thinned, h.loud⟩
    simp only [run, step, hT.pass, h.world]
  · refine ⟨[], List.nil_sublist _, ?_⟩
    rw [he]
    exact h

/-- Every run of the first service is a run of the second. -/
theorem mirror_run (hT : Mirrored T S asked quiet ends) (ls : List (Label P X D))
    (h : Mirror asked quiet ends t s) : ∃ ms, ms.Sublist (ls.map (heard asked)) ∧
      Mirror asked quiet ends (run T ls t) (run S ms s) := by
  induction ls generalizing t s with
  | nil => exact ⟨[], List.Sublist.slnil, h⟩
  | cons l ls ih =>
    obtain ⟨ms, hms, hstep⟩ := mirror_step hT h l
    obtain ⟨ns, hns, hrun⟩ := ih hstep
    refine ⟨ms ++ ns, hms.append hns, ?_⟩
    rwa [run_append]

end Gamely.Mirroring
