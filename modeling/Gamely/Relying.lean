import Gamely.Interleaving

/-!
# Programs that rely on the replies they get

Some of what a program keeps it keeps only while its service answers as expected:
after a reply that was not, nothing is promised. Who runs the program owes the other
half, that each reply of a run is an expected one.
-/

set_option autoImplicit false

namespace Gamely.Relying
open Gamely.Calls Gamely.Interleaving

variable {C : Type} {R : C → Type} {E A B W X Q D G : Type}

/-- Every call is allowed and every end meets the postcondition as long as each reply
so far was an expected one. -/
def Relies (P : Protocol C R E G) (expected : G → (c : C) → Except E (R c) → Prop) :
    Program C R E A → G → (G → Except E A → Prop) → Prop
  | .done a, g, post => post g (.ok a)
  | .raised e, g, post => post g (.error e)
  | .call c next, g, post => P.allows g c ∧ ∀ reply, expected g c reply →
      Relies P expected (next reply) (P.next g c reply) post

variable {P : Protocol C R E G} {expected : G → (c : C) → Except E (R c) → Prop}

theorem relies_ofResult {post : G → Except E A → Prop} (r : Except E A) (g : G)
    (h : post g r) : Relies P expected (ofResult r : Program C R E A) g post := by
  cases r <;> exact h

theorem relies_invoke {c : C} {post : G → Except E (R c) → Prop} {g : G} (ha : P.allows g c)
    (h : ∀ reply, expected g c reply → post (P.next g c reply) reply) :
    Relies P expected (invoke c) g post :=
  ⟨ha, fun reply hr => relies_ofResult reply _ (h reply hr)⟩

theorem relies_mono {post weaker : G → Except E A → Prop} {p : Program C R E A} {g : G}
    (h : ∀ g r, post g r → weaker g r) (hp : Relies P expected p g post) :
    Relies P expected p g weaker := by
  induction p generalizing g with
  | done a => exact h _ _ hp
  | raised e => exact h _ _ hp
  | call c next ih => exact ⟨hp.1, fun reply hr => ih reply (hp.2 reply hr)⟩

/-- What is owed after the first part of a sequence. -/
def Onward (P : Protocol C R E G) (expected : G → (c : C) → Except E (R c) → Prop)
    (f : A → Program C R E B) (post : G → Except E B → Prop) (g : G) : Except E A → Prop
  | .ok a => Relies P expected (f a) g post
  | .error e => post g (.error e)

theorem relies_bind {post : G → Except E B → Prop} {p : Program C R E A}
    {f : A → Program C R E B} {g : G}
    (h : Relies P expected p g (Onward P expected f post)) :
    Relies P expected (p >>= f) g post := by
  change Relies P expected (Calls.bind p f) g post
  induction p generalizing g with
  | done a => exact h
  | raised e => exact h
  | call c next ih => exact ⟨h.1, fun reply hr => ih reply (h.2 reply hr)⟩

theorem relies_map {post : G → Except E B → Prop} {f : A → B} {p : Program C R E A} {g : G}
    (h : Relies P expected p g (fun g' r => post g' (r.map f))) :
    Relies P expected (f <$> p) g post := by
  apply relies_bind
  apply relies_mono _ h
  intro g' r hr
  cases r with
  | ok a => exact hr
  | error e => exact hr

/-- What is owed after the guarded part. -/
def Caught (P : Protocol C R E G) (expected : G → (c : C) → Except E (R c) → Prop)
    (handler : E → Program C R E A) (post : G → Except E A → Prop) (g : G) : Except E A → Prop
  | .ok a => post g (.ok a)
  | .error e => Relies P expected (handler e) g post

theorem relies_tryCatch {post : G → Except E A → Prop} {p : Program C R E A}
    {handler : E → Program C R E A} {g : G}
    (h : Relies P expected p g (Caught P expected handler post)) :
    Relies P expected (tryCatchThe E p handler) g post := by
  change Relies P expected (Calls.tryCatch p handler) g post
  induction p generalizing g with
  | done a => exact h
  | raised e => exact h
  | call c next ih => exact ⟨h.1, fun reply hr => ih reply (h.2 reply hr)⟩

theorem relies_of_keeps {post : G → Except E A → Prop} (p : Program C R E A) (g : G)
    (h : Keeps P p g post) : Relies P expected p g post := by
  induction p generalizing g with
  | done a => exact h
  | raised e => exact h
  | call c next ih => exact ⟨h.1, fun reply _ => ih reply _ (h.2 reply)⟩

/-! ## As a contract -/

/-- The ghost also tells whether every reply so far was an expected one. -/
def relying (P : Protocol C R E G) (expected : G → (c : C) → Except E (R c) → Prop) :
    Protocol C R E (G × Prop) where
  allows := fun g c => g.2 → P.allows g.1 c
  next := fun g c reply => (P.next g.1 c reply, g.2 ∧ expected g.1 c reply)

theorem keeps_disappointed {post : G → Except E A → Prop} (p : Program C R E A) (g : G × Prop)
    (hg : ¬g.2) : Keeps (relying P expected) p g (fun g' r => g'.2 → post g'.1 r) := by
  induction p generalizing g with
  | done a => exact fun h => absurd h hg
  | raised e => exact fun h => absurd h hg
  | call c next ih =>
    exact ⟨fun h => absurd h hg, fun reply => ih reply _ (fun h => hg h.1)⟩

theorem keeps_of_relies {post : G → Except E A → Prop} (p : Program C R E A) (g : G) (h : Prop)
    (hp : Relies P expected p g post) :
    Keeps (relying P expected) p (g, h) (fun g' r => g'.2 → post g'.1 r) := by
  induction p generalizing g h with
  | done a => exact fun _ => hp
  | raised e => exact fun _ => hp
  | call c next ih =>
    refine ⟨fun _ => hp.1, fun reply => ?_⟩
    by_cases hr : expected g c reply
    · exact ih reply _ _ (hp.2 reply hr)
    · exact keeps_disappointed _ _ (fun hn => hr hn.2)

/-- The contract of programs of which each relies on its replies. -/
def reliance (K : Contract C R E A Q G)
    (expected : ℕ → Q → G → (c : C) → Except E (R c) → Prop) :
    Contract C R E A Q (G × Prop) where
  start := (K.start, True)
  protocol := fun i q => relying (K.protocol i q) (expected i q)
  post := fun q g r => g.2 → K.post q g.1 r

variable {S : System C R E A W X Q D} {K : Contract C R E A Q G}
  {expects : ℕ → Q → G → (c : C) → Except E (R c) → Prop}

theorem obeys_reliance
    (program : ∀ i q, Relies (K.protocol i q) (expects i q) (S.program i q) K.start (K.post q))
    (cancelled : ∀ i q p, S.cancelled q = some p → ∀ g,
      Relies (K.protocol i q) (expects i q) p g (K.post q)) : Obeys S (reliance K expects) where
  program := fun i q => keeps_of_relies _ _ _ (program i q)
  cancelled := fun i q p hp g => keeps_of_relies p g.1 g.2 (cancelled i q p hp g.1)

/-- An invariant of the world and the ghosts under which every allowed call is answered
as expected. -/
structure Sustained (S : System C R E A W X Q D) (K : Contract C R E A Q G)
    (expects : ℕ → Q → G → (c : C) → Except E (R c) → Prop)
    (cond : State C R E A W Q → Label Q X D → Prop) (J : W → (ℕ → G) → Prop) : Prop where
  call : ∀ (s : State C R E A W Q) i x q c reply w hand, J s.world hand →
    upcoming s i = some (q, c) → (K.protocol i q).allows (hand i) c →
    S.perform c x s.world = some (reply, w) → cond s (.run i x) →
    expects i q (hand i) c reply ∧
      J w (Function.update hand i ((K.protocol i q).next (hand i) c reply))
  pass : ∀ (s : State C R E A W Q) d hand, J s.world hand → cond s (.pass d) →
    J (S.pass d s.world) hand

/-- What the ghosts of a history hold, each without the mark of its replies. -/
def hands (K : Contract C R E A Q G) (expects : ℕ → Q → G → (c : C) → Except E (R c) → Prop)
    (h : List (Event C R E Q)) (i : ℕ) : G := (ghost (reliance K expects) h i).1

theorem hands_append (h : List (Event C R E Q)) (e : Event C R E Q) :
    hands K expects (h ++ [e]) = Function.update (hands K expects h) e.thread
      ((K.protocol e.thread e.request).next (hands K expects h e.thread) e.command e.reply) := by
  funext i
  rw [hands, ghost_append]
  by_cases hi : i = e.thread
  · subst hi
    simp [hands, reliance, relying]
  · simp [hands, Function.update_of_ne hi]

theorem sustained_preserved {cond : State C R E A W Q → Label Q X D → Prop}
    {J : W → (ℕ → G) → Prop} (h : Sustained S K expects cond J) :
    Preserved S (reliance K expects) cond (fun w past =>
      (∀ i, (ghost (reliance K expects) past i).2) ∧ J w (hands K expects past)) where
  call := by
    rintro s i x q c reply w ⟨hkept, hj⟩ hu ha hp hc
    obtain ⟨hexpected, hj'⟩ :=
      h.call s i x q c reply w (hands K expects s.history) hj hu (ha (hkept i)) hp hc
    rw [hands_append]
    refine ⟨fun k => ?_, hj'⟩
    rw [ghost_append]
    by_cases hk : k = i
    · subst hk
      rw [Function.update_self]
      exact ⟨hkept k, hexpected⟩
    · rw [Function.update_of_ne hk]
      exact hkept k
  pass := fun s d ⟨hkept, hj⟩ hc => ⟨hkept, h.pass s d _ hj hc⟩

/-- How a request ended that has ended. -/
def endedWith (s : State C R E A W Q) (i : ℕ) : Option (Q × Except E A) :=
  match s.threads[i]? with
  | some ⟨q, .done a⟩ => some (q, .ok a)
  | some ⟨q, .raised e⟩ => some (q, .error e)
  | _ => none

theorem post_of_endedWith {s : State C R E A W Q} (hs : Following K s) {i : ℕ} {q : Q}
    {r : Except E A} (h : endedWith s i = some (q, r)) : K.post q (ghost K s.history i) r := by
  unfold endedWith at h
  split at h
  case h_1 q' a ht =>
    cases h
    exact hs.follows i _ ht
  case h_2 q' e ht =>
    cases h
    exact hs.follows i _ ht
  case h_3 => cases h

theorem request_of_endedWith {s : State C R E A W Q} {i : ℕ} {q : Q} {r : Except E A}
    (h : endedWith s i = some (q, r)) : ∃ t ∈ s.threads, t.request = q := by
  unfold endedWith at h
  split at h
  case h_1 q' a ht =>
    cases h
    exact ⟨_, List.mem_of_getElem? ht, rfl⟩
  case h_2 q' e ht =>
    cases h
    exact ⟨_, List.mem_of_getElem? ht, rfl⟩
  case h_3 => cases h

/-- In a run that sustains what its programs rely on, the invariant holds and every
request that has ended meets its postcondition. -/
theorem reliance_run {cond : State C R E A W Q → Label Q X D → Prop} {J : W → (ℕ → G) → Prop}
    (hS : Obeys S (reliance K expects)) (hJ : Sustained S K expects cond J)
    (ls : List (Label Q X D)) (w : W) (hw : J w (fun _ => K.start))
    (hm : Meets S cond ls (initial w)) :
    J (run S ls (initial w)).world (hands K expects (run S ls (initial w)).history) ∧
      ∀ i q r, endedWith (run S ls (initial w)) i = some (q, r) →
        K.post q (hands K expects (run S ls (initial w)).history i) r := by
  obtain ⟨hkept, hj⟩ := invariant_run hS (sustained_preserved hJ) ls (initial w)
    (following_initial w) ⟨fun _ => trivial, hw⟩ hm
  have hfollow := following_run hS ls (initial w) (following_initial w)
  exact ⟨hj, fun i q r h => post_of_endedWith hfollow h (hkept i)⟩

end Gamely.Relying
