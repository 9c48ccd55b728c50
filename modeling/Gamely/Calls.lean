import Mathlib.Logic.Function.Basic

/-!
# Programs over external calls

A program is a finite tree of calls to services it does not own. A reply is
either a value or an error, and the program chooses what to do with either.
Nothing here fixes what a call does: a service is a separate argument, so one
program text is read sequentially, under faults and inside an interleaving.
-/

set_option autoImplicit false

namespace Gamely.Calls

variable {C : Type} {R : C → Type} {E A B G : Type}

inductive Program (C : Type) (R : C → Type) (E A : Type) where
  | done (result : A)
  | raised (error : E)
  | call (c : C) (next : Except E (R c) → Program C R E A)

def bind : Program C R E A → (A → Program C R E B) → Program C R E B
  | .done a, f => f a
  | .raised e, _ => .raised e
  | .call c next, f => .call c (fun reply => bind (next reply) f)

def tryCatch : Program C R E A → (E → Program C R E A) → Program C R E A
  | .done a, _ => .done a
  | .raised e, h => h e
  | .call c next, h => .call c (fun reply => tryCatch (next reply) h)

def ofResult : Except E A → Program C R E A
  | .ok a => .done a
  | .error e => .raised e

def invoke (c : C) : Program C R E (R c) := .call c ofResult

instance : Monad (Program C R E) where
  pure := .done
  bind := bind

instance : MonadExceptOf E (Program C R E) where
  throw := .raised
  tryCatch := tryCatch

/-! ## Protocols of one program -/

/-- What a program may call next, as an automaton over its own past calls and
replies. The automaton never sees the state of the service. -/
structure Protocol (C : Type) (R : C → Type) (E G : Type) where
  allows : G → C → Prop
  next : G → (c : C) → Except E (R c) → G

variable (P : Protocol C R E G)

/-- Every call is allowed when it is made, whatever the replies were, and every
end of the program meets the postcondition. -/
def Keeps : Program C R E A → G → (G → Except E A → Prop) → Prop
  | .done a, g, post => post g (.ok a)
  | .raised e, g, post => post g (.error e)
  | .call c next, g, post => P.allows g c ∧
      ∀ reply, Keeps (next reply) (P.next g c reply) post

variable {P}

@[simp] theorem keeps_done (a : A) (g : G) (post : G → Except E A → Prop) :
    Keeps P (.done a) g post ↔ post g (.ok a) := Iff.rfl

@[simp] theorem keeps_pure (a : A) (g : G) (post : G → Except E A → Prop) :
    Keeps P (pure a : Program C R E A) g post ↔ post g (.ok a) := Iff.rfl

@[simp] theorem keeps_raised (e : E) (g : G) (post : G → Except E A → Prop) :
    Keeps P (.raised e) g post ↔ post g (.error e) := Iff.rfl

@[simp] theorem keeps_throw (e : E) (g : G) (post : G → Except E A → Prop) :
    Keeps P (throw e : Program C R E A) g post ↔ post g (.error e) := Iff.rfl

@[simp] theorem keeps_ofResult (reply : Except E A) (g : G)
    (post : G → Except E A → Prop) :
    Keeps P (ofResult reply) g post ↔ post g reply := by
  cases reply <;> exact Iff.rfl

@[simp] theorem keeps_invoke (c : C) (g : G)
    (post : G → Except E (R c) → Prop) :
    Keeps P (invoke c) g post ↔
      P.allows g c ∧ ∀ reply, post (P.next g c reply) reply := by
  simp only [invoke, Keeps, keeps_ofResult]

theorem keeps_mono (p : Program C R E A) (g : G)
    {post weaker : G → Except E A → Prop}
    (h : ∀ g r, post g r → weaker g r) (hp : Keeps P p g post) : Keeps P p g weaker := by
  induction p generalizing g with
  | done a => exact h _ _ hp
  | raised e => exact h _ _ hp
  | call c next ih => exact ⟨hp.1, fun reply => ih reply _ (hp.2 reply)⟩

/-- An error of the first part ends the whole, as an uncaught exception does. -/
@[simp] theorem keeps_bind (p : Program C R E A) (f : A → Program C R E B) (g : G)
    (post : G → Except E B → Prop) :
    Keeps P (p >>= f) g post ↔ Keeps P p g (fun g' r =>
      match r with
      | .ok a => Keeps P (f a) g' post
      | .error e => post g' (.error e)) := by
  change Keeps P (bind p f) g post ↔ _
  induction p generalizing g with
  | done a => exact Iff.rfl
  | raised e => exact Iff.rfl
  | call c next ih =>
    constructor
    · exact fun h => ⟨h.1, fun reply => (ih reply _).mp (h.2 reply)⟩
    · exact fun h => ⟨h.1, fun reply => (ih reply _).mpr (h.2 reply)⟩

@[simp] theorem keeps_tryCatch (p : Program C R E A) (handler : E → Program C R E A)
    (g : G) (post : G → Except E A → Prop) :
    Keeps P (tryCatchThe E p handler) g post ↔ Keeps P p g (fun g' r =>
      match r with
      | .ok a => post g' (.ok a)
      | .error e => Keeps P (handler e) g' post) := by
  change Keeps P (tryCatch p handler) g post ↔ _
  induction p generalizing g with
  | done a => exact Iff.rfl
  | raised e => exact Iff.rfl
  | call c next ih =>
    constructor
    · exact fun h => ⟨h.1, fun reply => (ih reply _).mp (h.2 reply)⟩
    · exact fun h => ⟨h.1, fun reply => (ih reply _).mpr (h.2 reply)⟩

@[simp] theorem keeps_map (f : A → B) (p : Program C R E A) (g : G)
    (post : G → Except E B → Prop) :
    Keeps P (f <$> p) g post ↔ Keeps P p g (fun g' r =>
      match r with
      | .ok a => post g' (.ok (f a))
      | .error e => post g' (.error e)) :=
  keeps_bind p (fun a => pure (f a)) g post

/-- A loop keeps a protocol when each round leads from the ghost condition on the
rounds ahead to the same condition on one round less. -/
theorem keeps_forM {X : Type} (body : X → Program C R E Unit) (hold : List X → G → Prop)
    (post : G → Except E Unit → Prop) (xs : List X) (g : G) (hg : hold xs g)
    (hend : ∀ g, hold [] g → post g (.ok ()))
    (hbody : ∀ x xs g, hold (x::xs) g → Keeps P (body x) g (fun g' r =>
      match r with
      | .ok _ => hold xs g'
      | .error e => post g' (.error e))) :
    Keeps P (forM xs body) g post := by
  induction xs generalizing g with
  | nil => exact hend g hg
  | cons x xs ih =>
    rw [List.forM_cons, keeps_bind]
    refine keeps_mono _ _ ?_ (hbody x xs g hg)
    intro g' r hr
    cases r with
    | ok a => exact ih g' hr
    | error e => exact hr

/-! ## Results promised on success -/

/-- The program keeps the protocol and, when it ends without an error, its
result meets the postcondition; an error promises nothing. -/
def Ensures (P : Protocol C R E G) (p : Program C R E A) (g : G) (post : G → A → Prop) : Prop :=
  Keeps P p g (fun g' r => ∀ a, r = .ok a → post g' a)

theorem ensures_pure {post : G → A → Prop} (a : A) (g : G) (h : post g a) :
    Ensures P (pure a) g post := by
  rintro _ ⟨⟩
  exact h

theorem ensures_throw {post : G → A → Prop} (e : E) (g : G) : Ensures P (throw e) g post := by
  rintro _ ⟨⟩

theorem ensures_ofResult {post : G → A → Prop} (r : Except E A) (g : G)
    (h : ∀ a, r = .ok a → post g a) : Ensures P (ofResult r) g post :=
  (keeps_ofResult _ _ _).mpr h

theorem ensures_mono {post weaker : G → A → Prop} {p : Program C R E A} {g : G}
    (h : ∀ g a, post g a → weaker g a) (hp : Ensures P p g post) : Ensures P p g weaker :=
  keeps_mono _ _ (fun g _ hr a ha => h g a (hr a ha)) hp

theorem ensures_bind {post : G → B → Prop} {p : Program C R E A} {f : A → Program C R E B}
    {g : G} (h : Ensures P p g (fun g' a => Ensures P (f a) g' post)) :
    Ensures P (p >>= f) g post := by
  refine (keeps_bind _ _ _ _).mpr (keeps_mono _ _ (fun g' r hr => ?_) h)
  cases r with
  | ok a => exact hr a rfl
  | error e =>
    rintro _ ⟨⟩

theorem ensures_map {post : G → B → Prop} {f : A → B} {p : Program C R E A} {g : G}
    (h : Ensures P p g (fun g' a => post g' (f a))) : Ensures P (f <$> p) g post :=
  ensures_bind (ensures_mono (fun g' a ha => ensures_pure (f a) g' ha) h)

theorem ensures_invoke {c : C} {post : G → R c → Prop} {g : G} (ha : P.allows g c)
    (h : ∀ reply, post (P.next g c (.ok reply)) reply) : Ensures P (invoke c) g post := by
  refine (keeps_invoke _ _ _).mpr ⟨ha, ?_⟩
  rintro _ reply rfl
  exact h reply

theorem ensures_tryCatch {post : G → A → Prop} {p : Program C R E A}
    {handler : E → Program C R E A} {g : G} (hp : Ensures P p g post)
    (hh : ∀ e g', Ensures P (handler e) g' post) :
    Ensures P (tryCatchThe E p handler) g post := by
  refine (keeps_tryCatch _ _ _ _).mpr (keeps_mono _ _ (fun g' r hr => ?_) hp)
  cases r with
  | ok a =>
    rintro _ ⟨⟩
    exact hr a rfl
  | error e => exact hh e g'

theorem ensures_forM {X : Type} (body : X → Program C R E Unit) (hold : List X → G → Prop)
    (xs : List X) (g : G) (hg : hold xs g)
    (hbody : ∀ x xs g, hold (x::xs) g → Ensures P (body x) g (fun g' _ => hold xs g')) :
    Ensures P (forM xs body) g (fun g' _ => hold [] g') := by
  refine keeps_forM body hold _ xs g hg (fun g hg _ _ => hg) (fun x xs g hg => ?_)
  refine keeps_mono _ _ (fun g' => ?_) (hbody x xs g hg)
  rintro (e | a) hr
  · rintro _ ⟨⟩
  · exact hr a rfl

/-! ## Programs of one kind of call -/

def kind (ok : C → Prop) : Protocol C R E Unit where
  allows := fun _ c => ok c
  next := fun _ _ _ => ()

/-- Every call the program can make is of one kind. -/
def Only (ok : C → Prop) (p : Program C R E A) : Prop :=
  Keeps (kind ok) p () (fun _ _ => True)

@[simp] theorem kind_allows (ok : C → Prop) (g : Unit) (c : C) :
    (kind ok : Protocol C R E Unit).allows g c = ok c := rfl

theorem only_mono {ok more : C → Prop} (h : ∀ c, ok c → more c) (p : Program C R E A)
    (hp : Only ok p) : Only more p := by
  induction p with
  | done a => trivial
  | raised e => trivial
  | call c next ih => exact ⟨h c hp.1, fun reply => ih reply (hp.2 reply)⟩

theorem only_any (p : Program C R E A) : Only (fun _ => True) p := by
  induction p with
  | done a => trivial
  | raised e => trivial
  | call c next ih => exact ⟨trivial, fun reply => ih reply⟩

section
variable {ok : C → Prop}

theorem only_pure (a : A) : Only ok (pure a : Program C R E A) := trivial

theorem only_throw (e : E) : Only ok (throw e : Program C R E A) := trivial

theorem only_ofResult (r : Except E A) : Only ok (ofResult r : Program C R E A) := by
  cases r <;> trivial

theorem only_invoke (c : C) (h : ok c) : Only ok (invoke c : Program C R E (R c)) := by
  refine ⟨h, fun reply => ?_⟩
  cases reply <;> trivial

theorem only_bind (p : Program C R E A) (f : A → Program C R E B) (hp : Only ok p)
    (hf : ∀ a, Only ok (f a)) : Only ok (p >>= f) := by
  change Keeps (kind ok) (bind p f) () _
  induction p with
  | done a => exact hf a
  | raised e => trivial
  | call c next ih => exact ⟨hp.1, fun reply => ih reply (hp.2 reply)⟩

theorem only_map (f : A → B) (p : Program C R E A) (hp : Only ok p) : Only ok (f <$> p) :=
  only_bind p _ hp (fun _ => trivial)

theorem only_tryCatch (p : Program C R E A) (handler : E → Program C R E A)
    (hp : Only ok p) (hh : ∀ e, Only ok (handler e)) :
    Only ok (tryCatchThe E p handler) := by
  change Keeps (kind ok) (tryCatch p handler) () _
  induction p with
  | done a => trivial
  | raised e => exact hh e
  | call c next ih => exact ⟨hp.1, fun reply => ih reply (hp.2 reply)⟩

theorem only_forM {X : Type} (xs : List X) (body : X → Program C R E Unit)
    (h : ∀ x, Only ok (body x)) : Only ok (forM xs body) := by
  induction xs with
  | nil => trivial
  | cons x xs ih =>
    rw [List.forM_cons]
    exact only_bind _ _ (h x) (fun _ => ih)

end

/-- What every call of a kind keeps of the ghost holds at the end. -/
theorem keeps_of_kept {ok : C → Prop} (hold : G → Prop) (p : Program C R E A) (hp : Only ok p)
    (g : G) (hg : hold g) (post : G → Except E A → Prop)
    (kept : ∀ c, ok c → ∀ g, hold g → P.allows g c ∧ ∀ reply, hold (P.next g c reply))
    (hpost : ∀ g r, hold g → post g r) : Keeps P p g post := by
  induction p generalizing g with
  | done a => exact hpost g _ hg
  | raised e => exact hpost g _ hg
  | call c next ih =>
    obtain ⟨ha, hn⟩ := kept c hp.1 g hg
    exact ⟨ha, fun reply => ih reply (hp.2 reply) _ (hn reply)⟩

theorem ensures_of_kept {ok : C → Prop} (hold : G → Prop) {p : Program C R E A} (hp : Only ok p)
    {g : G} {post : G → A → Prop} (hg : hold g)
    (kept : ∀ c, ok c → ∀ g, hold g → P.allows g c ∧ ∀ reply, hold (P.next g c reply))
    (hpost : ∀ g a, hold g → post g a) : Ensures P p g post :=
  keeps_of_kept hold p hp g hg _ kept (fun g _ h a _ => hpost g a h)

/-- Calls that a protocol neither restricts nor records leave its ghost alone. -/
theorem keeps_of_only {ok : C → Prop} (p : Program C R E A) (hp : Only ok p) (g : G)
    (post : G → Except E A → Prop)
    (inert : ∀ c, ok c → P.allows g c ∧ ∀ reply, P.next g c reply = g)
    (hpost : ∀ r, post g r) : Keeps P p g post := by
  refine keeps_of_kept (· = g) p hp g rfl post ?_ ?_
  · rintro c hc _ rfl
    exact inert c hc
  · rintro _ r rfl
    exact hpost r

theorem ensures_of_only {ok : C → Prop} {p : Program C R E A} (hp : Only ok p) {g : G}
    {post : G → A → Prop}
    (inert : ∀ c, ok c → P.allows g c ∧ ∀ reply, P.next g c reply = g)
    (hpost : ∀ a, post g a) : Ensures P p g post :=
  keeps_of_only p hp g _ inert (fun _ a _ => hpost a)

end Gamely.Calls
