import Gamely.Relying

/-!
# Programs that need no memory to rely on their replies

Every call is a good one as long as the replies so far were as expected, whatever calls they
were replies to, and a result the program ends with meets a postcondition.
-/

set_option autoImplicit false

namespace Gamely.Trusting
open Gamely.Calls Gamely.Interleaving Gamely.Relying

variable {C : Type} {R : C → Type} {E A B : Type}

def Trusts (ok : C → Prop) (expected : (c : C) → Except E (R c) → Prop) (p : Program C R E A)
    (post : A → Prop) : Prop :=
  Relies (kind ok) (fun _ => expected) p () (fun _ r => ∀ a, r = .ok a → post a)

variable {ok : C → Prop} {expected : (c : C) → Except E (R c) → Prop}

theorem trusts_pure {post : A → Prop} {a : A} (h : post a) :
    Trusts ok expected (pure a : Program C R E A) post := by
  rintro _ ⟨⟩
  exact h

theorem trusts_throw {post : A → Prop} (e : E) :
    Trusts ok expected (throw e : Program C R E A) post := by
  rintro _ ⟨⟩

theorem trusts_ofResult {post : A → Prop} {r : Except E A} (h : ∀ a, r = .ok a → post a) :
    Trusts ok expected (ofResult r : Program C R E A) post :=
  relies_ofResult r () h

theorem trusts_invoke {c : C} {post : R c → Prop} (hc : ok c)
    (h : ∀ a, expected c (.ok a) → post a) : Trusts ok expected (invoke c) post := by
  apply relies_invoke hc
  rintro _ hr a rfl
  exact h a hr

theorem trusts_mono {post weaker : A → Prop} {p : Program C R E A} (h : ∀ a, post a → weaker a)
    (hp : Trusts ok expected p post) : Trusts ok expected p weaker :=
  relies_mono (fun _ _ hr a ha => h a (hr a ha)) hp

theorem trusts_bind {post : B → Prop} {p : Program C R E A} {f : A → Program C R E B}
    (h : Trusts ok expected p (fun a => Trusts ok expected (f a) post)) :
    Trusts ok expected (p >>= f) post := by
  refine relies_bind (relies_mono (fun g r hr => ?_) h)
  cases r with
  | ok a => exact hr a rfl
  | error e =>
    rintro _ ⟨⟩

theorem trusts_map {post : B → Prop} {f : A → B} {p : Program C R E A}
    (h : Trusts ok expected p (fun a => post (f a))) : Trusts ok expected (f <$> p) post :=
  trusts_bind (trusts_mono (fun _ ha => trusts_pure ha) h)

theorem trusts_tryCatch {post : A → Prop} {p : Program C R E A} {handler : E → Program C R E A}
    (hp : Trusts ok expected p post) (hh : ∀ e, Trusts ok expected (handler e) post) :
    Trusts ok expected (tryCatchThe E p handler) post := by
  refine relies_tryCatch (relies_mono (fun g r hr => ?_) hp)
  cases r with
  | ok a =>
    rintro _ ⟨⟩
    exact hr a rfl
  | error e => exact hh e

theorem trusts_forM {X : Type} (xs : List X) (body : X → Program C R E Unit)
    (h : ∀ x, Trusts ok expected (body x) (fun _ => True)) :
    Trusts ok expected (forM xs body) (fun _ => True) := by
  induction xs with
  | nil => exact trusts_pure trivial
  | cons x xs ih =>
    rw [List.forM_cons]
    exact trusts_bind (trusts_mono (fun _ _ => ih) (h x))

theorem trusts_of_only {good : C → Prop} {p : Program C R E A} (hp : Only good p)
    (h : ∀ c, good c → ok c) : Trusts ok expected p (fun _ => True) := by
  have hkeeps : Keeps (kind ok) p () (fun _ _ => True) := only_mono h p hp
  exact relies_of_keeps p () (keeps_mono p () (fun _ _ _ _ _ => trivial) hkeeps)

theorem relies_weaken {more : C → Prop} {post weaker : Unit → Except E A → Prop}
    {p : Program C R E A} (h : ∀ c, ok c → more c) (hpost : ∀ g r, post g r → weaker g r)
    (hp : Relies (kind ok) (fun _ => expected) p () post) :
    Relies (kind more) (fun _ => expected) p () weaker := by
  induction p with
  | done a => exact hpost _ _ hp
  | raised e => exact hpost _ _ hp
  | call c next ih => exact ⟨h c hp.1, fun reply hr => ih reply (hp.2 reply hr)⟩

/-! ## Errors a program can end in -/

/-- A program that ends in no error but an allowed one, as long as its service replies with
no other. -/
def Raises (allowed : E → Prop) (p : Program C R E A) : Prop :=
  Relies (kind (fun _ => True)) (fun _ _ r => ∀ e, r = .error e → allowed e) p ()
    (fun _ r => ∀ e, r = .error e → allowed e)

section
variable {allowed : E → Prop}

theorem raises_pure (a : A) : Raises allowed (pure a : Program C R E A) := by
  rintro _ ⟨⟩

theorem raises_throw {e : E} (h : allowed e) : Raises allowed (throw e : Program C R E A) := by
  rintro _ ⟨⟩
  exact h

theorem raises_ofResult {r : Except E A} (h : ∀ e, r = .error e → allowed e) :
    Raises allowed (ofResult r : Program C R E A) :=
  relies_ofResult r () h

theorem raises_invoke (c : C) : Raises allowed (invoke c : Program C R E (R c)) :=
  relies_invoke trivial (fun _ hr => hr)

theorem raises_bind {p : Program C R E A} {f : A → Program C R E B} (hp : Raises allowed p)
    (hf : ∀ a, Raises allowed (f a)) : Raises allowed (p >>= f) := by
  refine relies_bind (relies_mono (fun g r hr => ?_) hp)
  cases r with
  | ok a => exact hf a
  | error e =>
    rintro _ ⟨⟩
    exact hr e rfl

theorem raises_map {f : A → B} {p : Program C R E A} (hp : Raises allowed p) :
    Raises allowed (f <$> p) :=
  raises_bind hp (fun a => raises_pure (f a))

theorem raises_tryCatch {p : Program C R E A} {handler : E → Program C R E A}
    (hp : Raises allowed p) (hh : ∀ e, allowed e → Raises allowed (handler e)) :
    Raises allowed (tryCatchThe E p handler) := by
  refine relies_tryCatch (relies_mono (fun g r hr => ?_) hp)
  cases r with
  | ok a =>
    rintro _ ⟨⟩
  | error e => exact hh e (hr e rfl)

theorem raises_forM {X : Type} (xs : List X) (body : X → Program C R E Unit)
    (h : ∀ x, Raises allowed (body x)) : Raises allowed (forM xs body) := by
  induction xs with
  | nil => exact raises_pure ()
  | cons x xs ih =>
    rw [List.forM_cons]
    exact raises_bind (h x) (fun _ => ih)

end

end Gamely.Trusting
