import Gamely.Container

/-!
# What the log of a container tells

The log tells what was built for which resolver. The caches are read off it, and
nothing made for one scope comes into the hands of another resolver.
-/

set_option autoImplicit false

namespace Gamely.ContainerContract
open Gamely.Calls Gamely.Container

variable {S E : Type}

/-! ## Objects and steps forward -/

def madeAs (w : World S E) : Instance → Option (Made S)
  | .outside _ => none
  | .made n => w.made[n]?

/-- The resolver an object was made with. -/
def home (w : World S E) (x : Instance) : Option Resolver := (madeAs w x).map Made.resolver

def Known (w : World S E) : Instance → Prop
  | .outside _ => True
  | .made n => n < w.made.length

/-- The object was made for the resolver by the factory of the service. -/
def Own (w : World S E) (r : Resolver) (s : S) (x : Instance) : Prop :=
  ∃ m, madeAs w x = some m ∧ m.service = s ∧ m.resolver = r

/-- An object from outside, one made by the provider, or one of the resolver's own. -/
def Usable (w : World S E) (r : Resolver) (x : Instance) : Prop :=
  (∃ n, x = .outside n) ∨ home w x = some .root ∨ home w x = some r

def Open (w : World S E) : Resolver → Prop
  | .root => True
  | .scope i => (w.scopes i).closed = false

/-- Nothing is taken back, and what is built is among the services of `reach`. -/
structure Grows (reach : S → Prop) (w w' : World S E) : Prop where
  made : w.made <+: w'.made
  closed : ∀ i, (w'.scopes i).closed = (w.scopes i).closed
  log : ∃ new, w'.log = w.log ++ new ∧ ∀ e ∈ new, (∀ i x, e ≠ .disposed i x) ∧
    ∀ s r x, e = .built s r x → reach s ∧ Open w r

theorem grows_refl (reach : S → Prop) (w : World S E) : Grows reach w w :=
  ⟨List.prefix_refl _, fun _ => rfl, [], (List.append_nil _).symm, by simp⟩

theorem open_iff {w w' : World S E} (h : ∀ i, (w'.scopes i).closed = (w.scopes i).closed)
    (r : Resolver) : Open w' r ↔ Open w r := by
  cases r with
  | root => exact Iff.rfl
  | scope i =>
    change _ = _ ↔ _ = _
    rw [h i]

theorem grows_trans {reach : S → Prop} {w₁ w₂ w₃ : World S E} (h : Grows reach w₁ w₂)
    (h' : Grows reach w₂ w₃) : Grows reach w₁ w₃ := by
  obtain ⟨new, hlog, hnew⟩ := h.log
  obtain ⟨new', hlog', hnew'⟩ := h'.log
  refine ⟨h.made.trans h'.made, fun i => (h'.closed i).trans (h.closed i), new ++ new', ?_, ?_⟩
  · rw [hlog', hlog, List.append_assoc]
  · intro e he
    rcases List.mem_append.mp he with he | he
    · exact hnew e he
    · refine ⟨(hnew' e he).1, fun s r x hb => ?_⟩
      obtain ⟨hr, ho⟩ := (hnew' e he).2 s r x hb
      exact ⟨hr, (open_iff h.closed r).mp ho⟩

theorem grows_mono {reach more : S → Prop} {w w' : World S E} (hm : ∀ s, reach s → more s)
    (h : Grows reach w w') : Grows more w w' := by
  obtain ⟨new, hlog, hnew⟩ := h.log
  refine ⟨h.made, h.closed, new, hlog, fun e he => ⟨(hnew e he).1, fun s r x hb => ?_⟩⟩
  obtain ⟨hr, ho⟩ := (hnew e he).2 s r x hb
  exact ⟨hm s hr, ho⟩

theorem grows_built {reach : S → Prop} {w : World S E} {r : Resolver} {s : S} (x : Instance)
    (hreach : reach s) (hopen : Open w r) : Grows reach w (w.logged (.built s r x)) := by
  refine ⟨List.prefix_refl _, fun _ => rfl, [.built s r x], rfl, ?_⟩
  intro e he
  rw [List.mem_singleton] at he
  subst he
  constructor
  · intro i y h
    cases h
  · intro s' r' x' h
    cases h
    exact ⟨hreach, hopen⟩

theorem grows_got {reach : S → Prop} (w : World S E) (r : Resolver) (s : S)
    (a : Except (Failure S E) Instance) : Grows reach w (w.logged (.got r s a)) := by
  refine ⟨List.prefix_refl _, fun _ => rfl, [.got r s a], rfl, ?_⟩
  intro e he
  rw [List.mem_singleton] at he
  subst he
  constructor
  · intro i x h
    cases h
  · intro s' r' x h
    cases h

theorem mem_logged {w : World S E} {e e' : Event S E} (h : e' ∈ (w.logged e).log) :
    e' ∈ w.log ∨ e' = e := by
  rcases List.mem_append.mp h with h | h
  · exact Or.inl h
  · exact Or.inr (List.mem_singleton.mp h)

theorem known_grows {w w' : World S E} (h : w.made <+: w'.made) {x : Instance}
    (hx : Known w x) : Known w' x := by
  cases x with
  | outside n => trivial
  | made n => exact Nat.lt_of_lt_of_le hx h.length_le

theorem madeAs_known {w w' : World S E} (h : w.made <+: w'.made) {x : Instance}
    (hx : Known w x) : madeAs w' x = madeAs w x := by
  cases x with
  | outside n => rfl
  | made n =>
    obtain ⟨more, hmore⟩ := h
    rw [madeAs, madeAs, ← hmore, List.getElem?_append_left hx]

theorem home_known {w w' : World S E} (h : w.made <+: w'.made) {x : Instance}
    (hx : Known w x) : home w' x = home w x := by
  rw [home, home, madeAs_known h hx]

theorem home_same {w w' : World S E} (h : w'.made = w.made) (x : Instance) :
    home w' x = home w x := by
  cases x with
  | outside n => rfl
  | made n => rw [home, home, madeAs, madeAs, h]

theorem known_of_madeAs {w : World S E} {x : Instance} {m : Made S}
    (hm : madeAs w x = some m) : Known w x := by
  cases x with
  | outside n => trivial
  | made n => exact (List.getElem?_eq_some_iff.mp hm).1

theorem home_of_madeAs {w : World S E} {x : Instance} {m : Made S}
    (hm : madeAs w x = some m) : home w x = some m.resolver := by
  rw [home, hm]
  rfl

theorem known_of_home {w : World S E} {x : Instance} {r : Resolver}
    (hr : home w x = some r) : Known w x := by
  obtain ⟨m, hm, -⟩ := Option.map_eq_some_iff.mp hr
  exact known_of_madeAs hm

theorem madeAs_mem {w : World S E} {x : Instance} {m : Made S} (hm : madeAs w x = some m) :
    m ∈ w.made := by
  cases x with
  | outside n => cases hm
  | made n => exact List.mem_of_getElem? hm

theorem usable_known {w : World S E} {r : Resolver} {x : Instance} (hu : Usable w r x) :
    Known w x := by
  rcases hu with ⟨n, rfl⟩ | hu | hu
  · trivial
  · exact known_of_home hu
  · exact known_of_home hu

theorem usable_grows {w w' : World S E} (h : w.made <+: w'.made) {r : Resolver} {x : Instance}
    (hu : Usable w r x) : Usable w' r x := by
  have hhome := home_known h (usable_known hu)
  unfold Usable at hu ⊢
  rwa [hhome]

theorem own_grows {w w' : World S E} (h : w.made <+: w'.made) {r : Resolver} {s : S}
    {x : Instance} (ho : Own w r s x) : Own w' r s x := by
  obtain ⟨m, hm, hs, hr⟩ := ho
  exact ⟨m, (madeAs_known h (known_of_madeAs hm)).trans hm, hs, hr⟩

theorem home_of_root {w : World S E} {r : Resolver} {x : Instance} (hu : Usable w .root x)
    (hr : home w x = some r) : r = .root := by
  rcases hu with ⟨n, rfl⟩ | hu | hu
  · cases hr
  · rw [hu] at hr
    exact (Option.some.inj hr).symm
  · rw [hu] at hr
    exact (Option.some.inj hr).symm

/-! ## Factories that construct an object -/

theorem may_construct {dependencies : List S} {t : S}
    (h : May (construct dependencies : Factory S E) t) : t ∈ dependencies := by
  induction dependencies with
  | nil => exact h.elim
  | cons s dependencies ih =>
    rcases h with rfl | ⟨reply, h⟩
    · exact List.mem_cons_self
    · cases reply with
      | ok x => exact List.mem_cons_of_mem _ (ih h)
      | error e => exact h.elim

theorem confined_construct (dependencies : List S) (obtained : List Instance) :
    Confined (construct dependencies : Factory S E) obtained := by
  induction dependencies generalizing obtained with
  | nil => trivial
  | cons s dependencies ih => exact ⟨fun x => ih _, fun e => trivial⟩

theorem makesFresh_construct (dependencies : List S) :
    MakesFresh (construct dependencies : Factory S E) := by
  induction dependencies with
  | nil => rfl
  | cons s dependencies ih =>
    intro reply
    cases reply with
    | ok x => exact ih
    | error e => trivial

theorem insists_construct {dependencies : List S} {t : S} (h : t ∈ dependencies) :
    Insists t (construct dependencies : Factory S E) := by
  induction dependencies with
  | nil => cases h
  | cons s dependencies ih =>
    refine ⟨fun e => trivial, ?_⟩
    rcases List.mem_cons.mp h with rfl | h
    · exact Or.inl rfl
    · exact Or.inr (fun x => ih h)

/-- A service that is constructed from one that needs a scope needs one as well. -/
theorem barred_construct [DecidableEq S] {services : ServiceCollection S E} {s : S}
    {descriptor : ServiceDescriptor S E} (hd : services.descriptors.lookup s = some descriptor)
    (h : ∀ k, ∃ dependencies, descriptor.factory k = construct dependencies ∧
      ∃ t ∈ dependencies, Barred services t) : Barred services s := by
  choose dependencies hfactory t ht hbarred using h
  exact .captive hd t hbarred (fun k => hfactory k ▸ insists_construct (ht k))

/-! ## What the log tells -/

variable [DecidableEq S] (services : ServiceCollection S E)

theorem addAll_ok (services : ServiceCollection S E) {rest : List (S × ServiceDescriptor S E)}
    (h : ((services.descriptors ++ rest).map Prod.fst).Nodup) :
    services.addAll rest = .ok ⟨services.descriptors ++ rest, h⟩ := by
  induction rest generalizing services with
  | nil => simp [ServiceCollection.addAll]
  | cons entry rest ih =>
    have hnew : entry.1 ∉ services.descriptors.map Prod.fst := by
      rw [List.map_append, List.map_cons, List.nodup_middle, List.nodup_cons,
        List.mem_append, not_or] at h
      exact h.1.1
    rw [ServiceCollection.addAll, ServiceCollection.add, dif_neg hnew]
    dsimp only
    rw [ih _ (by simpa using h)]
    simp

def lifetimeOf (s : S) : Option ServiceLifetime :=
  (services.descriptors.lookup s).map ServiceDescriptor.lifetime

def kept : Resolver → S → Bool
  | .root, s => lifetimeOf services s = some .singleton
  | .scope _, s => lifetimeOf services s = some .scoped

/-- What was built and cached for a resolver, in order. -/
def builtIn (w : World S E) (r : Resolver) : Cache S :=
  w.log.filterMap (fun e => match e with
    | .built s r' x => if r' = r ∧ kept services r s = true then some (s, x) else none
    | _ => none)

/-- The resolver may have a factory of the service called to the end. -/
structure Buildable (s : S) (r : Resolver) : Prop where
  resolver : lifetimeOf services s = some .scoped ↔ r ≠ .root
  free : r = .root → ¬ Barred services s

/-- What a successful `get` gives. -/
structure Given (w : World S E) (r : Resolver) (s : S) (x : Instance) : Prop where
  known : Known w x
  usable : AllConfined services → Usable w r x
  shared : AllConfined services → lifetimeOf services s ≠ some .scoped → Usable w .root x
  singleton : lifetimeOf services s = some .singleton → (s, x) ∈ builtIn services w .root
  scope : lifetimeOf services s = some .scoped → r ≠ .root ∧ (s, x) ∈ builtIn services w r
  free : r = .root ∨ lifetimeOf services s ≠ some .scoped → ¬ Barred services s

/-- What a factory has obtained from its resolver. -/
structure Seen (w : World S E) (r : Resolver) (x : Instance) : Prop where
  known : Known w x
  usable : AllConfined services → Usable w r x

structure Fits (w : World S E) (m : Made S) : Prop where
  resolver : lifetimeOf services m.service = some .scoped ↔ m.resolver ≠ .root
  obtained : ∀ y ∈ m.obtained, Seen services w m.resolver y

/-- The invariant of every sequence of operations. -/
structure Consistent (w : World S E) : Prop where
  caches : ∀ r, Open w r → w.cache r = builtIn services w r
  names : ∀ r, ((builtIn services w r).map Prod.fst).Nodup
  entries : ∀ r s x, (s, x) ∈ builtIn services w r → Seen services w r x
  objects : ∀ m ∈ w.made, Fits services w m
  builders : ∀ s r x, .built s r x ∈ w.log → Buildable services s r
  complete : ∀ r, r ≠ .root → ∀ x, home w x = some r → x ∈ (builtIn services w r).map Prod.snd
  ordered : ∀ r, r ≠ .root → ∀ before s x after,
    builtIn services w r = before ++ (s, x) :: after → ∀ m, madeAs w x = some m →
      ∀ y ∈ m.obtained, home w y = some r → y ∈ before.map Prod.snd
  own : ScopedFresh services → ∀ r, r ≠ .root → ∀ s x, (s, x) ∈ builtIn services w r →
    Own w r s x
  answers : ∀ r s x, .got r s (.ok x) ∈ w.log → Given services w r s x
  refused : ∀ s a, .got .root s a ∈ w.log → lifetimeOf services s = some .scoped →
    a = .error (.scopeRequired s)

variable {services}

/-! ## Growing logs -/

theorem builtIn_append {w w' : World S E} {new : List (Event S E)} (h : w'.log = w.log ++ new)
    (r : Resolver) : builtIn services w' r = builtIn services w r ++
      new.filterMap (fun e => match e with
        | .built s r' x => if r' = r ∧ kept services r s = true then some (s, x) else none
        | _ => none) := by
  rw [builtIn, h, List.filterMap_append]
  rfl

theorem mem_builtIn {w : World S E} {r : Resolver} {s : S} {x : Instance} :
    (s, x) ∈ builtIn services w r ↔ .built s r x ∈ w.log ∧ kept services r s = true := by
  constructor
  · intro hm
    obtain ⟨e, he, hx⟩ := List.mem_filterMap.mp hm
    split at hx
    case h_1 s' r' x' =>
      split at hx
      case isTrue hr =>
        cases hx
        exact ⟨hr.1 ▸ he, hr.2⟩
      case isFalse => cases hx
    case h_2 => cases hx
  · rintro ⟨he, hk⟩
    exact List.mem_filterMap.mpr ⟨_, he, if_pos ⟨rfl, hk⟩⟩

variable (services) in
theorem builtIn_grows {reach : S → Prop} {w w' : World S E} (h : Grows reach w w') (r : Resolver) :
    ∃ new, builtIn services w' r = builtIn services w r ++ new ∧
      ∀ entry ∈ new, reach entry.1 ∧ Open w r := by
  obtain ⟨new, hlog, hnew⟩ := h.log
  refine ⟨_, builtIn_append hlog r, ?_⟩
  rintro ⟨s, x⟩ hm
  obtain ⟨e, he, hx⟩ := List.mem_filterMap.mp hm
  split at hx
  case h_1 s' r' x' =>
    split at hx
    case isTrue hr =>
      cases hx
      obtain ⟨hreach, hopen⟩ := (hnew _ he).2 _ _ _ rfl
      exact ⟨hreach, hr.1 ▸ hopen⟩
    case isFalse => cases hx
  case h_2 => cases hx

theorem seen_grows {w w' : World S E} (h : w.made <+: w'.made) {r : Resolver}
    {x : Instance} (hs : Seen services w r x) : Seen services w' r x :=
  ⟨known_grows h hs.known, fun hc => usable_grows h (hs.usable hc)⟩

theorem fits_grows {w w' : World S E} (h : w.made <+: w'.made) {m : Made S}
    (hm : Fits services w m) : Fits services w' m :=
  ⟨hm.resolver, fun y hy => seen_grows h (hm.obtained y hy)⟩

theorem given_grows {w w' : World S E} (h : w.made <+: w'.made)
    (hb : ∀ r, builtIn services w r <+: builtIn services w' r) {r : Resolver}
    {s : S} {x : Instance} (hg : Given services w r s x) : Given services w' r s x where
  known := known_grows h hg.known
  usable := fun hc => usable_grows h (hg.usable hc)
  shared := fun hc hs => usable_grows h (hg.shared hc hs)
  singleton := fun hs => (hb _).subset (hg.singleton hs)
  scope := fun hs => ⟨(hg.scope hs).1, (hb _).subset (hg.scope hs).2⟩
  free := hg.free

/-- What a `get` gives, a factory may use. -/
theorem seen_of_given {w : World S E} {r : Resolver} {s : S} {x : Instance}
    (hg : Given services w r s x) : Seen services w r x := ⟨hg.known, hg.usable⟩

end Gamely.ContainerContract
