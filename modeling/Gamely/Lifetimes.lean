import Gamely.ApplicationContainer
import Gamely.ContainerMoves

/-!
# Service lifetimes

A singleton is one object, a scoped service is one object for each scope, and what
was made for a scope stays in it.
-/

set_option autoImplicit false

namespace Gamely.Lifetimes
open Gamely.Calls Gamely.Container Gamely.ContainerContract Gamely.ContainerMoves
open Gamely.ApplicationContainer

variable {S E : Type}

/-- The first object was given the second one when it was made. -/
def Holds (w : World S E) (x y : Instance) : Prop := ∃ m, madeAs w x = some m ∧ y ∈ m.obtained

def ScopeMade (w : World S E) (x : Instance) : Prop := ∃ i, home w x = some (.scope i)

variable [DecidableEq S]

/-- The results of the factory calls for a service on one resolver. -/
def builds (w : World S E) (s : S) (r : Resolver) : List Instance :=
  w.log.filterMap (fun e => match e with
    | .built s' r' x => if s' = s ∧ r' = r then some x else none
    | _ => none)

variable (services : ServiceCollection S E)

/-- What the lifetimes promise of a run. -/
structure Isolated (w : World S E) : Prop where
  singleton : ∀ r s x, .got r s (.ok x) ∈ w.log → lifetimeOf services s = some .singleton →
    builds w s .root = [x] ∧ ∀ i, builds w s (.scope i) = []
  perScope : ∀ r s x, .got r s (.ok x) ∈ w.log → lifetimeOf services s = some .scoped →
    ∃ i, r = .scope i ∧ builds w s (.scope i) = [x]
  apart : ∀ r s x i, .got r s (.ok x) ∈ w.log → home w x = some (.scope i) →
    r = .scope i ∧ lifetimeOf services s = some .scoped
  unshared : ScopedFresh services → ∀ i j s t x, .got (.scope i) s (.ok x) ∈ w.log →
    lifetimeOf services s = some .scoped → .got (.scope j) t (.ok x) ∈ w.log → i = j
  answers : ∀ r s x, .got r s (.ok x) ∈ w.log → lifetimeOf services s ≠ some .scoped →
    ∀ y, Relation.ReflTransGen (Holds w) x y → ¬ ScopeMade w y
  objects : ∀ x m, madeAs w x = some m → lifetimeOf services m.service ≠ some .scoped →
    ∀ y, Relation.ReflTransGen (Holds w) x y → ¬ ScopeMade w y
  barred : ∀ s, Barred services s → s ∉ w.singletons.map Prod.fst ∧ ∀ r answer,
    .got r s answer ∈ w.log → r = .root ∨ lifetimeOf services s ≠ some .scoped →
      ∃ e, answer = .error e
  failed : ∀ depth r s e w', get services depth r s w = some (.error e, w') → Open w r →
    ∀ r', r' = .root ∨ r' = r → kept services r' s = true → s ∉ (w'.cache r').map Prod.fst

variable {services}

/-! ## Builds -/

theorem builds_kept (w : World S E) {s : S} {r : Resolver} (hk : kept services r s = true) :
    builds w s r = (builtIn services w r).filterMap
      (fun entry => if entry.1 = s then some entry.2 else none) := by
  rw [builds, builtIn, List.filterMap_filterMap]
  apply List.filterMap_congr
  intro e _
  cases e with
  | built s' r' x =>
    by_cases hs : s' = s
    · subst hs
      by_cases hr : r' = r <;> simp [hr, hk]
    · by_cases hr : r' = r ∧ kept services r s' = true <;> simp [hs, hr]
  | got r' s' answer => rfl
  | disposed i x => rfl

theorem filterMap_unique {cache : Cache S} (hnodup : (cache.map Prod.fst).Nodup) {s : S}
    {x : Instance} (hm : (s, x) ∈ cache) :
    cache.filterMap (fun entry => if entry.1 = s then some entry.2 else none) = [x] := by
  obtain ⟨before, after, rfl⟩ := List.append_of_mem hm
  have other : ∀ part : Cache S, s ∉ part.map Prod.fst →
      part.filterMap (fun entry => if entry.1 = s then some entry.2 else none) = [] := by
    intro part hs
    rw [List.filterMap_eq_nil_iff]
    intro entry he
    refine if_neg ?_
    rintro rfl
    exact hs (List.mem_map_of_mem he)
  rw [List.map_append, List.map_cons, List.nodup_middle, List.nodup_cons, List.mem_append,
    not_or] at hnodup
  obtain ⟨⟨hbefore, hafter⟩, -⟩ := hnodup
  rw [List.filterMap_append, other before hbefore, List.nil_append, List.filterMap_cons]
  dsimp only
  rw [if_pos rfl, other after hafter]

theorem builds_one {w : World S E} (h : Consistent services w) {s : S} {r : Resolver}
    {x : Instance} (hm : (s, x) ∈ builtIn services w r) : builds w s r = [x] := by
  rw [builds_kept w (mem_builtIn.mp hm).2]
  exact filterMap_unique (h.names r) hm

theorem mem_builds {w : World S E} {s : S} {r : Resolver} {x : Instance}
    (hm : x ∈ builds w s r) : .built s r x ∈ w.log := by
  obtain ⟨e, he, hx⟩ := List.mem_filterMap.mp hm
  split at hx
  case h_1 s' r' x' =>
    split at hx
    case isTrue hr =>
      cases hx
      exact hr.1 ▸ hr.2 ▸ he
    case isFalse => cases hx
  case h_2 => cases hx

/-! ## Chains of objects -/

/-- What the provider may use holds nothing of a scope. -/
theorem usable_holds (hconfined : AllConfined services) {w : World S E}
    (h : Consistent services w) {x y : Instance} (hx : Usable w .root x)
    (hy : Relation.ReflTransGen (Holds w) x y) : Usable w .root y := by
  induction hy with
  | refl => exact hx
  | tail _ hold ih =>
    obtain ⟨m, hm, hy⟩ := hold
    have hroot := home_of_root ih (home_of_madeAs hm)
    exact hroot ▸ ((h.objects m (madeAs_mem hm)).obtained _ hy).usable hconfined

omit [DecidableEq S] in
theorem not_scopeMade {w : World S E} {x : Instance} (hx : Usable w .root x) :
    ¬ ScopeMade w x := by
  rintro ⟨i, hi⟩
  cases home_of_root hx hi

/-! ## Runs -/

theorem isolated_of_consistent (hacyclic : Acyclic services) (hconfined : AllConfined services)
    {w : World S E} (h : Consistent services w) : Isolated services w where
  singleton := by
    intro r s x hm hs
    refine ⟨builds_one h ((h.answers r s x hm).singleton hs), fun i => ?_⟩
    rw [List.eq_nil_iff_forall_not_mem]
    intro y hy
    have := (h.builders s _ y (mem_builds hy)).resolver.mpr (by simp)
    rw [hs] at this
    cases this
  perScope := by
    intro r s x hm hs
    obtain ⟨hne, hx⟩ := (h.answers r s x hm).scope hs
    cases r with
    | root => exact absurd rfl hne
    | scope i => exact ⟨i, rfl, builds_one h hx⟩
  apart := by
    intro r s x i hm hi
    have hg := h.answers r s x hm
    constructor
    · rcases hg.usable hconfined with ⟨n, rfl⟩ | hu | hu
      · cases hi
      · rw [hu] at hi
        cases hi
      · rw [hu] at hi
        exact Option.some.inj hi
    · by_contra hs
      cases home_of_root (hg.shared hconfined hs) hi
  unshared := by
    intro hfresh i j s t x hm hs hm'
    have hown := h.own hfresh (.scope i) (by simp) s x ((h.answers _ s x hm).scope hs).2
    obtain ⟨m, hmade, -, hi⟩ := hown
    have hhome := home_of_madeAs hmade
    rw [hi] at hhome
    rcases (h.answers _ t x hm').usable hconfined with ⟨n, rfl⟩ | hu | hu
    · cases hhome
    · rw [hu] at hhome
      cases hhome
    · rw [hu] at hhome
      cases hhome
      rfl
  answers := fun r s x hm hs y hy =>
    not_scopeMade (usable_holds hconfined h ((h.answers r s x hm).shared hconfined hs) hy)
  objects := by
    intro x m hm hs y hy
    have hroot : m.resolver = .root := by
      by_contra hne
      exact hs ((h.objects m (madeAs_mem hm)).resolver.mpr hne)
    have hx := home_of_madeAs hm
    rw [hroot] at hx
    exact not_scopeMade (usable_holds hconfined h (Or.inr (Or.inl hx)) hy)
  barred := by
    intro s hb
    constructor
    · intro hs
      obtain ⟨⟨s', x⟩, he, rfl⟩ := List.mem_map.mp hs
      have hcache : w.singletons = builtIn services w .root := h.caches .root trivial
      rw [hcache] at he
      exact (h.builders _ _ x (mem_builtIn.mp he).1).free rfl hb
    · intro r answer hm hr
      cases answer with
      | error e => exact ⟨e, rfl⟩
      | ok x => exact absurd hb ((h.answers r s x hm).free hr)
  failed := by
    intro depth r s e w' hget hopen r' hr' hk
    have hserved := get_served hacyclic depth r s w _ w' h hget
    have hopen' : Open w' r' := by
      rw [open_iff hserved.grows.closed]
      rcases hr' with rfl | rfl
      · trivial
      · exact hopen
    rw [hserved.consistent.caches r' hopen']
    exact hserved.failed e rfl hopen r' hr' hk

/-- Every sequence of requests and closings ends with the lifetimes kept. -/
theorem lifetimes_isolated (hacyclic : Acyclic services) (hconfined : AllConfined services)
    (methods : Instance → Methods E) {depth : ℕ}
    (hdepth : services.descriptors.length + 1 < depth) (ops : List (Op S)) :
    ∃ w, run services methods depth ops World.new = some w ∧ Isolated services w := by
  obtain ⟨w, hrun⟩ := run_total methods hacyclic hdepth ops World.new
  exact ⟨w, hrun, isolated_of_consistent hacyclic hconfined
    (consistent_run methods hacyclic consistent_new hrun)⟩

theorem lifetimes_isolated_application :
    Acyclic (application (.outside 0) : ServiceCollection Service String) ∧
    AllConfined (application (.outside 0) : ServiceCollection Service String) ∧
    ∃ w, run (application (.outside 0)) (fun _ => (⟨none, none⟩ : Methods String)) 16
      [.get (.scope 0) .authController, .get .root .authService, .get (.scope 1) .asyncSession,
        .close 0, .get (.scope 0) .asyncSession] World.new = some w ∧
      Isolated (application (.outside 0)) w :=
  ⟨application_acyclic _, application_confined 0,
    lifetimes_isolated (application_acyclic _) (application_confined 0) _ (by decide) _⟩

/-- A scoped service whose factory hands out a singleton. -/
def forwarding : ServiceCollection ℕ String where
  descriptors := [(0, ⟨.singleton, fun _ => construct []⟩), (1, ⟨.scoped, fun _ => forward 0⟩)]
  nodup := by decide

theorem forwarding_factory {s : ℕ} {descriptor : ServiceDescriptor ℕ String}
    (hd : forwarding.descriptors.lookup s = some descriptor) (k : ℕ) :
    descriptor.factory k = construct [] ∨ s = 1 ∧ descriptor.factory k = forward 0 := by
  obtain ⟨before, after, he, -⟩ := List.lookup_eq_some_iff.mp hd
  have hm : (s, descriptor) ∈ forwarding.descriptors := by
    rw [he]
    simp
  simp only [forwarding, List.mem_cons, List.not_mem_nil, or_false, Prod.mk.injEq] at hm
  rcases hm with ⟨rfl, rfl⟩ | ⟨rfl, rfl⟩
  · exact Or.inl rfl
  · exact Or.inr ⟨rfl, rfl⟩

theorem forwarding_acyclic : Acyclic forwarding := by
  apply acyclic_of_lt id
  rintro s t ⟨-, descriptor, k, hd, hmay⟩
  rcases forwarding_factory hd k with hf | ⟨rfl, hf⟩
  · rw [hf] at hmay
    exact hmay.elim
  · rw [hf] at hmay
    rcases hmay with rfl | ⟨reply, hmay⟩
    · exact Nat.zero_lt_one
    · cases reply <;> exact hmay.elim

theorem forwarding_confined : AllConfined forwarding := by
  intro s descriptor k hd
  rcases forwarding_factory hd k with hf | ⟨-, hf⟩
  · rw [hf]
    exact confined_construct _ _
  · rw [hf]
    exact ⟨fun x => Or.inr (by simp), fun e => trivial⟩

/-- Two scopes then share the object of a scoped service. -/
theorem scopes_share_forwarded : Acyclic forwarding ∧ AllConfined forwarding ∧
    lifetimeOf forwarding 1 = some .scoped ∧
    ∃ w, run forwarding (fun _ => ⟨none, none⟩) 4
        [.get (.scope 0) 1, .get (.scope 1) 1] World.new = some w ∧
      w.log = [.built 0 .root (.made 0), .got (.scope 0) 0 (.ok (.made 0)),
        .built 1 (.scope 0) (.made 0), .got (.scope 0) 1 (.ok (.made 0)),
        .got (.scope 1) 0 (.ok (.made 0)), .built 1 (.scope 1) (.made 0),
        .got (.scope 1) 1 (.ok (.made 0))] :=
  ⟨forwarding_acyclic, forwarding_confined, rfl, _, rfl, rfl⟩

end Gamely.Lifetimes
