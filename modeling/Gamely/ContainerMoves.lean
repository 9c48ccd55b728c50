import Gamely.ContainerContract

/-!
# What one operation does to a container

A factory call keeps the invariant when each of its requests does, so a `get` keeps
it at every depth. Requests go down an acyclic relation and end.
-/

set_option autoImplicit false

namespace Gamely.ContainerMoves
open Gamely.Calls Gamely.Container Gamely.ContainerContract

variable {S E : Type} [DecidableEq S] {services : ServiceCollection S E}

/-! ## One step -/

variable (services) in
/-- What is cached for a resolver stays, or one entry that fits is added. -/
inductive Extends (w w' : World S E) (r : Resolver) : Prop
  | same (h : builtIn services w' r = builtIn services w r)
  | added {s : S} {x : Instance} (h : builtIn services w' r = builtIn services w r ++ [(s, x)])
      (new : s ∉ (builtIn services w r).map Prod.fst) (seen : Seen services w' r x)
      (ready : ∀ m, madeAs w' x = some m → ∀ y ∈ m.obtained, Known w y)
      (own : ScopedFresh services → r ≠ .root → Own w' r s x)

theorem extends_grows {w w' : World S E} {r : Resolver} (h : Extends services w w' r) :
    builtIn services w r <+: builtIn services w' r := by
  cases h with
  | same h => exact h ▸ List.prefix_refl _
  | added h =>
    rw [h]
    exact List.prefix_append _ _

/-- What was cached before obtained only objects cached before it. -/
theorem ordered_before {w w' : World S E} (h : Consistent services w) (made : w.made <+: w'.made)
    {r : Resolver} (hne : r ≠ .root) {before : Cache S} {s : S} {x : Instance} {after : Cache S}
    (he : builtIn services w r = before ++ (s, x) :: after) {m : Made S}
    (hm : madeAs w' x = some m) {y : Instance} (hy : y ∈ m.obtained)
    (hhome : home w' y = some r) : y ∈ before.map Prod.snd := by
  have hx : (s, x) ∈ builtIn services w r := by
    rw [he]
    simp
  rw [madeAs_known made (h.entries r s x hx).known] at hm
  have hknown := ((h.objects m (madeAs_mem hm)).obtained y hy).known
  rw [home_known made hknown] at hhome
  exact h.ordered r hne before s x after he m hm y hy hhome

theorem consistent_step {w w' : World S E} (h : Consistent services w)
    (made : w.made <+: w'.made) (objects : ∀ m ∈ w'.made, m ∈ w.made ∨ Fits services w' m)
    (complete : ∀ r, r ≠ .root → ∀ x, home w' x = some r →
      Known w x ∨ x ∈ (builtIn services w' r).map Prod.snd)
    (caches : ∀ r, Open w' r → w'.cache r = builtIn services w' r)
    (built : ∀ r, Extends services w w' r)
    (builders : ∀ s r x, .built s r x ∈ w'.log → .built s r x ∈ w.log ∨ Buildable services s r)
    (answers : ∀ r s x, .got r s (.ok x) ∈ w'.log → .got r s (.ok x) ∈ w.log ∨
      Given services w' r s x)
    (refused : ∀ s a, .got .root s a ∈ w'.log → .got .root s a ∈ w.log ∨
      (lifetimeOf services s = some .scoped → a = .error (.scopeRequired s))) :
    Consistent services w' where
  caches := caches
  names := by
    intro r
    cases built r with
    | same hb =>
      rw [hb]
      exact h.names r
    | added hb new =>
      rw [hb, List.map_append]
      apply (h.names r).append (List.nodup_singleton _)
      simpa using new
  entries := by
    intro r s x hm
    cases built r with
    | same hb =>
      rw [hb] at hm
      exact seen_grows made (h.entries r s x hm)
    | added hb new seen =>
      rw [hb] at hm
      rcases List.mem_append.mp hm with hm | hm
      · exact seen_grows made (h.entries r s x hm)
      · cases List.mem_singleton.mp hm
        exact seen
  objects := fun m hm => (objects m hm).elim (fun hm => fits_grows made (h.objects m hm)) id
  builders := fun s r x hm => (builders s r x hm).elim (h.builders s r x) id
  complete := by
    intro r hne x hx
    rcases complete r hne x hx with hk | hm
    · rw [home_known made hk] at hx
      exact ((extends_grows (built r)).map Prod.snd).subset (h.complete r hne x hx)
    · exact hm
  ordered := by
    intro r hne before s x after he m hm y hy hhome
    cases built r with
    | same hb => exact ordered_before h made hne (hb ▸ he) hm hy hhome
    | added hb new seen ready =>
      rw [hb] at he
      rcases List.eq_nil_or_concat after with rfl | ⟨after, last, rfl⟩
      · obtain ⟨rfl, hlast⟩ := List.append_inj' he rfl
        cases hlast
        rw [home_known made (ready m hm y hy)] at hhome
        exact h.complete r hne y hhome
      · rw [List.concat_eq_append, ← List.cons_append, ← List.append_assoc] at he
        obtain ⟨hold, -⟩ := List.append_inj' he rfl
        exact ordered_before h made hne hold hm hy hhome
  own := by
    intro hf r hne s x hm
    cases built r with
    | same hb =>
      rw [hb] at hm
      exact own_grows made (h.own hf r hne s x hm)
    | added hb new seen ready own =>
      rw [hb] at hm
      rcases List.mem_append.mp hm with hm | hm
      · exact own_grows made (h.own hf r hne s x hm)
      · cases List.mem_singleton.mp hm
        exact own hf hne
  answers := fun r s x hm => (answers r s x hm).elim
    (fun hm => given_grows made (fun r => extends_grows (built r)) (h.answers r s x hm)) id
  refused := fun s a hm hs => (refused s a hm).elim (fun hm => h.refused s a hm hs)
    (fun ha => ha hs)

theorem consistent_same {w w' : World S E} (h : Consistent services w) (made : w'.made = w.made)
    (caches : ∀ r, Open w' r → w'.cache r = builtIn services w' r)
    (built : ∀ r, builtIn services w' r = builtIn services w r)
    (builders : ∀ s r x, .built s r x ∈ w'.log → .built s r x ∈ w.log)
    (answers : ∀ r s x, .got r s (.ok x) ∈ w'.log → .got r s (.ok x) ∈ w.log ∨
      Given services w' r s x)
    (refused : ∀ s a, .got .root s a ∈ w'.log → .got .root s a ∈ w.log ∨
      (lifetimeOf services s = some .scoped → a = .error (.scopeRequired s))) :
    Consistent services w' := by
  have hmade : w.made <+: w'.made := made ▸ List.prefix_refl _
  refine consistent_step h hmade (fun m hm => Or.inl (made ▸ hm)) ?_ caches
    (fun r => .same (built r)) (fun s r x hm => Or.inl (builders s r x hm)) answers refused
  intro r _ x hx
  rw [home_same made] at hx
  exact Or.inl (known_of_home hx)

theorem consistent_built {w w' : World S E} (h : Consistent services w) {r : Resolver} {s : S}
    {x : Instance} (hb : Buildable services s r)
    (hlog : ∀ e, e ∈ w'.log → e ∈ w.log ∨ e = .built s r x)
    (made : w.made <+: w'.made) (objects : ∀ m ∈ w'.made, m ∈ w.made ∨ Fits services w' m)
    (complete : ∀ r, r ≠ .root → ∀ x, home w' x = some r →
      Known w x ∨ x ∈ (builtIn services w' r).map Prod.snd)
    (caches : ∀ r, Open w' r → w'.cache r = builtIn services w' r)
    (built : ∀ r, Extends services w w' r) : Consistent services w' := by
  apply consistent_step h made objects complete caches built
  · intro s' r' x' hm
    rcases hlog _ hm with hm | hm
    · exact Or.inl hm
    · cases hm
      exact Or.inr hb
  · intro r' s' x' hm
    rcases hlog _ hm with hm | hm
    · exact Or.inl hm
    · cases hm
  · intro s' a hm
    rcases hlog _ hm with hm | hm
    · exact Or.inl hm
    · cases hm

/-! ## Entries of the log -/

variable (services) in
theorem builtIn_got (w : World S E) (r' : Resolver) (s : S)
    (answer : Except (Failure S E) Instance) (r : Resolver) :
    builtIn services (w.logged (.got r' s answer)) r = builtIn services w r := by
  rw [builtIn_append rfl]
  exact List.append_nil _

theorem builtIn_built (w : World S E) (s : S) (r' : Resolver) (x : Instance) (r : Resolver) :
    builtIn services (w.logged (.built s r' x)) r = builtIn services w r ++
      if r' = r ∧ kept services r s = true then [(s, x)] else [] := by
  rw [builtIn_append rfl]
  by_cases h : r' = r ∧ kept services r s = true
  · simp [h]
  · simp [h]

theorem caches_grown {w w' : World S E} (h : Consistent services w)
    (hcache : ∀ r, w'.cache r = w.cache r)
    (hclosed : ∀ i, (w'.scopes i).closed = (w.scopes i).closed)
    (same : ∀ r, builtIn services w' r = builtIn services w r) (r : Resolver)
    (hopen : Open w' r) : w'.cache r = builtIn services w' r := by
  rw [same, hcache]
  exact h.caches r ((open_iff hclosed r).mp hopen)

omit [DecidableEq S] in
theorem cache_logged (w : World S E) (e : Event S E) (r : Resolver) :
    (w.logged e).cache r = w.cache r := by cases r <;> rfl

theorem given_got {w : World S E} {r r' : Resolver} {s s' : S} {x : Instance}
    (hg : Given services w r s x) (answer : Except (Failure S E) Instance) :
    Given services (w.logged (.got r' s' answer)) r s x := by
  have hsame : w.made <+: (w.logged (.got r' s' answer)).made := List.prefix_refl _
  exact given_grows hsame (fun _ => builtIn_got services w r' s' answer _ ▸ List.prefix_refl _) hg

theorem consistent_got {w : World S E} (h : Consistent services w) {r : Resolver} {s : S}
    {answer : Except (Failure S E) Instance}
    (hg : ∀ x, answer = .ok x → Given services w r s x)
    (hr : r = .root → lifetimeOf services s = some .scoped → answer = .error (.scopeRequired s)) :
    Consistent services (w.logged (.got r s answer)) := by
  have made : (w.logged (.got r s answer)).made = w.made := rfl
  have same := builtIn_got services w r s answer
  apply consistent_same h made (caches_grown h (cache_logged w _) (fun _ => rfl) same) same
  · intro s' r' x hm
    rcases mem_logged hm with hm | hm
    · exact hm
    · cases hm
  · intro r' s' x hm
    rcases mem_logged hm with hm | hm
    · exact Or.inl hm
    · cases hm
      exact Or.inr (given_got (hg x rfl) _)
  · intro s' a hm
    rcases mem_logged hm with hm | hm
    · exact Or.inl hm
    · cases hm
      exact Or.inr (hr rfl)

theorem consistent_calls {w : World S E} (h : Consistent services w) (n : ℕ) :
    Consistent services { w with calls := n } := by
  have made : ({ w with calls := n } : World S E).made = w.made := rfl
  apply consistent_same h made
  · exact caches_grown h (fun r => by cases r <;> rfl) (fun _ => rfl) (fun _ => rfl)
  · exact fun _ => rfl
  · exact fun _ _ _ hm => hm
  · exact fun _ _ _ hm => Or.inl hm
  · exact fun _ _ hm => Or.inl hm

/-! ## A factory call that returns -/

variable (services) in
/-- What the object of a factory call and the world it is in have to do with the world before. -/
structure Produced (w w' : World S E) (r : Resolver) (s : S) (x : Instance) : Prop where
  made : w.made <+: w'.made
  objects : ∀ m ∈ w'.made, m ∈ w.made ∨ Fits services w' m
  latest : ∀ y r', home w' y = some r' → Known w y ∨ y = x ∧ r' = r
  seen : Seen services w' r x
  ready : ∀ m, madeAs w' x = some m → ∀ y ∈ m.obtained, Known w y
  log : w'.log = w.log
  cache : ∀ r, w'.cache r = w.cache r
  closed : ∀ i, (w'.scopes i).closed = (w.scopes i).closed

omit [DecidableEq S] in
theorem existing_known {w : World S E} {x : Instance} (h : Known w x) : w.existing x = x := by
  cases x with
  | outside n => rfl
  | made n => exact if_pos h

omit [DecidableEq S] in
theorem known_existing (w : World S E) (x : Instance) : Known w (w.existing x) := by
  cases x with
  | outside n => trivial
  | made n =>
    rw [World.existing]
    split
    case isTrue h => exact h
    case isFalse => trivial

theorem produced_existing {w : World S E} (h : Consistent services w) {r : Resolver} {s : S}
    {obtained : List Instance} (ho : ∀ y ∈ obtained, Seen services w r y) {x : Instance}
    (hc : AllConfined services → (∃ n, x = .outside n) ∨ x ∈ obtained) :
    Produced services w w r s (w.existing x) where
  made := List.prefix_refl _
  objects := fun m hm => Or.inl hm
  latest := fun y r' hy => Or.inl (known_of_home hy)
  seen := by
    refine ⟨known_existing w x, fun hall => ?_⟩
    rcases hc hall with ⟨n, rfl⟩ | hx
    · exact Or.inl ⟨n, rfl⟩
    · rw [existing_known (ho x hx).known]
      exact (ho x hx).usable hall
  ready := fun m hm y hy => ((h.objects m (madeAs_mem hm)).obtained y hy).known
  log := rfl
  cache := fun _ => rfl
  closed := fun _ => rfl

omit [DecidableEq S] in
theorem madeAs_latest (w : World S E) (m : Made S) :
    madeAs { w with made := w.made ++ [m] } (.made w.made.length) = some m := by
  rw [madeAs]
  exact List.getElem?_concat_length

omit [DecidableEq S] in
theorem known_or_latest {w : World S E} {m : Made S} {y : Instance}
    (hy : Known { w with made := w.made ++ [m] } y) : Known w y ∨ y = .made w.made.length := by
  cases y with
  | outside n => exact Or.inl trivial
  | made n =>
    unfold Known at hy ⊢
    rw [List.length_append, List.length_singleton] at hy
    rcases Nat.lt_succ_iff_lt_or_eq.mp hy with hlt | heq
    · exact Or.inl hlt
    · exact Or.inr (heq ▸ rfl)

theorem produced_fresh {w : World S E} {r : Resolver} {s : S} {obtained : List Instance}
    (hr : lifetimeOf services s = some .scoped ↔ r ≠ .root)
    (ho : ∀ y ∈ obtained, Seen services w r y) :
    Produced services w { w with made := w.made ++ [⟨s, r, obtained⟩] } r s
      (.made w.made.length) := by
  have hmade := madeAs_latest w ⟨s, r, obtained⟩
  have hlonger : w.made <+: w.made ++ [⟨s, r, obtained⟩] := List.prefix_append _ _
  exact {
    made := hlonger
    objects := by
      intro m hm
      rcases List.mem_append.mp hm with hm | hm
      · exact Or.inl hm
      · rw [List.mem_singleton.mp hm]
        exact Or.inr ⟨hr, fun y hy => seen_grows hlonger (ho y hy)⟩
    latest := by
      intro y r' hy
      rcases known_or_latest (known_of_home hy) with hk | rfl
      · exact Or.inl hk
      · rw [home_of_madeAs hmade] at hy
        exact Or.inr ⟨rfl, (Option.some.inj hy).symm⟩
    seen := ⟨known_of_madeAs hmade, fun _ => Or.inr (Or.inr (home_of_madeAs hmade))⟩
    ready := by
      intro m hm y hy
      rw [hmade] at hm
      obtain rfl := Option.some.inj hm
      exact (ho y hy).known
    log := rfl
    cache := fun r => by cases r <;> rfl
    closed := fun _ => rfl }

theorem produced {w : World S E} (h : Consistent services w) {r : Resolver} {s : S}
    {obtained : List Instance} (hr : lifetimeOf services s = some .scoped ↔ r ≠ .root)
    (ho : ∀ y ∈ obtained, Seen services w r y) {product : Product}
    (hc : AllConfined services → ∀ x, product = .existing x →
      (∃ n, x = .outside n) ∨ x ∈ obtained) :
    Produced services w (produce s r obtained w product).2 r s
      (produce s r obtained w product).1 := by
  cases product with
  | fresh => exact produced_fresh hr ho
  | existing x => exact produced_existing h ho (fun hall => hc hall x rfl)

theorem builtIn_log {w w' : World S E} (h : w'.log = w.log) (r : Resolver) :
    builtIn services w' r = builtIn services w r := by
  rw [builtIn, h]
  rfl

theorem builtIn_produced {w w' : World S E} {r : Resolver} {s : S} {x : Instance}
    (hp : Produced services w w' r s x) (r' : Resolver) :
    builtIn services (w'.logged (.built s r x)) r' = builtIn services w r' ++
      if r = r' ∧ kept services r' s = true then [(s, x)] else [] := by
  rw [builtIn_built, builtIn_log hp.log]

theorem event_produced {w w' : World S E} {r : Resolver} {s : S} {x : Instance}
    (hp : Produced services w w' r s x) {e : Event S E}
    (he : e ∈ (w'.logged (.built s r x)).log) : e ∈ w.log ∨ e = .built s r x := by
  rcases mem_logged he with he | he
  · exact Or.inl (hp.log ▸ he)
  · exact Or.inr he

theorem consistent_passed {w w' : World S E} (h : Consistent services w) {r : Resolver} {s : S}
    {x : Instance} (hp : Produced services w w' r s x) (hb : Buildable services s r)
    (hroot : r = .root) (hk : kept services r s = false) :
    Consistent services (w'.logged (.built s r x)) := by
  have same : ∀ r', builtIn services (w'.logged (.built s r x)) r' = builtIn services w r' := by
    intro r'
    rw [builtIn_produced hp, if_neg, List.append_nil]
    rintro ⟨rfl, hk'⟩
    rw [hk] at hk'
    cases hk'
  have made : w.made <+: (w'.logged (.built s r x)).made := hp.made
  have hsame : w'.made <+: (w'.logged (.built s r x)).made := List.prefix_refl _
  apply consistent_built h hb (fun e he => event_produced hp he) made
  · exact fun m hm => (hp.objects m hm).imp id (fits_grows hsame)
  · intro r' hne y hy
    rcases hp.latest y r' hy with hy | ⟨-, rfl⟩
    · exact Or.inl hy
    · exact absurd hroot hne
  · exact caches_grown h (fun r => (cache_logged w' _ r).trans (hp.cache r)) hp.closed same
  · exact fun r' => .same (same r')

theorem cache_store (w : World S E) (s : S) (x : Instance) (r r' : Resolver) :
    (w.store s x r).cache r' = if r' = r then put (w.cache r) s x else w.cache r' := by
  cases r with
  | root => cases r' <;> rfl
  | scope i =>
    cases r' with
    | root => rfl
    | scope j =>
      by_cases hij : j = i
      · subst hij
        rw [if_pos rfl]
        change (Function.update w.scopes j _ j).instances = _
        rw [Function.update_self]
        rfl
      · rw [if_neg (by simpa using hij)]
        change (Function.update w.scopes i _ j).instances = _
        rw [Function.update_of_ne hij]
        rfl

theorem closed_store (w : World S E) (s : S) (x : Instance) (r : Resolver) (i : ℕ) :
    ((w.store s x r).scopes i).closed = (w.scopes i).closed := by
  cases r with
  | root => rfl
  | scope j =>
    by_cases hij : i = j
    · subst hij
      change (Function.update w.scopes i _ i).closed = _
      rw [Function.update_self]
    · change (Function.update w.scopes j _ i).closed = _
      rw [Function.update_of_ne hij]

@[simp] theorem log_store (w : World S E) (s : S) (x : Instance) (r : Resolver) :
    (w.store s x r).log = w.log := by cases r <;> rfl

@[simp] theorem made_store (w : World S E) (s : S) (x : Instance) (r : Resolver) :
    (w.store s x r).made = w.made := by cases r <;> rfl

theorem put_new {cache : Cache S} {s : S} (h : s ∉ cache.map Prod.fst) (x : Instance) :
    put cache s x = cache ++ [(s, x)] := by
  rw [put, if_neg h]

theorem consistent_kept {w w' : World S E} (h : Consistent services w) {r : Resolver} {s : S}
    {x : Instance} (hp : Produced services w w' r s x) (hb : Buildable services s r)
    (hopen : Open w r) (hk : kept services r s = true)
    (new : s ∉ (builtIn services w r).map Prod.fst)
    (own : ScopedFresh services → r ≠ .root → Own w' r s x) :
    Consistent services ((w'.logged (.built s r x)).store s x r) := by
  have built : ∀ r', builtIn services ((w'.logged (.built s r x)).store s x r) r' =
      builtIn services w r' ++ if r = r' ∧ kept services r' s = true then [(s, x)] else [] := by
    intro r'
    rw [builtIn_log (log_store _ s x r), builtIn_produced hp]
  have hclosed : ∀ i, (((w'.logged (.built s r x)).store s x r).scopes i).closed =
      (w.scopes i).closed := fun i => (closed_store _ s x r i).trans (hp.closed i)
  have hmade : ((w'.logged (.built s r x)).store s x r).made = w'.made := made_store _ s x r
  have hsame : w'.made <+: ((w'.logged (.built s r x)).store s x r).made :=
    hmade ▸ List.prefix_refl _
  have hlog : ∀ e, e ∈ ((w'.logged (.built s r x)).store s x r).log →
      e ∈ w.log ∨ e = .built s r x := by
    intro e he
    rw [log_store] at he
    exact event_produced hp he
  apply consistent_built h hb hlog (hp.made.trans hsame)
  · intro m hm
    rw [hmade] at hm
    exact (hp.objects m hm).imp id (fits_grows hsame)
  · intro r' hne y hy
    rw [home_same hmade] at hy
    rcases hp.latest y r' hy with hy | ⟨rfl, rfl⟩
    · exact Or.inl hy
    · right
      rw [built, if_pos ⟨rfl, hk⟩]
      simp
  · intro r' hopen'
    rw [open_iff hclosed] at hopen'
    have hcache : (w'.logged (.built s r x)).cache r' = w.cache r' :=
      (cache_logged _ _ r').trans (hp.cache r')
    rw [cache_store, built]
    by_cases hrr : r' = r
    · subst hrr
      rw [if_pos rfl, if_pos ⟨rfl, hk⟩, hcache, h.caches r' hopen, put_new new]
    · rw [if_neg hrr, if_neg (fun h => hrr h.1.symm), List.append_nil, hcache,
        h.caches r' hopen']
  · intro r'
    by_cases hrr : r = r'
    · subst hrr
      refine .added (by rw [built, if_pos ⟨rfl, hk⟩]) new (seen_grows hsame hp.seen) ?_
        (fun hf hne => own_grows hsame (own hf hne))
      intro m hm
      rw [madeAs_known hsame hp.seen.known] at hm
      exact hp.ready m hm
    · apply Extends.same
      rw [built, if_neg (fun h => hrr h.1), List.append_nil]

/-! ## Resolution -/

variable (services) in
/-- A registered service that resolving this one may lead to. -/
def Reaches (s t : S) : Prop :=
  t ∈ services.descriptors.map Prod.fst ∧ Relation.ReflTransGen (Asks services) s t

variable (services) in
/-- What one `get` does. -/
structure Served (w : World S E) (r : Resolver) (s : S) (a : Except (Failure S E) Instance)
    (w' : World S E) : Prop where
  consistent : Consistent services w'
  grows : Grows (Reaches services s) w w'
  given : ∀ x, a = .ok x → Given services w' r s x
  failed : ∀ e, a = .error e → Open w r → ∀ r', r' = .root ∨ r' = r →
    kept services r' s = true → s ∉ (builtIn services w' r').map Prod.fst

theorem lookup_none {A : Type} {entries : List (S × A)} {s : S} :
    entries.lookup s = none ↔ s ∉ entries.map Prod.fst := by
  rw [List.lookup_eq_none_iff]
  constructor
  · intro h hm
    obtain ⟨entry, he, rfl⟩ := List.mem_map.mp hm
    simpa using h entry he
  · intro h entry he
    rw [bne_iff_ne]
    rintro rfl
    exact h (List.mem_map_of_mem he)

theorem lookup_registered {s : S} {descriptor : ServiceDescriptor S E}
    (h : services.descriptors.lookup s = some descriptor) :
    s ∈ services.descriptors.map Prod.fst := by
  by_contra hs
  rw [lookup_none.mpr hs] at h
  cases h

theorem lifetimeOf_lookup {s : S} {descriptor : ServiceDescriptor S E}
    (hd : services.descriptors.lookup s = some descriptor) :
    lifetimeOf services s = some descriptor.lifetime := by
  rw [lifetimeOf, hd]
  rfl

/-- What is reached through a service that is asked for is asked for, if indirectly. -/
theorem transGen_of_may {s t u : S} {descriptor : ServiceDescriptor S E} {k : ℕ}
    (hd : services.descriptors.lookup s = some descriptor) (ht : May (descriptor.factory k) t)
    (hu : Reaches services t u) : Relation.TransGen (Asks services) s u := by
  obtain ⟨hreg, hu⟩ := hu
  rcases Relation.ReflTransGen.cases_head hu with rfl | ⟨v, htv, hvu⟩
  · exact .single ⟨hreg, descriptor, k, hd, ht⟩
  · obtain ⟨-, descriptor', -, hd', -⟩ := htv
    have hst : Asks services s t := ⟨lookup_registered hd', descriptor, k, hd, ht⟩
    exact Relation.TransGen.head' hst hu

section
variable {ask : S → World S E → Answer S E} {r : Resolver} {may reach : S → Prop}

/-- A factory keeps what each of its requests keeps. -/
theorem runFactory_spec
    (hask : ∀ t w a w', may t → Consistent services w → Open w r → ask t w = some (a, w') →
      Consistent services w' ∧ Grows reach w w' ∧ ∀ x, a = .ok x → Given services w' r t x)
    (p : Factory S E) (hp : ∀ t, May p t → may t) {obtained : List Instance} {w w' : World S E}
    {res : Except (Failure S E) (Product × List Instance)} (h : Consistent services w)
    (hopen : Open w r) (ho : ∀ y ∈ obtained, Seen services w r y)
    (hrun : runFactory ask p obtained w = some (res, w')) :
    Consistent services w' ∧ Grows reach w w' ∧ ∀ product obtained',
      res = .ok (product, obtained') → (∀ y ∈ obtained', Seen services w' r y) ∧
        (Confined p obtained → ∀ x, product = .existing x →
          (∃ n, x = .outside n) ∨ x ∈ obtained') ∧
        (MakesFresh p → product = .fresh) ∧
        ∀ t, Insists t p → r = .root → ¬ Barred services t := by
  induction p generalizing obtained w with
  | done product =>
    cases hrun
    refine ⟨h, grows_refl _ _, ?_⟩
    rintro product' obtained' ⟨⟩
    refine ⟨ho, ?_, fun hf => hf, fun t hi => hi.elim⟩
    rintro hc x rfl
    exact hc
  | raised e =>
    cases hrun
    exact ⟨h, grows_refl _ _, fun _ _ he => by cases he⟩
  | call t next ih =>
    rw [runFactory] at hrun
    have hnext : ∀ reply t', May (next reply) t' → may t' :=
      fun reply t' ht => hp t' (Or.inr ⟨reply, ht⟩)
    cases ha : ask t w with
    | none =>
      rw [ha] at hrun
      cases hrun
    | some answer =>
      obtain ⟨a, w₁⟩ := answer
      obtain ⟨h₁, hg, hgiven⟩ := hask t w a w₁ (hp t (Or.inl rfl)) h hopen ha
      have hopen₁ := (open_iff hg.closed r).mpr hopen
      have hold : ∀ y ∈ obtained, Seen services w₁ r y :=
        fun y hy => seen_grows hg.made (ho y hy)
      rw [ha] at hrun
      cases a with
      | error e =>
        obtain ⟨h', hg', hres⟩ := ih (.error e) (hnext _) h₁ hopen₁ hold hrun
        refine ⟨h', grows_trans hg hg', fun product obtained' he => ?_⟩
        obtain ⟨hseen, hreturned, hfresh, hfree⟩ := hres product obtained' he
        exact ⟨hseen, fun hc => hreturned (hc.2 e), fun hf => hfresh (hf _),
          fun t' hi => hfree t' (hi.1 e)⟩
      | ok x =>
        have hseen : ∀ y ∈ obtained ++ [x], Seen services w₁ r y := by
          intro y hy
          rcases List.mem_append.mp hy with hy | hy
          · exact hold y hy
          · rw [List.mem_singleton.mp hy]
            exact seen_of_given (hgiven x rfl)
        obtain ⟨h', hg', hres⟩ := ih (.ok x) (hnext _) h₁ hopen₁ hseen hrun
        refine ⟨h', grows_trans hg hg', fun product obtained' he => ?_⟩
        obtain ⟨hseen, hreturned, hfresh, hfree⟩ := hres product obtained' he
        refine ⟨hseen, fun hc => hreturned (hc.1 x), fun hf => hfresh (hf _),
          fun t' hi hroot => ?_⟩
        rcases hi.2 with rfl | hi
        · exact (hgiven x rfl).free (Or.inl hroot)
        · exact hfree t' (hi x) hroot

theorem not_barred {s : S} {descriptor : ServiceDescriptor S E}
    (hd : services.descriptors.lookup s = some descriptor)
    (hr : lifetimeOf services s = some .scoped ↔ r ≠ .root) {k : ℕ}
    (hfree : ∀ t, Insists t (descriptor.factory k) → ¬ Barred services t) (hroot : r = .root) :
    ¬ Barred services s := by
  intro hb
  cases hb with
  | perScope hd' hs =>
    apply hr.mp _ hroot
    rw [lifetimeOf_lookup hd', hs]
  | captive hd' t ht hi =>
    obtain rfl := Option.some.inj (hd.symm.trans hd')
    exact hfree (t k) (hi k) (ht k)

theorem grows_produced {w w' : World S E} {s : S} {x : Instance}
    (hp : Produced services w w' r s x) : Grows reach w w' :=
  ⟨hp.made, hp.closed, [], by rw [hp.log, List.append_nil], by simp⟩

theorem callFactory_spec {s : S} {descriptor : ServiceDescriptor S E}
    (hd : services.descriptors.lookup s = some descriptor)
    (hask : ∀ t w a w', may t → Consistent services w → Open w r → ask t w = some (a, w') →
      Consistent services w' ∧ Grows reach w w' ∧ ∀ x, a = .ok x → Given services w' r t x)
    (hmay : ∀ k t, May (descriptor.factory k) t → may t)
    (hr : lifetimeOf services s = some .scoped ↔ r ≠ .root) {w w' : World S E}
    {a : Except (Failure S E) Instance} (h : Consistent services w) (hopen : Open w r)
    (hcall : callFactory ask s descriptor r w = some (a, w')) :
    ∃ w₁, Consistent services w₁ ∧ Grows reach w w₁ ∧ ((∃ e, a = .error e ∧ w' = w₁) ∨
      ∃ x w₂, a = .ok x ∧ w' = w₂.logged (.built s r x) ∧ Produced services w₁ w₂ r s x ∧
        Buildable services s r ∧
        ((∀ k, MakesFresh (descriptor.factory k)) → Own w₂ r s x)) := by
  unfold callFactory at hcall
  have h₀ := consistent_calls h (w.calls+1)
  have hg₀ : Grows reach w { w with calls := w.calls+1 } :=
    ⟨List.prefix_refl _, fun _ => rfl, [], (List.append_nil _).symm, by simp⟩
  cases hrun : runFactory ask (descriptor.factory w.calls) [] { w with calls := w.calls+1 } with
  | none =>
    rw [hrun] at hcall
    cases hcall
  | some result =>
    obtain ⟨res, w₁⟩ := result
    obtain ⟨h₁, hg, hres⟩ := runFactory_spec hask _ (hmay w.calls) h₀
      ((open_iff hg₀.closed r).mpr hopen) (by simp) hrun
    have hgrows := grows_trans hg₀ hg
    rw [hrun] at hcall
    cases res with
    | error e =>
      cases hcall
      exact ⟨_, h₁, hgrows, Or.inl ⟨e, rfl, rfl⟩⟩
    | ok result =>
      obtain ⟨product, obtained⟩ := result
      obtain ⟨hseen, hreturned, hfresh, hfree⟩ := hres product obtained rfl
      cases hcall
      refine ⟨w₁, h₁, hgrows, Or.inr ⟨_, _, rfl, rfl,
        produced h₁ hr hseen (fun hall => hreturned (hall s descriptor w.calls hd)),
        ⟨hr, fun hroot hb => ?_⟩, fun hf => ?_⟩⟩
      · exact not_barred hd hr (fun t hi => hfree t hi hroot) hroot hb
      · rw [hfresh (hf w.calls)]
        exact ⟨_, madeAs_latest w₁ _, rfl, rfl⟩

theorem kept_iff {s : S} {descriptor : ServiceDescriptor S E}
    (hd : services.descriptors.lookup s = some descriptor)
    (hr : lifetimeOf services s = some .scoped ↔ r ≠ .root) :
    kept services r s = true ↔ descriptor.lifetime ≠ .transient := by
  rw [lifetimeOf_lookup hd, Option.some.injEq] at hr
  cases r with
  | root =>
    rw [kept, lifetimeOf_lookup hd, decide_eq_true_eq, Option.some.injEq]
    cases hl : descriptor.lifetime with
    | singleton => simp
    | transient => simp
    | «scoped» => exact absurd rfl (hr.mp hl)
  | scope i =>
    rw [kept, lifetimeOf_lookup hd, decide_eq_true_eq, Option.some.injEq, hr.mpr (by simp)]
    simp

theorem grows_store (w : World S E) (s : S) (x : Instance) : Grows reach w (w.store s x r) :=
  ⟨made_store w s x r ▸ List.prefix_refl _, closed_store w s x r, [], by simp, by simp⟩

/-- What was not cached is not cached while the services it leads to are built. -/
theorem not_built {w w' : World S E} {s : S} (hacyclic : Acyclic services)
    (hg : Grows (Relation.TransGen (Asks services) s) w w')
    (h : s ∉ (builtIn services w r).map Prod.fst) :
    s ∉ (builtIn services w' r).map Prod.fst := by
  obtain ⟨new, hnew, hreach⟩ := builtIn_grows services hg r
  rw [hnew, List.map_append, List.mem_append, not_or]
  refine ⟨h, fun hm => ?_⟩
  obtain ⟨entry, he, hs⟩ := List.mem_map.mp hm
  obtain ⟨ht, -⟩ := hreach entry he
  rw [hs] at ht
  exact hacyclic s ht

theorem reaches_of_transGen {s t : S} (h : Relation.TransGen (Asks services) s t) :
    Reaches services s t := by
  obtain ⟨u, -, hut⟩ := Relation.TransGen.tail'_iff.mp h
  exact ⟨hut.1, h.to_reflTransGen⟩

theorem root_of_buildable {s : S} (hb : Buildable services s r)
    (hs : lifetimeOf services s ≠ some .scoped) : r = .root := by
  by_contra hne
  exact hs (hb.resolver.mpr hne)

theorem given_kept {w : World S E} {s : S} {x : Instance} (hb : Buildable services s r)
    (hseen : Seen services w r x) (hm : (s, x) ∈ builtIn services w r) :
    Given services w r s x where
  known := hseen.known
  usable := hseen.usable
  shared := fun hall hs => root_of_buildable hb hs ▸ hseen.usable hall
  singleton := fun hs => root_of_buildable hb (by simp [hs]) ▸ hm
  scope := fun hs => ⟨hb.resolver.mp hs, hm⟩
  free := fun hs => hb.free (hs.elim id (root_of_buildable hb))

theorem given_passed {w : World S E} {s : S} {x : Instance} (hb : Buildable services s .root)
    (hseen : Seen services w .root x) (hl : lifetimeOf services s = some .transient) :
    Given services w .root s x where
  known := hseen.known
  usable := hseen.usable
  shared := fun hall _ => hseen.usable hall
  singleton := by
    intro hs
    rw [hl] at hs
    cases hs
  scope := by
    intro hs
    rw [hl] at hs
    cases hs
  free := fun _ => hb.free rfl

variable (services) in
/-- What resolving a registered service does. -/
structure Resolved (w : World S E) (r : Resolver) (s : S) (a : Except (Failure S E) Instance)
    (w' : World S E) : Prop where
  consistent : Consistent services w'
  grows : Grows (Reaches services s) w w'
  given : ∀ x, a = .ok x → Given services w' r s x
  failed : ∀ e, a = .error e → kept services r s = true →
    s ∉ (builtIn services w' r).map Prod.fst

theorem resolved_failed {w w₁ : World S E} {s : S} (e : Failure S E)
    (h : Consistent services w₁) (hg : Grows (Relation.TransGen (Asks services) s) w w₁)
    (hn : kept services r s = true → s ∉ (builtIn services w₁ r).map Prod.fst) :
    Resolved services w r s (.error e) w₁ where
  consistent := h
  grows := grows_mono (fun _ ht => reaches_of_transGen ht) hg
  given := fun x hx => by cases hx
  failed := fun _ _ => hn

theorem resolved_cached {w : World S E} {s : S} {x : Instance} (h : Consistent services w)
    (hm : (s, x) ∈ builtIn services w r) : Resolved services w r s (.ok x) w where
  consistent := h
  grows := grows_refl _ _
  given := by
    rintro x' ⟨⟩
    exact given_kept (h.builders s r x (mem_builtIn.mp hm).1) (h.entries r s x hm) hm
  failed := fun e he => by cases he

theorem resolved_passed {w w₁ w₂ : World S E} {s : S} {x : Instance}
    (h : Consistent services w₁) (hg : Grows (Relation.TransGen (Asks services) s) w w₁)
    (hself : Reaches services s s) (hp : Produced services w₁ w₂ .root s x)
    (hb : Buildable services s .root) (hl : lifetimeOf services s = some .transient) :
    Resolved services w .root s (.ok x) (w₂.logged (.built s .root x)) where
  consistent := consistent_passed h hp hb rfl (by simp [kept, hl])
  grows := grows_trans (grows_mono (fun _ ht => reaches_of_transGen ht) hg)
    (grows_trans (grows_produced hp) (grows_built x hself trivial))
  given := by
    rintro x' ⟨⟩
    have hsame : w₂.made <+: (w₂.logged (.built s .root x)).made := List.prefix_refl _
    exact given_passed hb (seen_grows hsame hp.seen) hl
  failed := fun e he => by cases he

theorem resolved_kept {w w₁ w₂ : World S E} {s : S} {x : Instance}
    (h : Consistent services w₁) (hg : Grows (Relation.TransGen (Asks services) s) w w₁)
    (hself : Reaches services s s) (hp : Produced services w₁ w₂ r s x)
    (hb : Buildable services s r) (hopen : Open w₁ r) (hk : kept services r s = true)
    (new : s ∉ (builtIn services w₁ r).map Prod.fst)
    (own : ScopedFresh services → r ≠ .root → Own w₂ r s x) :
    Resolved services w r s (.ok x) ((w₂.logged (.built s r x)).store s x r) where
  consistent := consistent_kept h hp hb hopen hk new own
  grows := grows_trans (grows_mono (fun _ ht => reaches_of_transGen ht) hg)
    (grows_trans (grows_produced hp) (grows_trans
      (grows_built x hself ((open_iff hp.closed r).mpr hopen)) (grows_store _ s x)))
  given := by
    rintro x' ⟨⟩
    have hsame : w₂.made <+: ((w₂.logged (.built s r x)).store s x r).made :=
      made_store (w₂.logged (.built s r x)) s x r ▸ List.prefix_refl _
    have hbuilt : (s, x) ∈ builtIn services ((w₂.logged (.built s r x)).store s x r) r := by
      rw [builtIn_log (log_store _ s x r), builtIn_built, if_pos ⟨rfl, hk⟩]
      simp
    exact given_kept hb (seen_grows hsame hp.seen) hbuilt
  failed := fun e he => by cases he

theorem resolve_spec {s : S} {descriptor : ServiceDescriptor S E} (hacyclic : Acyclic services)
    (hd : services.descriptors.lookup s = some descriptor)
    (hask : ∀ t w a w', (∃ k, May (descriptor.factory k) t) → Consistent services w → Open w r →
      ask t w = some (a, w') → Consistent services w' ∧
        Grows (Relation.TransGen (Asks services) s) w w' ∧ ∀ x, a = .ok x → Given services w' r t x)
    (hr : lifetimeOf services s = some .scoped ↔ r ≠ .root) {w w' : World S E}
    {a : Except (Failure S E) Instance} (h : Consistent services w) (hopen : Open w r)
    (hres : resolve ask s descriptor r w = some (a, w')) : Resolved services w r s a w' := by
  have hself : Reaches services s s := ⟨lookup_registered hd, .refl⟩
  have hspec := fun {w w' : World S E} {a} (h : Consistent services w) (hopen : Open w r)
      (hcall : callFactory _ s descriptor r w = some (a, w')) =>
    callFactory_spec hd hask (fun k t ht => ⟨k, ht⟩) hr h hopen hcall
  have hkept := kept_iff hd hr
  unfold resolve at hres
  split at hres
  case isTrue ht =>
    have hl : lifetimeOf services s = some .transient := by rw [lifetimeOf_lookup hd, ht]
    obtain ⟨w₁, h₁, hg, ⟨e, rfl, rfl⟩ | ⟨x, w₂, rfl, rfl, hp, hb, -⟩⟩ := hspec h hopen hres
    · exact resolved_failed e h₁ hg (fun hk => absurd ht (hkept.mp hk))
    · obtain rfl := root_of_buildable hb (by simp [hl])
      exact resolved_passed h₁ hg hself hp hb hl
  case isFalse ht =>
    have hcache := h.caches r hopen
    cases hl : (w.cache r).lookup s with
    | some x =>
      rw [hl] at hres
      cases hres
      apply resolved_cached h
      obtain ⟨before, after, he, -⟩ := List.lookup_eq_some_iff.mp hl
      rw [← hcache, he]
      simp
    | none =>
      have hnew : s ∉ (builtIn services w r).map Prod.fst := by
        rw [← hcache]
        exact lookup_none.mp hl
      rw [hl] at hres
      cases hcall : callFactory ask s descriptor r w with
      | none =>
        rw [hcall] at hres
        cases hres
      | some answer =>
        obtain ⟨a', w₀⟩ := answer
        rw [hcall] at hres
        obtain ⟨w₁, h₁, hg, ⟨e, rfl, rfl⟩ | ⟨x, w₂, rfl, rfl, hp, hb, hown⟩⟩ :=
          hspec h hopen hcall
        · cases hres
          exact resolved_failed e h₁ hg (fun _ => not_built hacyclic hg hnew)
        · cases hres
          apply resolved_kept h₁ hg hself hp hb ((open_iff hg.closed r).mpr hopen) (hkept.mpr ht)
            (not_built hacyclic hg hnew)
          intro hf hne
          have hs := hr.mpr hne
          rw [lifetimeOf_lookup hd, Option.some.injEq] at hs
          exact hown (fun k => hf s descriptor k hd hs)

end

theorem served_refused {w : World S E} (h : Consistent services w) (r : Resolver) (s : S)
    (e : Failure S E) (hn : Open w r → ∀ r', r' = .root ∨ r' = r → kept services r' s = false) :
    Served services w r s (.error e) w where
  consistent := h
  grows := grows_refl _ _
  given := fun x hx => by cases hx
  failed := by
    intro e' _ hopen r' hr' hk
    rw [hn hopen r' hr'] at hk
    cases hk

theorem not_kept {s : S} (hs : services.descriptors.lookup s = none) (r : Resolver) :
    kept services r s = false := by
  have hl : lifetimeOf services s = none := by
    rw [lifetimeOf, hs]
    rfl
  cases r <;> simp [kept, hl]

theorem served_got {w w' : World S E} {r : Resolver} {s : S} {a : Except (Failure S E) Instance}
    (hserved : Served services w r s a w')
    (hr : r = .root → lifetimeOf services s = some .scoped → a = .error (.scopeRequired s)) :
    Served services w r s a (w'.logged (.got r s a)) where
  consistent := consistent_got hserved.consistent hserved.given hr
  grows := grows_trans hserved.grows (grows_got _ _ _ _)
  given := fun x hx => given_got (hserved.given x hx) a
  failed := by
    intro e he hopen r' hr' hk
    rw [builtIn_got]
    exact hserved.failed e he hopen r' hr' hk

section
variable {ask : Resolver → S → World S E → Answer S E}
  (hask : ∀ r s w a w', Consistent services w → ask r s w = some (a, w') →
    Served services w r s a w')
include hask

theorem nested_served {s : S} {descriptor : ServiceDescriptor S E}
    (hd : services.descriptors.lookup s = some descriptor) (r : Resolver) (t : S)
    (w : World S E) (a : Except (Failure S E) Instance) (w' : World S E)
    (ht : ∃ k, May (descriptor.factory k) t) (h : Consistent services w) (_ : Open w r)
    (hget : ask r t w = some (a, w')) : Consistent services w' ∧
      Grows (Relation.TransGen (Asks services) s) w w' ∧
      ∀ x, a = .ok x → Given services w' r t x := by
  obtain ⟨k, ht⟩ := ht
  have hserved := hask r t w a w' h hget
  exact ⟨hserved.consistent, grows_mono (fun u hu => transGen_of_may hd ht hu) hserved.grows,
    hserved.given⟩

theorem provider_served (hacyclic : Acyclic services) {s : S} {w w' : World S E}
    {a : Except (Failure S E) Instance} (h : Consistent services w)
    (hget : ServiceProvider.get services ask s w = some (a, w')) :
    Served services w .root s a w' ∧
      (lifetimeOf services s = some .scoped → a = .error (.scopeRequired s)) := by
  unfold ServiceProvider.get at hget
  cases hd : services.descriptors.lookup s with
  | none =>
    rw [hd] at hget
    cases hget
    refine ⟨served_refused h .root s _ (fun _ r' _ => not_kept hd r'), fun hs => ?_⟩
    rw [lifetimeOf, hd] at hs
    cases hs
  | some descriptor =>
    rw [hd] at hget
    dsimp only at hget
    have hl := lifetimeOf_lookup hd
    split at hget
    case isTrue hs =>
      cases hget
      refine ⟨served_refused h .root s _ ?_, fun _ => rfl⟩
      rintro - r' hr'
      rw [or_self] at hr'
      subst hr'
      simp [kept, hl, hs]
    case isFalse hs =>
      have hr : lifetimeOf services s = some .scoped ↔ Resolver.root ≠ .root := by
        simp [hl, hs]
      obtain ⟨h', hg, hgiven, hfailed⟩ :=
        resolve_spec hacyclic hd (nested_served hask hd .root) hr h trivial hget
      refine ⟨⟨h', hg, hgiven, ?_⟩, fun hs' => absurd (hr.mp hs') (by simp)⟩
      rintro e he - r' hr' hk
      rw [or_self] at hr'
      subst hr'
      exact hfailed e he hk

theorem scope_served (hacyclic : Acyclic services) {i : ℕ} {s : S} {w w' : World S E}
    {a : Except (Failure S E) Instance} (h : Consistent services w)
    (hget : ServiceScope.get services ask i s w = some (a, w')) :
    Served services w (.scope i) s a w' := by
  unfold ServiceScope.get at hget
  split at hget
  case isTrue hclosed =>
    cases hget
    apply served_refused h
    intro hopen
    rw [Open, hclosed] at hopen
    cases hopen
  case isFalse hclosed =>
    have hopen : Open w (.scope i) := Bool.eq_false_iff.mpr hclosed
    cases hd : services.descriptors.lookup s with
    | none =>
      rw [hd] at hget
      cases hget
      exact served_refused h _ s _ (fun _ r' _ => not_kept hd r')
    | some descriptor =>
      rw [hd] at hget
      dsimp only at hget
      have hl := lifetimeOf_lookup hd
      split at hget
      case isTrue hs =>
        have hr : lifetimeOf services s = some .scoped ↔ Resolver.scope i ≠ .root := by
          simp [hl, hs]
        obtain ⟨h', hg, hgiven, hfailed⟩ :=
          resolve_spec hacyclic hd (nested_served hask hd (.scope i)) hr h hopen hget
        refine ⟨h', hg, hgiven, ?_⟩
        rintro e he - r' (rfl | rfl) hk
        · rw [kept, hl, hs] at hk
          simp at hk
        · exact hfailed e he hk
      case isFalse hs =>
        obtain ⟨hserved, -⟩ := provider_served hask hacyclic h hget
        have hns : lifetimeOf services s ≠ some .scoped := by simp [hl, hs]
        refine ⟨hserved.consistent, hserved.grows, ?_, ?_⟩
        · intro x hx
          have hg := hserved.given x hx
          have hu : AllConfined services → Usable w' (.scope i) x := by
            intro hall
            rcases hg.usable hall with hu | hu | hu
            · exact Or.inl hu
            · exact Or.inr (Or.inl hu)
            · exact Or.inr (Or.inl hu)
          exact ⟨hg.known, hu, hg.shared, hg.singleton, fun hs => absurd hs hns,
            fun _ => hg.free (Or.inl rfl)⟩
        · rintro e he - r' (rfl | rfl) hk
          · exact hserved.failed e he trivial .root (Or.inl rfl) hk
          · rw [kept, hl] at hk
            simp [hs] at hk

end

/-- Every `get`, at any depth, keeps the invariant. -/
theorem get_served (hacyclic : Acyclic services) (depth : ℕ)
    (r : Resolver) (s : S) (w : World S E) (a : Except (Failure S E) Instance) (w' : World S E)
    (h : Consistent services w) (hget : get services depth r s w = some (a, w')) :
    Served services w r s a w' := by
  induction depth generalizing r s w a w' with
  | zero => cases hget
  | succ depth ih =>
    cases r with
    | root =>
      rw [Container.get, Option.map_eq_some_iff] at hget
      obtain ⟨⟨a', w₁⟩, hget, he⟩ := hget
      cases he
      obtain ⟨hserved, hr⟩ := provider_served ih hacyclic h hget
      exact served_got hserved (fun _ => hr)
    | scope i =>
      rw [Container.get, Option.map_eq_some_iff] at hget
      obtain ⟨⟨a', w₁⟩, hget, he⟩ := hget
      cases he
      have hserved := scope_served ih hacyclic h hget
      exact served_got hserved (fun hr => by cases hr)

/-! ## Requests without the invariant -/

abbrev Ahead (w w' : World S E) : Prop := Grows (fun _ => True) w w'

omit [DecidableEq S] in
theorem ahead_produce (w : World S E) (s : S) (r : Resolver) (obtained : List Instance)
    (product : Product) : Ahead w (produce s r obtained w product).2 := by
  cases product with
  | fresh => exact ⟨List.prefix_append _ _, fun _ => rfl, [], (List.append_nil _).symm, by simp⟩
  | existing x => exact grows_refl _ _

omit [DecidableEq S] in
theorem runFactory_ahead {ask : S → World S E → Answer S E}
    (hask : ∀ t w a w', ask t w = some (a, w') → Ahead w w') (p : Factory S E)
    {obtained : List Instance} {w w' : World S E}
    {res : Except (Failure S E) (Product × List Instance)}
    (hrun : runFactory ask p obtained w = some (res, w')) : Ahead w w' := by
  induction p generalizing obtained w with
  | done product =>
    cases hrun
    exact grows_refl _ _
  | raised e =>
    cases hrun
    exact grows_refl _ _
  | call t next ih =>
    rw [runFactory] at hrun
    cases ha : ask t w with
    | none =>
      rw [ha] at hrun
      cases hrun
    | some answer =>
      obtain ⟨a, w₁⟩ := answer
      rw [ha] at hrun
      have hg := hask t w a w₁ ha
      cases a with
      | ok x => exact grows_trans hg (ih (.ok x) hrun)
      | error e => exact grows_trans hg (ih (.error e) hrun)

omit [DecidableEq S] in
theorem callFactory_ahead {ask : S → World S E → Answer S E}
    (hask : ∀ t w a w', ask t w = some (a, w') → Ahead w w') {s : S}
    {descriptor : ServiceDescriptor S E} {r : Resolver} {w w' : World S E}
    {a : Except (Failure S E) Instance} (hopen : Open w r)
    (hcall : callFactory ask s descriptor r w = some (a, w')) : Ahead w w' := by
  unfold callFactory at hcall
  have hg₀ : Ahead w { w with calls := w.calls+1 } :=
    ⟨List.prefix_refl _, fun _ => rfl, [], (List.append_nil _).symm, by simp⟩
  cases hrun : runFactory ask (descriptor.factory w.calls) [] { w with calls := w.calls+1 } with
  | none =>
    rw [hrun] at hcall
    cases hcall
  | some result =>
    obtain ⟨res, w₁⟩ := result
    have hg := grows_trans hg₀ (runFactory_ahead hask _ hrun)
    rw [hrun] at hcall
    cases res with
    | error e =>
      cases hcall
      exact hg
    | ok result =>
      obtain ⟨product, obtained⟩ := result
      have hg' := grows_trans hg (ahead_produce w₁ s r obtained product)
      cases hcall
      exact grows_trans hg' (grows_built _ trivial ((open_iff hg'.closed r).mpr hopen))

theorem resolve_ahead {ask : S → World S E → Answer S E}
    (hask : ∀ t w a w', ask t w = some (a, w') → Ahead w w') {s : S}
    {descriptor : ServiceDescriptor S E} {r : Resolver} {w w' : World S E}
    {a : Except (Failure S E) Instance} (hopen : Open w r)
    (hres : resolve ask s descriptor r w = some (a, w')) : Ahead w w' := by
  unfold resolve at hres
  split at hres
  case isTrue => exact callFactory_ahead hask hopen hres
  case isFalse =>
    cases hl : (w.cache r).lookup s with
    | some x =>
      rw [hl] at hres
      cases hres
      exact grows_refl _ _
    | none =>
      rw [hl] at hres
      cases hcall : callFactory ask s descriptor r w with
      | none =>
        rw [hcall] at hres
        cases hres
      | some answer =>
        obtain ⟨a', w₁⟩ := answer
        have hg := callFactory_ahead hask hopen hcall
        rw [hcall] at hres
        cases a' with
        | error e =>
          cases hres
          exact hg
        | ok x =>
          cases hres
          exact grows_trans hg (grows_store _ s x)

theorem provider_ahead {ask : Resolver → S → World S E → Answer S E}
    (hask : ∀ r t w a w', ask r t w = some (a, w') → Ahead w w') {s : S} {w w' : World S E}
    {a : Except (Failure S E) Instance}
    (hget : ServiceProvider.get services ask s w = some (a, w')) : Ahead w w' := by
  unfold ServiceProvider.get at hget
  cases hd : services.descriptors.lookup s with
  | none =>
    rw [hd] at hget
    cases hget
    exact grows_refl _ _
  | some descriptor =>
    rw [hd] at hget
    dsimp only at hget
    split at hget
    case isTrue =>
      cases hget
      exact grows_refl _ _
    case isFalse => exact resolve_ahead (r := .root) (hask .root) trivial hget

theorem scope_ahead {ask : Resolver → S → World S E → Answer S E}
    (hask : ∀ r t w a w', ask r t w = some (a, w') → Ahead w w') {i : ℕ} {s : S}
    {w w' : World S E} {a : Except (Failure S E) Instance}
    (hget : ServiceScope.get services ask i s w = some (a, w')) : Ahead w w' := by
  unfold ServiceScope.get at hget
  split at hget
  case isTrue =>
    cases hget
    exact grows_refl _ _
  case isFalse hclosed =>
    cases hd : services.descriptors.lookup s with
    | none =>
      rw [hd] at hget
      cases hget
      exact grows_refl _ _
    | some descriptor =>
      rw [hd] at hget
      dsimp only at hget
      split at hget
      case isTrue =>
        have hopen : Open w (.scope i) := Bool.eq_false_iff.mpr hclosed
        exact resolve_ahead (hask (.scope i)) hopen hget
      case isFalse => exact provider_ahead hask hget

/-- A `get` closes no scope and disposes of nothing. -/
theorem get_ahead {depth : ℕ} {r : Resolver} {s : S} {w w' : World S E}
    {a : Except (Failure S E) Instance} (hget : get services depth r s w = some (a, w')) :
    Ahead w w' := by
  induction depth generalizing r s w a w' with
  | zero => cases hget
  | succ depth ih =>
    cases r with
    | root =>
      rw [Container.get, Option.map_eq_some_iff] at hget
      obtain ⟨⟨a', w₁⟩, hget, he⟩ := hget
      cases he
      exact grows_trans (provider_ahead (fun _ _ _ _ _ h => ih h) hget) (grows_got _ _ _ _)
    | scope i =>
      rw [Container.get, Option.map_eq_some_iff] at hget
      obtain ⟨⟨a', w₁⟩, hget, he⟩ := hget
      cases he
      exact grows_trans (scope_ahead (fun _ _ _ _ _ h => ih h) hget) (grows_got _ _ _ _)

/-! ## Closing -/

variable (methods : Instance → Methods E)

/-- The instances a closing scope comes to: it stops at the first that raises. -/
def attempts : List Instance → List Instance
  | [] => []
  | x::xs => x :: match dispose (methods x) with
    | .ok _ => attempts xs
    | .error _ => []

omit [DecidableEq S] in
theorem disposeAll_spec (i : ℕ) (xs : List Instance) (w : World S E) :
    (disposeAll methods i xs w).2 =
      { w with log := w.log ++ (attempts methods xs).map (.disposed i) } := by
  induction xs generalizing w with
  | nil => simp [disposeAll, attempts]
  | cons x xs ih =>
    rw [disposeAll, attempts]
    cases dispose (methods x) with
    | ok u =>
      dsimp only
      rw [ih]
      simp [World.logged]
    | error e => rfl

/-- What one `close` of an open scope does. -/
structure Closed (i : ℕ) (w w' : World S E) : Prop where
  made : w'.made = w.made
  log : w'.log = w.log ++ (attempts methods ((w.scopes i).instances.map Prod.snd).reverse).map
    (.disposed i)
  closed : (w'.scopes i).closed = true
  others : ∀ j, j ≠ i → w'.scopes j = w.scopes j
  singletons : w'.singletons = w.singletons

omit [DecidableEq S] in
theorem close_spec {i : ℕ} {w : World S E} (h : (w.scopes i).closed = false) :
    Closed methods i w (close methods i w).2 := by
  have hspec := disposeAll_spec methods i ((w.scopes i).instances.map Prod.snd).reverse
    (w.setScope i ⟨(w.scopes i).instances, true⟩)
  rw [close, if_neg (by simp [h])]
  dsimp only
  split
  case h_1 u w' he =>
    rw [he] at hspec
    subst hspec
    refine ⟨rfl, rfl, ?_, ?_, rfl⟩
    · simp [World.setScope]
    · intro j hj
      simp [World.setScope, Function.update_of_ne hj]
  case h_2 e w' he =>
    rw [he] at hspec
    subst hspec
    refine ⟨rfl, rfl, ?_, ?_, rfl⟩
    · simp [World.setScope]
    · intro j hj
      simp [World.setScope, Function.update_of_ne hj]

omit [DecidableEq S] in
theorem close_closed {i : ℕ} {w : World S E} (h : (w.scopes i).closed = true) :
    close methods i w = (.ok (), w) := by
  rw [close, if_pos h]

variable (services) in
theorem builtIn_disposed {w w' : World S E} {i : ℕ} {xs : List Instance}
    (h : w'.log = w.log ++ xs.map (.disposed i)) (r : Resolver) :
    builtIn services w' r = builtIn services w r := by
  rw [builtIn_append h]
  simp [List.filterMap_map]

theorem consistent_close {w : World S E} (h : Consistent services w) (i : ℕ) :
    Consistent services (close methods i w).2 := by
  cases hclosed : (w.scopes i).closed with
  | true =>
    rw [close_closed methods hclosed]
    exact h
  | false =>
    have hc := close_spec methods hclosed
    have same := fun r => builtIn_disposed services hc.log r
    have event : ∀ e, e ∈ (close methods i w).2.log → e ∈ w.log ∨ ∃ x, e = .disposed i x := by
      intro e he
      rw [hc.log] at he
      rcases List.mem_append.mp he with he | he
      · exact Or.inl he
      · obtain ⟨x, -, rfl⟩ := List.mem_map.mp he
        exact Or.inr ⟨x, rfl⟩
    apply consistent_same h hc.made
    · intro r hopen
      rw [same]
      cases r with
      | root => exact hc.singletons.trans (h.caches .root trivial)
      | scope j =>
        have hj : j ≠ i := by
          rintro rfl
          rw [Open, hc.closed] at hopen
          cases hopen
        have hcache : (close methods i w).2.cache (.scope j) = w.cache (.scope j) :=
          congrArg Scope.instances (hc.others j hj)
        rw [hcache]
        apply h.caches
        rw [Open, hc.others j hj] at hopen
        exact hopen
    · exact same
    · intro s r x hm
      rcases event _ hm with hm | ⟨y, hm⟩
      · exact hm
      · cases hm
    · intro r s x hm
      rcases event _ hm with hm | ⟨y, hm⟩
      · exact Or.inl hm
      · cases hm
    · intro s a hm
      rcases event _ hm with hm | ⟨y, hm⟩
      · exact Or.inl hm
      · cases hm

/-! ## Sequences of operations -/

theorem consistent_new : Consistent services (World.new : World S E) where
  caches := fun r _ => by cases r <;> rfl
  names := fun _ => List.nodup_nil
  entries := fun _ _ _ h => by cases h
  objects := fun _ h => by cases h
  builders := fun _ _ _ h => by cases h
  complete := fun _ _ x h => by cases x <;> cases h
  ordered := by
    intro r _ before s x after he
    cases before <;> cases he
  own := fun _ _ _ _ _ h => by cases h
  answers := fun _ _ _ h => by cases h
  refused := fun _ _ h => by cases h

theorem consistent_run (hacyclic : Acyclic services)
    {depth : ℕ} {ops : List (Op S)} {w w' : World S E} (h : Consistent services w)
    (hrun : run services methods depth ops w = some w') : Consistent services w' := by
  induction ops generalizing w with
  | nil =>
    cases hrun
    exact h
  | cons op ops ih =>
    rw [run] at hrun
    cases op with
    | get r s =>
      cases hget : get services depth r s w with
      | none =>
        rw [step, hget] at hrun
        cases hrun
      | some answer =>
        obtain ⟨a, w₁⟩ := answer
        rw [step, hget] at hrun
        exact ih (get_served hacyclic depth r s w a w₁ h hget).consistent hrun
    | close i => exact ih (consistent_close methods h i) hrun

/-! ## Depth -/

section
variable {α : Type} (rel : α → α → Prop) (xs : List α)

open Classical in
/-- How many of the elements are below this one. -/
noncomputable def rank (a : α) : ℕ := xs.countP (fun b => decide (Relation.TransGen rel a b))

theorem rank_le (a : α) : rank rel xs a ≤ xs.length := List.countP_le_length

variable {rel xs}

theorem rank_lt {a b : α} (hb : b ∈ xs) (hirr : ¬ Relation.TransGen rel b b) (hab : rel a b) :
    rank rel xs b < rank rel xs a := by
  classical
  obtain ⟨before, after, rfl⟩ := List.append_of_mem hb
  have below : ∀ ys : List α, rank rel ys b ≤ rank rel ys a := by
    intro ys
    apply List.countP_mono_left
    intro c _ hc
    rw [decide_eq_true_eq] at hc ⊢
    exact .head hab hc
  have hbefore := below before
  have hafter := below after
  unfold rank at hbefore hafter ⊢
  rw [List.countP_append, List.countP_append, List.countP_cons_of_neg (by simpa using hirr),
    List.countP_cons_of_pos (by simpa using Relation.TransGen.single hab)]
  omega

end

variable (services) in
/-- How many services are below this one. -/
noncomputable def height (s : S) : ℕ := rank (Asks services) (services.descriptors.map Prod.fst) s

variable (services) in
theorem height_le (s : S) : height services s ≤ services.descriptors.length := by
  have := rank_le (Asks services) (services.descriptors.map Prod.fst) s
  rwa [List.length_map] at this

omit [DecidableEq S] in
theorem runFactory_total {ask : S → World S E → Answer S E} (p : Factory S E)
    (hask : ∀ t w, May p t → (ask t w).isSome) (obtained : List Instance) (w : World S E) :
    (runFactory ask p obtained w).isSome := by
  induction p generalizing obtained w with
  | done product => rfl
  | raised e => rfl
  | call t next ih =>
    obtain ⟨⟨a, w₁⟩, ha⟩ := Option.isSome_iff_exists.mp (hask t w (Or.inl rfl))
    have hnext : ∀ reply t' w, May (next reply) t' → (ask t' w).isSome :=
      fun reply t' w ht => hask t' w (Or.inr ⟨reply, ht⟩)
    rw [runFactory, ha]
    cases a with
    | ok x => exact ih (.ok x) (hnext _) _ _
    | error e => exact ih (.error e) (hnext _) _ _

omit [DecidableEq S] in
theorem callFactory_total {ask : S → World S E → Answer S E} {s : S}
    {descriptor : ServiceDescriptor S E} {r : Resolver} (w : World S E)
    (hask : ∀ k t w, May (descriptor.factory k) t → (ask t w).isSome) :
    (callFactory ask s descriptor r w).isSome := by
  obtain ⟨⟨res, w₁⟩, hrun⟩ := Option.isSome_iff_exists.mp
    (runFactory_total (descriptor.factory w.calls) (hask w.calls) []
      { w with calls := w.calls+1 })
  rw [callFactory, hrun]
  cases res <;> rfl

theorem resolve_total {ask : S → World S E → Answer S E} {s : S}
    {descriptor : ServiceDescriptor S E} {r : Resolver} (w : World S E)
    (hask : ∀ k t w, May (descriptor.factory k) t → (ask t w).isSome) :
    (resolve ask s descriptor r w).isSome := by
  obtain ⟨⟨a, w₁⟩, hcall⟩ := Option.isSome_iff_exists.mp
    (callFactory_total (s := s) (r := r) w hask)
  unfold resolve
  split
  case isTrue => exact callFactory_total w hask
  case isFalse =>
    rw [hcall]
    cases (w.cache r).lookup s with
    | some x => rfl
    | none => cases a <;> rfl

/-- Each request of a factory is for a service that is lower. -/
theorem get_total (hacyclic : Acyclic services) {depth : ℕ} (r : Resolver) {s : S} (w : World S E)
    (h : height services s + 1 < depth) : (get services depth r s w).isSome := by
  induction depth generalizing r s w with
  | zero => omega
  | succ depth ih =>
    have hask : ∀ {descriptor}, services.descriptors.lookup s = some descriptor →
        ∀ r k t w, May (descriptor.factory k) t → (get services depth r t w).isSome := by
      intro descriptor hd r k t w ht
      cases depth with
      | zero => omega
      | succ depth =>
        by_cases hreg : t ∈ services.descriptors.map Prod.fst
        · apply ih
          have := rank_lt hreg (hacyclic t) ⟨hreg, descriptor, k, hd, ht⟩
          unfold height at h ⊢
          omega
        · have hnone : services.descriptors.lookup t = none := by
            by_contra hne
            obtain ⟨d, hd'⟩ := Option.ne_none_iff_exists'.mp hne
            exact hreg (lookup_registered hd')
          cases r with
          | root => simp [Container.get, ServiceProvider.get, hnone]
          | scope i =>
            rw [Container.get, ServiceScope.get]
            split
            case isTrue => rfl
            case isFalse => simp [hnone]
    have hroot : (ServiceProvider.get services (get services depth) s w).isSome := by
      unfold ServiceProvider.get
      cases hd : services.descriptors.lookup s with
      | none => rfl
      | some descriptor =>
        dsimp only
        split
        case isTrue => rfl
        case isFalse => exact resolve_total w (hask hd .root)
    cases r with
    | root => rwa [Container.get, Option.isSome_map]
    | scope i =>
      rw [Container.get, Option.isSome_map]
      unfold ServiceScope.get
      split
      case isTrue => rfl
      case isFalse =>
        cases hd : services.descriptors.lookup s with
        | none => rfl
        | some descriptor =>
          dsimp only
          split
          case isTrue => exact resolve_total w (hask hd (.scope i))
          case isFalse => exact hroot

theorem run_total (hacyclic : Acyclic services) {depth : ℕ}
    (h : services.descriptors.length + 1 < depth) (ops : List (Op S)) (w : World S E) :
    ∃ w', run services methods depth ops w = some w' := by
  induction ops generalizing w with
  | nil => exact ⟨w, rfl⟩
  | cons op ops ih =>
    rw [run]
    cases op with
    | get r s =>
      have hle := height_le services s
      obtain ⟨⟨a, w₁⟩, hget⟩ := Option.isSome_iff_exists.mp
        (get_total hacyclic r w (show height services s + 1 < depth by omega))
      rw [step, hget]
      exact ih w₁
    | close i => exact ih _

end Gamely.ContainerMoves
