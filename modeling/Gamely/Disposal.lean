import Gamely.ApplicationContainer
import Gamely.ContainerMoves

/-!
# Disposal

The instances of a scope are cached after what they obtained from it, and `close`
goes through them backwards. It stops where a disposer raises, and the scope is
closed from then on.
-/

set_option autoImplicit false

namespace Gamely.Disposal
open Gamely.Calls Gamely.Container Gamely.ContainerContract Gamely.ContainerMoves
open Gamely.ApplicationContainer

variable {S E : Type}

/-- The objects given to `_dispose`, each with the scope that gave it. -/
def disposals (w : World S E) : List (ℕ × Instance) :=
  w.log.filterMap (fun e => match e with
    | .disposed i x => some (i, x)
    | _ => none)

def disposalsIn (w : World S E) (i : ℕ) : List Instance :=
  ((disposals w).filter (fun d => d.1 = i)).map Prod.snd

theorem mem_disposalsIn {w : World S E} {i : ℕ} {x : Instance} :
    x ∈ disposalsIn w i ↔ (i, x) ∈ disposals w := by
  constructor
  · intro hx
    obtain ⟨⟨j, y⟩, hm, rfl⟩ := List.mem_map.mp hx
    rw [List.mem_filter, decide_eq_true_eq] at hm
    exact hm.2 ▸ hm.1
  · intro hm
    exact List.mem_map.mpr ⟨(i, x), List.mem_filter.mpr ⟨hm, by simp⟩, rfl⟩

theorem disposals_ahead {w w' : World S E} (h : Ahead w w') : disposals w' = disposals w := by
  obtain ⟨new, hlog, hnew⟩ := h.log
  rw [disposals, hlog, List.filterMap_append]
  have hnone : new.filterMap (fun e => match e with
      | .disposed i x => some (i, x)
      | _ => none) = [] := by
    rw [List.filterMap_eq_nil_iff]
    intro e he
    cases e with
    | disposed i x => exact absurd rfl ((hnew _ he).1 i x)
    | built s r x => rfl
    | got r s answer => rfl
  rw [hnone, List.append_nil]
  rfl

variable {methods : Instance → Methods E}

theorem disposals_close {i : ℕ} {w w' : World S E} (h : Closed methods i w w') :
    disposals w' = disposals w ++
      (attempts methods ((w.scopes i).instances.map Prod.snd).reverse).map (i, ·) := by
  rw [disposals, h.log, List.filterMap_append, List.filterMap_map]
  congr 1
  induction attempts methods ((w.scopes i).instances.map Prod.snd).reverse with
  | nil => rfl
  | cons x xs ih => exact congrArg _ ih

theorem disposalsIn_close {i : ℕ} {w w' : World S E} (h : Closed methods i w w') (j : ℕ) :
    disposalsIn w' j = disposalsIn w j ++ if i = j then
      attempts methods ((w.scopes i).instances.map Prod.snd).reverse else [] := by
  rw [disposalsIn, disposals_close h, List.filter_append, List.map_append]
  congr 1
  by_cases hij : i = j
  · subst hij
    simp [List.filter_map, Function.comp_def]
  · simp [List.filter_map, Function.comp_def, hij]

variable [DecidableEq S] {services : ServiceCollection S E} {depth : ℕ}

/-! ## Runs -/

theorem run_preserves {P : World S E → Prop} (hget : ∀ {r s w a w'}, P w →
      get services depth r s w = some (a, w') → P w')
    (hclose : ∀ {i w}, P w → P (close methods i w).2) {ops : List (Op S)} {w w' : World S E}
    (h : P w) (hrun : run services methods depth ops w = some w') : P w' := by
  induction ops generalizing w with
  | nil =>
    cases hrun
    exact h
  | cons op ops ih =>
    rw [run] at hrun
    cases op with
    | get r s =>
      cases hg : get services depth r s w with
      | none =>
        rw [step, hg] at hrun
        cases hrun
      | some answer =>
        rw [step, hg] at hrun
        exact ih (hget h hg) hrun
    | close i => exact ih (hclose h) hrun

omit [DecidableEq S] in
theorem disposalsIn_ahead {w w' : World S E} (h : Ahead w w') (i : ℕ) :
    disposalsIn w' i = disposalsIn w i := by
  rw [disposalsIn, disposals_ahead h]
  rfl

theorem clean_run {ops : List (Op S)} {w : World S E}
    (hrun : run services methods depth ops World.new = some w) {i : ℕ}
    (hopen : (w.scopes i).closed = false) : disposalsIn w i = [] := by
  refine run_preserves (P := fun w => (w.scopes i).closed = false → disposalsIn w i = [])
    ?_ ?_ (fun _ => rfl) hrun hopen
  · intro r s w a w' h hget hopen
    have hg := get_ahead hget
    rw [disposalsIn_ahead hg]
    exact h (hg.closed i ▸ hopen)
  · intro j w h hopen
    cases hclosed : (w.scopes j).closed with
    | true =>
      rw [close_closed methods hclosed] at hopen ⊢
      exact h hopen
    | false =>
      have hc := close_spec methods hclosed
      have hij : i ≠ j := by
        rintro rfl
        rw [hc.closed] at hopen
        cases hopen
      rw [hc.others i hij] at hopen
      rw [disposalsIn_close hc, if_neg hij.symm, h hopen]
      rfl

/-- A closed scope stays closed and disposes of nothing more. -/
theorem closed_run {ops : List (Op S)} {w w' : World S E}
    (hrun : run services methods depth ops w = some w') {i : ℕ}
    (hclosed : (w.scopes i).closed = true) :
    (w'.scopes i).closed = true ∧ disposalsIn w' i = disposalsIn w i := by
  refine run_preserves
    (P := fun v => (v.scopes i).closed = true ∧ disposalsIn v i = disposalsIn w i)
    ?_ ?_ ⟨hclosed, rfl⟩ hrun
  · rintro r s v a v' ⟨hclosed, hsame⟩ hget
    have hg := get_ahead hget
    exact ⟨(hg.closed i).trans hclosed, (disposalsIn_ahead hg i).trans hsame⟩
  · rintro j v ⟨hclosed, hsame⟩
    cases hj : (v.scopes j).closed with
    | true =>
      rw [close_closed methods hj]
      exact ⟨hclosed, hsame⟩
    | false =>
      have hc := close_spec methods hj
      have hij : i ≠ j := by
        rintro rfl
        rw [hclosed] at hj
        cases hj
      rw [hc.others i hij, disposalsIn_close hc, if_neg hij.symm, List.append_nil]
      exact ⟨hclosed, hsame⟩

theorem mem_builtIn_scope {w : World S E} (h : Consistent services w) {i : ℕ} {s : S}
    {x : Instance} (hx : .built s (.scope i) x ∈ w.log) :
    (s, x) ∈ builtIn services w (.scope i) := by
  have hscoped : lifetimeOf services s = some .scoped :=
    (h.builders s _ x hx).resolver.mpr (by simp)
  exact mem_builtIn.mpr ⟨hx, decide_eq_true hscoped⟩

theorem cached_of_built (hacyclic : Acyclic services) {ops : List (Op S)} {w : World S E}
    (hrun : run services methods depth ops World.new = some w) {i : ℕ}
    (hopen : (w.scopes i).closed = false) (s : S) (x : Instance)
    (hx : .built s (.scope i) x ∈ w.log) : x ∈ (w.scopes i).instances.map Prod.snd := by
  have h := consistent_run methods hacyclic consistent_new hrun
  have hcache : (w.scopes i).instances = builtIn services w (.scope i) :=
    h.caches (.scope i) hopen
  rw [hcache]
  exact List.mem_map_of_mem (mem_builtIn_scope h hx)

/-! ## Disposers that raise -/

variable (methods) in
def Raises (x : Instance) : Prop := ∃ e, dispose (methods x) = .error e

omit [DecidableEq S] in
theorem not_raises {x : Instance} : ¬ Raises methods x ↔ dispose (methods x) = .ok () := by
  unfold Raises
  cases dispose (methods x) with
  | ok u => simp
  | error e => simp

theorem attempts_all {xs : List Instance} (h : ∀ x ∈ xs, ¬ Raises methods x) :
    attempts methods xs = xs := by
  induction xs with
  | nil => rfl
  | cons x xs ih =>
    rw [attempts, not_raises.mp (h x List.mem_cons_self)]
    dsimp only
    rw [ih (fun y hy => h y (List.mem_cons_of_mem _ hy))]

theorem attempts_raising {before : List Instance} {y : Instance} (after : List Instance)
    (h : ∀ x ∈ before, ¬ Raises methods x) (hy : Raises methods y) :
    attempts methods (before ++ y :: after) = before ++ [y] := by
  obtain ⟨e, he⟩ := hy
  induction before with
  | nil =>
    rw [List.nil_append, attempts, he]
    rfl
  | cons x before ih =>
    rw [List.cons_append, attempts, not_raises.mp (h x List.mem_cons_self)]
    dsimp only
    rw [ih (fun z hz => h z (List.mem_cons_of_mem _ hz))]
    rfl

theorem mem_of_attempts {xs : List Instance} {x : Instance} (h : x ∈ attempts methods xs) :
    x ∈ xs := by
  induction xs with
  | nil => exact h
  | cons y xs ih =>
    rcases List.mem_cons.mp h with rfl | h
    · exact List.mem_cons_self
    · split at h
      case h_1 => exact List.mem_cons_of_mem y (ih h)
      case h_2 => cases h

variable (methods) in
theorem attempts_cases (xs : List Instance) : (∀ x ∈ xs, ¬ Raises methods x) ∨
    ∃ before y after, xs = before ++ y :: after ∧ Raises methods y ∧
      ∀ x ∈ before, ¬ Raises methods x := by
  induction xs with
  | nil => exact Or.inl (fun _ h => by cases h)
  | cons x xs ih =>
    by_cases hx : Raises methods x
    · exact Or.inr ⟨[], x, xs, rfl, hx, fun _ h => by cases h⟩
    · rcases ih with hall | ⟨before, y, after, rfl, hy, hbefore⟩
      · left
        intro z hz
        rcases List.mem_cons.mp hz with rfl | hz
        · exact hx
        · exact hall z hz
      · refine Or.inr ⟨x :: before, y, after, rfl, hy, ?_⟩
        intro z hz
        rcases List.mem_cons.mp hz with rfl | hz
        · exact hx
        · exact hbefore z hz

variable (methods) in
/-- Every other object is disposed of unless it is only reached after one that raises. -/
theorem attempts_rest (xs : List Instance) :
    (∀ x ∈ xs, ¬ Raises methods x → x ∈ attempts methods xs) ↔
      ∀ before y after, xs = before ++ y :: after → Raises methods y →
        ∀ x ∈ after, Raises methods x ∨ x ∈ before := by
  rcases attempts_cases methods xs with hall | ⟨first, z, rest, rfl, hz, hfirst⟩
  · rw [attempts_all hall]
    refine ⟨?_, fun _ x hx _ => hx⟩
    rintro - before y after rfl hy
    exact absurd hy (hall y (by simp))
  · rw [attempts_raising rest hfirst hz]
    constructor
    · intro h before y after he hy x hx
      by_cases hr : Raises methods x
      · exact Or.inl hr
      · right
        have hmem : x ∈ first ++ [z] := by
          apply h x _ hr
          rw [he]
          simp [hx]
        rw [List.mem_append, List.mem_singleton] at hmem
        have hxf : x ∈ first := hmem.resolve_right (fun hxz => hr (hxz ▸ hz))
        rcases List.append_eq_append_iff.mp he with ⟨more, rfl, -⟩ | ⟨more, rfl, hmore⟩
        · exact List.mem_append_left _ hxf
        · cases more with
          | nil => simpa using hxf
          | cons y' more =>
            obtain ⟨rfl, -⟩ := List.cons.inj hmore
            exact absurd hy (hfirst y (by simp))
    · intro h x hx hr
      rcases List.mem_append.mp hx with hx | hx
      · exact List.mem_append_left _ hx
      · rcases List.mem_cons.mp hx with rfl | hx
        · simp
        · rcases h first z rest rfl hz x hx with hx | hx
          · exact absurd hx hr
          · exact List.mem_append_left _ hx

/-- After a `close`, whatever is called later, every instance whose disposer does not raise was
given to it if and only if none of them was cached before one whose disposer raises. The cache
holds what was built for the scope. -/
theorem rest_disposed_iff (services : ServiceCollection S E) (methods : Instance → Methods E)
    (depth : ℕ) (ops more : List (Op S)) {w w' : World S E} {i : ℕ}
    (hrun : run services methods depth ops World.new = some w)
    (hopen : (w.scopes i).closed = false)
    (hmore : run services methods depth (.close i :: more) w = some w') :
    (Acyclic services →
      ∀ s x, .built s (.scope i) x ∈ w.log → x ∈ (w.scopes i).instances.map Prod.snd) ∧
    ((∀ x ∈ (w.scopes i).instances.map Prod.snd, ¬ Raises methods x → (i, x) ∈ disposals w') ↔
      ∀ before y after, (w.scopes i).instances.map Prod.snd = before ++ y :: after →
        Raises methods y → ∀ x ∈ before, Raises methods x ∨ x ∈ after) := by
  have hc := close_spec methods hopen
  have hlater : disposalsIn w' i =
      attempts methods ((w.scopes i).instances.map Prod.snd).reverse := by
    rw [(closed_run (show run services methods depth more _ = some w' from hmore) hc.closed).2,
      disposalsIn_close hc, if_pos rfl, clean_run hrun hopen]
    rfl
  have hrest := attempts_rest methods ((w.scopes i).instances.map Prod.snd).reverse
  refine ⟨fun hacyclic => cached_of_built hacyclic hrun hopen, ?_, ?_⟩
  · intro h before y after he hy x hx
    have h' := hrest.mp (fun z hz hr => by
      rw [← hlater, mem_disposalsIn]
      exact h z (List.mem_reverse.mp hz) hr) after.reverse y before.reverse (by simp [he]) hy x
        (List.mem_reverse.mpr hx)
    exact h'.imp id List.mem_reverse.mp
  · intro h x hx hr
    rw [← mem_disposalsIn, hlater]
    refine hrest.mpr ?_ x (List.mem_reverse.mpr hx) hr
    intro before y after he hy z hz
    have he' : (w.scopes i).instances.map Prod.snd = after.reverse ++ y :: before.reverse := by
      rw [← List.reverse_reverse ((w.scopes i).instances.map Prod.snd), he]
      simp
    exact (h _ y _ he' hy z (List.mem_reverse.mpr hz)).imp id List.mem_reverse.mp

/-- A session and a consumer that is built on it. -/
def pair : ServiceCollection ℕ String where
  descriptors := [(0, ⟨.scoped, fun _ => construct []⟩), (1, ⟨.scoped, fun _ => construct [0]⟩)]
  nodup := by decide

/-- The consumer's `aclose` raises. -/
def failing : Instance → Methods String
  | .made 1 => ⟨some (.error "aclose"), none⟩
  | _ => ⟨some (.ok ()), none⟩

theorem rest_disposed_pair : ∃ w w', run pair failing 4 [.get (.scope 0) 1] World.new = some w ∧
    (w.scopes 0).closed = false ∧ run pair failing 4 [.close 0, .close 0] w = some w' ∧
    (Acyclic pair →
      ∀ s x, .built s (.scope 0) x ∈ w.log → x ∈ (w.scopes 0).instances.map Prod.snd) ∧
    ((∀ x ∈ (w.scopes 0).instances.map Prod.snd, ¬ Raises failing x → (0, x) ∈ disposals w') ↔
      ∀ before y after, (w.scopes 0).instances.map Prod.snd = before ++ y :: after →
        Raises failing y → ∀ x ∈ before, Raises failing x ∨ x ∈ after) :=
  ⟨_, _, rfl, rfl, rfl, rest_disposed_iff pair failing 4 [.get (.scope 0) 1] [.close 0] rfl rfl rfl⟩

/-- The session is never given to its disposer. -/
theorem session_leaked : ∃ w w', run pair failing 4 [.get (.scope 0) 1] World.new = some w ∧
    run pair failing 4 [.close 0, .close 0] w = some w' ∧
    (w.scopes 0).instances = [(0, .made 0), (1, .made 1)] ∧
    dispose (failing (.made 0)) = .ok () ∧ disposals w' = [(0, .made 1)] :=
  ⟨_, _, rfl, rfl, rfl, rfl, rfl⟩

/-! ## Disposers that do not raise -/

variable (methods services) in
/-- What was disposed of is what a closed scope had built, the last one first, as far as the
first that raises. -/
def Reversed (w : World S E) : Prop := ∀ i, disposalsIn w i = if (w.scopes i).closed then
  attempts methods ((builtIn services w (.scope i)).map Prod.snd).reverse else []

theorem reversed_ahead {w w' : World S E} (h : Reversed methods services w) (hg : Ahead w w') :
    Reversed methods services w' := by
  intro i
  rw [disposalsIn_ahead hg, h i, hg.closed i]
  cases hclosed : (w.scopes i).closed with
  | false => rfl
  | true =>
    obtain ⟨new, hnew, hentries⟩ := builtIn_grows services hg (.scope i)
    have hnil : new = [] := by
      rw [List.eq_nil_iff_forall_not_mem]
      intro entry he
      have hopen := (hentries entry he).2
      rw [Open, hclosed] at hopen
      cases hopen
    rw [hnew, hnil, List.append_nil]

theorem reversed_close {w : World S E} (h : Reversed methods services w)
    (hc : Consistent services w) (i : ℕ) :
    Reversed methods services (close methods i w).2 := by
  cases hclosed : (w.scopes i).closed with
  | true =>
    rw [close_closed methods hclosed]
    exact h
  | false =>
    have hspec := close_spec methods hclosed
    intro j
    rw [disposalsIn_close hspec, builtIn_disposed services hspec.log]
    by_cases hij : i = j
    · subst hij
      have hcache : (w.scopes i).instances = builtIn services w (.scope i) :=
        hc.caches (.scope i) hclosed
      rw [if_pos rfl, h i, hclosed, hspec.closed, hcache]
      rfl
    · rw [if_neg hij, List.append_nil, hspec.others j (Ne.symm hij)]
      exact h j

theorem reversed_run (hacyclic : Acyclic services) {ops : List (Op S)} {w : World S E}
    (hrun : run services methods depth ops World.new = some w) :
    Reversed methods services w ∧ Consistent services w := by
  refine run_preserves (P := fun w => Reversed methods services w ∧ Consistent services w) ?_ ?_
    ⟨fun _ => rfl, consistent_new⟩ hrun
  · rintro r s w a w' ⟨hr, hc⟩ hget
    exact ⟨reversed_ahead hr (get_ahead hget),
      (get_served hacyclic depth r s w a w' hc hget).consistent⟩
  · rintro i w ⟨hr, hc⟩
    exact ⟨reversed_close hr hc i, consistent_close methods hc i⟩

omit [DecidableEq S] in
theorem closed_close (w : World S E) (i : ℕ) :
    ((close methods i w).2.scopes i).closed = true := by
  cases hclosed : (w.scopes i).closed with
  | true => rw [close_closed methods hclosed, hclosed]
  | false => exact (close_spec methods hclosed).closed

theorem closed_of_mem {ops : List (Op S)} {i : ℕ} (hi : .close i ∈ ops) {w w' : World S E}
    (hrun : run services methods depth ops w = some w') : (w'.scopes i).closed = true := by
  induction ops generalizing w with
  | nil => cases hi
  | cons op ops ih =>
    rw [run] at hrun
    cases hstep : step services methods depth op w with
    | none =>
      rw [hstep] at hrun
      cases hrun
    | some w₁ =>
      rw [hstep] at hrun
      rcases List.mem_cons.mp hi with rfl | hi
      · obtain rfl := Option.some.inj hstep
        exact (closed_run hrun (closed_close w i)).1
      · exact ih hi hrun

theorem values_nodup (hfresh : ScopedFresh services) {w : World S E} (h : Consistent services w)
    (i : ℕ) : ((builtIn services w (.scope i)).map Prod.snd).Nodup := by
  apply List.Nodup.map_on
  · rintro ⟨s, x⟩ hs ⟨t, y⟩ ht hxy
    dsimp only at hxy
    subst hxy
    obtain ⟨m, hm, rfl, -⟩ := h.own hfresh _ (by simp) s x hs
    obtain ⟨m', hm', rfl, -⟩ := h.own hfresh _ (by simp) t x ht
    obtain rfl := Option.some.inj (hm.symm.trans hm')
    rfl
  · exact (h.names (.scope i)).of_map

variable (services) in
/-- What `close` does for a scope whose disposers do not raise. -/
structure Disposed (w : World S E) (i : ℕ) : Prop where
  once : ∀ s x, .built s (.scope i) x ∈ w.log → ((disposals w).map Prod.snd).count x = 1
  order : ∀ x m y, madeAs w x = some m → m.resolver = .scope i → y ∈ m.obtained →
    home w y = some (.scope i) → [x, y].Sublist ((disposals w).map Prod.snd)
  own : ∀ j x, (j, x) ∈ disposals w → home w x = some (.scope j)
  later : ∀ m s, get services (m+1) (.scope i) s w =
    some (.error .scopeClosed, w.logged (.got (.scope i) s (.error .scopeClosed)))

theorem count_filter_fst {i : ℕ} {x : Instance} {ds : List (ℕ × Instance)}
    (h : ∀ d ∈ ds, d.2 = x → d.1 = i) :
    (ds.map Prod.snd).count x = ((ds.filter (fun d => d.1 = i)).map Prod.snd).count x := by
  induction ds with
  | nil => rfl
  | cons d ds ih =>
    have hrest := ih (fun d' hd' => h d' (List.mem_cons_of_mem _ hd'))
    by_cases hi : d.1 = i
    · rw [List.filter_cons_of_pos (by simpa using hi), List.map_cons, List.map_cons,
        List.count_cons, List.count_cons, hrest]
    · have hx : d.2 ≠ x := fun hx => hi (h d List.mem_cons_self hx)
      rw [List.filter_cons_of_neg (by simpa using hi), List.map_cons, List.count_cons_of_ne hx,
        hrest]

omit [DecidableEq S] in
theorem own_home {w : World S E} {r : Resolver} {s : S} {x : Instance} (h : Own w r s x) :
    home w x = some r := by
  obtain ⟨m, hm, -, rfl⟩ := h
  exact home_of_madeAs hm

theorem disposals_home (hfresh : ScopedFresh services) {w : World S E}
    (hr : Reversed methods services w) (h : Consistent services w) {j : ℕ} {x : Instance}
    (hx : (j, x) ∈ disposals w) : home w x = some (.scope j) := by
  rw [← mem_disposalsIn, hr j] at hx
  split at hx
  case isTrue =>
    obtain ⟨⟨s, y⟩, hm, rfl⟩ := List.mem_map.mp (List.mem_reverse.mp (mem_of_attempts hx))
    exact own_home (h.own hfresh _ (by simp) s y hm)
  case isFalse => cases hx

theorem disposalsIn_all {w : World S E} (hr : Reversed methods services w) {i : ℕ}
    (hclosed : (w.scopes i).closed = true)
    (hmethods : ∀ s x, .built s (.scope i) x ∈ w.log → ∀ e, dispose (methods x) ≠ .error e) :
    disposalsIn w i = ((builtIn services w (.scope i)).map Prod.snd).reverse := by
  rw [hr i, if_pos hclosed]
  apply attempts_all
  rintro x hx ⟨e, he⟩
  obtain ⟨⟨s, y⟩, hm, rfl⟩ := List.mem_map.mp (List.mem_reverse.mp hx)
  exact hmethods s y (mem_builtIn.mp hm).1 e he

theorem disposed_of_reversed (hfresh : ScopedFresh services) {w : World S E}
    (hr : Reversed methods services w) (h : Consistent services w) {i : ℕ}
    (hclosed : (w.scopes i).closed = true)
    (hall : disposalsIn w i = ((builtIn services w (.scope i)).map Prod.snd).reverse) :
    Disposed services w i where
  once := by
    intro s x hx
    have hm := mem_builtIn_scope h hx
    have hhome := own_home (h.own hfresh _ (by simp) s x hm)
    have hcount : ((disposals w).map Prod.snd).count x = (disposalsIn w i).count x := by
      apply count_filter_fst
      rintro ⟨j, y⟩ hj rfl
      rw [disposals_home hfresh hr h hj] at hhome
      cases hhome
      rfl
    rw [hcount, hall, List.count_reverse]
    exact List.count_eq_one_of_mem (values_nodup hfresh h i) (List.mem_map_of_mem hm)
  order := by
    intro x m y hm hres hy hhome
    have hx := h.complete (.scope i) (by simp) x (hres ▸ home_of_madeAs hm)
    obtain ⟨⟨s, x'⟩, he, rfl⟩ := List.mem_map.mp hx
    obtain ⟨before, after, hsplit⟩ := List.append_of_mem he
    have hy' := h.ordered (.scope i) (by simp) before s x' after hsplit m hm y hy hhome
    have hsub : [x', y].Sublist (disposalsIn w i) := by
      rw [hall, hsplit, List.map_append, List.map_cons, List.reverse_append,
        List.reverse_cons]
      have hlast : [x'].Sublist ((after.map Prod.snd).reverse ++ [x']) :=
        List.sublist_append_right _ _
      exact hlast.append (List.singleton_sublist.mpr (List.mem_reverse.mpr hy'))
    exact hsub.trans (List.filter_sublist.map _)
  own := fun j x hx => disposals_home hfresh hr h hx
  later := by
    intro m s
    rw [Container.get, ServiceScope.get, if_pos hclosed]
    rfl

/-- A scope that is closed disposes of each instance it built once, and of an instance before
what it obtained from the scope, where none of them raises; no other instance is disposed of,
and the scope gives none. -/
theorem scope_disposed (hacyclic : Acyclic services) (hfresh : ScopedFresh services)
    (methods : Instance → Methods E) (hdepth : services.descriptors.length + 1 < depth)
    (ops : List (Op S)) {i : ℕ} (hi : .close i ∈ ops) :
    ∃ w, run services methods depth ops World.new = some w ∧
      ((∀ s x, .built s (.scope i) x ∈ w.log → ∀ e, dispose (methods x) ≠ .error e) →
        Disposed services w i) := by
  obtain ⟨w, hrun⟩ := run_total methods hacyclic hdepth ops World.new
  obtain ⟨hr, h⟩ := reversed_run hacyclic hrun
  have hclosed := closed_of_mem hi hrun
  exact ⟨w, hrun, fun hmethods =>
    disposed_of_reversed hfresh hr h hclosed (disposalsIn_all hr hclosed hmethods)⟩

theorem scope_disposed_application :
    (∀ e : String, dispose ⟨none, some (.ok ())⟩ ≠ .error e) ∧
    ∃ w, run (application (.outside 0)) (fun _ => (⟨none, some (.ok ())⟩ : Methods String)) 16
      [.get (.scope 0) .authController, .get .root .authService, .get (.scope 1) .asyncSession,
        .close 0, .close 0, .get (.scope 0) .asyncSession] World.new = some w ∧
      Disposed (application (.outside 0)) w 0 := by
  have hmethods : ∀ e : String, dispose ⟨none, some (.ok ())⟩ ≠ .error e := by
    intro e h
    cases h
  have hdepth : (application (.outside 0) :
      ServiceCollection Service String).descriptors.length + 1 < 16 := by decide
  obtain ⟨w, hrun, hdisposed⟩ := scope_disposed (i := 0) (application_acyclic _)
    (application_fresh _) (fun _ => ⟨none, some (.ok ())⟩) hdepth
    [.get (.scope 0) .authController, .get .root .authService, .get (.scope 1) .asyncSession,
      .close 0, .close 0, .get (.scope 0) .asyncSession] (by decide)
  exact ⟨hmethods, w, hrun, hdisposed (fun _ _ _ => hmethods)⟩

end Gamely.Disposal
