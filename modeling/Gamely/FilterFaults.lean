import Gamely.FilterRaces

/-!
# The filter under faults

Requests run one at a time, and any call may fail or an insert refuse items. An
address whose insert was lost is committed all the same, so trust must be gone by
then; a rebuild must not publish its marker over an item that was refused.
-/

set_option autoImplicit false

namespace Gamely.FilterFaults
open Gamely.Calls Gamely.Stores Gamely.EmailJobs Gamely.Services Gamely.TokenService
open Gamely.EmailFilter Gamely.Requests Gamely.Interleaving Gamely.SessionMoves
open Gamely.Replays Gamely.FilterContract Gamely.FilterMoves Gamely.FilterTrust
open Gamely.FilterLookups Gamely.FilterRaces

variable (lib : Libraries) (settings : Settings)

/-- The flushed address whose insert was refused or failed. -/
def Role.lostAddress : Role → Option Email
  | .flushed email .lost => some email
  | _ => none

def Role.short : Role → Bool
  | .loading _ short => short
  | _ => false

/-- An account whose insert was lost is committed only without a marker or with its
address in the filter anyway; a rebuild with a refused item publishes no marker. -/
def Preserving (s : Service) (i : ℕ) (x : Choice) (_q : Request) (c : Command) : Prop :=
  (commits c = true → x.fail = false → ∀ a ∈ Role.lostAddress (roles lib s.history i),
    s.world.filter.marker = none ∨ a ∈ itemsOf s.world.filter) ∧
  (publishes c = true → x.fail = false → Role.short (roles lib s.history i) = false)

instance (s : Service) (i : ℕ) (x : Choice) (q : Request) (c : Command) :
    Decidable (Preserving lib s i x q c) :=
  inferInstanceAs (Decidable ((_ → _ → ∀ a ∈ _, _) ∧ (_ → _ → _)))

/-! ## Trust between the calls of one request -/

/-- `turn` is the thread that made the last call; what it stored, has still to
insert and was told by the marker holds while it runs. -/
structure Steady (lib : Libraries) (v : View) (hand : ℕ → Hand) (turn : Option ℕ) : Prop where
  normal : ∀ a ∈ v.accounts, normalizeEmail lib a = .ok a
  pending : ∀ y ∈ v.pending, normalizeEmail lib y.2 = .ok y.2 ∧
    ∃ note, (hand y.1).role = .flushed y.2 note
  kept : ∀ i a, turn = some i → (hand i).role = .flushed a .stored → a ∈ v.items
  loaded : ∀ i todo, turn = some i → (hand i).role = .loading todo false →
    ∀ a ∈ v.accounts, a ∈ v.items ∨ a ∈ todo
  told : ∀ i, turn = some i → (hand i).marker ≠ none → ∀ a ∈ v.accounts, a ∈ v.items
  covered : v.marker ≠ none → ∀ a ∈ v.accounts, a ∈ v.items

variable {lib settings} {v v' : View} {hand : ℕ → Hand} {turn : Option ℕ} {i : ℕ} {g : Hand}

/-- What the thread that makes a call must know afterwards; a thread that makes its
first call knows nothing yet. -/
theorem steady_step (accounts : ∀ a ∈ v'.accounts, normalizeEmail lib a = .ok a)
    (pending : ∀ y ∈ v'.pending, normalizeEmail lib y.2 = .ok y.2 ∧
      ∃ note, (Function.update hand i g y.1).role = .flushed y.2 note)
    (kept : ∀ a, g.role = .flushed a .stored → a ∈ v'.items)
    (loaded : ∀ todo, g.role = .loading todo false → ∀ a ∈ v'.accounts, a ∈ v'.items ∨ a ∈ todo)
    (told : g.marker ≠ none → ∀ a ∈ v'.accounts, a ∈ v'.items)
    (covered : v'.marker ≠ none → ∀ a ∈ v'.accounts, a ∈ v'.items) :
    Steady lib v' (Function.update hand i g) (some i) := by
  constructor
  · exact accounts
  · exact pending
  · rintro j a ⟨⟩ hj
    rw [Function.update_self] at hj
    exact kept a hj
  · rintro j todo ⟨⟩ hj
    rw [Function.update_self] at hj
    exact loaded todo hj
  · rintro j ⟨⟩ hj
    rw [Function.update_self] at hj
    exact told hj
  · exact covered

theorem pending_of_role (hs : Steady lib v hand turn)
    (hg : ∀ a note, (hand i).role = .flushed a note → ∃ note', g.role = .flushed a note') :
    ∀ y ∈ v.pending, normalizeEmail lib y.2 = .ok y.2 ∧
      ∃ note, (Function.update hand i g y.1).role = .flushed y.2 note := by
  intro y hy
  obtain ⟨hn, note, hr⟩ := hs.pending y hy
  refine ⟨hn, ?_⟩
  by_cases hyi : y.1 = i
  · rw [hyi] at hr ⊢
    rw [Function.update_self]
    exact hg _ _ hr
  · rw [Function.update_of_ne hyi]
    exact ⟨note, hr⟩

theorem pending_of_idle (hs : Steady lib v hand turn)
    (hg : ∀ a note, (hand i).role ≠ .flushed a note) :
    ∀ y ∈ v.pending, normalizeEmail lib y.2 = .ok y.2 ∧
      ∃ note, (Function.update hand i g y.1).role = .flushed y.2 note :=
  pending_of_role hs (fun a note h => absurd h (hg a note))

/-- A thread that has called before made the last call. -/
def Own (hand : ℕ → Hand) (turn : Option ℕ) (i : ℕ) : Prop :=
  hand i = Hand.empty ∨ turn = some i

theorem kept_own (hs : Steady lib v hand turn) (ho : Own hand turn i) (a : Email)
    (h : (hand i).role = .flushed a .stored) : a ∈ v.items := by
  rcases ho with ho | ho
  · rw [ho] at h
    cases h
  · exact hs.kept i a ho h

theorem loaded_own (hs : Steady lib v hand turn) (ho : Own hand turn i) (todo : List Email)
    (h : (hand i).role = .loading todo false) (a : Email) (ha : a ∈ v.accounts) :
    a ∈ v.items ∨ a ∈ todo := by
  rcases ho with ho | ho
  · rw [ho] at h
    cases h
  · exact hs.loaded i todo ho h a ha

theorem told_own (hs : Steady lib v hand turn) (ho : Own hand turn i)
    (h : (hand i).marker ≠ none) (a : Email) (ha : a ∈ v.accounts) : a ∈ v.items := by
  rcases ho with ho | ho
  · rw [ho] at h
    exact absurd rfl h
  · exact hs.told i ho h a ha

theorem steady_frame (hs : Steady lib v hand turn) (ho : Own hand turn i)
    (hrole : g.role = (hand i).role) (hitems : v'.items = v.items)
    (hacc : v'.accounts = v.accounts) (hpending : v'.pending = v.pending)
    (hm : v'.marker ≠ none → v.marker ≠ none)
    (hmark : g.marker ≠ none → (hand i).marker ≠ none ∨ v.marker ≠ none) :
    Steady lib v' (Function.update hand i g) (some i) := by
  apply steady_step
  · rw [hacc]
    exact hs.normal
  · rw [hpending]
    exact pending_of_role hs (fun a note h => ⟨note, hrole.trans h⟩)
  · rw [hitems, hrole]
    exact kept_own hs ho
  · rw [hitems, hacc, hrole]
    exact loaded_own hs ho
  · rw [hitems, hacc]
    intro h
    rcases hmark h with h | h
    · exact told_own hs ho h
    · exact hs.covered h
  · rw [hitems, hacc]
    exact fun h => hs.covered (hm h)

theorem stored_of_replies {refused : List ℕ} {items : List String}
    (h : (insertReplies refused items).any (· ≠ 1) = false) : stored refused items = items := by
  unfold stored
  rw [List.filter_eq_self.mpr]
  · simp
  · intro y hy
    by_contra hn
    have hin : y.2 ∈ refused := by simpa using hn
    have hany : (insertReplies refused items).any (· ≠ 1) = true := by
      apply List.any_eq_true.mpr
      exact ⟨-1, List.mem_map.mpr ⟨y, hy, if_pos hin⟩, by decide⟩
    rw [hany] at h
    cases h

theorem steady_insert {q : Request} {items : List String} {capacity : ℕ} {refused : List ℕ}
    (hs : Steady lib v hand turn) (ho : Own hand turn i)
    (ha : allows lib i q (hand i) (.filter (.insert items capacity))) :
    Steady lib { v with items := v.items ++ stored refused items }
      (Function.update hand i { hand i with
        role := (hand i).role.inserted (insertReplies refused items) items }) (some i) := by
  have grows : ∀ {a}, a ∈ v.items → a ∈ v.items ++ stored refused items :=
    fun h => List.mem_append_left _ h
  apply steady_step
  · exact hs.normal
  · apply pending_of_role hs
    intro a note h
    exact ⟨_, by rw [h]; rfl⟩
  · intro a h
    obtain ⟨old, hold, hnote⟩ := flushed_of_inserted h
    have hitems : items = [a] := by simpa [allows, hold] using ha
    subst hitems
    have hreplies : insertReplies refused [a] = [1] := by
      by_contra hn
      rw [if_neg hn] at hnote
      cases hnote
    rw [stored_of_replies (by rw [hreplies]; rfl)]
    simp
  · intro todo h a hacc
    obtain ⟨old, was, hold, rfl, hshort⟩ := loading_of_inserted h
    obtain ⟨rfl, hall⟩ := Bool.or_eq_false_iff.mp hshort.symm
    rw [stored_of_replies hall]
    rcases loaded_own hs ho old hold a hacc with h | h
    · exact Or.inl (List.mem_append_left _ h)
    · have hm : (old.take items.length).mapM (normalizeEmail lib) = .ok items := by
        simpa [allows, hold] using ha
      rw [← List.take_append_drop items.length old] at h
      rcases List.mem_append.mp h with h | h
      · exact Or.inl (List.mem_append_right _ (mem_of_mapM hm h (hs.normal a hacc)))
      · exact Or.inr h
  · exact fun h a hacc => grows (told_own hs ho h a hacc)
  · exact fun h a hacc => grows (hs.covered h a hacc)

theorem steady_end {new : List Email} (hs : Steady lib v hand turn) (ho : Own hand turn i)
    (hnew : ∀ a ∈ new, normalizeEmail lib a = .ok a ∧ (∃ note, (hand i).role = .flushed a note) ∧
      (v.marker ≠ none → a ∈ v.items)) :
    Steady lib { v with
      accounts := v.accounts ++ new
      pending := v.pending.filter (fun y => y.1 ≠ i) }
      (Function.update hand i (hand i).ended) (some i) := by
  apply steady_step
  · intro a ha
    rcases List.mem_append.mp ha with ha | ha
    · exact hs.normal a ha
    · exact (hnew a ha).1
  · intro y hy
    obtain ⟨hy, hyi⟩ := List.mem_filter.mp hy
    rw [Function.update_of_ne (of_decide_eq_true hyi)]
    exact hs.pending y hy
  · exact fun a h => absurd h (not_flushed_ended _ _ _)
  · intro todo h a ha
    have hr : (hand i).role = .loading todo false := by
      cases hr : (hand i).role <;> simp only [Hand.ended, hr, Role.ended] at h <;> cases h
      rfl
    rcases List.mem_append.mp ha with ha | ha
    · exact loaded_own hs ho todo hr a ha
    · obtain ⟨-, ⟨note, hnote⟩, -⟩ := hnew a ha
      rw [hr] at hnote
      cases hnote
  · exact fun h => absurd rfl h
  · intro hm a ha
    rcases List.mem_append.mp ha with ha | ha
    · exact hs.covered hm a ha
    · exact (hnew a ha).2.2 hm

/-- A missed insert leaves nothing stored and no list to load. -/
theorem steady_miss (hs : Steady lib v hand turn) (ho : Own hand turn i) :
    Steady lib v (Function.update hand i { hand i with role := (hand i).role.missed })
      (some i) := by
  apply steady_step
  · exact hs.normal
  · apply pending_of_role hs
    intro a note h
    exact ⟨.lost, by rw [h]; rfl⟩
  · intro a h
    cases hr : (hand i).role <;> simp only [hr, Role.missed] at h <;> cases h
  · intro todo h
    apply loaded_own hs ho
    cases hr : (hand i).role <;> simp only [hr, Role.missed] at h <;> cases h
    rfl
  · exact told_own hs ho
  · exact hs.covered

/-- The marker of a rebuild that lost no item. -/
theorem steady_mark {fingerprint : String} (hs : Steady lib v hand turn) (ho : Own hand turn i)
    (complete : (hand i).role = .loading [] false) :
    Steady lib { v with marker := some fingerprint } (Function.update hand i (hand i))
      (some i) := by
  have hall : ∀ a ∈ v.accounts, a ∈ v.items := fun a ha =>
    (loaded_own hs ho [] complete a ha).resolve_right List.not_mem_nil
  apply steady_step
  · exact hs.normal
  · exact fun y hy => pending_of_role hs (fun a note h => ⟨note, h⟩) y hy
  · exact fun a h => kept_own hs ho a h
  · exact fun todo h a ha => loaded_own hs ho todo h a ha
  · exact fun _ => hall
  · exact fun _ => hall

theorem steady_flush {row : User} (hs : Steady lib v hand turn) (ho : Own hand turn i)
    (free : (hand i).role = .free) (normal : normalizeEmail lib row.email = .ok row.email) :
    Steady lib { v with pending := v.pending ++ [(i, row.email)] }
      (Function.update hand i { hand i with role := .flushed row.email .pending }) (some i) := by
  apply steady_step
  · exact hs.normal
  · intro y hy
    rcases List.mem_append.mp hy with hy | hy
    · exact pending_of_idle hs (fun a note h => by rw [free] at h; cases h) y hy
    · rw [List.mem_singleton.mp hy]
      exact ⟨normal, .pending, by rw [Function.update_self]⟩
  · exact fun a h => by cases h
  · exact fun todo h => by cases h
  · exact fun h a ha => told_own hs ho h a ha
  · exact hs.covered

theorem steady_commit (hs : Steady lib v hand turn) (ho : Own hand turn i)
    (remembered : ∀ a, (hand i).role ≠ .flushed a .pending)
    (commit : ∀ a, (hand i).role = .flushed a .lost → v.marker = none ∨ a ∈ v.items) :
    Steady lib { v with
      accounts := v.accounts ++ (v.pending.filter (fun y => y.1 = i)).map Prod.snd
      pending := v.pending.filter (fun y => y.1 ≠ i) }
      (Function.update hand i (hand i).ended) (some i) := by
  apply steady_end hs ho
  intro a ha
  obtain ⟨y, hy, rfl⟩ := List.mem_map.mp ha
  obtain ⟨hy, hyi⟩ := List.mem_filter.mp hy
  obtain ⟨hn, note, hnote⟩ := hs.pending y hy
  rw [of_decide_eq_true hyi] at hnote
  refine ⟨hn, ⟨note, hnote⟩, fun hmarker => ?_⟩
  cases note with
  | pending => exact absurd hnote (remembered _)
  | stored => exact kept_own hs ho _ hnote
  | lost => exact (commit _ hnote).resolve_left hmarker

variable {x : Choice} {q : Request} {c : Command} {reply : Except Failure (Reply c)} {h : Past}

theorem steady_of_move (hs : Steady lib v hand turn) (ho : Own hand turn i)
    (hm : Moves lib i q x v (hand i) c reply v' g) (hq : enabled q = true)
    (commit : ∀ changes, c = .database (.commit i changes) → (∃ r, reply = .ok r) →
      ∀ a, (hand i).role = .flushed a .lost → v.marker = none ∨ a ∈ v.items)
    (mark : ∀ fingerprint, c = .filter (.setMarker fingerprint) → (∃ r, reply = .ok r) →
      (hand i).role ≠ .loading [] true) :
    Steady lib v' (Function.update hand i g) (some i) := by
  cases hm with
  | insert items capacity allowed => exact steady_insert hs ho allowed
  | miss items capacity e failed => exact steady_miss hs ho
  | mark fingerprint short complete =>
    have hshort : short = false := by
      by_contra hn
      apply mark fingerprint rfl ⟨(), rfl⟩
      rw [complete, Bool.of_not_eq_false hn]
    subst hshort
    exact steady_mark hs ho complete
  | unmark => exact steady_frame hs ho rfl rfl rfl rfl (fun h => absurd rfl h) Or.inl
  | drop free =>
    apply steady_step
    · exact hs.normal
    · exact fun y hy => pending_of_idle hs (fun a note h => by rw [free] at h; cases h) y hy
    · exact fun a h => by cases h
    · exact fun todo h => by cases h
    · exact fun h => absurd rfl h
    · exact fun h => absurd rfl h
  | snapshot dropped =>
    apply steady_step
    · exact hs.normal
    · exact pending_of_idle hs (fun a note h => by rw [dropped] at h; cases h)
    · exact fun a h => by cases h
    · intro todo h a ha
      cases h
      exact Or.inr ha
    · exact told_own hs ho
    · exact hs.covered
  | ask => exact steady_frame hs ho rfl rfl rfl rfl id Or.inr
  | look item hit certain => exact steady_frame hs ho rfl rfl rfl rfl id Or.inl
  | flush row free normal => exact steady_flush hs ho free normal
  | commit changes remembered =>
    exact steady_commit hs ho (fun a => remembered a hq) (commit changes rfl ⟨(), rfl⟩)
  | close c reply ends =>
    have he := steady_end hs ho (List.forall_mem_nil _)
    rwa [List.append_nil] at he
  | other c reply denied quiet => exact steady_frame hs ho rfl rfl rfl rfl id Or.inl

/-! ## Runs -/

/-- The condition on a step together with what is given of the run. -/
def Careful (lib : Libraries) (s : Service) (l : Label Request Choice Passing) : Prop :=
  (OnCall (Preserving lib) s l ∧ InTurn s) ∧ ∀ t ∈ s.threads, enabled t.request = true

theorem own_of_upcoming {s : Service} {r : Request × Command} (hs : InTurn s)
    (hu : upcoming s i = some r) :
    Own (ghost (contract lib) s.history) (lastThread s.history) i := by
  rcases turn_of_upcoming hs hu with h | h
  · exact Or.inl (ghost_unspawned s.history i h)
  · exact Or.inr h

theorem steady_preserved (lib : Libraries) (settings : Settings) (known : List Email)
    (start : ℕ) :
    Preserved (service lib settings) (contract lib) (Careful lib)
      (fun w h => Steady lib (view w) (ghost (contract lib) h) (lastThread h) ∧
        ∀ a ∈ known, a ∈ (view w).accounts ∧ Known lib h start a) where
  call := by
    rintro s i x q c reply w ⟨hs, hknown⟩ hu ha hp ⟨⟨hcond, hturn⟩, henabled⟩
    have hm := moves_of_perform lib i _ _ _ _ c x reply ha hp
    have ho : Own (ghost (contract lib) s.history) (lastThread s.history) i :=
      own_of_upcoming hturn hu
    obtain ⟨u, hu', rfl⟩ := request_of_upcoming hu
    have honest := onCall_run hu hcond
    refine ⟨?_, fun a ha => ?_⟩
    · rw [ghost_append, lastThread_append]
      apply steady_of_move hs ho hm (henabled u hu')
      · rintro changes rfl hok a hrole
        apply honest.1 rfl (answered_of_ok rfl hok hp) a
        simp [roles, hrole, Role.lostAddress]
      · rintro fingerprint rfl hok hrole
        have hshort := honest.2 rfl (answered_of_ok rfl hok hp)
        simp [roles, hrole, Role.short] at hshort
    · obtain ⟨hacc, hk⟩ := hknown a ha
      refine ⟨accounts_of_move hm hacc, known_append hk (fun hden => ?_) ?_⟩
      · obtain ⟨hmiss, hv, rfl⟩ := denial_of_move hm hden
        exact absurd (told_own hs ho (marker_of_vouched hv) a hacc) hmiss
      · exact fun hmissing => missing_of_perform hp hmissing hacc
  pass := by
    intro s d hi _
    show Steady lib (view (passed d s.world)) _ _ ∧
      ∀ a ∈ known, a ∈ (view (passed d s.world)).accounts ∧ _
    rwa [view_passed]

theorem steady_initial {now : ℕ} {database : Database} (hdb : Registered lib database) :
    Steady lib (view (World.fresh now database)) (ghost (contract lib) [])
      (lastThread ([] : Past)) := by
  have ht : Trusted lib (view (World.fresh now database)) (roles lib []) (watched []) :=
    trusted_initial hdb
  constructor
  · exact ht.normal
  · exact ht.pending
  · exact fun i a h => by cases h
  · exact fun i todo h => by cases h
  · exact fun i h => by cases h
  · exact ht.covered

/-- Thread 0 builds the filter. -/
def filterBuilt : List (Label Request Choice Passing) :=
  .spawn (.warm withFilter) :: steps 0 ["k", "", "", "", "", "", "", ""]

/-- Thread 1 signs up; its insert is made with the given choice and followed by the
given calls. -/
def signedUp (insert : Choice) (names : List String) : List (Label Request Choice Passing) :=
  .spawn (.signup withFilter "c@d" "long password" "1.2.3.4") ::
    steps 1 ["", "", "", "", "u", ""] ++ .run 1 insert :: steps 1 names

/-- The insert fails and trust is withdrawn before the commit. -/
def signupWithdrawing : List (Label Request Choice Passing) :=
  filterBuilt ++ signedUp { fail := true } ["", "", "", "", "", "", "", ""]

/-- The insert is answered `-1`: nothing raises and trust stays. -/
def signupRefused : List (Label Request Choice Passing) :=
  filterBuilt ++ signedUp { refused := [0] } ["", "", "", "", "", "", ""]

end Gamely.FilterFaults
