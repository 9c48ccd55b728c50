import Gamely.FilterLookups

/-!
# Lookups against rebuilds and commits

Without faults an address is in the filter before its account is committed, yet
a rebuild between the two drops it again and, with a snapshot older than the
commit, does not bring it back. The marker and the membership of one lookup are
two commands and a drop can fall between them.
-/

set_option autoImplicit false

namespace Gamely.FilterRaces
open Gamely.Calls Gamely.Stores Gamely.EmailJobs Gamely.Services Gamely.TokenService
open Gamely.EmailFilter Gamely.Requests Gamely.Interleaving Gamely.SessionMoves
open Gamely.Replays Gamely.FilterContract Gamely.FilterMoves Gamely.FilterTrust
open Gamely.FilterLookups

variable (lib : Libraries) (settings : Settings)

/-- No call fails, no item is refused and every replica keeps the filter. -/
def served : Label Request Choice Passing → Bool
  | .spawn q => enabled q
  | .run _ x => !x.fail && x.refused = []
  | .cancel _ => true
  | .pass _ => true

def Role.isStored : Role → Bool
  | .flushed _ .stored => true
  | _ => false

def roles (h : Past) (i : ℕ) : Role := (ghost (contract lib) h i).role

def commits : Command → Bool
  | .database (.commit ..) => true
  | _ => false

def looks : Command → Bool
  | .filter (.exists _) => true
  | _ => false

def publishes : Command → Bool
  | .filter (.setMarker _) => true
  | _ => false

/-- When an account is committed, its insert was made after the last drop or that
rebuild has not read its snapshot; a lookup under a marker that vouches ends
before the next drop; a rebuild publishes the marker only if it made the last
drop or a marker stands. -/
def Ordered (s : Service) (i : ℕ) (_x : Choice) (q : Request) (c : Command) : Prop :=
  (commits c = true → Role.isStored (roles lib s.history i) = true →
    loads (roles lib s.history) (watched s.history) = true → i ∈ (watched s.history).since) ∧
  (looks c = true → vouched q (ghost (contract lib) s.history i) = true →
    i ∈ (watched s.history).readers) ∧
  (publishes c = true → (watched s.history).dropper = some i ∨ s.world.filter.marker ≠ none)

instance (s : Service) (i : ℕ) (x : Choice) (q : Request) (c : Command) :
    Decidable (Ordered lib s i x q c) :=
  inferInstanceAs (Decidable ((_ → _ → _ → _) ∧ (_ → _ → _) ∧ (_ → _ ∨ _)))

/-! ## Trust along a run -/

variable {lib settings} {v v' : View} {t : Watch} {hand : ℕ → Hand} {i : ℕ} {h : Past}
variable {x : Choice} {q : Request} {c : Command} {reply : Except Failure (Reply c)} {g : Hand}

theorem roles_update (hand : ℕ → Hand) (i : ℕ) (g : Hand) :
    (fun j => (Function.update hand i g j).role) =
      Function.update (fun j => (hand j).role) i g.role := by
  funext j
  by_cases hj : j = i
  · subst hj
    simp
  · simp [Function.update_of_ne hj]

theorem trusted_frame {roles : ℕ → Role} {t' : Watch} {r : Role} (ht : Trusted lib v roles t)
    (hr : r = roles i) (hi : v'.items = v.items) (ha : v'.accounts = v.accounts)
    (hp : v'.pending = v.pending) (hm : v'.marker ≠ none → v.marker ≠ none)
    (hd : t'.dropper = t.dropper) (hs : t'.since = t.since) :
    Trusted lib v' (Function.update roles i r) t' := by
  rw [hr, Function.update_eq_self]
  constructor
  · rw [ha]
    exact ht.normal
  · rw [hp]
    exact ht.pending
  · exact ht.whole
  · rw [hs, hi]
    exact ht.kept
  · rw [hd, ha, hi]
    exact ht.loaded
  · intro h
    have hl := ht.loader (hm h)
    unfold loads at hl ⊢
    rwa [hd]
  · rw [ha, hi]
    exact fun h => ht.covered (hm h)

theorem trusted_of_move (ht : Trusted lib v (fun j => (hand j).role) t)
    (hm : Moves lib i q x v (hand i) c reply v' g) (hf : x.fail = false) (hx : x.refused = [])
    (hq : enabled q = true)
    (commit : ∀ changes, c = .database (.commit i changes) →
      Role.isStored (hand i).role = true →
      loads (fun j => (hand j).role) t = true → i ∈ t.since)
    (mark : ∀ fingerprint, c = .filter (.setMarker fingerprint) →
      t.dropper = some i ∨ v.marker ≠ none) :
    Trusted lib v' (fun j => (Function.update hand i g j).role) (t.step i c reply) := by
  rw [roles_update]
  cases hm with
  | insert items capacity allowed =>
    rw [hx, stored_all]
    exact trusted_insert ht rfl allowed
  | miss items capacity e failed =>
    rw [hf] at failed
    cases failed
  | mark fingerprint short complete =>
    have hr : Function.update (fun j => (hand j).role) i (hand i).role =
        fun j => (hand j).role := Function.update_eq_self ..
    rw [hr]
    exact trusted_mark ht complete (mark fingerprint rfl)
  | unmark => exact trusted_frame ht rfl rfl rfl rfl (fun h => absurd rfl h) rfl rfl
  | drop free => exact trusted_drop ht free
  | snapshot dropped => exact trusted_snapshot ht dropped
  | ask => exact trusted_frame ht rfl rfl rfl rfl id rfl rfl
  | look item hit certain => exact trusted_frame ht rfl rfl rfl rfl id rfl rfl
  | flush row free normal => exact trusted_flush ht free normal
  | commit changes remembered =>
    apply trusted_end ht
    intro a ha
    obtain ⟨y, hy, rfl⟩ := List.mem_map.mp ha
    obtain ⟨hy, hyi⟩ := List.mem_filter.mp hy
    obtain ⟨hn, note, hnote⟩ := ht.pending y hy
    rw [of_decide_eq_true hyi] at hnote
    refine ⟨hn, ⟨note, hnote⟩, fun hl => ?_⟩
    have hstored : note = .stored := by
      cases note with
      | pending => exact absurd hnote (remembered _ hq)
      | lost => exact absurd hnote (ht.whole i _)
      | stored => rfl
    subst hstored
    exact ht.kept i _ (commit changes rfl (by simp only [hnote, Role.isStored]) hl) hnote
  | close c reply ends =>
    have he := trusted_end (i := i) ht (List.forall_mem_nil _)
    rw [List.append_nil] at he
    rcases ends with rfl | ⟨changes, rfl⟩ <;> cases reply <;> exact he
  | other c reply denied quiet =>
    rw [quiet]
    exact trusted_frame ht rfl rfl rfl rfl id rfl rfl

/-! ## Lookups along a run -/

/-- The lookups under way will not exclude a `known` address either. -/
structure Listening (lib : Libraries) (known : List Email) (start : ℕ) (v : View)
    (hand : ℕ → Hand) (t : Watch) (h : Past) : Prop where
  committed : ∀ a ∈ known, a ∈ v.accounts
  certain : ∀ j ∈ t.readers, asked (h.drop start) j = true → (hand j).marker ≠ none →
    ∀ a ∈ known, a ∈ v.items
  begun : start ≤ h.length
  known : ∀ a ∈ known, Known lib h start a

variable {known : List Email} {start : ℕ}

theorem asks_of_quiet (hq : ∀ t : Watch, t.step i c reply = t) : asks c reply = false := by
  rw [Bool.eq_false_iff]
  intro ha
  unfold asks at ha
  split at ha
  · have hr := congrArg (fun t => t.readers.length) (hq ⟨none, [], []⟩)
    cases hr
  · cases ha

theorem listening_carry {t' : Watch}
    (hl : Listening lib known start v (ghost (contract lib) h) t h)
    (hm : Moves lib i q x v (ghost (contract lib) h i) c reply v' g)
    (hknown : ∀ a ∈ known, Known lib (h ++ [⟨i, q, c, reply⟩]) start a)
    (hasks : asks c reply = false) (hitems : ∀ a ∈ v.items, a ∈ v'.items)
    (hr : t'.readers = t.readers)
    (hmark : g.marker = (ghost (contract lib) h i).marker ∨ g.marker = none) :
    Listening lib known start v' (Function.update (ghost (contract lib) h) i g) t'
      (h ++ [⟨i, q, c, reply⟩]) := by
  constructor
  · exact fun a ha => accounts_of_move hm (hl.committed a ha)
  · intro j hj hasked hm a ha
    rw [asked_append hl.begun, hasks, Bool.and_false, Bool.or_false] at hasked
    rw [hr] at hj
    apply hitems
    apply hl.certain j hj hasked _ a ha
    by_cases hji : j = i
    · subst hji
      rw [Function.update_self] at hm
      rcases hmark with hmark | hmark
      · rwa [hmark] at hm
      · exact absurd hmark hm
    · rwa [Function.update_of_ne hji] at hm
  · rw [List.length_append]
    exact Nat.le_add_right_of_le hl.begun
  · exact hknown

theorem listening_of_move
    (hl : Listening lib known start v (ghost (contract lib) h) t h)
    (ht : Trusted lib v (fun j => (ghost (contract lib) h j).role) t)
    (hm : Moves lib i q x v (ghost (contract lib) h i) c reply v' g)
    (look : looks c = true → vouched q (ghost (contract lib) h i) = true → i ∈ t.readers)
    (rows : ∀ a ∈ known, missing c reply ≠ some a) :
    Listening lib known start v' (Function.update (ghost (contract lib) h) i g)
      (t.step i c reply) (h ++ [⟨i, q, c, reply⟩]) := by
  have hknown : ∀ a ∈ known, Known lib (h ++ [⟨i, q, c, reply⟩]) start a := by
    intro a ha
    refine known_append (hl.known a ha) (fun hden => ?_) (rows a ha)
    obtain ⟨hmiss, hv, rfl⟩ := denial_of_move hm hden
    rw [Bool.eq_false_iff]
    intro hasked
    exact hmiss (hl.certain i (look rfl hv) hasked (marker_of_vouched hv) a ha)
  have carry : ∀ t' : Watch, asks c reply = false → (∀ a ∈ v.items, a ∈ v'.items) →
      t'.readers = t.readers →
      (g.marker = (ghost (contract lib) h i).marker ∨ g.marker = none) →
      Listening lib known start v' (Function.update (ghost (contract lib) h) i g) t'
        (h ++ [⟨i, q, c, reply⟩]) :=
    fun t' hasks hi hr hmark => listening_carry hl hm hknown hasks hi hr hmark
  have begun : start ≤ (h ++ [(⟨i, q, c, reply⟩ : Occurrence)]).length := by
    rw [List.length_append]
    exact Nat.le_add_right_of_le hl.begun
  cases hm with
  | insert items capacity allowed =>
    exact carry _ rfl (fun _ h => List.mem_append_left _ h) rfl (Or.inl rfl)
  | miss items capacity e failed => exact carry _ rfl (fun _ h => h) rfl (Or.inl rfl)
  | mark fingerprint short complete => exact carry _ rfl (fun _ h => h) rfl (Or.inl rfl)
  | unmark => exact carry _ rfl (fun _ h => h) rfl (Or.inl rfl)
  | drop free =>
    refine ⟨hl.committed, ?_, begun, hknown⟩
    intro j hj
    cases hj
  | snapshot dropped => exact carry _ rfl (fun _ h => h) rfl (Or.inl rfl)
  | ask =>
    refine ⟨hl.committed, ?_, begun, hknown⟩
    intro j hj hasked hmark a ha
    by_cases hji : j = i
    · subst hji
      rw [Function.update_self] at hmark
      exact ht.covered hmark a (hl.committed a ha)
    · rw [Function.update_of_ne hji] at hmark
      rw [asked_append hl.begun, decide_eq_false (Ne.symm hji), Bool.false_and,
        Bool.or_false] at hasked
      exact hl.certain j ((List.mem_cons.mp hj).resolve_left hji) hasked hmark a ha
  | look item hit certain => exact carry _ rfl (fun _ h => h) rfl (Or.inl rfl)
  | flush row free normal => exact carry _ rfl (fun _ h => h) rfl (Or.inl rfl)
  | commit changes remembered => exact carry _ rfl (fun _ h => h) rfl (Or.inr rfl)
  | close c reply ends =>
    have hr : (t.step i (.database c) reply).readers = t.readers := by
      rcases ends with rfl | ⟨changes, rfl⟩ <;> cases reply <;> rfl
    exact carry _ rfl (fun _ h => h) hr (Or.inr rfl)
  | other c reply denied quiet =>
    exact carry _ (asks_of_quiet quiet) (fun _ h => h) (by rw [quiet]) (Or.inl rfl)

/-! ## Runs -/

def Orderly (lib : Libraries) (s : Service) (l : Label Request Choice Passing) : Prop :=
  (OnCall (Ordered lib) s l ∧ served l = true) ∧ ∀ t ∈ s.threads, enabled t.request = true

theorem trusted_step {s : Service} {w : World}
    (ht : Trusted lib (view s.world) (roles lib s.history) (watched s.history))
    (hu : upcoming s i = some (q, c)) (ha : allows lib i q (ghost (contract lib) s.history i) c)
    (hp : perform lib c x s.world = some (reply, w)) (hc : Orderly lib s (.run i x)) :
    Trusted lib (view w) (roles lib (s.history ++ [⟨i, q, c, reply⟩]))
      (watched (s.history ++ [⟨i, q, c, reply⟩])) := by
  obtain ⟨⟨hcond, hserved⟩, henabled⟩ := hc
  simp only [served, Bool.and_eq_true, Bool.not_eq_true', decide_eq_true_eq] at hserved
  obtain ⟨u, hu', rfl⟩ := request_of_upcoming hu
  have hm := moves_of_perform lib i _ _ _ _ c x reply ha hp
  unfold roles at ht ⊢
  rw [ghost_append, watched_append]
  apply trusted_of_move ht hm hserved.1 hserved.2 (henabled u hu')
  · rintro changes rfl
    exact (onCall_run hu hcond).1 rfl
  · rintro fingerprint rfl
    exact (onCall_run hu hcond).2.2 rfl

theorem trusted_preserved (lib : Libraries) (settings : Settings) :
    Preserved (service lib settings) (contract lib) (Orderly lib)
      (fun w h => Trusted lib (view w) (roles lib h) (watched h)) where
  call := fun s i x q c reply w ht hu ha hp hc => trusted_step ht hu ha hp hc
  pass := by
    intro s d ht _
    show Trusted lib (view (passed d s.world)) _ _
    rwa [view_passed]

theorem listening_preserved (lib : Libraries) (settings : Settings) (known : List Email)
    (start : ℕ) :
    Preserved (service lib settings) (contract lib) (Orderly lib)
      (fun w h => Trusted lib (view w) (roles lib h) (watched h) ∧
        Listening lib known start (view w) (ghost (contract lib) h) (watched h) h) where
  call := by
    intro s i x q c reply w hi hu ha hp hc
    obtain ⟨ht, hl⟩ := hi
    have hm := moves_of_perform lib i _ _ _ _ c x reply ha hp
    refine ⟨trusted_step ht hu ha hp hc, ?_⟩
    rw [ghost_append, watched_append]
    apply listening_of_move hl ht hm
    · exact (onCall_run hu hc.1.1).2.1
    · exact fun a ha hmissing => missing_of_perform hp hmissing (hl.committed a ha)
  pass := by
    intro s d hi _
    show Trusted lib (view (passed d s.world)) _ _ ∧
      Listening lib known start (view (passed d s.world)) _ _ _
    rwa [view_passed]

/-- The accounts a database holds at the start: every address as the service
writes it, and no transaction open. -/
structure Registered (lib : Libraries) (database : Database) : Prop where
  normal : ∀ u ∈ database.users, normalizeEmail lib u.email = .ok u.email
  ended : database.flushed = []

theorem trusted_initial {now : ℕ} {database : Database} (hdb : Registered lib database) :
    Trusted lib (view (World.fresh now database)) (roles lib []) (watched []) := by
  constructor
  · intro a ha
    obtain ⟨u, hu, rfl⟩ := List.mem_map.mp ha
    exact hdb.normal u hu
  · intro y hy
    rw [show (view (World.fresh now database)).pending = [] by simp [view, World.fresh, hdb.ended]]
      at hy
    cases hy
  · exact fun j a h => by cases h
  · exact fun j a hj => by cases hj
  · exact fun r todo short hd => by cases hd
  · exact fun h => absurd rfl h
  · exact fun h => absurd rfl h

/-- In a run that keeps the order of commits, markers and lookups, whoever looks an
address up after its account was committed is told that it is taken. -/
theorem no_false_negatives (lib : Libraries) (settings : Settings) (now : ℕ) (database : Database)
    (hdb : Registered lib database) (ls ms : List (Label Request Choice Passing))
    (hserved : ∀ l ∈ ls ++ ms, served l = true)
    (hm : Meets (service lib settings) (OnCall (Ordered lib)) (ls ++ ms)
      (initial (World.fresh now database))) :
    let s := run (service lib settings) ls (initial (World.fresh now database))
    let t := run (service lib settings) ms s
    ∀ u ∈ s.world.database.users, Seen lib settings t s.history.length u.email := by
  intro s t u hu
  have hrequests := meets_requests (S := service lib settings) (ls ++ ms)
    (initial (World.fresh now database)) (fun q hq => hserved _ hq) (fun t ht => by cases ht)
  have horderly := meets_and _ _ (meets_and _ _ hm (meets_of_forall _ _ hserved)) hrequests
  obtain ⟨hls, hms⟩ := (meets_append _ ls ms _).mp horderly
  have hfollow : Following (contract lib) s :=
    following_run (obeys lib settings) ls _ (following_initial _)
  have ht : Trusted lib (view s.world) (roles lib s.history) (watched s.history) :=
    invariant_run (obeys lib settings) (trusted_preserved lib settings) ls _
      (following_initial _) (trusted_initial hdb) hls
  have hl : Listening lib (s.world.database.users.map User.email) s.history.length
      (view s.world) (ghost (contract lib) s.history) (watched s.history) s.history := by
    refine ⟨fun a ha => ha, fun j _ hasked => ?_, Nat.le_refl _, fun a _ => known_now _ a⟩
    rw [List.drop_length] at hasked
    cases hasked
  have hend := (invariant_run (obeys lib settings) (listening_preserved lib settings _ _) ms s
    hfollow ⟨ht, hl⟩ hms).2
  exact seen_of_known (played_run ms s (played_run ls _ (played_initial _)))
    (hend.known u.email (List.mem_map_of_mem hu))

/-! ## A commit between the snapshot and the marker -/

theorem registered_oneAccount : Registered plainLibraries oneAccount where
  normal := by
    intro u hu
    rw [List.mem_singleton.mp hu]
    rfl
  ended := rfl

/-- Thread 0 signs up while thread 1 rebuilds; the address is inserted before the
drop and committed before the snapshot. -/
def signupBeforeSnapshot : List (Label Request Choice Passing) :=
  .spawn (.signup withFilter "c@d" "long password" "1.2.3.4") ::
    steps 0 ["", "", "", "", "", "u", "", ""] ++
  .spawn (.warm withFilter) :: steps 1 ["k", "", "", ""] ++
  steps 0 ["", "", "", "", "", "", ""] ++ steps 1 ["", "", "", ""]

/-- Thread 2 asks for the address. -/
def availabilityAsked : List (Label Request Choice Passing) :=
  .spawn (.emailAvailable withFilter "c@d" "5.6.7.8") :: steps 2 ["", "", "", "", ""]

theorem no_false_negatives_signup :
    let s := run (service plainLibraries plainSettings) signupBeforeSnapshot
      (initial (World.fresh 0 oneAccount))
    let t := run (service plainLibraries plainSettings) availabilityAsked s
    (∀ u ∈ s.world.database.users, Seen plainLibraries plainSettings t s.history.length u.email) ∧
      ∃ u ∈ s.world.database.users, answerOf t 2 = some (some u.email, .available false) :=
  ⟨no_false_negatives plainLibraries plainSettings 0 oneAccount registered_oneAccount
    signupBeforeSnapshot availabilityAsked (by decide +kernel) (by decide +kernel),
    by decide +kernel⟩

/-- The rebuild reads its snapshot before the commit and publishes its marker
after it. -/
def signupBehindSnapshot : List (Label Request Choice Passing) :=
  .spawn (.signup withFilter "c@d" "long password" "1.2.3.4") ::
    steps 0 ["", "", "", "", "", "u", "", ""] ++
  .spawn (.warm withFilter) :: steps 1 ["k", "", "", "", ""] ++
  steps 0 ["", "", "", "", "", "", ""] ++ steps 1 ["", "", ""]

def onFilter : Request → Bool
  | .emailAvailable .. | .signup .. | .oauthLogin .. | .warm _ => true
  | _ => false

theorem committed_address_excluded :
    ¬ ∀ (lib : Libraries) (settings : Settings) (now : ℕ) (database : Database),
      Registered lib database → ∀ ls ms : List (Label Request Choice Passing),
      (∀ l ∈ ls ++ ms, served l ∧ faultless l ∧ spawns onFilter l) →
      let s := run (service lib settings) ls (initial (World.fresh now database))
      let t := run (service lib settings) ms s
      ∀ u ∈ s.world.database.users, Seen lib settings t s.history.length u.email := by
  intro h
  have hseen := h plainLibraries plainSettings 0 oneAccount registered_oneAccount
    signupBehindSnapshot availabilityAsked (by decide +kernel)
    ⟨"u", "c@d", some "long password", none⟩ (by decide +kernel)
  have hanswer : answerOf (run (service plainLibraries plainSettings) availabilityAsked
      (run (service plainLibraries plainSettings) signupBehindSnapshot
        (initial (World.fresh 0 oneAccount)))) 2 = some (some "c@d", .available true) := by
    decide +kernel
  obtain ⟨f, client, hr⟩ := returned_of_answer hanswer
  cases hseen.answered 2 f "c@d" client true rfl (by decide +kernel) hr

end Gamely.FilterRaces
