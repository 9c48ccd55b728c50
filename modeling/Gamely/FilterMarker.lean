import Gamely.Footprints

/-!
# What the marker says of the filter

A marker is the text of the parameters a rebuild meant to reserve. CF.RESERVE on a
key that is there does nothing, and CF.INSERT on a key that is not there creates it
with the module's own parameters, so the marker is true of a key only if the
rebuild's reserve came first after the last drop.
-/

set_option autoImplicit false

namespace Gamely.FilterMarker
open Gamely.Calls Gamely.Stores Gamely.EmailJobs Gamely.Services Gamely.TokenService
open Gamely.EmailFilter Gamely.AuthService Gamely.Requests Gamely.Footprints Gamely.Interleaving

/-! ## What is to be shown -/

/-- The parameters of a reserve that was answered `True`: it created the key. -/
def reserves : (c : Command) → Except Failure (Reply c) → Option FilterParams
  | .filter (.reserve params), .ok true => some params
  | _, _ => none

/-- The reserves that created the key since the last drop. -/
def reservations (h : Past) : List FilterParams :=
  h.foldl (fun ps e => if drops e.command e.reply then []
    else ps ++ (reserves e.command e.reply).toList) []

/-- A marker with the text of some parameters stands beside a key that a reserve created
with these parameters. -/
def Truthful (s : Service) : Prop :=
  ∀ p : FilterParams, s.world.filter.marker = some p.fingerprint →
    s.world.filter.filter.map Cuckoo.params = some p ∧ p ∈ reservations s.history

/-! ## The order of the commands -/

/-- A command that creates the key if it is not there. -/
inductive Creation where
  | reserve (params : FilterParams)
  | insert
  deriving DecidableEq, Repr

def Creation.params : Creation → Option FilterParams
  | .reserve params => some params
  | .insert => none

def creation : (c : Command) → Except Failure (Reply c) → Option Creation
  | .filter (.reserve params), .ok _ => some (.reserve params)
  | .filter (.insert ..), .ok _ => some .insert
  | _, _ => none

/-- The first command since the last drop that would create the key. -/
def firstCreation (h : Past) : Option Creation :=
  h.foldl (fun o e => if drops e.command e.reply then none
    else o.or (creation e.command e.reply)) none

/-- When a rebuild publishes its marker, a reserve with its own parameters came first
after the last drop: no insert, and no reserve with others. -/
def Unraced (s : Service) (_ : ℕ) (x : Choice) : Request → Command → Prop
  | .warm f, .filter (.setMarker _) =>
    x.fail = false → firstCreation s.history = some (.reserve f.params)
  | _, _ => True

/-- The parameters whose text a rebuild publishes. -/
def publishes : Request → Command → Option FilterParams
  | .warm f, .filter (.setMarker _) => some f.params
  | _, _ => none

theorem unraced_iff (s : Service) (i : ℕ) (x : Choice) (q : Request) (c : Command) :
    (∀ p ∈ publishes q c, x.fail = false → firstCreation s.history = some (.reserve p)) ↔
      Unraced s i x q c := by
  unfold publishes Unraced
  split
  case h_1 f t => simp
  case h_2 => simp

instance (s : Service) (i : ℕ) (x : Choice) (q : Request) (c : Command) :
    Decidable (Unraced s i x q c) := decidable_of_iff _ (unraced_iff s i x q c)

theorem reservations_append (h : Past) (e : Occurrence) :
    reservations (h ++ [e]) = if drops e.command e.reply then []
      else reservations h ++ (reserves e.command e.reply).toList := List.foldl_concat ..

theorem firstCreation_append (h : Past) (e : Occurrence) :
    firstCreation (h ++ [e]) = if drops e.command e.reply then none
      else (firstCreation h).or (creation e.command e.reply) := List.foldl_concat ..

/-! ## The text of the parameters -/

theorem toList_fingerprint (p : FilterParams) : p.fingerprint.toList =
    Nat.toDigits 10 p.capacity ++ ':' :: (Nat.toDigits 10 p.bucketSize ++
      ':' :: (Nat.toDigits 10 p.expansion ++
        ':' :: (Nat.toDigits 10 p.maxIterations ++ ":v1".toList))) := by
  have hdigits : ∀ n : ℕ, (toString n).toList = Nat.toDigits 10 n := by
    intro n
    simp [toString, Nat.repr_eq_ofList_toDigits]
  simp only [FilterParams.fingerprint, String.toList_append, hdigits]
  simp
  rfl

/-- Digits up to the first colon are one number. -/
theorem digits_split {a b : ℕ} {r s : List Char}
    (h : Nat.toDigits 10 a ++ ':' :: r = Nat.toDigits 10 b ++ ':' :: s) : a = b ∧ r = s := by
  have hdigit : ∀ n : ℕ, ∀ c ∈ Nat.toDigits 10 n, decide (c ≠ ':') = true := by
    intro n c hc
    have hd := Nat.isDigit_of_mem_toDigits (by decide) (by decide) hc
    simp only [ne_eq, decide_eq_true_eq]
    rintro rfl
    exact absurd hd (by decide)
  have hsame : Nat.toDigits 10 a = Nat.toDigits 10 b := by
    have htake := congrArg (List.takeWhile (· ≠ ':')) h
    rw [List.takeWhile_append_of_pos (hdigit a), List.takeWhile_append_of_pos (hdigit b)] at htake
    simpa using htake
  constructor
  · calc a = Nat.ofDigitChars 10 (Nat.toDigits 10 a) 0 := Nat.ofDigitChars_ten_toDigits.symm
      _ = Nat.ofDigitChars 10 (Nat.toDigits 10 b) 0 := by rw [hsame]
      _ = b := Nat.ofDigitChars_ten_toDigits
  · rw [hsame] at h
    simpa using h

theorem fingerprint_injective {p p' : FilterParams} (h : p.fingerprint = p'.fingerprint) :
    p = p' := by
  have hlist := congrArg String.toList h
  rw [toList_fingerprint, toList_fingerprint] at hlist
  obtain ⟨hcapacity, hlist⟩ := digits_split hlist
  obtain ⟨hbucket, hlist⟩ := digits_split hlist
  obtain ⟨hexpansion, hlist⟩ := digits_split hlist
  obtain ⟨hiterations, -⟩ := digits_split hlist
  cases p
  cases p'
  simp_all

/-! ## Only a rebuild publishes a marker -/

def marks (q : Request) : Command → Prop
  | .filter (.setMarker fingerprint) => ∃ f, q = .warm f ∧ fingerprint = f.params.fingerprint
  | _ => True

def contract : Contract Command Reply Failure Answer Request Unit where
  start := ()
  protocol := fun _ q => kind (marks q)
  post := fun _ _ _ => True

variable {lib : Libraries} {settings : Settings}

theorem marks_of_part (q : Request) {parts : List Part} (hparts : .rebuild ∉ parts) (c : Command)
    (hc : part c ∈ parts) : marks q c := by
  cases c with
  | filter c =>
    cases c with
    | setMarker fingerprint => exact absurd hc hparts
    | _ => trivial
  | _ => trivial

theorem only_warm (f : FilterSettings) : Only (marks (.warm f)) (warm lib f) := by
  have hcall : ∀ c, (∀ t, c ≠ FilterCall.setMarker t) → Only (marks (.warm f)) (cuckoo c) := by
    intro c hc
    apply only_invoke
    cases c with
    | setMarker t => exact absurd rfl (hc t)
    | _ => trivial
  unfold warm
  split
  · exact only_pure _
  · apply only_tryCatch _ _ _ (fun _ => only_pure _)
    apply only_bind _ _ (only_invoke _ trivial)
    intro token
    apply only_bind _ _ (hcall _ (by simp))
    intro locked
    split
    · exact only_pure _
    · apply only_tryCatch
      · apply only_bind _ _ (hcall _ (by simp))
        intro _
        apply only_bind _ _ (hcall _ (by simp))
        intro _
        apply only_bind _ _ (only_invoke _ trivial)
        intro emails
        apply only_bind
        · apply only_forM
          intro batch
          unfold addBatch
          split
          · apply only_bind _ _ _ (fun _ => only_pure _)
            unfold addMany
            split
            · exact only_pure _
            · exact only_bind _ _ (hcall _ (by simp)) (fun _ => only_pure _)
          · exact only_throw _
        · exact fun _ => only_invoke _ ⟨f, rfl, rfl⟩
      · intro e
        exact only_bind _ _ (hcall _ (by simp)) (fun _ => only_throw _)

theorem only_serve (session : ℕ) (q : Request) :
    Only (marks q) (serve lib settings session q) := by
  cases q with
  | warm f =>
    have hrollback : Only (marks (.warm f)) (rollback session) := only_invoke _ trivial
    apply only_bind
    · apply only_tryCatch
      · exact only_bind _ _ (only_warm f) (fun _ => only_pure _)
      · exact fun e => only_bind _ _ hrollback (fun _ => only_throw _)
    · exact fun answer => only_bind _ _ hrollback (fun _ => only_pure _)
  | _ =>
    apply only_mono (marks_of_part _ _) _ (serve_within lib settings session _)
    simp only [footprint]
    decide

theorem obeys (lib : Libraries) (settings : Settings) :
    Obeys (service lib settings) contract where
  program := fun i q => only_serve i q
  cancelled := by
    intro i q p hp g
    cases q with
    | warm f =>
      cases hp
      trivial
    | _ => cases hp

/-! ## The key -/

/-- What the order of the commands tells of the key. -/
structure Keyed (w : World) (h : Past) : Prop where
  absent : w.filter.filter = none → firstCreation h = none
  present : ∀ f, w.filter.filter = some f → ∃ c, firstCreation h = some c ∧
    ∀ p, c = .reserve p → f.params = p ∧ p ∈ reservations h
  reserved : ∀ p ∈ reservations h, firstCreation h = some (.reserve p)

variable {w w' : World} {h : Past} {i : ℕ} {q : Request}

theorem keyed_fresh (now : ℕ) (database : Database) : Keyed (World.fresh now database) [] where
  absent := fun _ => rfl
  present := fun f hf => by cases hf
  reserved := fun p hp => by cases hp

theorem keyed_other (hk : Keyed w h) (e : Occurrence)
    (hfilter : w'.filter.filter = w.filter.filter) (hd : drops e.command e.reply = false)
    (hr : reserves e.command e.reply = none) (hc : creation e.command e.reply = none) :
    Keyed w' (h ++ [e]) := by
  have hfirst : firstCreation (h ++ [e]) = firstCreation h := by
    rw [firstCreation_append, hd, hc, Option.or_none]
    rfl
  have hres : reservations (h ++ [e]) = reservations h := by
    rw [reservations_append, hd, hr]
    simp
  constructor
  · rw [hfilter, hfirst]
    exact hk.absent
  · rw [hfilter, hfirst, hres]
    exact hk.present
  · rw [hfirst, hres]
    exact hk.reserved

theorem keyed_drop (e : Occurrence)
    (hfilter : w'.filter.filter = none) (hd : drops e.command e.reply = true) :
    Keyed w' (h ++ [e]) := by
  have hres : reservations (h ++ [e]) = [] := by rw [reservations_append, if_pos hd]
  constructor
  · intro _
    rw [firstCreation_append, if_pos hd]
  · intro f hf
    rw [hfilter] at hf
    cases hf
  · intro p hp
    rw [hres] at hp
    cases hp

theorem keyed_creation (hk : Keyed w h) (e : Occurrence) (c : Creation)
    (hd : drops e.command e.reply = false) (hc : creation e.command e.reply = some c)
    (habsent : w.filter.filter = none → ∃ f, w'.filter.filter = some f ∧
      (∀ p, c = .reserve p → f.params = p) ∧
      reserves e.command e.reply = c.params)
    (hpresent : ∀ f, w.filter.filter = some f →
      w'.filter.filter.map Cuckoo.params = some f.params ∧ reserves e.command e.reply = none) :
    Keyed w' (h ++ [e]) := by
  have hfirst : firstCreation (h ++ [e]) = (firstCreation h).or (some c) := by
    rw [firstCreation_append, hd, hc]
    rfl
  have hres : reservations (h ++ [e]) =
      reservations h ++ (reserves e.command e.reply).toList := by
    rw [reservations_append, hd]
    rfl
  cases hf : w.filter.filter with
  | none =>
    obtain ⟨f, hf', hparams, hreserves⟩ := habsent hf
    have hnone := hk.absent hf
    have hempty : reservations h = [] := by
      rw [List.eq_nil_iff_forall_not_mem]
      intro p hp
      rw [hk.reserved p hp] at hnone
      cases hnone
    rw [hnone, Option.none_or] at hfirst
    rw [hempty, hreserves, List.nil_append] at hres
    constructor
    · intro hn
      rw [hf'] at hn
      cases hn
    · intro f₁ hf₁
      rw [hf'] at hf₁
      cases hf₁
      refine ⟨c, hfirst, fun p hp => ⟨hparams p hp, ?_⟩⟩
      rw [hres, hp]
      exact List.mem_singleton_self p
    · intro p hp
      rw [hres] at hp
      rw [hfirst]
      cases c with
      | reserve p' => rw [List.mem_singleton.mp hp]
      | insert => cases hp
  | some f =>
    obtain ⟨hparams, hreserves⟩ := hpresent f hf
    obtain ⟨c₀, hc₀, hprops⟩ := hk.present f hf
    rw [hc₀, Option.some_or] at hfirst
    rw [hreserves, Option.toList_none, List.append_nil] at hres
    constructor
    · intro hn
      rw [hn] at hparams
      cases hparams
    · intro f₁ hf₁
      rw [hf₁, Option.map_some, Option.some.injEq] at hparams
      rw [hres, hparams]
      exact ⟨c₀, hfirst, hprops⟩
    · intro p hp
      rw [hres] at hp
      rw [hfirst, ← hc₀]
      exact hk.reserved p hp

theorem keyed_filter (hk : Keyed w h) (c : FilterCall) (x : Choice) :
    Keyed { w with filter := (c.perform lib.filterDefaults w.now x.hit x.refused w.filter).2 }
      (h ++ [⟨i, q, .filter c,
        .ok (c.perform lib.filterDefaults w.now x.hit x.refused w.filter).1⟩]) := by
  cases c with
  | getMarker | «exists» | setMarker | delMarker => exact keyed_other hk _ rfl rfl rfl rfl
  | setLock token ttl | releaseLock token =>
    apply keyed_other hk _ _ rfl rfl rfl
    simp only [FilterCall.perform]
    split <;> rfl
  | drop => exact keyed_drop _ rfl rfl
  | insert items capacity =>
    apply keyed_creation hk _ .insert rfl rfl
    · intro hf
      refine ⟨_, rfl, ?_, rfl⟩
      intro p hp
      cases hp
    · intro f hf
      simp only [FilterCall.perform, inserted, hf]
      exact ⟨rfl, rfl⟩
  | reserve params =>
    apply keyed_creation hk _ (.reserve params) rfl rfl
    · intro hf
      simp only [FilterCall.perform, hf]
      refine ⟨_, rfl, ?_, rfl⟩
      intro p hp
      cases hp
      rfl
    · intro f hf
      simp only [FilterCall.perform, hf]
      exact ⟨rfl, rfl⟩

theorem keyed_call (hk : Keyed w h) {c : Command} {x : Choice} {reply : Except Failure (Reply c)}
    (hp : perform lib c x w = some (reply, w')) : Keyed w' (h ++ [⟨i, q, c, reply⟩]) := by
  rcases perform_cases hp with ⟨-, -, rfl, rfl⟩ | ⟨-, ha⟩
  · apply keyed_other hk _ rfl
    · cases c with
      | filter c => cases c <;> rfl
      | _ => rfl
    · cases c with
      | filter c => cases c <;> rfl
      | _ => rfl
    · cases c with
      | filter c => cases c <;> rfl
      | _ => rfl
  · cases c with
    | filter c =>
      cases ha
      exact keyed_filter hk c x
    | tokenUrlsafe | uuid4 | randbelow =>
      simp only [answer] at ha
      split at ha <;> cases ha
      exact keyed_other hk _ rfl rfl rfl rfl
    | database c =>
      obtain ⟨r, -, he⟩ := Option.map_eq_some_iff.mp ha
      cases he
      exact keyed_other hk _ rfl rfl rfl rfl
    | _ =>
      cases ha
      exact keyed_other hk _ rfl rfl rfl rfl

/-! ## The marker -/

/-- A marker is the text of the reserve that came first. -/
def Marked (w : World) (h : Past) : Prop :=
  ∀ t, w.filter.marker = some t →
    ∃ p : FilterParams, t = p.fingerprint ∧ firstCreation h = some (.reserve p)

theorem truthful_of_marked {s : Service} (hk : Keyed s.world s.history)
    (hm : Marked s.world s.history) : Truthful s := by
  intro p hp
  obtain ⟨p', ht, hfirst⟩ := hm _ hp
  obtain rfl := fingerprint_injective ht
  cases hf : s.world.filter.filter with
  | none =>
    rw [hk.absent hf] at hfirst
    cases hfirst
  | some f =>
    obtain ⟨c, hc, hprops⟩ := hk.present f hf
    rw [hfirst, Option.some.injEq] at hc
    obtain ⟨hparams, hres⟩ := hprops p hc.symm
    exact ⟨congrArg some hparams, hres⟩

/-- A marker that stays where it is stays true until the next drop. -/
theorem marked_kept (hm : Marked w h) (e : Occurrence)
    (hmarker : ∀ t, w'.filter.marker = some t → w.filter.marker = some t)
    (hd : drops e.command e.reply = false) : Marked w' (h ++ [e]) := by
  intro t ht
  obtain ⟨p, hp, hfirst⟩ := hm t (hmarker t ht)
  refine ⟨p, hp, ?_⟩
  rw [firstCreation_append, hd, hfirst]
  rfl

theorem marked_filter (hm : Marked w h) (c : FilterCall) (x : Choice)
    (hc : ∀ t, c = .setMarker t → ∃ p : FilterParams, t = p.fingerprint ∧
      firstCreation h = some (.reserve p)) :
    Marked { w with filter := (c.perform lib.filterDefaults w.now x.hit x.refused w.filter).2 }
      (h ++ [⟨i, q, .filter c,
        .ok (c.perform lib.filterDefaults w.now x.hit x.refused w.filter).1⟩]) := by
  cases c with
  | getMarker | «exists» | insert => exact marked_kept hm _ (fun _ ht => ht) rfl
  | setLock token ttl | releaseLock token | reserve params =>
    apply marked_kept hm _ _ rfl
    intro t
    simp only [FilterCall.perform]
    split <;> exact fun ht => ht
  | delMarker | drop =>
    intro t ht
    cases ht
  | setMarker fingerprint =>
    intro t ht
    cases ht
    obtain ⟨p, hp, hfirst⟩ := hc _ rfl
    refine ⟨p, hp, ?_⟩
    rw [firstCreation_append, hfirst]
    rfl

theorem marked_call (hm : Marked w h) {c : Command} {x : Choice} {reply : Except Failure (Reply c)}
    (hp : perform lib c x w = some (reply, w'))
    (hc : ∀ t, c = .filter (.setMarker t) → x.fail = false → ∃ p : FilterParams,
      t = p.fingerprint ∧ firstCreation h = some (.reserve p)) :
    Marked w' (h ++ [⟨i, q, c, reply⟩]) := by
  rcases perform_cases hp with ⟨-, -, rfl, rfl⟩ | ⟨hup, ha⟩
  · apply marked_kept hm _ (fun _ ht => ht)
    cases c with
    | filter c => cases c <;> rfl
    | _ => rfl
  · cases c with
    | filter c =>
      cases ha
      apply marked_filter hm c x
      rintro t rfl
      exact hc t rfl (by simpa [Command.isLocal] using hup)
    | tokenUrlsafe | uuid4 | randbelow =>
      simp only [answer] at ha
      split at ha <;> cases ha
      exact marked_kept hm _ (fun _ ht => ht) rfl
    | database c =>
      obtain ⟨r, -, he⟩ := Option.map_eq_some_iff.mp ha
      cases he
      exact marked_kept hm _ (fun _ ht => ht) rfl
    | _ =>
      cases ha
      exact marked_kept hm _ (fun _ ht => ht) rfl

/-! ## Every run -/

theorem keyed_passed (hk : Keyed w h) (d : Passing) : Keyed (passed d w) h := by
  cases d <;> exact ⟨hk.absent, hk.present, hk.reserved⟩

theorem marked_passed (hm : Marked w h) (d : Passing) : Marked (passed d w) h := by
  cases d <;> exact hm

theorem keyed_preserved (lib : Libraries) (settings : Settings) :
    Preserved (service lib settings) contract (fun _ _ => True) Keyed where
  call := fun _ _ _ _ _ _ _ hk _ _ hp _ => keyed_call hk hp
  pass := fun _ d hk _ => keyed_passed hk d

theorem marked_preserved (lib : Libraries) (settings : Settings) :
    Preserved (service lib settings) contract (OnCall Unraced) Marked where
  call := by
    intro s i x q c reply w hm hu ha hp hc
    apply marked_call hm hp
    rintro t rfl hfail
    obtain ⟨f, rfl, rfl⟩ : marks q (.filter (.setMarker t)) := ha
    have hcond : Unraced s i x (.warm f) (.filter (.setMarker f.params.fingerprint)) :=
      onCall_run hu hc
    exact ⟨f.params, rfl, hcond hfail⟩
  pass := fun _ d hm _ => marked_passed hm d

theorem truthful_of_meets (lib : Libraries) (settings : Settings) (now : ℕ) (database : Database)
    (ls : List (Label Request Choice Passing))
    (hm : Meets (service lib settings) (OnCall Unraced) ls (initial (World.fresh now database))) :
    Truthful (run (service lib settings) ls (initial (World.fresh now database))) := by
  have hstart : Marked (World.fresh now database) [] := by
    intro t ht
    cases ht
  apply truthful_of_marked
  · exact invariant_run (obeys lib settings) (keyed_preserved lib settings) ls _
      (following_initial _) (keyed_fresh now database) (meets_trivial _ _)
  · exact invariant_run (obeys lib settings) (marked_preserved lib settings) ls _
      (following_initial _) hstart hm

/-- A marker that is true when it is published comes after a reserve of its own. -/
theorem unraced_of_truthful {s : Service} {x : Choice} (hk : Keyed s.world s.history)
    (hfollow : Following contract s)
    (ht : Truthful (step (service lib settings) s (.run i x))) : OnCall Unraced s
      (.run i x : Label Request Choice Passing) := by
  show Called (Unraced s i x) (upcoming s i)
  cases hu : upcoming s i with
  | none => trivial
  | some qc =>
    obtain ⟨q, c⟩ := qc
    show Unraced s i x q c
    unfold Unraced
    split
    case h_2 => trivial
    case h_1 f t =>
      intro hfail
      obtain ⟨f', hq, hmarker⟩ : marks (.warm f) (.filter (.setMarker t)) :=
        allowed_of_upcoming hfollow hu
      cases hq
      have hp : (service lib settings).perform (.filter (.setMarker t)) x s.world =
          some (.ok (), { s.world with
            filter := { s.world.filter with marker := some t } }) := by
        simp only [service, perform, hfail, Bool.false_eq_true, false_and, if_false, answer,
          FilterCall.perform]
      obtain ⟨next, hstep⟩ := step_upcoming hu hp
      rw [hstep] at ht
      obtain ⟨-, hres⟩ := ht f.params (congrArg some hmarker)
      have hold : reservations (s.history ++ [⟨i, .warm f, .filter (.setMarker t), .ok ()⟩]) =
          reservations s.history := by
        rw [reservations_append]
        exact List.append_nil _
      apply hk.reserved
      rw [← hold]
      exact hres

/-- A rebuild by itself publishes its marker after its own reserve. -/
example :
    let ls : List (Label Request Choice Passing) :=
      .spawn (.warm withFilter) :: steps 0 ["k", "", "", "", "", "", "", ""]
    let start := initial (World.fresh 0 oneAccount)
    Meets (service plainLibraries plainSettings) (OnCall Unraced) ls start ∧
      (run (service plainLibraries plainSettings) ls start).world.filter.marker =
        some withFilter.params.fingerprint := by
  decide +kernel

/-! ## An insert between the drop and the reserve -/

/-- Settings of a replica that differ from the defaults of the module. -/
def tuned : FilterSettings := { withFilter with params := ⟨2048, 4, 2, 50⟩ }

/-- Thread 0 signs up and inserts its address when thread 1 has dropped the filter and
not reserved it yet. -/
def insertBeforeReserve : List (Label Request Choice Passing) :=
  .spawn (.signup tuned "c@d" "long password" "1.2.3.4") ::
    steps 0 ["", "", "", "", "", "u", ""] ++
  .spawn (.warm tuned) :: steps 1 ["k", "", ""] ++ steps 0 [""] ++ steps 1 ["", "", "", ""]

def writesFilter : Request → Bool
  | .signup .. | .oauthLogin .. | .warm _ => true
  | _ => false

end Gamely.FilterMarker
