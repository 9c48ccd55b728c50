import Gamely.Footprints

/-!
# What a request does to the email filter

A request that creates an account flushes the row, remembers the address and
commits, in that order. A rebuild drops the filter, streams one snapshot of the
addresses into it and publishes the marker when nothing is left to insert. A
lookup is the marker read before its membership test.
-/

set_option autoImplicit false

namespace Gamely.FilterContract
open Gamely.Calls Gamely.Stores Gamely.EmailJobs Gamely.Services Gamely.TokenService
open Gamely.EmailFilter Gamely.AuthService Gamely.OAuthService Gamely.Requests
open Gamely.Footprints Gamely.Interleaving

/-- The filter settings of the replica a request runs on. -/
def filterOf : Request → Option FilterSettings
  | .emailAvailable f _ _ => some f
  | .signup f _ _ _ => some f
  | .oauthLogin f _ _ _ => some f
  | .warm f => some f
  | _ => none

def enabled (q : Request) : Bool :=
  match filterOf q with
  | some f => f.enabled
  | none => true

/-- What became of the insert of an address into the filter; a refused or failed
insert is lost. -/
inductive Note where
  | pending
  | stored
  | lost
  deriving DecidableEq, Repr

/-- What a request is doing: it has flushed a row and not ended its transaction,
or it has dropped the filter, or it still has addresses of its snapshot to insert,
some of which may have been refused. -/
inductive Role where
  | free
  | flushed (email : Email) (note : Note)
  | dropped
  | loading (todo : List Email) (short : Bool)
  deriving DecidableEq, Repr

/-- `marker` is the marker a lookup read, until the request drops the filter or ends
its transaction itself, and `denied` an address it excluded under it. -/
structure Hand where
  role : Role
  marker : Option String
  denied : Option Email
  deriving DecidableEq, Repr

def Hand.empty : Hand := ⟨.free, none, none⟩

def Role.inserted (replies : List ℤ) (items : List String) : Role → Role
  | .flushed email _ => .flushed email (if replies = [1] then .stored else .lost)
  | .loading todo short => .loading (todo.drop items.length) (short || replies.any (· ≠ 1))
  | r => r

def Role.missed : Role → Role
  | .flushed email _ => .flushed email .lost
  | r => r

def Role.ended : Role → Role
  | .flushed _ _ => .free
  | r => r

def Hand.dropped (g : Hand) : Hand := { g with role := .dropped, marker := none }

def Hand.ended (g : Hand) : Hand := { g with role := g.role.ended, marker := none }

/-- The marker read vouches for the filter of this replica. -/
def vouched (q : Request) (g : Hand) : Bool :=
  match g.marker with
  | some marker => (filterOf q).any (fun f => f.params.fingerprint = marker)
  | none => false

/-- The address an answered membership test excludes under a marker that vouches
for the filter. -/
def denial (q : Request) (g : Hand) : (c : Command) → Except Failure (Reply c) → Option Email
  | .filter (.exists item), .ok hit => if hit = false ∧ vouched q g = true then some item else none
  | _, _ => none

def next (q : Request) (g : Hand) : (c : Command) → Except Failure (Reply c) → Hand
  | .filter (.insert items _), .ok replies => { g with role := g.role.inserted replies items }
  | .filter (.insert ..), .error _ => { g with role := g.role.missed }
  | .filter .drop, .ok _ => g.dropped
  | .filter .getMarker, .ok marker => { g with marker := marker }
  | .filter (.exists item), reply =>
    { g with denied := (denial q g (.filter (.exists item)) reply).or g.denied }
  | .database .emails, .ok emails => { g with role := .loading emails false }
  | .database (.createUser _ row), .ok _ => { g with role := .flushed row.email .pending }
  | .database (.commit ..), .ok _ => g.ended
  | .database (.commit ..), .error .integrityError => g.ended
  | .database (.rollback _), .ok _ => g.ended
  | _, _ => g

variable (lib : Libraries) (settings : Settings) (i : ℕ) (q : Request)

def allows (g : Hand) : Command → Prop
  | .filter (.insert items _) => match g.role with
    | .free => True
    | .flushed email _ => items = [email]
    | .dropped => False
    | .loading todo _ => (todo.take items.length).mapM (normalizeEmail lib) = .ok items
  | .filter .drop => g.role = .free
  | .filter (.setMarker _) => ∃ short, g.role = .loading [] short
  | .database .emails => g.role = .dropped
  | .database (.createUser session row) => session = i ∧ g.role = .free ∧
      normalizeEmail lib row.email = .ok row.email
  | .database (.commit session _) => session = i ∧
      ∀ email, enabled q = true → g.role ≠ .flushed email .pending
  | .database (.rollback session) => session = i
  | _ => True

def protocol : Protocol Command Reply Failure Hand := ⟨allows lib i q, next q⟩

def contract : Contract Command Reply Failure Answer Request Hand where
  start := Hand.empty
  protocol := fun i q => protocol lib i q
  post := fun _ _ _ => True

/-! ## Addresses -/

theorem normalizeEmail_idem {value : String} {email : Email}
    (h : normalizeEmail lib value = .ok email) : normalizeEmail lib email = .ok email := by
  unfold normalizeEmail at h
  dsimp only at h
  split at h
  case isTrue => cases h
  case isFalse hn =>
    cases h
    unfold normalizeEmail
    simp only [lib.lower_strip]
    rw [if_neg hn]

theorem normalizeEmail_oauth {value : String} {email : Email}
    (h : oauthEmailAddress lib value = .ok email) : normalizeEmail lib email = .ok email := by
  unfold oauthEmailAddress at h
  dsimp only at h
  split at h
  case isTrue => cases h
  case isFalse hn =>
    cases h
    unfold normalizeEmail
    simp only [lib.lower_strip]
    exact if_neg hn

/-! ## Lookups and remembered addresses -/

variable {lib i q}

/-- A lookup that answers a miss has excluded the address under its own marker. -/
theorem ensures_mightExist {f : FilterSettings} (hq : filterOf q = some f) (email : Email)
    (g : Hand) :
    Ensures (protocol lib i q) (mightExist f email) g
      (fun g' hit => g'.role = g.role ∧ (hit = false → g'.denied = some email)) := by
  unfold mightExist
  split
  · exact ensures_pure _ _ ⟨rfl, fun h => by cases h⟩
  · apply (keeps_tryCatch _ _ _ _).mpr
    simp only [containsIfReady, cuckoo, keeps_bind, keeps_invoke, keeps_pure]
    apply And.intro trivial
    intro marker
    cases marker with
    | error e =>
      rintro a ⟨⟩
      exact ⟨rfl, fun h => by cases h⟩
    | ok marker =>
      apply And.intro trivial
      intro found
      cases found with
      | error e =>
        rintro a ⟨⟩
        exact ⟨rfl, fun h => by cases h⟩
      | ok hit =>
        rintro a ⟨⟩
        refine ⟨rfl, fun hmiss => ?_⟩
        by_cases hm : marker = some f.params.fingerprint
        · subst hm
          have hf : hit = false := by simpa using hmiss
          subst hf
          simp [protocol, next, denial, vouched, hq]
        · simp [hm] at hmiss

/-- The request has flushed no row but that of the address. -/
def Near (email : Email) (g : Hand) : Prop :=
  g.role = .free ∨ ∃ note, g.role = .flushed email note

/-- A request without a flushed row stays without one; a flushed address has been
inserted, or its insert lost, once `remember` returns. -/
def Remembered (email : Email) (f : FilterSettings) (g g' : Hand) : Prop :=
  (g.role = .free ∧ g'.role = .free) ∨
    ∃ note, g'.role = .flushed email note ∧ (f.enabled = true → note ≠ .pending)

theorem keeps_remember (f : FilterSettings) (email : Email) (g : Hand) (hg : Near email g) :
    Keeps (protocol lib i q) (remember f email) g (fun g' _ => Remembered email f g g') := by
  have inserted : ∀ replies, Remembered email f g
      { g with role := g.role.inserted replies [email] } := by
    intro replies
    rcases hg with h | ⟨note, h⟩
    · exact Or.inl ⟨h, by simp [h, Role.inserted]⟩
    · refine Or.inr ⟨_, by simp [h, Role.inserted]; rfl, fun _ => ?_⟩
      split <;> simp
  have missed : Remembered email f g { g with role := g.role.missed } := by
    rcases hg with h | ⟨note, h⟩
    · exact Or.inl ⟨h, by simp [h, Role.missed]⟩
    · exact Or.inr ⟨.lost, by simp [h, Role.missed], by simp⟩
  have allowed : allows lib i q g (.filter (.insert [email] f.params.capacity)) := by
    rcases hg with h | ⟨note, h⟩ <;> simp [allows, h]
  unfold remember
  split
  case isTrue hf =>
    apply (keeps_pure _ _ _).mpr
    rcases hg with h | ⟨note, h⟩
    · exact Or.inl ⟨h, h⟩
    · exact Or.inr ⟨note, h, fun he => by rw [hf] at he; cases he⟩
  case isFalse =>
    apply (keeps_tryCatch _ _ _ _).mpr
    simp only [add, addMany, cuckoo, withdrawTrust, List.cons_ne_nil, if_false, keeps_bind,
      keeps_invoke, keeps_pure, keeps_tryCatch]
    apply And.intro allowed
    intro replies
    cases replies with
    | ok replies => exact inserted replies
    | error e =>
      apply And.intro trivial
      intro reply
      cases reply with
      | ok _ => exact missed
      | error _ => exact missed

/-! ## Creating accounts -/

/-- Parts whose calls neither touch the filter nor end a transaction. -/
def otherParts : List Part := [.name, .random, .clock, .order, .session, .code, .nonce, .throttle,
  .database, .broker, .provider]

theorem other_inert (g : Hand) (c : Command) (hc : part c ∈ otherParts) :
    allows lib i q g c ∧ ∀ reply, next q g c reply = g := by
  cases c with
  | filter c =>
    cases c with
    | _ => simp [part, otherParts] at hc
  | database c =>
    cases c with
    | createUser session row => simp [part, otherParts] at hc
    | commit session changes =>
      simp only [part] at hc
      split at hc <;> simp [otherParts] at hc
    | rollback session => simp [part, otherParts] at hc
    | emails => simp [part, otherParts] at hc
    | _ => exact ⟨trivial, fun reply => rfl⟩
  | _ => exact ⟨trivial, fun reply => rfl⟩

variable {A : Type}

theorem ensures_other {p : Act A} {parts : List Part} (hp : Within parts p)
    (ho : parts ⊆ otherParts) {g : Hand} {post : Hand → A → Prop} (hpost : ∀ a, post g a) :
    Ensures (protocol lib i q) p g post :=
  ensures_of_only (within_mono ho hp) (other_inert g) hpost

theorem ensures_free {p : Act A} {parts : List Part} (hp : Within parts p)
    (ho : parts ⊆ otherParts) {g : Hand} :
    Ensures (protocol lib i q) p g (fun _ _ => True) :=
  ensures_other hp ho (fun _ => trivial)

theorem ensures_commit (changes : List Change) (g : Hand)
    (hg : ∀ email, enabled q = true → g.role ≠ .flushed email .pending)
    {post : Hand → Unit → Prop} (hpost : post g.ended ()) :
    Ensures (protocol lib i q) (commit i changes) g post :=
  ensures_invoke ⟨rfl, hg⟩ (fun _ => hpost)

theorem ensures_rollback (g : Hand) {post : Hand → Unit → Prop}
    (hpost : post g.ended ()) :
    Ensures (protocol lib i q) (rollback i) g post :=
  ensures_invoke rfl (fun _ => hpost)

theorem ensures_createUser (email : Email) (h : Option Hash) (verified : Bool) (g : Hand)
    (hg : g.role = .free) (hn : normalizeEmail lib email = .ok email)
    {post : Hand → User → Prop}
    (hpost : ∀ user, post { g with role := .flushed email .pending } user) :
    Ensures (protocol lib i q) (createUser i email h verified) g post := by
  apply ensures_bind
  apply ensures_other (emailVerifiedAt_within verified) (by decide)
  intro at'
  apply ensures_bind
  apply ensures_invoke trivial
  intro id
  apply ensures_bind
  refine ensures_invoke ?_ (fun _ => ensures_pure _ _ (hpost _))
  exact ⟨rfl, hg, hn⟩

theorem keeps_createAccount (f : FilterSettings) (email password : String) (g : Hand)
    (hf : enabled q = f.enabled) (hg : g.role = .free)
    (hn : normalizeEmail lib email = .ok email) :
    Keeps (protocol lib i q) (createAccount lib settings f i email password) g
      (fun g' _ => Near email g') := by
  have flushed : Keeps (protocol lib i q) (do
        remember f email
        sendCode lib settings email .verify
        commit i []) { g with role := .flushed email .pending } (fun g' _ => Near email g') := by
    apply (keeps_bind _ _ _ _).mpr
    apply keeps_mono _ _ _ (keeps_remember f email _ (Or.inr ⟨.pending, rfl⟩))
    rintro g' r (⟨h, -⟩ | ⟨note, hrole, hnote⟩)
    · cases h
    · cases r with
      | error e => exact Or.inr ⟨note, hrole⟩
      | ok a =>
        apply (keeps_bind _ _ _ _).mpr
        apply keeps_of_only _ (within_mono (by decide)
          (sendCode_within lib settings email .verify)) _ _ (other_inert g')
        intro r
        cases r with
        | error e => exact Or.inr ⟨note, hrole⟩
        | ok a =>
          apply (keeps_invoke _ _ _).mpr
          constructor
          · refine ⟨rfl, fun email' he hp => ?_⟩
            rw [hrole, Role.flushed.injEq] at hp
            exact hnote (hf ▸ he) hp.2
          · intro reply
            rcases reply with e | a
            · cases e with
              | integrityError =>
                exact Or.inl (by simp [protocol, next, Hand.ended, hrole, Role.ended])
              | _ => exact Or.inr ⟨note, hrole⟩
            · exact Or.inl (by simp [protocol, next, Hand.ended, hrole, Role.ended])
  simp only [createAccount, createUser, emailVerifiedAt, AuthService.hash, EmailFilter.database,
    keeps_bind, keeps_invoke, keeps_pure]
  apply And.intro trivial
  intro h
  cases h with
  | error e => exact Or.inl hg
  | ok h =>
    apply And.intro trivial
    intro id
    cases id with
    | error e => exact Or.inl hg
    | ok id =>
      apply And.intro ⟨rfl, hg, hn⟩
      intro reply
      cases reply with
      | error e => exact Or.inl hg
      | ok _ =>
        simp only [keeps_bind] at flushed
        exact flushed

theorem ensures_lookup {f : FilterSettings} (hq : filterOf q = some f) (email : Email) (g : Hand) :
    Ensures (protocol lib i q) (mightExist f email) g (fun g' _ => g'.role = g.role) :=
  ensures_mono (fun _ _ h => h.1) (ensures_mightExist hq email g)

theorem ensures_emailTaken {f : FilterSettings} (hq : filterOf q = some f) (email : Email)
    (g : Hand) :
    Ensures (protocol lib i q) (emailTaken f email) g (fun g' _ => g'.role = g.role) := by
  apply ensures_bind
  apply ensures_mono _ (ensures_lookup hq email g)
  intro g' hit hrole
  split
  · apply ensures_bind
    exact ensures_other (byEmail_within email) (by decide) (fun _ => ensures_pure _ _ hrole)
  · exact ensures_pure _ _ hrole

theorem ensures_signup {f : FilterSettings} (hq : filterOf q = some f) (email password : String) :
    Ensures (protocol lib i q) (signup lib settings f i email password) Hand.empty
      (fun _ _ => True) := by
  have hf : enabled q = f.enabled := by simp [enabled, hq]
  apply ensures_bind
  apply ensures_ofResult
  intro address hn
  apply ensures_bind
  apply ensures_ofResult
  intro _ _
  apply ensures_bind
  apply ensures_mono _ (ensures_emailTaken hq address Hand.empty)
  intro g taken hg
  split
  · exact ensures_throw _ _
  · apply (keeps_tryCatch _ _ _ _).mpr
    apply keeps_mono _ _ _ (keeps_createAccount settings f address password g hf hg
      (normalizeEmail_idem lib hn))
    intro g' r hnear
    cases r with
    | ok a => exact fun _ _ => trivial
    | error e =>
      apply ensures_bind
      apply ensures_rollback
      split
      · apply ensures_bind
        apply keeps_mono _ _ _ (keeps_remember f address _ (Or.inl _))
        · exact fun g' r _ a _ => ensures_throw _ _
        · rcases hnear with h | ⟨note, h⟩ <;> simp [Hand.ended, h, Role.ended]
      · exact ensures_throw _ _

theorem ensures_identityUser {f : FilterSettings} (hq : filterOf q = some f)
    (provider subject : String) (email : Email) (hn : normalizeEmail lib email = .ok email)
    (g : Hand) (hg : g.role = .free) :
    Ensures (protocol lib i q) (identityUser f i provider subject email) g (fun _ _ => True) := by
  have hf : enabled q = f.enabled := by simp [enabled, hq]
  have free : ∀ email, enabled q = true → g.role ≠ .flushed email .pending := by simp [hg]
  apply ensures_bind
  apply ensures_invoke trivial
  intro identity
  cases identity with
  | some identity => exact ensures_free (requireUser_within identity.userId) (by decide)
  | none =>
    apply ensures_bind
    apply ensures_other (byEmail_within email) (by decide)
    intro found
    cases found with
    | none =>
      apply ensures_bind
      apply ensures_createUser email none true g hg hn
      intro user
      apply ensures_bind
      apply keeps_mono _ _ _ (keeps_remember f email _ (Or.inr ⟨.pending, rfl⟩))
      rintro g' r (⟨h, -⟩ | ⟨note, hrole, hnote⟩)
      · cases h
      · rintro _ -
        apply ensures_bind
        apply ensures_commit _ _ _ (ensures_pure _ _ trivial)
        intro email' he hp
        rw [hrole, Role.flushed.injEq] at hp
        exact hnote (hf ▸ he) hp.2
    | some user =>
      dsimp only
      split
      · apply ensures_bind
        apply ensures_invoke trivial
        intro now
        apply ensures_bind
        exact ensures_commit _ _ free (ensures_pure _ _ trivial)
      · apply ensures_bind
        exact ensures_commit _ _ free (ensures_pure _ _ trivial)

theorem ensures_oauthLogin {f : FilterSettings} (hq : filterOf q = some f)
    (provider idToken nonce : String) :
    Ensures (protocol lib i q) (oauthLogin lib settings f i provider idToken nonce) Hand.empty
      (fun _ _ => True) := by
  apply ensures_bind
  apply ensures_invoke trivial
  intro spent
  split
  · exact ensures_throw _ _
  · apply ensures_bind
    apply ensures_ofResult
    intro config _
    apply ensures_bind
    apply ensures_other (verifiedClaims_within config idToken nonce) (by decide)
    intro claims
    apply ensures_bind
    apply ensures_ofResult
    intro email hemail
    split
    · exact ensures_throw _ _
    · apply ensures_bind
      apply ensures_mono _ (ensures_identityUser hq provider claims.subject email
        (normalizeEmail_oauth lib hemail) _ rfl)
      intro g user _
      exact ensures_free (grant_within lib settings user none) (by decide)

/-! ## Rebuilds -/

theorem flatten_go (n : ℕ) (xs acc : List Email) (done : List (List Email)) :
    (List.toChunks.go n xs acc.toArray done.toArray).flatten = done.flatten ++ acc ++ xs := by
  induction xs generalizing acc done with
  | nil => simp [List.toChunks.go]
  | cons x xs ih =>
    simp only [List.toChunks.go]
    split
    · have h := ih [x] (done ++ [acc])
      simpa using h
    · have h := ih (acc ++ [x]) done
      simpa using h

theorem batches_flatten (size : ℕ) (emails : List Email) :
    (batches size emails).flatten = emails := by
  unfold batches
  cases emails with
  | nil => cases size <;> rfl
  | cons x xs =>
    cases size with
    | zero => simp [List.toChunks]
    | succ n => simpa [List.toChunks] using flatten_go (n+1) xs [x] []

theorem length_of_mapM {X Y : Type} {f : X → Except Failure Y} {xs : List X} {ys : List Y}
    (h : xs.mapM f = .ok ys) : ys.length = xs.length := by
  induction xs generalizing ys with
  | nil =>
    cases h
    rfl
  | cons x xs ih =>
    rw [List.mapM_cons] at h
    rcases hx : f x with e | y
    · rw [hx] at h
      cases h
    · rcases hxs : xs.mapM f with e | zs
      · rw [hx, hxs] at h
        cases h
      · rw [hx, hxs] at h
        cases h
        simp [ih hxs]

theorem ensures_addBatch (f : FilterSettings) (batch : List Email) (rest : List Email) (g : Hand)
    (hg : ∃ short, g.role = .loading (batch ++ rest) short) :
    Ensures (protocol lib i q) (addBatch lib f batch) g
      (fun g' _ => ∃ short, g'.role = .loading rest short) := by
  obtain ⟨short, hg⟩ := hg
  unfold addBatch
  split
  case h_1 items hitems =>
    have hlen := length_of_mapM hitems
    apply ensures_bind
    unfold addMany
    split
    case isTrue hnil =>
      subst hnil
      have hb : batch = [] := List.length_eq_zero_iff.mp hlen.symm
      subst hb
      exact ensures_pure _ _ (ensures_pure _ _ ⟨short, hg⟩)
    case isFalse =>
      apply ensures_bind
      apply ensures_invoke
      · show allows lib i q g (.filter (.insert items f.params.capacity))
        simp only [allows, hg, hlen, List.take_left, hitems]
      · intro replies
        apply ensures_pure
        apply ensures_pure
        simp [protocol, next, hg, Role.inserted, hlen]
  case h_2 e he => exact ensures_throw _ _

theorem ensures_rebuild (f : FilterSettings) (g : Hand) (hg : g.role = .free) :
    Ensures (protocol lib i q) (rebuild lib f) g (fun _ _ => True) := by
  apply ensures_bind
  apply ensures_invoke hg
  intro _
  apply ensures_bind
  apply ensures_invoke trivial
  intro _
  apply ensures_bind
  apply ensures_invoke rfl
  intro emails
  apply ensures_bind
  apply ensures_mono _ (ensures_forM (addBatch lib f)
    (fun rest g => ∃ short, g.role = .loading rest.flatten short) (batches f.batchSize emails) _
    ⟨false, by rw [batches_flatten]; rfl⟩ _)
  · rintro g' - hdone
    exact ensures_invoke hdone (fun _ => trivial)
  · intro batch rest g' hload
    exact ensures_addBatch f batch rest.flatten g' hload

theorem ensures_warm (f : FilterSettings) :
    Ensures (protocol lib i q) (warm lib f) Hand.empty (fun _ _ => True) := by
  unfold warm
  split
  · exact ensures_pure _ _ trivial
  · apply ensures_tryCatch _ (fun _ _ => ensures_pure _ _ trivial)
    apply ensures_bind
    apply ensures_invoke trivial
    intro token
    apply ensures_bind
    apply ensures_invoke trivial
    intro locked
    split
    · exact ensures_pure _ _ trivial
    · apply ensures_tryCatch (ensures_rebuild f _ rfl)
      intro e g
      apply ensures_bind
      exact ensures_invoke trivial (fun _ => ensures_throw _ _)

/-! ## Every request -/

theorem ensures_isAvailable {f : FilterSettings} (hq : filterOf q = some f)
    (email client : String) :
    Ensures (protocol lib i q) (isAvailable lib settings f email client) Hand.empty
      (fun _ _ => True) := by
  apply ensures_bind
  apply ensures_other (throttle_within lib settings client _ _) (by decide)
  intro _
  apply ensures_bind
  apply ensures_ofResult
  intro address _
  apply ensures_bind
  apply ensures_mono _ (ensures_lookup hq address _)
  intro g hit _
  split
  · apply ensures_bind
    exact ensures_other (byEmail_within address) (by decide) (fun _ => ensures_pure _ _ trivial)
  · exact ensures_pure _ _ trivial

theorem ensures_presentCode (purpose : Purpose) (message email code : String)
    {accepted : User → Act Unit}
    (h : ∀ user, Ensures (protocol lib i q) (accepted user) Hand.empty (fun _ _ => True)) :
    Ensures (protocol lib i q) (presentCode lib purpose message email code accepted) Hand.empty
      (fun _ _ => True) := by
  apply ensures_bind
  apply ensures_ofResult
  intro email _
  apply ensures_bind
  apply ensures_other (byEmail_within email) (by decide)
  intro found
  cases found with
  | none => exact ensures_throw _ _
  | some user =>
    apply ensures_bind
    apply ensures_other (consumeCode_within lib user.email purpose code) (by decide)
    intro accepted
    split
    · exact h user
    · exact ensures_throw _ _

theorem ensures_verifyEmail (email code : String) :
    Ensures (protocol lib i q) (verifyEmail lib i email code) Hand.empty (fun _ _ => True) := by
  rw [verifyEmail_eq]
  apply ensures_presentCode
  intro user
  apply ensures_bind
  apply ensures_invoke trivial
  intro now
  exact ensures_commit _ _ (fun _ _ h => by cases h) trivial

theorem ensures_replacePassword (user : UserId) (password : String) :
    Ensures (protocol lib i q)
      (do
        let h ← AuthService.hash password
        commit i [.passwordHash user h]
        revokeAll user) Hand.empty (fun _ _ => True) := by
  apply ensures_bind
  apply ensures_invoke trivial
  intro h
  apply ensures_bind
  apply ensures_commit _ _ (fun _ _ h => by cases h)
  exact ensures_free (revokeAll_within user) (by decide)

theorem ensures_resetPassword (email code password : String) :
    Ensures (protocol lib i q) (resetPassword lib i email code password) Hand.empty
      (fun _ _ => True) := by
  rw [resetPassword_eq]
  apply ensures_bind
  apply ensures_ofResult
  intro _ _
  apply ensures_presentCode
  exact fun user => ensures_replacePassword user.id password

theorem ensures_changePassword (user : UserId) (current new : String) :
    Ensures (protocol lib i q) (changePassword lib i user current new) Hand.empty
      (fun _ _ => True) := by
  apply ensures_bind
  apply ensures_ofResult
  intro _ _
  apply ensures_bind
  apply ensures_other (requireUser_within user) (by decide)
  intro row
  split
  · exact ensures_replacePassword row.id new
  · exact ensures_throw _ _

theorem ensures_handled (q : Request) :
    Ensures (protocol lib i q) (handled lib settings i q) Hand.empty (fun _ _ => True) := by
  have status : ∀ {B : Type} (p : Act B) (a : Answer),
      Ensures (protocol lib i q) p Hand.empty (fun _ _ => True) →
      Ensures (protocol lib i q) (p >>= fun _ => pure a) Hand.empty (fun _ _ => True) :=
    fun p a hp => ensures_bind (ensures_mono (fun g _ _ => ensures_pure a g trivial) hp)
  have throttled : ∀ client scope limit {B : Type} (p : Act B),
      Ensures (protocol lib i q) p Hand.empty (fun _ _ => True) →
      Ensures (protocol lib i q) (throttle lib settings client scope limit >>= fun _ => p)
        Hand.empty (fun _ _ => True) :=
    fun client scope limit _ p hp => ensures_bind
      (ensures_other (throttle_within lib settings client scope limit) (by decide) (fun _ => hp))
  cases q with
  | emailAvailable f email client => exact ensures_map (ensures_isAvailable settings rfl _ _)
  | signup f email password client =>
    apply throttled
    exact status _ _ (ensures_signup settings rfl email password)
  | login email password =>
    exact ensures_map (ensures_free (login_within lib settings email password) (by decide))
  | verifyEmail email code => exact status _ _ (ensures_verifyEmail email code)
  | resendVerification email =>
    exact status _ _ (ensures_free (sendVerification_within lib settings email) (by decide))
  | forgotPassword email client =>
    apply throttled
    exact status _ _ (ensures_free (forgotPassword_within lib settings email) (by decide))
  | resetPassword email code password =>
    exact status _ _ (ensures_resetPassword email code password)
  | changePassword user current new => exact status _ _ (ensures_changePassword user current new)
  | refresh value =>
    exact ensures_map (ensures_free (refresh_within lib settings value) (by decide))
  | logout value =>
    simp only [handled]
    split
    · exact ensures_pure _ _ trivial
    · exact status _ _ (ensures_free (revokeRefresh_within lib value) (by decide))
  | logoutAll user => exact status _ _ (ensures_free (revokeAll_within user) (by decide))
  | oauthChallenge provider =>
    exact ensures_map (ensures_free (createChallenge_within settings provider) (by decide))
  | oauthLogin f provider idToken nonce =>
    exact ensures_map (ensures_oauthLogin settings rfl provider idToken nonce)
  | warm f => exact status _ _ (ensures_warm f)

theorem ensures_serve (q : Request) :
    Ensures (protocol lib i q) (serve lib settings i q) Hand.empty (fun _ _ => True) := by
  apply ensures_bind
  apply ensures_mono _ (ensures_tryCatch (ensures_handled settings q) _)
  · intro g answer _
    apply ensures_bind
    exact ensures_rollback g (ensures_pure _ _ trivial)
  · intro e g
    apply ensures_bind
    exact ensures_rollback g (ensures_throw _ _)

theorem obeys (lib : Libraries) (settings : Settings) :
    Obeys (service lib settings) (contract lib) where
  program := fun i q => keeps_mono _ _ (fun _ _ _ => trivial) (ensures_serve settings q)
  cancelled := by
    intro i q p hp g
    cases q with
    | warm f =>
      cases hp
      trivial
    | _ => cases hp

end Gamely.FilterContract
