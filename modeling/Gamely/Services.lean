import Gamely.Interleaving
import Gamely.Stores

/-!
# The world of the authentication service

One clock, one Redis, one PostgreSQL and one broker, and the calls the service
makes to them. What a call leaves open (a generated name, the iteration order
of a Python set, whether a driver raises) is settled by the choice it is made
with. Every draw of a random name gives a name that was not drawn before.
-/

set_option autoImplicit false

namespace Gamely.Services
open Gamely.Calls Gamely.Stores Gamely.EmailJobs Gamely.ExpiringStore

/-- Claims of a provider's ID token after `str()` and the truth tests the service
applies to them. -/
structure IdClaims where
  issuer : String
  nonce : String
  email : String
  preferredUsername : String
  emailVerified : Bool
  subject : String
  deriving DecidableEq, Repr

/-- Claims of an access token; `iat` and `exp` are whole seconds. -/
structure AccessClaims where
  sub : UserId
  email : Email
  verified : Bool
  iss : String
  aud : String
  iat : ℕ
  exp : ℕ
  deriving DecidableEq, Repr

/-- Code outside the repository. The refresh-token digest is an HMAC and is taken
to be injective; a password verifies against every hash made of it; stripping
and lowering an address twice is doing it once. -/
structure Libraries where
  digest : Token → Digest
  digest_injective : Function.Injective digest
  sha256 : String → String
  hash : (password salt : String) → Hash
  verify : (password : String) → Hash → Bool
  verify_hash : ∀ password salt, verify password (hash password salt) = true
  strip : String → String
  lower : String → String
  filterDefaults : FilterParams
  lower_strip : ∀ s, lower (strip (lower (strip s))) = lower (strip s)
  decodeIdToken : (jwksUrl clientId idToken : String) → Option IdClaims
  encodeJwt : AccessClaims → String
  decodeJwt : String → Option AccessClaims

structure Settings where
  authRefreshTokenDays : ℕ
  authRefreshTokenDays_pos : 0 < authRefreshTokenDays
  authAccessTokenMinutes : ℕ
  authCodeMinutes : ℕ
  authCodeMinutes_pos : 0 < authCodeMinutes
  authJwtIssuer : String
  authJwtAudience : String
  authAvailabilityLimit : ℕ
  authSignupLimit : ℕ
  authThrottleWindowSeconds : ℕ
  googleClientId : String
  microsoftClientId : String
  microsoftTenantId : String
  appleClientId : String

/-- The filter settings of one API replica. -/
structure FilterSettings where
  enabled : Bool
  params : FilterParams
  batchSize : ℕ
  batchSize_pos : 0 < batchSize
  lockSeconds : ℕ
  rebuildTimeoutSeconds : ℕ

inductive Command where
  | tokenUrlsafe
  | uuid4
  | randbelow (bound : ℕ)
  | utcnow
  | hash (password : String)
  | iterate (xs : List String)
  | session (c : SessionCall)
  | code (c : CodeCall)
  | setNonce (provider nonce : String) (ttl : ℕ)
  | delNonce (provider nonce : String)
  | fixedWindow (scope client : String) (window : ℕ)
  | filter (c : FilterCall)
  | database (c : DatabaseCall)
  | publish (job : EmailJob)
  | idToken (jwksUrl clientId idToken : String)

abbrev Reply : Command → Type
  | .tokenUrlsafe => String
  | .uuid4 => UserId
  | .randbelow _ => ℕ
  | .utcnow => ℕ
  | .hash _ => Hash
  | .iterate _ => List String
  | .session c => c.Reply
  | .code c => c.Reply
  | .setNonce .. => Unit
  | .delNonce .. => Bool
  | .fixedWindow .. => ℕ
  | .filter c => c.Reply
  | .database c => c.Reply
  | .publish _ => Unit
  | .idToken .. => Option IdClaims

structure World where
  now : ℕ
  drawn : List String
  sessions : SessionStore
  codes : CodeStore
  nonces : Store String Unit
  throttles : Store (String × String) ℕ
  filter : FilterStore
  database : Database
  published : List EmailJob

/-- What the world settles for one call. `fail` makes a call to another process
raise and have no effect. -/
structure Choice where
  name : String := ""
  number : ℕ := 0
  order : List String := []
  hit : Bool := false
  refused : List ℕ := []
  fail : Bool := false
  deriving DecidableEq, Repr

def windowCount {K : Type} [DecidableEq K] (now : ℕ) (s : Store K ℕ) (key : K) (window : ℕ) :
    ℕ × Store K ℕ :=
  match peek now s key with
  | some e => (e.value+1, set s key (e.value+1) e.deadline)
  | none => (1, set s key 1 (ex now window))

/-- The alphabet of `secrets.token_urlsafe`. -/
def urlSafe (name : String) : Bool :=
  name.toList.all (fun c => c.isAlphanum || c = '-' || c = '_')

/-- `auth:oauth-nonce:{provider}:{nonce}`. -/
def nonceKey (provider nonce : String) : String :=
  "auth:oauth-nonce:" ++ provider ++ ":" ++ nonce

variable (lib : Libraries)

/-- An answer of a local source, or of a driver that did not raise. -/
def answer (x : Choice) (w : World) : (c : Command) → Option (Except Failure (Reply c) × World)
  | .tokenUrlsafe =>
    if x.name ∈ w.drawn ∨ urlSafe x.name = false then none
    else some (.ok x.name, { w with drawn := x.name :: w.drawn })
  | .uuid4 =>
    if x.name ∈ w.drawn then none else some (.ok x.name, { w with drawn := x.name :: w.drawn })
  | .randbelow bound => if x.number < bound then some (.ok x.number, w) else none
  | .utcnow => some (.ok w.now, w)
  | .hash password => some (.ok (lib.hash password x.name), w)
  | .iterate xs => some (.ok (if x.order.isPerm xs then x.order else xs), w)
  | .session c =>
    some (.ok (c.perform w.now w.sessions).1, { w with sessions := (c.perform w.now w.sessions).2 })
  | .code c =>
    some (.ok (c.perform w.now w.codes).1, { w with codes := (c.perform w.now w.codes).2 })
  | .setNonce provider nonce ttl =>
    some (.ok (), { w with nonces := set w.nonces (nonceKey provider nonce) () (ex w.now ttl) })
  | .delNonce provider nonce =>
    some (.ok (get w.now w.nonces (nonceKey provider nonce)).isSome,
      { w with nonces := del w.nonces (nonceKey provider nonce) })
  | .fixedWindow scope client window =>
    some (.ok (windowCount w.now w.throttles (scope, client) window).1,
      { w with throttles := (windowCount w.now w.throttles (scope, client) window).2 })
  | .filter c =>
    some (.ok (c.perform lib.filterDefaults w.now x.hit x.refused w.filter).1,
      { w with filter := (c.perform lib.filterDefaults w.now x.hit x.refused w.filter).2 })
  | .database c => (c.perform w.database).map (fun r => (r.1, { w with database := r.2 }))
  | .publish job => some (.ok (), { w with published := w.published ++ [job] })
  | .idToken jwksUrl clientId token => some (.ok (lib.decodeIdToken jwksUrl clientId token), w)

/-- Calls that stay inside the process and cannot raise. -/
def Command.isLocal : Command → Bool
  | .tokenUrlsafe | .uuid4 | .randbelow _ | .utcnow | .hash _ | .iterate _ => true
  | _ => false

def perform (c : Command) (x : Choice) (w : World) : Option (Except Failure (Reply c) × World) :=
  if x.fail = true ∧ c.isLocal = false then some (.error .external, w)
  else answer lib x w c

inductive Passing where
  | elapse (milliseconds : ℕ)
  | evictRefresh (digest : Digest)
  | evictReuse (digest : Digest)
  | evictFamily (session : Session)
  | evictSessions (user : UserId)
  | evictCode (key : CodeKey)
  | evictLock
  deriving DecidableEq

/-- Time passes, or a key of Redis goes away before its time. -/
def passed : Passing → World → World
  | .elapse ms, w => { w with now := w.now+ms }
  | .evictRefresh d, w =>
    { w with sessions := { w.sessions with refresh := del w.sessions.refresh d } }
  | .evictReuse d, w => { w with sessions := { w.sessions with reuse := del w.sessions.reuse d } }
  | .evictFamily k, w =>
    { w with sessions := { w.sessions with family := del w.sessions.family k } }
  | .evictSessions u, w =>
    { w with sessions := { w.sessions with sessions := del w.sessions.sessions u } }
  | .evictCode k, w => { w with codes := { w.codes with code := del w.codes.code k } }
  | .evictLock, w => { w with filter := { w.filter with lock := del w.filter.lock () } }

abbrev Act := Program Command Reply Failure

/-- Redis is empty and PostgreSQL holds what it held. -/
def World.fresh (now : ℕ) (database : Database) : World where
  now := now
  drawn := []
  sessions := ⟨ExpiringStore.empty, ExpiringStore.empty, ExpiringStore.empty, ExpiringStore.empty⟩
  codes := ⟨ExpiringStore.empty, ExpiringStore.empty⟩
  nonces := ExpiringStore.empty
  throttles := ExpiringStore.empty
  filter := ⟨none, none, ExpiringStore.empty⟩
  database := database
  published := []

/-! ## What one call leaves alone -/

variable {lib} {w w' : World}

theorem perform_cases {c : Command} {x : Choice} {r : Except Failure (Reply c)}
    (h : perform lib c x w = some (r, w')) :
    (c.isLocal = false ∧ x.fail = true ∧ r = .error .external ∧ w' = w) ∨
      (¬(x.fail = true ∧ c.isLocal = false) ∧ answer lib x w c = some (r, w')) := by
  unfold perform at h
  split at h
  case isTrue hf =>
    cases h
    exact Or.inl ⟨hf.2, hf.1, rfl, rfl⟩
  case isFalse hf => exact Or.inr ⟨hf, h⟩

theorem id_of_byId {x : Choice} {user : UserId} {row : User}
    (h : perform lib (.database (.byId user)) x w = some (.ok (some row), w')) : row.id = user := by
  rcases perform_cases h with ⟨-, -, he, -⟩ | ⟨-, h⟩
  · cases he
  · simp only [answer, DatabaseCall.perform, Option.map_some, Option.some.injEq, Prod.mk.injEq,
      Except.ok.injEq] at h
    simpa using List.find?_some h.1

/-- A call changes its own part of the world, and draws a name at most besides. -/
theorem answer_frame {c : Command} {x : Choice} {r : Except Failure (Reply c)}
    (h : answer lib x w c = some (r, w')) : w'.now = w.now ∧
      ((∃ s, c = .session s) ∨ w'.sessions = w.sessions) ∧
      ((∃ d, c = .database d) ∨ w'.database = w.database) := by
  cases c with
  | tokenUrlsafe | uuid4 | randbelow =>
    simp only [answer] at h
    split at h <;> cases h
    exact ⟨rfl, Or.inr rfl, Or.inr rfl⟩
  | session c =>
    cases h
    exact ⟨rfl, Or.inl ⟨c, rfl⟩, Or.inr rfl⟩
  | database c =>
    obtain ⟨r₁, -, he⟩ := Option.map_eq_some_iff.mp h
    cases he
    exact ⟨rfl, Or.inr rfl, Or.inl ⟨c, rfl⟩⟩
  | utcnow | hash | iterate | code | setNonce | delNonce | fixedWindow | filter
  | publish | idToken =>
    cases h
    exact ⟨rfl, Or.inr rfl, Or.inr rfl⟩

theorem answer_now {c : Command} {x : Choice} {r : Except Failure (Reply c)}
    (h : answer lib x w c = some (r, w')) : w'.now = w.now := (answer_frame h).1

theorem answer_sessions {c : Command} {x : Choice} {r : Except Failure (Reply c)}
    (h : answer lib x w c = some (r, w')) :
    (∃ s, c = .session s) ∨ w'.sessions = w.sessions := (answer_frame h).2.1

theorem answer_database {c : Command} {x : Choice} {r : Except Failure (Reply c)}
    (h : answer lib x w c = some (r, w')) :
    (∃ d, c = .database d) ∨ w'.database = w.database := (answer_frame h).2.2

end Gamely.Services
