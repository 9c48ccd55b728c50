import Gamely.Footprints
import Gamely.RedisCalls
import Gamely.Trusting

/-!
# What the service spells its keys from

User ids come from the database and from sessions, family ids from sessions and from draws,
and digests from codes. As long as these replies are what they are meant to be, every call on
Redis is made with texts that a key or a value can be read back from.
-/

set_option autoImplicit false

namespace Gamely.RedisSpelling
open Gamely.Calls Gamely.Trusting
open Gamely.Stores Gamely.EmailJobs Gamely.Services Gamely.ExpiringStore Gamely.TokenService
open Gamely.EmailFilter Gamely.AuthService Gamely.OAuthService Gamely.Requests
open Gamely.RedisCommands Gamely.RedisClient Gamely.RedisStores Gamely.RedisCalls
open Gamely.Footprints (part)

/-! ## The arguments of the calls -/

/-- The texts and times the service makes its calls with. -/
def Spelled : Command → Prop
  | .session c => SessionSpelled c
  | .code c => CodeSpelled c
  | .setNonce _ _ ttl => 0 < ttl
  | .fixedWindow scope _ window => ':' ∉ scope.toList ∧ 0 < window
  | .filter c => FilterSpelled c
  | .database (.createUser _ row) => UserName row.id
  | _ => True

/-- How long the keys that a call writes are to live. -/
def Timely (settings : Settings) : Command → Prop
  | .session (.issue _ _ ttl) => ttl = refreshTtl settings
  | .session (.rotate _ ttl) => ttl = refreshTtl settings
  | .code (.setCooldown _ ttl) => ttl = 60
  | .code (.setCode _ _ ttl) => ttl ≤ 60*settings.authCodeMinutes
  | .setNonce _ _ ttl => ttl = 300
  | .fixedWindow _ _ window => window = settings.authThrottleWindowSeconds
  | _ => True

/-- The replies the service takes its texts and its times from. -/
def expected (settings : Settings) : (c : Command) → Except Failure (Reply c) → Prop
  | .uuid4, .ok user => UserName user
  | .tokenUrlsafe, .ok name => name ≠ ""
  | .session (.rotate ..), .ok (.rotated s) => SessionName s
  | .session (.rotate ..), .ok (.reused s) => SessionName s
  | .session (.getRefresh _), .ok found => ∀ s, found = some s → SessionName s
  | .code (.getCode _), .ok found => ∀ p, found = some p → ':' ∉ p.digest.toList
  | .code (.ttlCode _), .ok seconds => seconds ≤ 60*settings.authCodeMinutes
  | .database (.byEmail _), .ok found => ∀ row, found = some row → UserName row.id
  | .database (.byId _), .ok found => ∀ row, found = some row → UserName row.id
  | _, _ => True

abbrev Spells (settings : Settings) {A : Type} (p : Act A) (post : A → Prop) : Prop :=
  Trusts (fun c => Spelled c ∧ Timely settings c) (expected settings) p post

/-- The calls of these parts are spelled well whatever they are. -/
def freeParts : List Footprints.Part :=
  [.name, .random, .clock, .order, .filter, .rebuild, .database, .snapshot, .transaction,
    .password, .broker, .provider]

theorem spelled_of_part {c : Command} (h : part c ∈ freeParts) : Spelled c := by
  cases c with
  | session c => exact absurd h (show Footprints.Part.session ∉ freeParts by decide)
  | code c => exact absurd h (show Footprints.Part.code ∉ freeParts by decide)
  | setNonce => exact absurd h (show Footprints.Part.nonce ∉ freeParts by decide)
  | fixedWindow => exact absurd h (show Footprints.Part.throttle ∉ freeParts by decide)
  | filter c => cases c with
    | setLock => exact absurd h (show Footprints.Part.lock ∉ freeParts by decide)
    | _ => trivial
  | database c => cases c with
    | createUser => exact absurd h (show Footprints.Part.account ∉ freeParts by decide)
    | _ => trivial
  | _ => trivial

theorem timely_of_part {settings : Settings} {c : Command} (h : part c ∈ freeParts) :
    Timely settings c := by
  cases c with
  | session c => exact absurd h (show Footprints.Part.session ∉ freeParts by decide)
  | code c => exact absurd h (show Footprints.Part.code ∉ freeParts by decide)
  | setNonce => exact absurd h (show Footprints.Part.nonce ∉ freeParts by decide)
  | fixedWindow => exact absurd h (show Footprints.Part.throttle ∉ freeParts by decide)
  | _ => trivial

variable {lib : Libraries} {settings : Settings}

theorem spells_of_within {A : Type} {parts : List Footprints.Part} {p : Act A}
    (hp : Footprints.Within parts p) (h : parts ⊆ freeParts) : Spells settings p (fun _ => True) :=
  trusts_of_only hp (fun _ hc => ⟨spelled_of_part (h hc), timely_of_part (h hc)⟩)

/-! ## Tokens -/

theorem spells_utcnow : Spells settings utcnow (fun _ => True) :=
  trusts_invoke ⟨trivial, trivial⟩ (fun _ _ => trivial)

theorem spells_tokenUrlsafe : Spells settings tokenUrlsafe (fun name => name ≠ "") :=
  trusts_invoke ⟨trivial, trivial⟩ (fun _ h => h)

theorem refreshTtl_pos (settings : Settings) : 0 < refreshTtl settings :=
  Nat.mul_pos settings.authRefreshTokenDays_pos (by decide)

theorem spells_issueRefresh {user : UserId} {family? : Option FamilyId} (hu : UserName user)
    (hf : ∀ family, family? = some family → family ≠ "") :
    Spells settings (issueRefresh lib settings user family?) (fun _ => True) := by
  apply trusts_bind
  refine trusts_mono (fun value _ => ?_) spells_tokenUrlsafe
  apply trusts_bind
  have hfamily : Spells settings (familyId family?) (fun family => family ≠ "") := by
    cases family? with
    | some family => exact trusts_pure (hf family rfl)
    | none => exact spells_tokenUrlsafe
  refine trusts_mono (fun family hne => ?_) hfamily
  apply trusts_bind
  exact trusts_invoke ⟨⟨⟨hu, hne⟩, refreshTtl_pos settings⟩, rfl⟩ (fun _ _ => trusts_pure trivial)

theorem spells_grant {user : User} {family? : Option FamilyId} (hu : UserName user.id)
    (hf : ∀ family, family? = some family → family ≠ "") :
    Spells settings (grant lib settings user family?) (fun _ => True) := by
  apply trusts_bind
  refine trusts_mono (fun access _ => ?_) (spells_of_within
    (Footprints.issueAccess_within lib settings user.id user.email _) (by decide))
  apply trusts_bind
  exact trusts_mono (fun _ _ => trusts_pure trivial) (spells_issueRefresh hu hf)

theorem spells_revokeFamily {s : Session} (hs : UserName s.user) :
    Spells settings (revokeFamily s) (fun _ => True) := by
  apply trusts_bind
  exact trusts_invoke ⟨hs, trivial⟩
    (fun digests _ => trusts_invoke ⟨hs, trivial⟩ (fun _ _ => trivial))

theorem spells_rotateRefresh (value : Token) :
    Spells settings (rotateRefresh lib settings value) SessionName := by
  apply trusts_bind
  refine trusts_invoke ⟨refreshTtl_pos settings, rfl⟩ (fun reply hr => ?_)
  cases reply with
  | missing => exact trusts_throw _
  | reused s =>
    apply trusts_bind
    exact trusts_mono (fun _ _ => trusts_throw _) (spells_revokeFamily hr.1)
  | rotated s => exact trusts_pure hr

theorem spells_revokeRefresh (value : Token) :
    Spells settings (revokeRefresh lib value) (fun _ => True) := by
  apply trusts_bind
  refine trusts_invoke ⟨trivial, trivial⟩ (fun found hf => ?_)
  cases found with
  | none => exact trusts_pure trivial
  | some s => exact spells_revokeFamily (hf s rfl).1

theorem spells_revokeAll {user : UserId} (hu : UserName user) :
    Spells settings (revokeAll user) (fun _ => True) := by
  apply trusts_bind
  refine trusts_invoke ⟨trivial, trivial⟩ (fun families _ => ?_)
  apply trusts_bind
  refine trusts_invoke ⟨trivial, trivial⟩ (fun order _ => ?_)
  apply trusts_bind
  refine trusts_mono (fun _ _ => ?_) (trusts_forM order _ (fun family => spells_revokeFamily hu))
  exact trusts_invoke ⟨trivial, trivial⟩ (fun _ _ => trivial)

/-! ## Codes and accounts -/

/-- A hexadecimal digest has no colon. -/
def HexDigests (lib : Libraries) : Prop := ∀ s, ':' ∉ (lib.sha256 s).toList

theorem spells_sendCode (hsha : HexDigests lib) (email : Email) (purpose : Purpose) :
    Spells settings (sendCode lib settings email purpose) (fun _ => True) := by
  have hminutes : 0 < 60*settings.authCodeMinutes :=
    Nat.mul_pos (by decide) settings.authCodeMinutes_pos
  apply trusts_bind
  refine trusts_invoke ⟨show 0 < 60 by decide, rfl⟩ (fun fresh _ => ?_)
  change Spells settings (if fresh = false then _ else _) _
  split
  · exact trusts_throw _
  · apply trusts_bind
    apply trusts_map
    refine trusts_invoke ⟨trivial, trivial⟩ (fun n _ => ?_)
    apply trusts_bind
    refine trusts_mono (fun now _ => ?_) spells_utcnow
    apply trusts_bind
    refine trusts_ofResult (fun expiresAt _ => ?_)
    apply trusts_tryCatch
    · apply trusts_bind
      refine trusts_invoke ⟨⟨hsha _, hminutes⟩, le_refl _⟩ (fun _ _ => ?_)
      apply trusts_bind
      exact trusts_ofResult (fun job _ => trusts_invoke ⟨trivial, trivial⟩ (fun _ _ => trivial))
    · intro e
      apply trusts_bind
      exact trusts_invoke ⟨trivial, trivial⟩ (fun _ _ => trusts_throw e)

theorem spells_consumeCode (email : Email) (purpose : Purpose) (code : String) :
    Spells settings (consumeCode lib email purpose code) (fun _ => True) := by
  apply trusts_bind
  refine trusts_invoke ⟨trivial, trivial⟩ (fun found hf => ?_)
  rcases found with _ | ⟨digest, attempts⟩
  · exact trusts_pure trivial
  · change Spells settings (if 4 ≤ attempts then _ else _) _
    split
    · apply trusts_bind
      exact trusts_invoke ⟨trivial, trivial⟩ (fun _ _ => trusts_pure trivial)
    · split
      · apply trusts_bind
        refine trusts_invoke ⟨trivial, trivial⟩ (fun (ttl : ℤ) httl => ?_)
        apply trusts_bind
        have hminutes := settings.authCodeMinutes_pos
        have hbound : ttl ≤ 60*settings.authCodeMinutes := httl
        refine trusts_invoke ⟨⟨hf ⟨digest, attempts⟩ rfl, ?_⟩, ?_⟩ (fun _ _ => trusts_pure trivial)
        · omega
        · change (max ttl 1).toNat ≤ 60*settings.authCodeMinutes
          omega
      · apply trusts_bind
        exact trusts_invoke ⟨trivial, trivial⟩ (fun _ _ => trusts_pure trivial)

theorem spells_byEmail (email : Email) :
    Spells settings (byEmail email) (fun found => ∀ row, found = some row → UserName row.id) :=
  trusts_invoke ⟨trivial, trivial⟩ (fun _ h => h)

theorem spells_requireUser (user : UserId) :
    Spells settings (requireUser user) (fun row => UserName row.id) := by
  apply trusts_bind
  refine trusts_invoke ⟨trivial, trivial⟩ (fun found hf => ?_)
  cases found with
  | none => exact trusts_throw _
  | some row => exact trusts_pure (hf row rfl)

theorem spells_createUser (session : ℕ) (email : Email) (h : Option Hash) (verified : Bool) :
    Spells settings (createUser session email h verified) (fun row => UserName row.id) := by
  apply trusts_bind
  refine trusts_mono (fun verifiedAt _ => ?_)
    (spells_of_within (Footprints.emailVerifiedAt_within verified) (by decide))
  apply trusts_bind
  refine trusts_invoke ⟨trivial, trivial⟩ (fun id hid => ?_)
  apply trusts_bind
  exact trusts_invoke ⟨hid, trivial⟩ (fun _ _ => trusts_pure hid)

theorem spells_commit (session : ℕ) (changes : List Change) :
    Spells settings (commit session changes) (fun _ => True) :=
  trusts_invoke ⟨trivial, trivial⟩ (fun _ _ => trivial)

theorem spells_rollback (session : ℕ) : Spells settings (rollback session) (fun _ => True) :=
  trusts_invoke ⟨trivial, trivial⟩ (fun _ _ => trivial)

theorem spells_remember (f : FilterSettings) (email : Email) :
    Spells settings (remember f email) (fun _ => True) :=
  spells_of_within (Footprints.remember_within f email) (by decide)

theorem spells_emailTaken (f : FilterSettings) (email : Email) :
    Spells settings (emailTaken f email) (fun _ => True) :=
  spells_of_within (Footprints.emailTaken_within f email) (by decide)

theorem spells_signup (hsha : HexDigests lib) (f : FilterSettings) (session : ℕ)
    (email password : String) :
    Spells settings (signup lib settings f session email password) (fun _ => True) := by
  apply trusts_bind
  refine trusts_ofResult (fun address _ => ?_)
  apply trusts_bind
  refine trusts_ofResult (fun _ _ => ?_)
  apply trusts_bind
  refine trusts_mono (fun taken _ => ?_) (spells_emailTaken f address)
  change Spells settings (if taken = true then _ else _) _
  split
  · exact trusts_throw _
  · apply trusts_tryCatch
    · apply trusts_bind
      refine trusts_invoke ⟨trivial, trivial⟩ (fun h _ => ?_)
      apply trusts_bind
      refine trusts_mono (fun _ _ => ?_) (spells_createUser session address (some h) false)
      apply trusts_bind
      refine trusts_mono (fun _ _ => ?_) (spells_remember f address)
      apply trusts_bind
      exact trusts_mono (fun _ _ => spells_commit session []) (spells_sendCode hsha address .verify)
    · intro e
      apply trusts_bind
      refine trusts_mono (fun _ _ => ?_) (spells_rollback session)
      split
      · apply trusts_bind
        exact trusts_mono (fun _ _ => trusts_throw _) (spells_remember f address)
      · exact trusts_throw e

theorem spells_login (email password : String) :
    Spells settings (login lib settings email password) (fun _ => True) := by
  apply trusts_bind
  refine trusts_ofResult (fun address _ => ?_)
  apply trusts_bind
  refine trusts_mono (fun found hf => ?_) (spells_byEmail address)
  cases found with
  | none => exact trusts_throw _
  | some row =>
    change Spells settings (if passwordMatches lib row password then _ else _) _
    split
    · exact spells_grant (hf row rfl) (fun _ h => nomatch h)
    · exact trusts_throw _

theorem spells_askCode (hsha : HexDigests lib) (purpose : Purpose) (due : User → Prop)
    [DecidablePred due] (email : String) :
    Spells settings (askCode lib settings purpose due email) (fun _ => True) := by
  apply trusts_bind
  refine trusts_ofResult (fun address _ => ?_)
  apply trusts_bind
  refine trusts_mono (fun found _ => ?_) (spells_byEmail address)
  cases found with
  | none => exact trusts_pure trivial
  | some row =>
    change Spells settings (if due row then _ else _) _
    split
    · exact trusts_tryCatch (spells_sendCode hsha row.email purpose) (fun _ => trusts_pure trivial)
    · exact trusts_pure trivial

theorem spells_presentCode (purpose : Purpose) (message email code : String)
    {accepted : User → Act Unit}
    (ha : ∀ row, UserName row.id → Spells settings (accepted row) (fun _ => True)) :
    Spells settings (presentCode lib purpose message email code accepted) (fun _ => True) := by
  apply trusts_bind
  refine trusts_ofResult (fun address _ => ?_)
  apply trusts_bind
  refine trusts_mono (fun found hf => ?_) (spells_byEmail address)
  cases found with
  | none => exact trusts_throw _
  | some row =>
    apply trusts_bind
    refine trusts_mono (fun same _ => ?_) (spells_consumeCode row.email purpose code)
    change Spells settings (if same = true then _ else _) _
    split
    · exact ha row (hf row rfl)
    · exact trusts_throw _

theorem spells_replacePassword (session : ℕ) {user : UserId} (hu : UserName user)
    (password : String) :
    Spells settings (do
      let h ← AuthService.hash password
      commit session [.passwordHash user h]
      revokeAll user) (fun _ => True) := by
  apply trusts_bind
  refine trusts_invoke ⟨trivial, trivial⟩ (fun h _ => ?_)
  apply trusts_bind
  exact trusts_mono (fun _ _ => spells_revokeAll hu) (spells_commit session _)

theorem spells_changePassword (session : ℕ) (user : UserId) (current new : String) :
    Spells settings (changePassword lib session user current new) (fun _ => True) := by
  apply trusts_bind
  refine trusts_ofResult (fun _ _ => ?_)
  apply trusts_bind
  refine trusts_mono (fun row hrow => ?_) (spells_requireUser user)
  change Spells settings (if passwordMatches lib row current then _ else _) _
  split
  · exact spells_replacePassword session hrow new
  · exact trusts_throw _

theorem spells_resetPassword (session : ℕ) (email code password : String) :
    Spells settings (resetPassword lib session email code password) (fun _ => True) := by
  rw [resetPassword_eq]
  apply trusts_bind
  refine trusts_ofResult (fun _ _ => ?_)
  exact spells_presentCode _ _ _ _ (fun row hrow => spells_replacePassword session hrow password)

theorem spells_verifyEmail (session : ℕ) (email code : String) :
    Spells settings (verifyEmail lib session email code) (fun _ => True) := by
  rw [verifyEmail_eq]
  refine spells_presentCode _ _ _ _ (fun row _ => ?_)
  apply trusts_bind
  exact trusts_mono (fun now _ => spells_commit session _) spells_utcnow

theorem spells_refresh (value : Token) :
    Spells settings (refresh lib settings value) (fun _ => True) := by
  apply trusts_bind
  refine trusts_mono (fun s hs => ?_) (spells_rotateRefresh value)
  apply trusts_bind
  refine trusts_mono (fun row hrow => ?_) (spells_requireUser s.user)
  refine spells_grant hrow ?_
  rintro _ ⟨⟩
  exact hs.2

/-! ## Provider logins and rebuilds -/

theorem spells_identityUser (f : FilterSettings) (session : ℕ) (provider subject : String)
    (email : Email) :
    Spells settings (identityUser f session provider subject email)
      (fun row => UserName row.id) := by
  apply trusts_bind
  refine trusts_invoke ⟨trivial, trivial⟩ (fun identity _ => ?_)
  cases identity with
  | some identity => exact spells_requireUser identity.userId
  | none =>
    apply trusts_bind
    refine trusts_mono (fun found hf => ?_) (spells_byEmail email)
    cases found with
    | none =>
      apply trusts_bind
      refine trusts_mono (fun row hrow => ?_) (spells_createUser session email none true)
      apply trusts_bind
      refine trusts_mono (fun _ _ => ?_) (spells_remember f email)
      apply trusts_bind
      exact trusts_mono (fun _ _ => trusts_pure hrow) (spells_commit session _)
    | some row =>
      change Spells settings (if row.emailVerifiedAt = none then _ else _) _
      split
      · apply trusts_bind
        refine trusts_mono (fun now _ => ?_) spells_utcnow
        apply trusts_bind
        exact trusts_mono (fun _ _ => trusts_pure (hf row rfl)) (spells_commit session _)
      · apply trusts_bind
        exact trusts_mono (fun _ _ => trusts_pure (hf row rfl)) (spells_commit session _)

theorem spells_oauthLogin (f : FilterSettings) (session : ℕ) (provider idToken nonce : String) :
    Spells settings (oauthLogin lib settings f session provider idToken nonce) (fun _ => True) := by
  apply trusts_bind
  refine trusts_invoke ⟨trivial, trivial⟩ (fun spent _ => ?_)
  change Spells settings (if spent = false then _ else _) _
  split
  · exact trusts_throw _
  · apply trusts_bind
    refine trusts_ofResult (fun config _ => ?_)
    apply trusts_bind
    refine trusts_mono (fun claims _ => ?_)
      (spells_of_within (Footprints.verifiedClaims_within config idToken nonce) (by decide))
    apply trusts_bind
    refine trusts_ofResult (fun email _ => ?_)
    split
    · exact trusts_throw _
    · apply trusts_bind
      refine trusts_mono (fun row hrow => ?_)
        (spells_identityUser f session provider claims.subject email)
      exact spells_grant hrow (fun _ h => nomatch h)

theorem spells_createChallenge (provider : String) :
    Spells settings (createChallenge settings provider) (fun _ => True) := by
  apply trusts_bind
  refine trusts_ofResult (fun _ _ => ?_)
  apply trusts_bind
  refine trusts_mono (fun nonce _ => ?_) spells_tokenUrlsafe
  apply trusts_bind
  exact trusts_invoke ⟨show 0 < 300 by decide, rfl⟩ (fun _ _ => trusts_pure trivial)

theorem spells_warm {f : FilterSettings} (hf : 0 < f.lockSeconds) :
    Spells settings (warm lib f) (fun _ => True) := by
  unfold warm
  split
  · exact trusts_pure trivial
  · apply trusts_tryCatch
    · apply trusts_bind
      refine trusts_mono (fun token _ => ?_) spells_tokenUrlsafe
      apply trusts_bind
      refine trusts_invoke ⟨hf, trivial⟩ (fun locked _ => ?_)
      change Spells settings (if locked = false then _ else _) _
      split
      · exact trusts_pure trivial
      · apply trusts_tryCatch
        · exact spells_of_within (Footprints.rebuild_within lib f) (by decide)
        · intro e
          apply trusts_bind
          exact trusts_invoke ⟨trivial, trivial⟩ (fun _ _ => trusts_throw e)
    · exact fun _ => trusts_pure trivial

theorem spells_throttle (hwindow : 0 < settings.authThrottleWindowSeconds) (client : String)
    {scope : String} (hs : ':' ∉ scope.toList) (limit : ℕ) :
    Spells settings (throttle lib settings client scope limit) (fun _ => True) := by
  apply trusts_bind
  refine trusts_tryCatch (trusts_invoke ⟨⟨hs, hwindow⟩, rfl⟩ (fun hits _ => ?_))
    (fun _ => trusts_throw _)
  change Spells settings (if limit < hits then _ else _) _
  split
  · exact trusts_throw _
  · exact trusts_pure trivial

/-! ## Requests -/

/-- What the requests themselves bring along. -/
def Proper : Request → Prop
  | .logoutAll user => UserName user
  | .warm f => 0 < f.lockSeconds
  | _ => True

theorem spells_handled (hsha : HexDigests lib) (hwindow : 0 < settings.authThrottleWindowSeconds)
    (session : ℕ) {q : Request} (hq : Proper q) :
    Spells settings (handled lib settings session q) (fun _ => True) := by
  have hscopes : ':' ∉ "availability".toList ∧ ':' ∉ "signup".toList ∧
      ':' ∉ "forgot-password".toList := by decide
  have answered : ∀ {A : Type} {p : Act A} (f : A → Answer), Spells settings p (fun _ => True) →
      Spells settings (f <$> p) (fun _ => True) := fun f hp => trusts_map hp
  have ended : ∀ {p : Act Unit} (a : Answer), Spells settings p (fun _ => True) →
      Spells settings (do p; return a) (fun _ => True) := fun a hp =>
    trusts_bind (trusts_mono (fun _ _ => trusts_pure trivial) hp)
  cases q with
  | emailAvailable f email client =>
    apply answered
    apply trusts_bind
    refine trusts_mono (fun _ _ => ?_) (spells_throttle hwindow client hscopes.1 _)
    apply trusts_bind
    refine trusts_ofResult (fun address _ => ?_)
    apply trusts_bind
    refine trusts_mono (fun hit _ => ?_)
      (spells_of_within (Footprints.mightExist_within f address) (by decide))
    change Spells settings (if hit = true then _ else _) _
    split
    · apply trusts_bind
      exact trusts_mono (fun _ _ => trusts_pure trivial) (spells_byEmail address)
    · exact trusts_pure trivial
  | signup f email password client =>
    apply trusts_bind
    refine trusts_mono (fun _ _ => ?_) (spells_throttle hwindow client hscopes.2.1 _)
    exact ended _ (spells_signup hsha f session email password)
  | login email password => exact answered _ (spells_login email password)
  | verifyEmail email code => exact ended _ (spells_verifyEmail session email code)
  | resendVerification email => exact ended _ (spells_askCode hsha _ _ email)
  | forgotPassword email client =>
    apply trusts_bind
    refine trusts_mono (fun _ _ => ?_) (spells_throttle hwindow client hscopes.2.2 _)
    exact ended _ (spells_askCode hsha _ _ email)
  | resetPassword email code password =>
    exact ended _ (spells_resetPassword session email code password)
  | changePassword user current new =>
    exact ended _ (spells_changePassword session user current new)
  | refresh value => exact answered _ (spells_refresh value)
  | logout value =>
    change Spells settings (if value = "" then _ else _) _
    split
    · exact trusts_pure trivial
    · exact ended _ (spells_revokeRefresh value)
  | logoutAll user => exact ended _ (spells_revokeAll hq)
  | oauthChallenge provider => exact answered _ (spells_createChallenge provider)
  | oauthLogin f provider idToken nonce =>
    exact answered _ (spells_oauthLogin f session provider idToken nonce)
  | warm f => exact ended _ (spells_warm hq)

theorem spells_serve (hsha : HexDigests lib) (hwindow : 0 < settings.authThrottleWindowSeconds)
    (session : ℕ) {q : Request} (hq : Proper q) :
    Spells settings (serve lib settings session q) (fun _ => True) := by
  apply trusts_bind
  refine trusts_mono (fun answer _ => ?_)
    (trusts_tryCatch (spells_handled hsha hwindow session hq) (fun e => ?_))
  · apply trusts_bind
    exact trusts_mono (fun _ _ => trusts_pure trivial) (spells_rollback session)
  · apply trusts_bind
    exact trusts_mono (fun _ _ => trusts_throw e) (spells_rollback session)

end Gamely.RedisSpelling
