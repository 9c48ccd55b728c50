import Gamely.AccountMoves
import Gamely.Relying

/-!
# What a sign-in does when its calls are answered

A signup and a provider login go from a look-up to an insert and a commit. As long as
no call fails, no login loses a race to another request and a code can be dated, both
end on an account that is there, or say why not in an error of the application.
-/

set_option autoImplicit false

namespace Gamely.SignIns
open Gamely.Calls Gamely.Stores Gamely.EmailJobs Gamely.Services Gamely.TokenService
open Gamely.EmailFilter Gamely.AuthService Gamely.OAuthService Gamely.Requests
open Gamely.Footprints Gamely.Interleaving Gamely.Relying
open Gamely.AccountMoves (added)

/-- The row flushed and not committed yet, whether the cooldown of its code is taken, an
address seen to have an account, the account found or committed last, and the identity
that was read and the one that was committed. -/
structure Hand where
  made : Option User
  cooled : Bool
  address : Option Email
  owner : Option User
  read : Option OAuthIdentity
  linked : Option OAuthIdentity

def Hand.empty : Hand := ⟨none, false, none, none, none, none⟩

def links (changes : List Change) : List OAuthIdentity := changes.filterMap added

def next (g : Hand) : (c : Command) → Except Failure (Reply c) → Hand
  | .code (.setCooldown ..), .ok _ => { g with cooled := true }
  | .database (.byEmail _), .ok (some row) =>
    { g with address := some row.email, owner := some row }
  | .database (.byId _), .ok (some row) => { g with owner := some row }
  | .database (.byIdentity ..), .ok (some row) => { g with read := some row }
  | .database (.createUser _ row), .ok _ => { g with made := some row }
  | .database (.createUser _ row), .error _ => { g with address := some row.email }
  | .database (.commit _ changes), .ok _ => { g with
      made := none
      address := (g.made.map User.email).or g.address
      owner := g.made.or g.owner
      linked := (links changes).head? }
  | _, _ => g

def isSignup : Request → Bool
  | .signup .. => true
  | _ => false

def isLogin : Request → Bool
  | .oauthLogin .. => true
  | _ => false

variable (lib : Libraries) (settings : Settings) (i : ℕ) (q : Request)

/-- A token that the provider signed for this service in answer to the nonce, with all
that a login asks of it. -/
structure Genuine (provider idToken nonce : String) (config : ProviderConfig)
    (claims : IdClaims) (address : Email) : Prop where
  configured : providerConfig settings provider = .ok config
  decoded : lib.decodeIdToken config.jwksUrl config.clientId idToken = some claims
  issuer : claims.issuer ∈ config.issuers
  nonce : claims.nonce = nonce
  email : oauthEmailAddress lib (emailClaim provider claims) = .ok address
  subject : claims.subject ≠ ""
  verified : provider ≠ "microsoft" → claims.emailVerified = true

/-- Signups, logins with a genuine token, the challenges for these and rebuilds of the
filter. -/
def Entering : Request → Prop
  | .signup .. => True
  | .oauthChallenge _ => True
  | .warm _ => True
  | .oauthLogin _ provider idToken nonce =>
    ∃ config claims address, Genuine lib settings provider idToken nonce config claims address
  | _ => False

def allows (g : Hand) : Command → Prop
  | .code (.setCooldown key _) =>
    isSignup q = true ∧ g.cooled = false ∧ ∃ row, g.made = some row ∧ key = ⟨row.email, .verify⟩
  | .setNonce provider nonce _ => ':' ∉ provider.toList ∧ urlSafe nonce = true
  | .database (.createUser session _) =>
    session = i ∧ g.made = none ∧ (isSignup q = true ∨ isLogin q = true)
  | .database (.commit session changes) =>
    session = i ∧ (links changes).length ≤ 1 ∧ (links changes ≠ [] → isLogin q = true)
  | .database (.rollback session) => session = i ∧ g.made = none
  | _ => True

/-- The replies of a service of which no call fails, as long as no login loses a race and
a signup can date its code. -/
def expected (_ : Hand) : (c : Command) → Except Failure (Reply c) → Prop
  | .tokenUrlsafe, .ok name => urlSafe name = true
  | .randbelow bound, .ok n => n < bound
  | .utcnow, .ok now => isSignup q = true → ∃ t, later now settings.authCodeMinutes = .ok t
  | .delNonce _ nonce, .ok spent => spent = true → urlSafe nonce = true
  | .idToken jwksUrl clientId idToken, .ok claims =>
    claims = lib.decodeIdToken jwksUrl clientId idToken
  | .code (.setCooldown ..), .ok fresh => fresh = true
  | .database (.byEmail email), .ok found => ∀ row, found = some row → row.email = email
  | .database (.byId user), .ok found => ∀ row, found = some row → row.id = user
  | .database (.byIdentity provider subject), .ok found =>
    ∀ row, found = some row → row.provider = provider ∧ row.subject = subject
  | .database (.createUser ..), .error e => e = .integrityError ∧ isSignup q = true
  | _, .error _ => False
  | _, .ok _ => True

/-! ## How a request ends -/

def conflict : Failure := .conflict "An account already exists for this email address."

def throttled : Failure := .tooManyRequests "Too many requests. Please try again later."

/-- A signup ends on an address that has an account, or did not get that far. -/
def SignedUp (email password : String) (g : Hand) (r : Except Failure Answer) : Prop :=
  (∃ address, normalizeEmail lib email = .ok address ∧ g.address = some address ∧
    (r = .ok (.status "verification_sent") ∨ r = .error conflict)) ∨
  ∃ e, r = .error e ∧ (e = throttled ∨ normalizeEmail lib email = .error e ∨
    checkPassword password = .error e)

/-- A login ends on the account of its identity, which is the account of the address
unless the identity was there before, or is refused. -/
def SignedIn (provider idToken nonce : String) (g : Hand) (r : Except Failure Answer) : Prop :=
  (∃ m, r = .error (.unauthorized m)) ∨
  ∃ grant config claims address row, r = .ok (.granted grant) ∧
    Genuine lib settings provider idToken nonce config claims address ∧
    g.owner = some row ∧ row.id = grant.user.id ∧ row.email = grant.user.email ∧
    (g.read = some ⟨grant.user.id, provider, claims.subject⟩ ∨
      (g.linked = some ⟨grant.user.id, provider, claims.subject⟩ ∧ grant.user.email = address))

def Ended (g : Hand) (r : Except Failure Answer) : Request → Prop
  | .signup _ email password _ => SignedUp lib email password g r
  | .oauthLogin _ provider idToken nonce => SignedIn lib settings provider idToken nonce g r
  | _ => True

def protocol : Protocol Command Reply Failure Hand where
  allows := fun g c => Entering lib settings q → allows i q g c
  next := next

def contract : Contract Command Reply Failure Answer Request Hand where
  start := Hand.empty
  protocol := fun i q => protocol lib settings i q
  post := fun q g r => Entering lib settings q → Ended lib settings g r q

abbrev Reliant {A : Type} (p : Act A) (g : Hand) (post : Hand → Except Failure A → Prop) : Prop :=
  Relies (protocol lib settings i q) (expected lib settings q) p g post

variable {lib settings i q} {A : Type}

/-! ## Calls that end well -/

/-- A call of whose reply nothing is remembered and nothing is expected but that there
is one. -/
theorem relies_answered {c : Command} {g : Hand} {post : Hand → Except Failure (Reply c) → Prop}
    (ha : allows i q g c) (hn : ∀ reply, next g c (.ok reply) = g)
    (he : ∀ e, ¬expected lib settings q g c (.error e))
    (h : ∀ reply, expected lib settings q g c (.ok reply) → post g (.ok reply)) :
    Reliant lib settings i q (invoke c) g post := by
  apply relies_invoke (fun _ => ha)
  intro reply hr
  cases reply with
  | ok a =>
    show post (next g c (.ok a)) (.ok a)
    rw [hn]
    exact h a hr
  | error e => exact absurd hr (he e)

theorem relies_cuckoo (c : FilterCall) (g : Hand) :
    Reliant lib settings i q (cuckoo c) g (fun g' r => g' = g ∧ ∃ reply, r = .ok reply) :=
  relies_answered trivial (fun _ => rfl) (fun _ h => h) (fun reply _ => ⟨rfl, reply, rfl⟩)

theorem relies_mightExist (f : FilterSettings) (email : Email) (g : Hand) :
    Reliant lib settings i q (mightExist f email) g
      (fun g' r => g' = g ∧ ∃ hit, r = .ok hit) := by
  unfold mightExist
  split
  · exact ⟨rfl, true, rfl⟩
  · apply relies_tryCatch
    apply relies_bind
    apply relies_bind
    apply relies_mono _ (relies_cuckoo .getMarker g)
    rintro _ _ ⟨rfl, marker, rfl⟩
    apply relies_bind
    apply relies_mono _ (relies_cuckoo (.exists email) _)
    rintro _ _ ⟨rfl, hit, rfl⟩
    exact ⟨rfl, _, rfl⟩

theorem relies_remember (f : FilterSettings) (email : Email) (g : Hand) :
    Reliant lib settings i q (remember f email) g (fun g' r => g' = g ∧ r = .ok ()) := by
  unfold remember
  split
  · exact ⟨rfl, rfl⟩
  · apply relies_tryCatch
    apply relies_bind
    apply relies_bind
    unfold addMany
    rw [if_neg (List.cons_ne_nil _ _)]
    apply relies_bind
    apply relies_mono _ (relies_cuckoo (.insert [email] f.params.capacity) g)
    rintro _ _ ⟨rfl, replies, rfl⟩
    exact ⟨rfl, rfl⟩

theorem relies_rollback (g : Hand) (h : g.made = none) :
    Reliant lib settings i q (rollback i) g (fun g' r => g' = g ∧ r = .ok ()) :=
  relies_answered ⟨rfl, h⟩ (fun _ => rfl) (fun _ h => h) (fun _ _ => ⟨rfl, rfl⟩)

theorem relies_utcnow (g : Hand) :
    Reliant lib settings i q utcnow g (fun g' r => g' = g ∧ ∃ now, r = .ok now ∧
      (isSignup q = true → ∃ t, later now settings.authCodeMinutes = .ok t)) :=
  relies_answered trivial (fun _ => rfl) (fun _ h => h) (fun now h => ⟨rfl, now, rfl, h⟩)

theorem relies_tokenUrlsafe (g : Hand) :
    Reliant lib settings i q tokenUrlsafe g
      (fun g' r => g' = g ∧ ∃ name, r = .ok name ∧ urlSafe name = true) :=
  relies_answered trivial (fun _ => rfl) (fun _ h => h) (fun name h => ⟨rfl, name, rfl, h⟩)

theorem relies_throttle (client scope : String) (limit : ℕ) (g : Hand) :
    Reliant lib settings i q (throttle lib settings client scope limit) g
      (fun g' r => g' = g ∧ (r = .ok () ∨ r = .error throttled)) := by
  unfold throttle
  apply relies_bind
  apply relies_tryCatch
  apply relies_answered
  · trivial
  · exact fun _ => rfl
  · exact fun _ h => h
  intro hits _
  change Reliant lib settings i q (if limit < hits then _ else _) g _
  split
  · exact ⟨rfl, Or.inr rfl⟩
  · exact ⟨rfl, Or.inl rfl⟩

theorem relies_grant (user : User) (g : Hand) :
    Reliant lib settings i q (grant lib settings user none) g
      (fun g' r => g' = g ∧ ∃ a : Grant, r = .ok a ∧ a.user = user) := by
  unfold grant
  apply relies_bind
  apply relies_bind
  apply relies_mono _ (relies_utcnow g)
  rintro _ _ ⟨rfl, now, rfl, -⟩
  apply relies_bind
  apply relies_bind
  apply relies_mono _ (relies_tokenUrlsafe _)
  rintro _ _ ⟨rfl, value, rfl, -⟩
  apply relies_bind
  apply relies_mono _ (relies_tokenUrlsafe _)
  rintro _ _ ⟨rfl, family, rfl, -⟩
  apply relies_bind
  apply relies_answered
  · trivial
  · exact fun _ => rfl
  · exact fun _ h => h
  intro _ _
  exact ⟨rfl, _, rfl, rfl⟩

/-! ## Signups -/

theorem relies_byEmail (email : Email) (g : Hand) :
    Reliant lib settings i q (byEmail email) g (fun g' r =>
      (g' = g ∧ r = .ok none) ∨
      ∃ row : User, row.email = email ∧ r = .ok (some row) ∧
        g' = { g with address := some row.email, owner := some row }) := by
  apply relies_invoke (fun _ => trivial)
  intro reply hr
  cases reply with
  | error e => exact absurd hr (fun h => h)
  | ok found =>
    cases found with
    | none => exact Or.inl ⟨rfl, rfl⟩
    | some row => exact Or.inr ⟨row, hr row rfl, rfl, rfl⟩

theorem relies_emailTaken (f : FilterSettings) (email : Email) (g : Hand) :
    Reliant lib settings i q (emailTaken f email) g (fun g' r =>
      (g' = g ∧ r = .ok false) ∨
      (g'.made = g.made ∧ g'.address = some email ∧ r = .ok true)) := by
  apply relies_bind
  apply relies_mono _ (relies_mightExist f email g)
  rintro _ _ ⟨rfl, hit, rfl⟩
  cases hit with
  | false => exact Or.inl ⟨rfl, rfl⟩
  | true =>
    apply relies_bind
    apply relies_mono _ (relies_byEmail email _)
    rintro _ _ (⟨rfl, rfl⟩ | ⟨row, hrow, rfl, rfl⟩)
    · exact Or.inl ⟨rfl, rfl⟩
    · exact Or.inr ⟨rfl, congrArg some hrow, rfl⟩

/-- The row is flushed; a signup may learn instead that the address has an account. -/
theorem relies_createUser (email : Email) (h : Option Hash) (verified : Bool) (g : Hand)
    (hmade : g.made = none) (hq : isSignup q = true ∨ isLogin q = true) :
    Reliant lib settings i q (createUser i email h verified) g (fun g' r =>
      (∃ row : User, row.email = email ∧ r = .ok row ∧ g' = { g with made := some row }) ∨
      (isSignup q = true ∧ r = .error .integrityError ∧
        g' = { g with address := some email })) := by
  have hat : Reliant lib settings i q (emailVerifiedAt verified) g
      (fun g' r => g' = g ∧ ∃ at', r = .ok at') := by
    unfold emailVerifiedAt
    split
    · apply relies_map
      apply relies_mono _ (relies_utcnow g)
      rintro _ _ ⟨rfl, now, rfl, -⟩
      exact ⟨rfl, _, rfl⟩
    · exact ⟨rfl, _, rfl⟩
  apply relies_bind
  apply relies_mono _ hat
  rintro _ _ ⟨rfl, at', rfl⟩
  apply relies_bind
  apply relies_answered
  · trivial
  · exact fun _ => rfl
  · exact fun _ h => h
  intro id _
  apply relies_bind
  apply relies_invoke (fun _ => ⟨rfl, hmade, hq⟩)
  intro reply hr
  cases reply with
  | ok _ => exact Or.inl ⟨⟨id, email, h, at'⟩, rfl, rfl, rfl⟩
  | error e =>
    obtain ⟨rfl, hsignup⟩ := hr
    exact Or.inr ⟨hsignup, rfl, rfl⟩

theorem relies_sendCode (email : Email) (g : Hand) {row : User} (hq : isSignup q = true)
    (hvalid : '@' ∈ email.toList ∧ email.length ≤ 320) (hmade : g.made = some row)
    (hrow : row.email = email) (hcooled : g.cooled = false) :
    Reliant lib settings i q (sendCode lib settings email .verify) g
      (fun g' r => g' = { g with cooled := true } ∧ r = .ok ()) := by
  apply relies_bind
  apply relies_invoke (fun _ => ⟨hq, hcooled, row, hmade, by rw [hrow]⟩)
  intro reply hr
  cases reply with
  | error e => exact absurd hr (fun h => h)
  | ok fresh =>
    obtain rfl : fresh = true := hr
    apply relies_bind
    apply relies_map
    apply relies_answered
    · trivial
    · exact fun _ => rfl
    · exact fun _ h => h
    intro n hn
    apply relies_bind
    apply relies_mono _ (relies_utcnow _)
    rintro _ _ ⟨rfl, now, rfl, hdate⟩
    obtain ⟨t, ht⟩ := hdate hq
    apply relies_bind
    apply relies_ofResult
    rw [ht]
    apply relies_tryCatch
    apply relies_bind
    apply relies_answered
    · trivial
    · exact fun _ => rfl
    · exact fun _ h => h
    intro _ _
    apply relies_bind
    apply relies_ofResult
    rw [make_valid (postInit_drawn .verify hvalid hn ht)]
    apply relies_answered
    · trivial
    · exact fun _ => rfl
    · exact fun _ h => h
    exact fun _ _ => ⟨rfl, rfl⟩

theorem relies_commit (changes : List Change) (g : Hand) (hlinks : (links changes).length ≤ 1)
    (hq : links changes ≠ [] → isLogin q = true) :
    Reliant lib settings i q (commit i changes) g (fun g' r => r = .ok () ∧
      g' = next g (.database (.commit i changes)) (.ok ())) := by
  apply relies_invoke (fun _ => ⟨rfl, hlinks, hq⟩)
  intro reply hr
  cases reply with
  | error e => exact absurd hr (fun h => h)
  | ok _ => exact ⟨rfl, rfl⟩

theorem relies_createAccount (f : FilterSettings) (email password : String) (g : Hand)
    (hq : isSignup q = true) (hvalid : '@' ∈ email.toList ∧ email.length ≤ 320)
    (hmade : g.made = none) (hcooled : g.cooled = false) :
    Reliant lib settings i q (createAccount lib settings f i email password) g
      (fun g' r => g'.made = none ∧ g'.address = some email ∧
        (r = .ok () ∨ r = .error .integrityError)) := by
  apply relies_bind
  apply relies_answered
  · trivial
  · exact fun _ => rfl
  · exact fun _ h => h
  intro h _
  apply relies_bind
  apply relies_mono _ (relies_createUser email (some h) false g hmade (Or.inl hq))
  rintro _ _ (⟨row, hrow, rfl, rfl⟩ | ⟨-, rfl, rfl⟩)
  · apply relies_bind
    apply relies_mono _ (relies_remember f email _)
    rintro _ _ ⟨rfl, rfl⟩
    apply relies_bind
    apply relies_mono _
      (relies_sendCode email { g with made := some row } hq hvalid rfl hrow hcooled)
    rintro _ _ ⟨rfl, rfl⟩
    apply relies_mono _ (relies_commit [] _ (by simp [links, added]) (by simp [links, added]))
    rintro _ _ ⟨rfl, rfl⟩
    exact ⟨rfl, congrArg some hrow, Or.inl rfl⟩
  · exact ⟨hmade, rfl, Or.inr rfl⟩

theorem relies_signup (f : FilterSettings) (email password : String) (hq : isSignup q = true) :
    Reliant lib settings i q (signup lib settings f i email password) Hand.empty
      (fun g' r => g'.made = none ∧
        ((∃ address, normalizeEmail lib email = .ok address ∧ g'.address = some address ∧
          (r = .ok () ∨ r = .error conflict)) ∨
        ∃ e, r = .error e ∧ (normalizeEmail lib email = .error e ∨
          checkPassword password = .error e))) := by
  apply relies_bind
  apply relies_ofResult
  cases ha : normalizeEmail lib email with
  | error e => exact ⟨rfl, Or.inr ⟨e, rfl, Or.inl rfl⟩⟩
  | ok address =>
    apply relies_bind
    apply relies_ofResult
    cases hp : checkPassword password with
    | error e => exact ⟨rfl, Or.inr ⟨e, rfl, Or.inr rfl⟩⟩
    | ok _ =>
      apply relies_bind
      apply relies_mono _ (relies_emailTaken f address Hand.empty)
      rintro g r (⟨rfl, rfl⟩ | ⟨hmade, haddress, rfl⟩)
      · apply relies_tryCatch
        apply relies_mono _
          (relies_createAccount f address password Hand.empty hq (valid_address ha) rfl rfl)
        rintro g _ ⟨hmade, haddress, rfl | rfl⟩
        · exact ⟨hmade, Or.inl ⟨address, rfl, haddress, Or.inl rfl⟩⟩
        · apply relies_bind
          apply relies_mono _ (relies_rollback g hmade)
          rintro _ _ ⟨rfl, rfl⟩
          apply relies_bind
          apply relies_mono _ (relies_remember f address _)
          rintro _ _ ⟨rfl, rfl⟩
          exact ⟨hmade, Or.inl ⟨address, rfl, haddress, Or.inr rfl⟩⟩
      · exact ⟨hmade, Or.inl ⟨address, rfl, haddress, Or.inr rfl⟩⟩

/-! ## Provider logins -/

theorem relies_requireUser (user : UserId) (g : Hand) :
    Reliant lib settings i q (requireUser user) g (fun g' r =>
      (∃ m, g' = g ∧ r = .error (.unauthorized m)) ∨
      ∃ row : User, row.id = user ∧ r = .ok row ∧ g' = { g with owner := some row }) := by
  apply relies_bind
  apply relies_invoke (fun _ => trivial)
  intro reply hr
  cases reply with
  | error e => exact absurd hr (fun h => h)
  | ok found =>
    cases found with
    | none => exact Or.inl ⟨_, rfl, rfl⟩
    | some row => exact Or.inr ⟨row, hr row rfl, rfl, rfl⟩

/-- The user of a verified identity and the rows that stand for it. -/
def Identified (provider subject : String) (email : Email) (g : Hand) (user : User) : Prop :=
  ∃ row, g.owner = some row ∧ row.id = user.id ∧ row.email = user.email ∧
    (g.read = some ⟨user.id, provider, subject⟩ ∨
      (g.linked = some ⟨user.id, provider, subject⟩ ∧ user.email = email))

theorem relies_identityUser (f : FilterSettings) (provider subject : String) (email : Email)
    (g : Hand) (hq : isLogin q = true) (hsignup : isSignup q = false) (hmade : g.made = none) :
    Reliant lib settings i q (identityUser f i provider subject email) g (fun g' r =>
      g'.made = none ∧ ((∃ m, r = .error (.unauthorized m)) ∨
        ∃ user, r = .ok user ∧ Identified provider subject email g' user)) := by
  apply relies_bind
  apply relies_invoke (fun _ => trivial)
  intro reply hr
  cases reply with
  | error e => exact absurd hr (fun h => h)
  | ok identity =>
    cases identity with
    | some identity =>
      obtain ⟨rfl, rfl⟩ := hr identity rfl
      apply relies_mono _ (relies_requireUser identity.userId _)
      rintro _ _ (⟨m, rfl, rfl⟩ | ⟨row, hrow, rfl, rfl⟩)
      · exact ⟨hmade, Or.inl ⟨m, rfl⟩⟩
      · refine ⟨hmade, Or.inr ⟨row, rfl, row, rfl, rfl, rfl, Or.inl ?_⟩⟩
        rw [hrow]
        rfl
    | none =>
      apply relies_bind
      apply relies_mono _ (relies_byEmail email _)
      rintro _ _ (⟨rfl, rfl⟩ | ⟨row, hrow, rfl, rfl⟩)
      · apply relies_bind
        apply relies_mono _ (relies_createUser email none true _ hmade (Or.inr hq))
        rintro _ _ (⟨row, hrow, rfl, rfl⟩ | ⟨hs, -, -⟩)
        · apply relies_bind
          apply relies_mono _ (relies_remember f email _)
          rintro _ _ ⟨rfl, rfl⟩
          apply relies_bind
          apply relies_mono _ (relies_commit _ _ (by simp [links, added]) (fun _ => hq))
          rintro _ _ ⟨rfl, rfl⟩
          exact ⟨rfl, Or.inr ⟨row, rfl, row, rfl, rfl, rfl, Or.inr ⟨rfl, hrow⟩⟩⟩
        · rw [hsignup] at hs
          cases hs
      · have hlink : ∀ (changes : List Change) (user : User), user.id = row.id →
            user.email = row.email → links changes = [⟨row.id, provider, subject⟩] →
            Reliant lib settings i q (commit i changes >>= fun _ => pure user)
              { g with address := some row.email, owner := some row }
              (fun g' r => g'.made = none ∧ ((∃ m, r = .error (.unauthorized m)) ∨
                ∃ user, r = .ok user ∧ Identified provider subject email g' user)) := by
          intro changes user hid hemail hchanges
          apply relies_bind
          apply relies_mono _ (relies_commit changes _ (by simp [hchanges]) (fun _ => hq))
          rintro _ _ ⟨rfl, rfl⟩
          refine ⟨rfl, Or.inr ⟨user, rfl, row, ?_, hid.symm, hemail.symm, Or.inr ⟨?_, ?_⟩⟩⟩
          · show g.made.or (some row) = some row
            rw [hmade]
            rfl
          · show (links changes).head? = _
            rw [hchanges, hid]
            rfl
          · rw [hemail, hrow]
        change Reliant lib settings i q (if row.emailVerifiedAt = none then _ else _) _ _
        split
        · apply relies_bind
          apply relies_mono _ (relies_utcnow _)
          rintro _ _ ⟨rfl, now, rfl, -⟩
          exact hlink _ { row with emailVerifiedAt := some now } rfl rfl rfl
        · exact hlink _ row rfl rfl rfl

theorem compareDigest_urlSafe {nonce : String} (h : urlSafe nonce = true) :
    compareDigest nonce nonce = .ok true := by
  have hascii : nonce.toList.all (fun c => c.toNat < 128) = true := by
    apply List.all_eq_true.mpr
    intro c hc
    have hsafe := List.all_eq_true.mp h c hc
    simp only [Bool.or_eq_true, decide_eq_true_eq] at hsafe
    rcases hsafe with (halnum | rfl) | rfl
    · have hranges : (decide (65 ≤ c.val ∧ c.val ≤ 90) ||
          decide (97 ≤ c.val) && decide (c.val ≤ 122) ||
          decide (48 ≤ c.val) && decide (c.val ≤ 57)) = true := halnum
      simp only [Bool.or_eq_true, Bool.and_eq_true, decide_eq_true_eq] at hranges ⊢
      rcases hranges with (⟨-, hz⟩ | ⟨-, hz⟩) | ⟨-, hz⟩
      · exact Nat.lt_of_le_of_lt (UInt32.le_iff_toNat_le.mp hz) (by decide)
      · exact Nat.lt_of_le_of_lt (UInt32.le_iff_toNat_le.mp hz) (by decide)
      · exact Nat.lt_of_le_of_lt (UInt32.le_iff_toNat_le.mp hz) (by decide)
    · decide
    · decide
  simp [compareDigest, hascii]

theorem relies_verifiedClaims {provider idToken nonce : String} {config : ProviderConfig}
    {claims : IdClaims} {address : Email}
    (hg : Genuine lib settings provider idToken nonce config claims address)
    (hsafe : urlSafe nonce = true) (g : Hand) :
    Reliant lib settings i q (verifiedClaims config idToken nonce) g
      (fun g' r => g' = g ∧ r = .ok claims) := by
  apply relies_bind
  apply relies_tryCatch
  apply relies_answered
  · trivial
  · exact fun _ => rfl
  · exact fun _ h => h
  intro decoded hdecoded
  obtain rfl : decoded = some claims := hdecoded.trans hg.decoded
  change Reliant lib settings i q (if claims.issuer ∉ config.issuers then _ else _) g _
  rw [if_neg (not_not.mpr hg.issuer), hg.nonce, compareDigest_urlSafe hsafe]
  exact ⟨rfl, rfl⟩

theorem relies_oauthLogin (f : FilterSettings) {provider idToken nonce : String}
    {config : ProviderConfig} {claims : IdClaims} {address : Email}
    (hq : isLogin q = true) (hsignup : isSignup q = false)
    (hg : Genuine lib settings provider idToken nonce config claims address) :
    Reliant lib settings i q (oauthLogin lib settings f i provider idToken nonce) Hand.empty
      (fun g' r => g'.made = none ∧ ((∃ m, r = .error (.unauthorized m)) ∨
        ∃ grant : Grant, r = .ok grant ∧
          Identified provider claims.subject address g' grant.user)) := by
  apply relies_bind
  apply relies_answered
  · trivial
  · exact fun _ => rfl
  · exact fun _ h => h
  intro spent hsafe
  cases spent with
  | false => exact ⟨rfl, Or.inl ⟨_, rfl⟩⟩
  | true =>
    apply relies_bind
    apply relies_ofResult
    rw [hg.configured]
    apply relies_bind
    apply relies_mono _ (relies_verifiedClaims hg (hsafe rfl) Hand.empty)
    rintro _ _ ⟨rfl, rfl⟩
    apply relies_bind
    apply relies_ofResult
    rw [hg.email]
    have haccepted : ¬(claims.subject = "" ∨
        (provider ≠ "microsoft" ∧ claims.emailVerified = false)) := by
      rintro (hsubject | ⟨hp, hv⟩)
      · exact hg.subject hsubject
      · rw [hg.verified hp] at hv
        cases hv
    change Reliant lib settings i q (if _ then _ else _) Hand.empty _
    rw [if_neg haccepted]
    apply relies_bind
    apply relies_mono _
      (relies_identityUser f provider claims.subject address Hand.empty hq hsignup rfl)
    rintro g _ ⟨hmade, ⟨m, rfl⟩ | ⟨user, rfl, hidentified⟩⟩
    · exact ⟨hmade, Or.inl ⟨m, rfl⟩⟩
    · apply relies_mono _ (relies_grant user g)
      rintro _ _ ⟨rfl, grant, rfl, rfl⟩
      exact ⟨hmade, Or.inr ⟨grant, rfl, hidentified⟩⟩

/-! ## Every request -/

/-- Calls of a kind that is neither restricted nor remembered. -/
def otherParts : List Part := [.name, .filter, .rebuild, .snapshot, .lock]

theorem keeps_other {p : Act A} (hp : Within otherParts p) (g : Hand) :
    Keeps (protocol lib settings i q) p g (fun g' _ => g' = g) := by
  apply keeps_of_only p hp g _ _ (fun _ => rfl)
  intro c hc
  cases c with
  | tokenUrlsafe | filter => exact ⟨fun _ => trivial, fun _ => rfl⟩
  | database c =>
    cases c with
    | emails => exact ⟨fun _ => trivial, fun _ => rfl⟩
    | commit session changes =>
      simp only [part] at hc
      split at hc <;> simp [otherParts] at hc
    | _ => simp [part, otherParts] at hc
  | _ => simp [part, otherParts] at hc

theorem relies_createChallenge (provider : String) (g : Hand) :
    Reliant lib settings i q (createChallenge settings provider) g (fun g' _ => g' = g) := by
  apply relies_bind
  apply relies_ofResult
  cases hconfig : providerConfig settings provider with
  | error e => rfl
  | ok config =>
    apply relies_bind
    apply relies_mono _ (relies_tokenUrlsafe g)
    rintro _ _ ⟨rfl, name, rfl, hsafe⟩
    apply relies_bind
    apply relies_answered
    · exact ⟨Challenges.provider_colon hconfig, hsafe⟩
    · exact fun _ => rfl
    · exact fun _ h => h
    exact fun _ _ => rfl

theorem relies_handled (q : Request) (hq : Entering lib settings q) :
    Reliant lib settings i q (handled lib settings i q) Hand.empty
      (fun g r => g.made = none ∧ Ended lib settings g r q) := by
  cases q with
  | signup f email password client =>
    apply relies_bind
    apply relies_mono _ (relies_throttle client "signup" settings.authSignupLimit Hand.empty)
    rintro _ _ ⟨rfl, rfl | rfl⟩
    · apply relies_bind
      apply relies_mono _ (relies_signup f email password rfl)
      rintro g r ⟨hmade, ⟨address, ha, haddress, rfl | rfl⟩ | ⟨e, rfl, he⟩⟩
      · exact ⟨hmade, Or.inl ⟨address, ha, haddress, Or.inl rfl⟩⟩
      · exact ⟨hmade, Or.inl ⟨address, ha, haddress, Or.inr rfl⟩⟩
      · exact ⟨hmade, Or.inr ⟨e, rfl, Or.inr he⟩⟩
    · exact ⟨rfl, Or.inr ⟨throttled, rfl, Or.inl rfl⟩⟩
  | oauthLogin f provider idToken nonce =>
    obtain ⟨config, claims, address, hg⟩ := hq
    apply relies_map
    apply relies_mono _ (relies_oauthLogin f rfl rfl hg)
    rintro g _ ⟨hmade, ⟨m, rfl⟩ | ⟨grant, rfl, row, hidentified⟩⟩
    · exact ⟨hmade, Or.inl ⟨m, rfl⟩⟩
    · exact ⟨hmade, Or.inr ⟨grant, config, claims, address, row, rfl, hg, hidentified⟩⟩
  | oauthChallenge provider =>
    apply relies_map
    apply relies_mono _ (relies_createChallenge provider Hand.empty)
    rintro _ r rfl
    exact ⟨rfl, trivial⟩
  | warm f =>
    have hw : Within otherParts (handled lib settings i (.warm f)) := by
      apply within_mono _ (handled_within lib settings i (.warm f))
      simp only [footprint]
      decide
    apply relies_of_keeps
    apply keeps_mono _ _ _ (keeps_other hw Hand.empty)
    rintro _ r rfl
    exact ⟨rfl, trivial⟩
  | _ => exact absurd hq (fun h => h)

theorem relies_serve (q : Request) (hq : Entering lib settings q) :
    Reliant lib settings i q (serve lib settings i q) Hand.empty
      (fun g r => Ended lib settings g r q) := by
  apply relies_bind
  apply relies_tryCatch
  apply relies_mono _ (relies_handled q hq)
  rintro g r ⟨hmade, hended⟩
  cases r with
  | ok answer =>
    apply relies_bind
    apply relies_mono _ (relies_rollback g hmade)
    rintro _ _ ⟨rfl, rfl⟩
    exact hended
  | error e =>
    apply relies_bind
    apply relies_mono _ (relies_rollback g hmade)
    rintro _ _ ⟨rfl, rfl⟩
    exact hended

theorem relies_foreign (hq : ¬Entering lib settings q) (p : Act A) (g : Hand)
    {post : Hand → Except Failure A → Prop} :
    Reliant lib settings i q p g (fun g r => Entering lib settings q → post g r) := by
  apply relies_of_keeps
  apply keeps_of_kept (fun _ => True) p (only_any p) g trivial
  · exact fun c _ g _ => ⟨fun h => absurd h hq, fun _ => trivial⟩
  · exact fun g r _ h => absurd h hq

theorem obeys (lib : Libraries) (settings : Settings) :
    Obeys (service lib settings)
      (reliance (contract lib settings) (fun _ q => expected lib settings q)) := by
  apply obeys_reliance
  · intro i q
    by_cases hq : Entering lib settings q
    · exact relies_mono (fun _ _ h _ => h) (relies_serve q hq)
    · exact relies_foreign hq _ _
  · intro i q p hp g
    cases q with
    | warm f =>
      cases hp
      exact fun _ => trivial
    | _ => cases hp

end Gamely.SignIns
