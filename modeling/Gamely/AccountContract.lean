import Gamely.Challenges

/-!
# What a request does to accounts and codes

A request reads a row, may create one, and commits only changes it has grounds for:
a new password for an account that has one, or whose reset code it was shown; a
verified address on a code of that address or on a provider's word. A code is
stored for the key whose cooldown was taken, or written back where it was read.
-/

set_option autoImplicit false

namespace Gamely.AccountContract
open Gamely.Calls Gamely.Stores Gamely.EmailJobs Gamely.Services Gamely.TokenService
open Gamely.EmailFilter Gamely.AuthService Gamely.OAuthService Gamely.Requests
open Gamely.Footprints Gamely.Interleaving

/-- The id drawn, the row created with it, the row read last and the address it was
looked up by, the key a code is sent for, the number drawn for it, the code read last
and the token that was checked, with the request it was checked for. -/
structure Hand where
  id : Option UserId
  made : Option User
  asked : Option Email
  found : Option User
  sending : Option CodeKey
  number : Option ℕ
  payload : Option (CodeKey × CodePayload)
  checked : Option (Request × Challenges.Checked)

def Hand.empty : Hand := ⟨none, none, none, none, none, none, none, none⟩

variable (lib : Libraries) (settings : Settings) (i : ℕ) (q : Request)

def next (g : Hand) : (c : Command) → Except Failure (Reply c) → Hand
  | .uuid4, .ok id => { g with id := some id }
  | .randbelow _, .ok n => { g with number := some n }
  | .code (.setCooldown key _), .ok fresh => if fresh then { g with sending := some key } else g
  | .code (.getCode key), .ok payload => { g with payload := payload.map (fun p => (key, p)) }
  | .database (.byEmail email), .ok found => { g with asked := some email, found := found }
  | .database (.byId _), .ok found => { g with asked := none, found := found }
  | .database (.createUser _ row), .ok _ => { g with made := some row }
  | .idToken jwksUrl clientId idToken, .ok (some claims) =>
    { g with checked := some (q, ⟨jwksUrl, clientId, idToken, claims⟩) }
  | _, _ => g

/-- The claims of a provider's token vouch for an address. -/
def Attests (provider nonce : String) (config : ProviderConfig) (claims : IdClaims)
    (address : Email) : Prop :=
  providerConfig settings provider = .ok config ∧ claims.issuer ∈ config.issuers ∧
    claims.nonce = nonce ∧ oauthEmailAddress lib (emailClaim provider claims) = .ok address ∧
    (provider ≠ "microsoft" → claims.emailVerified = true)

/-- The request is a provider login whose checked token vouches for an address. -/
def Vouched (g : Hand) (address : Email) : Prop :=
  ∃ f provider idToken nonce config claims, q = .oauthLogin f provider idToken nonce ∧
    g.checked = some (q, ⟨config.jwksUrl, config.clientId, idToken, claims⟩) ∧
    Attests lib settings provider nonce config claims address

/-- The request names an address and presents the code read for the owner of the row. -/
def Presents (g : Hand) (address owner : Email) : Prop :=
  ∃ email code p, q = .verifyEmail email code ∧ normalizeEmail lib email = .ok address ∧
    g.payload = some (⟨owner, .verify⟩, p) ∧ p.digest = lib.sha256 code

def Justified (g : Hand) : Change → Prop
  | .passwordHash user _ => ∃ row, g.found = some row ∧ row.id = user ∧
      (row.passwordHash ≠ none ∨ ∃ p, g.payload = some (⟨row.email, .reset⟩, p))
  | .emailVerifiedAt user _ => ∃ row address, g.found = some row ∧ g.asked = some address ∧
      row.id = user ∧ (Vouched lib settings q g address ∨ Presents lib q g address row.email)
  | .identity _ => True

def allows (g : Hand) : Command → Prop
  | .uuid4 => g.id = none
  | .randbelow bound => bound = 1000000
  | .code (.setCooldown key ttl) => ttl = 60 ∧ (key.purpose = .reset →
      ∃ row, g.found = some row ∧ row.email = key.email ∧ row.passwordHash ≠ none)
  | .code (.setCode key payload _) =>
      (g.sending = some key ∧ ∃ n, g.number = some n ∧ payload.digest = lib.sha256 (sixDigits n)) ∨
      ∃ p, g.payload = some (key, p) ∧ payload.digest = p.digest
  | .database (.createUser session row) => session = i ∧ g.id = some row.id ∧ g.made = none ∧
      (row.emailVerifiedAt ≠ none → Vouched lib settings q g row.email)
  | .database (.commit session changes) => session = i ∧
      (∀ row, g.made = some row → row.passwordHash = none →
        ∃ provider subject, .identity ⟨row.id, provider, subject⟩ ∈ changes) ∧
      ∀ change ∈ changes, Justified lib settings q g change
  | _ => True

def protocol : Protocol Command Reply Failure Hand := ⟨allows lib settings i q, next q⟩

def contract : Contract Command Reply Failure Answer Request Hand where
  start := Hand.empty
  protocol := fun i q => protocol lib settings i q
  post := fun _ _ _ => True

/-! ## Calls that concern neither -/

def otherParts : List Part := [.name, .clock, .order, .session, .nonce, .throttle, .filter,
  .rebuild, .lock, .snapshot, .broker]

variable {lib settings i q}

theorem other_inert (g : Hand) (c : Command) (hc : part c ∈ otherParts) :
    allows lib settings i q g c ∧ ∀ reply, next q g c reply = g := by
  cases c with
  | uuid4 | randbelow | hash | code | idToken => simp [part, otherParts] at hc
  | database c =>
    cases c with
    | commit session changes =>
      simp only [part] at hc
      split at hc <;> simp [otherParts] at hc
    | emails => exact ⟨trivial, fun _ => rfl⟩
    | _ => simp [part, otherParts] at hc
  | _ => exact ⟨trivial, fun _ => rfl⟩

variable {A : Type}

theorem ensures_other {p : Act A} {parts : List Part} (hp : Within parts p)
    (ho : parts ⊆ otherParts) {g : Hand} {post : Hand → A → Prop} (hpost : ∀ a, post g a) :
    Ensures (protocol lib settings i q) p g post :=
  ensures_of_only (within_mono ho hp) (other_inert g) hpost

theorem keeps_other {p : Act A} {parts : List Part} (hp : Within parts p)
    (ho : parts ⊆ otherParts) {g : Hand} {post : Hand → Except Failure A → Prop}
    (hpost : ∀ r, post g r) : Keeps (protocol lib settings i q) p g post :=
  keeps_of_only p (within_mono ho hp) g post (other_inert g) hpost

theorem ensures_reading {p : Act A} {parts : List Part} (hp : Within parts p)
    (ho : parts ⊆ .database :: otherParts) {g : Hand} :
    Ensures (protocol lib settings i q) p g (fun _ _ => True) := by
  apply ensures_of_kept (fun _ => True) (within_mono ho hp) trivial _ (fun _ _ _ => trivial)
  intro c hc g _
  refine ⟨?_, fun _ => trivial⟩
  rcases List.mem_cons.mp hc with h | h
  · cases c with
    | database c =>
      cases c with
      | createUser => cases h
      | commit session changes =>
        simp only [part] at h
        split at h <;> cases h
      | _ => trivial
    | uuid4 | randbelow | code => cases h
    | _ => trivial
  · exact (other_inert g c h).1

/-! ## Codes -/

theorem keeps_deliverCode (key : CodeKey) (n : ℕ) (expiresAt : DateTimes.DateTime) (g : Hand)
    (hs : g.sending = some key) (hn : g.number = some n) :
    Keeps (protocol lib settings i q) (deliverCode lib settings key (sixDigits n) expiresAt) g
      (fun g' _ => g' = g) := by
  simp only [deliverCode, codes, keeps_bind, keeps_invoke]
  refine ⟨Or.inl ⟨hs, n, hn, rfl⟩, fun reply => ?_⟩
  cases reply with
  | error e => rfl
  | ok _ =>
    rw [keeps_ofResult]
    cases EmailJob.make _ with
    | error e => rfl
    | ok job =>
      dsimp only
      exact ⟨trivial, fun _ => rfl⟩

/-- A code for resetting is sent on a row with a password only. -/
theorem keeps_sendCode (email : Email) (purpose : Purpose) (g : Hand)
    (hg : purpose = .reset → ∃ row, g.found = some row ∧ row.email = email ∧
      row.passwordHash ≠ none) :
    Keeps (protocol lib settings i q) (sendCode lib settings email purpose) g
      (fun g' _ => g'.made = g.made) := by
  simp only [sendCode, codes, keeps_bind, keeps_invoke]
  refine ⟨⟨rfl, hg⟩, fun reply => ?_⟩
  rcases reply with e | fresh
  · rfl
  · cases fresh with
    | false => rfl
    | true =>
      simp only [Bool.true_eq_false, if_false, keeps_bind, keeps_map, keeps_invoke]
      refine ⟨rfl, fun reply => ?_⟩
      rcases reply with e | n
      · rfl
      · have hclock : Within [.clock] utcnow := only_invoke _ (by simp [part])
        apply keeps_other hclock (by decide)
        intro now
        rcases now with e | now
        · rfl
        · simp only [keeps_ofResult]
          cases later now settings.authCodeMinutes with
          | error e => rfl
          | ok expiresAt =>
            apply (keeps_tryCatch _ _ _ _).mpr
            apply keeps_mono _ _ _ (keeps_deliverCode _ n expiresAt _ rfl rfl)
            rintro _ r rfl
            cases r with
            | ok _ => rfl
            | error e =>
              apply (keeps_bind _ _ _ _).mpr
              apply (keeps_invoke _ _ _).mpr
              refine ⟨trivial, fun reply => ?_⟩
              cases reply with
              | error e => rfl
              | ok _ => rfl

theorem ensures_consumeCode (email : Email) (purpose : Purpose) (code : String) (g : Hand) :
    Ensures (protocol lib settings i q) (consumeCode lib email purpose code) g
      (fun g' accepted => ∃ payload, g' = { g with payload := payload } ∧
        (accepted = true → ∃ p, payload = some (⟨email, purpose⟩, p) ∧
          p.digest = lib.sha256 code)) := by
  apply ensures_bind
  apply ensures_invoke trivial
  intro stored
  cases stored with
  | none => exact ensures_pure _ _ ⟨none, rfl, fun h => by cases h⟩
  | some payload =>
    obtain ⟨digest, attempts⟩ := payload
    dsimp only
    split
    · apply ensures_bind
      apply ensures_invoke trivial
      intro _
      exact ensures_pure _ _ ⟨_, rfl, fun h => by cases h⟩
    · split
      · apply ensures_bind
        apply ensures_invoke trivial
        intro ttl
        apply ensures_bind
        apply ensures_invoke
        · exact Or.inr ⟨⟨digest, attempts⟩, rfl, rfl⟩
        · intro _
          exact ensures_pure _ _ ⟨_, rfl, fun h => by cases h⟩
      case isFalse hd =>
        apply ensures_bind
        apply ensures_invoke trivial
        intro _
        exact ensures_pure _ _ ⟨_, rfl, fun _ => ⟨_, rfl, not_not.mp hd⟩⟩

/-! ## Accounts -/

theorem rollback_allowed (session : ℕ) (g : Hand) :
    Ensures (protocol lib settings i q) (rollback session) g (fun g' _ => g' = g) :=
  ensures_invoke trivial (fun _ => rfl)

theorem ensures_hash (password : String) (g : Hand) :
    Ensures (protocol lib settings i q) (AuthService.hash password) g (fun g' _ => g' = g) :=
  ensures_invoke trivial (fun _ => rfl)

theorem ensures_createUser (email : Email) (h : Option Hash) (verified : Bool) (g : Hand)
    (hid : g.id = none) (hmade : g.made = none)
    (hv : verified = true → Vouched lib settings q g email) :
    Ensures (protocol lib settings i q) (createUser i email h verified) g
      (fun g' user => g'.made = some user ∧ user.passwordHash = h) := by
  have hat : Ensures (protocol lib settings i q) (emailVerifiedAt verified) g
      (fun g' at' => g' = g ∧ (at' ≠ none → verified = true)) := by
    unfold emailVerifiedAt
    split
    case isTrue ht =>
      apply ensures_map
      exact ensures_invoke trivial (fun _ => ⟨rfl, fun _ => ht⟩)
    case isFalse => exact ensures_pure _ _ ⟨rfl, fun hn => absurd rfl hn⟩
  apply ensures_bind
  apply ensures_mono _ hat
  rintro _ at' ⟨rfl, hat'⟩
  apply ensures_bind
  apply ensures_invoke hid
  intro id
  apply ensures_bind
  apply ensures_invoke
  · exact ⟨rfl, rfl, hmade, fun hn => hv (hat' hn)⟩
  · intro _
    exact ensures_pure _ _ ⟨rfl, rfl⟩

theorem ensures_commit (changes : List Change) (g : Hand) (hmade : g.made = none)
    (hj : ∀ change ∈ changes, Justified lib settings q g change) :
    Ensures (protocol lib settings i q) (commit i changes) g (fun g' _ => g' = g) := by
  apply ensures_invoke
  · refine ⟨rfl, ?_, hj⟩
    intro row hrow
    rw [hmade] at hrow
    cases hrow
  · exact fun _ => rfl

theorem ensures_emailTaken (f : FilterSettings) (email : Email) (g : Hand) :
    Ensures (protocol lib settings i q) (emailTaken f email) g
      (fun g' _ => g'.id = g.id ∧ g'.made = g.made) := by
  apply ensures_bind
  apply ensures_other (mightExist_within f email) (by decide)
  intro hit
  split
  · apply ensures_bind
    apply ensures_invoke trivial
    intro found
    exact ensures_pure _ _ ⟨rfl, rfl⟩
  · exact ensures_pure _ _ ⟨rfl, rfl⟩

theorem ensures_createAccount (f : FilterSettings) (email password : String) (g : Hand)
    (hid : g.id = none) (hmade : g.made = none) :
    Ensures (protocol lib settings i q) (createAccount lib settings f i email password) g
      (fun _ _ => True) := by
  apply ensures_bind
  apply ensures_mono _ (ensures_hash password g)
  rintro _ h rfl
  apply ensures_bind
  apply ensures_mono _ (ensures_createUser email (some h) false _ hid hmade (fun hv => by cases hv))
  rintro g₁ user ⟨hmade₁, hhash⟩
  apply ensures_bind
  apply ensures_other (remember_within f email) (by decide)
  intro _
  apply ensures_bind
  apply keeps_mono _ _ _ (keeps_sendCode email .verify g₁ (fun hp => by cases hp))
  rintro g₂ r hmade₂ _ -
  apply ensures_invoke
  · refine ⟨rfl, ?_, by simp⟩
    intro row hrow hnone
    rw [hmade₂, hmade₁] at hrow
    cases hrow
    rw [hhash] at hnone
    cases hnone
  · exact fun _ => trivial

theorem ensures_signup (f : FilterSettings) (email password : String) :
    Ensures (protocol lib settings i q) (signup lib settings f i email password) Hand.empty
      (fun _ _ => True) := by
  apply ensures_bind
  apply ensures_ofResult
  intro address _
  apply ensures_bind
  apply ensures_ofResult
  intro _ _
  apply ensures_bind
  apply ensures_mono _ (ensures_emailTaken f address Hand.empty)
  rintro g taken ⟨hid, hmade⟩
  split
  · exact ensures_throw _ _
  · apply ensures_tryCatch (ensures_createAccount f address password g hid hmade)
    intro e g'
    apply ensures_bind
    apply ensures_mono _ (rollback_allowed i g')
    rintro _ _ rfl
    split
    · apply ensures_bind
      exact ensures_other (remember_within f address) (by decide) (fun _ => ensures_throw _ _)
    · exact ensures_throw _ _

/-- A code is sent on request, a reset code only to an account with a password. -/
theorem ensures_askCode (purpose : Purpose) (due : User → Prop) [DecidablePred due]
    (hdue : ∀ user, due user → purpose = .reset → user.passwordHash ≠ none) (email : String) :
    Ensures (protocol lib settings i q) (askCode lib settings purpose due email) Hand.empty
      (fun _ _ => True) := by
  apply ensures_bind
  apply ensures_ofResult
  intro address _
  apply ensures_bind
  apply ensures_invoke trivial
  intro found
  cases found with
  | none => exact ensures_pure _ _ trivial
  | some user =>
    dsimp only
    split
    case isTrue h =>
      apply ensures_tryCatch _ (fun _ _ => ensures_pure _ _ trivial)
      exact keeps_mono _ _ (fun _ _ _ _ _ => trivial)
        (keeps_sendCode user.email purpose _ (fun hp => ⟨user, rfl, rfl, hdue user h hp⟩))
    case isFalse => exact ensures_pure _ _ trivial

theorem ensures_sendVerification (email : String) :
    Ensures (protocol lib settings i q) (sendVerification lib settings email) Hand.empty
      (fun _ _ => True) := by
  rw [sendVerification_eq]
  exact ensures_askCode .verify _ (fun _ _ hp => by cases hp) email

theorem ensures_forgotPassword (email : String) :
    Ensures (protocol lib settings i q) (forgotPassword lib settings email) Hand.empty
      (fun _ _ => True) := by
  rw [forgotPassword_eq]
  exact ensures_askCode .reset _ (fun _ h _ => h) email

theorem ensures_verifyEmail (email code : String) :
    Ensures (protocol lib settings i (.verifyEmail email code)) (verifyEmail lib i email code)
      Hand.empty (fun _ _ => True) := by
  apply ensures_bind
  apply ensures_ofResult
  intro address haddress
  apply ensures_bind
  apply ensures_invoke trivial
  intro found
  cases found with
  | none => exact ensures_throw _ _
  | some user =>
    apply ensures_bind
    apply ensures_mono _ (ensures_consumeCode user.email .verify code _)
    rintro _ accepted ⟨payload, rfl, hpayload⟩
    split
    case isTrue ha =>
      obtain ⟨p, rfl, hp⟩ := hpayload ha
      apply ensures_bind
      apply ensures_invoke trivial
      intro now
      apply ensures_mono (fun _ _ _ => trivial) (ensures_commit _ _ rfl _)
      intro change hchange
      rw [List.mem_singleton.mp hchange]
      exact ⟨user, address, rfl, rfl, rfl, Or.inr ⟨email, code, p, rfl, haddress, rfl, hp⟩⟩
    case isFalse => exact ensures_throw _ _

theorem ensures_replacePassword (user : UserId) (password : String) (g : Hand)
    (hmade : g.made = none) (hj : ∀ h, Justified lib settings q g (.passwordHash user h)) :
    Ensures (protocol lib settings i q)
      (do
        let h ← AuthService.hash password
        commit i [.passwordHash user h]
        revokeAll user) g (fun _ _ => True) := by
  apply ensures_bind
  apply ensures_mono _ (ensures_hash password g)
  rintro _ h rfl
  apply ensures_bind
  apply ensures_mono _ (ensures_commit [.passwordHash user h] _ hmade _)
  · intro g' _ _
    exact ensures_reading (revokeAll_within user) (by decide)
  · intro change hchange
    rw [List.mem_singleton.mp hchange]
    exact hj h

theorem ensures_resetPassword (email code password : String) :
    Ensures (protocol lib settings i q) (resetPassword lib i email code password) Hand.empty
      (fun _ _ => True) := by
  apply ensures_bind
  apply ensures_ofResult
  intro _ _
  apply ensures_bind
  apply ensures_ofResult
  intro address _
  apply ensures_bind
  apply ensures_invoke trivial
  intro found
  cases found with
  | none => exact ensures_throw _ _
  | some user =>
    apply ensures_bind
    apply ensures_mono _ (ensures_consumeCode user.email .reset code _)
    rintro _ accepted ⟨payload, rfl, hpayload⟩
    split
    case isTrue ha =>
      obtain ⟨p, rfl, -⟩ := hpayload ha
      exact ensures_replacePassword user.id password _ rfl
        (fun _ => ⟨user, rfl, rfl, Or.inr ⟨p, rfl⟩⟩)
    case isFalse => exact ensures_throw _ _

theorem ensures_changePassword (user : UserId) (current new : String) :
    Ensures (protocol lib settings i q) (changePassword lib i user current new) Hand.empty
      (fun _ _ => True) := by
  apply ensures_bind
  apply ensures_ofResult
  intro _ _
  apply ensures_bind
  apply ensures_bind
  apply ensures_invoke trivial
  intro found
  cases found with
  | none => exact ensures_throw _ _
  | some row =>
    apply ensures_pure
    split
    case isTrue hm =>
      apply ensures_replacePassword row.id new _ rfl
      intro _
      refine ⟨row, rfl, rfl, Or.inl fun hnone => ?_⟩
      rw [passwordMatches, hnone] at hm
      cases hm
    case isFalse => exact ensures_throw _ _

/-! ## Provider logins -/

theorem ensures_byEmail (email : Email) (g : Hand) :
    Ensures (protocol lib settings i q) (byEmail email) g
      (fun g' found => g'.asked = some email ∧ g'.found = found ∧ g'.id = g.id ∧
        g'.made = g.made ∧ g'.checked = g.checked) :=
  ensures_invoke trivial (fun _ => ⟨rfl, rfl, rfl, rfl, rfl⟩)

theorem ensures_identityUser (f : FilterSettings) (provider subject : String) (email : Email)
    (g : Hand) (hid : g.id = none) (hmade : g.made = none)
    (hv : ∀ g' : Hand, g'.checked = g.checked → Vouched lib settings q g' email) :
    Ensures (protocol lib settings i q) (identityUser f i provider subject email) g
      (fun _ _ => True) := by
  have hidentity : Ensures (protocol lib settings i q)
      (database (.byIdentity provider subject)) g (fun g' _ => g' = g) :=
    ensures_invoke trivial (fun _ => rfl)
  apply ensures_bind
  apply ensures_mono _ hidentity
  rintro _ identity rfl
  cases identity with
  | some identity => exact ensures_reading (requireUser_within identity.userId) (by decide)
  | none =>
    apply ensures_bind
    apply ensures_mono _ (ensures_byEmail email _)
    rintro g' found ⟨hasked, hfound, hid', hmade', hchecked⟩
    rw [hid] at hid'
    rw [hmade] at hmade'
    cases found with
    | none =>
      apply ensures_bind
      apply ensures_mono _
        (ensures_createUser email none true _ hid' hmade' (fun _ => hv _ hchecked))
      rintro g₁ user ⟨hmade₁, -⟩
      apply ensures_bind
      apply ensures_other (remember_within f email) (by decide)
      intro _
      apply ensures_bind
      apply ensures_invoke
      · refine ⟨rfl, ?_, by simp [Justified]⟩
        intro row hrow _
        rw [hmade₁] at hrow
        cases hrow
        exact ⟨provider, subject, List.mem_singleton.mpr rfl⟩
      · intro _
        exact ensures_pure _ _ trivial
    | some user =>
      have link : ∀ changes g', g'.made = none →
          (∀ change ∈ changes, Justified lib settings q g' change) → ∀ row : User,
          Ensures (protocol lib settings i q) (commit i changes >>= fun _ => pure row) g'
            (fun _ _ => True) :=
        fun changes g' hm hj row => ensures_bind (ensures_mono
          (fun _ _ _ => ensures_pure _ _ trivial) (ensures_commit changes g' hm hj))
      dsimp only
      split
      · have hnow : ∀ g, Ensures (protocol lib settings i q) utcnow g (fun g' _ => g' = g) :=
          fun g => ensures_invoke trivial (fun _ => rfl)
        apply ensures_bind
        apply ensures_mono _ (hnow _)
        rintro _ now rfl
        apply link _ _ hmade'
        intro change hchange
        rcases List.mem_cons.mp hchange with rfl | hchange
        · exact ⟨user, email, hfound, hasked, rfl, Or.inl (hv _ hchecked)⟩
        · rw [List.mem_singleton.mp hchange]
          trivial
      · apply link _ _ hmade'
        intro change hchange
        rw [List.mem_singleton.mp hchange]
        trivial

theorem ensures_oauthLogin (f : FilterSettings) (provider idToken nonce : String) :
    Ensures (protocol lib settings i (.oauthLogin f provider idToken nonce))
      (oauthLogin lib settings f i provider idToken nonce) Hand.empty (fun _ _ => True) := by
  apply ensures_bind
  apply ensures_invoke trivial
  intro spent
  split
  · exact ensures_throw _ _
  · apply ensures_bind
    apply ensures_ofResult
    intro config hconfig
    apply ensures_bind
    apply ensures_mono _ (Challenges.ensures_verifiedClaims config idToken nonce _ trivial)
    rintro _ claims ⟨rfl, hnonce, hissuer⟩
    apply ensures_bind
    apply ensures_ofResult
    intro email hemail
    split
    case isTrue => exact ensures_throw _ _
    case isFalse hverified =>
      have hv : provider ≠ "microsoft" → claims.emailVerified = true := by
        intro hp
        by_contra hn
        exact hverified (Or.inr ⟨hp, by simpa using hn⟩)
      apply ensures_bind
      apply ensures_mono _ (ensures_identityUser f provider claims.subject email _ rfl rfl _)
      · intro g user _
        exact ensures_reading (grant_within lib settings user none) (by decide)
      · intro g' hchecked
        exact ⟨f, provider, idToken, nonce, config, claims, rfl, hchecked, hconfig, hissuer, hnonce,
          hemail, hv⟩

/-! ## Every request -/

theorem ensures_handled (q : Request) :
    Ensures (protocol lib settings i q) (handled lib settings i q) Hand.empty
      (fun _ _ => True) := by
  have status : ∀ {p : Act Unit} (a : Answer),
      Ensures (protocol lib settings i q) p Hand.empty (fun _ _ => True) →
      Ensures (protocol lib settings i q) (p >>= fun _ => pure a) Hand.empty (fun _ _ => True) :=
    fun a hp => ensures_bind (ensures_mono (fun _ _ _ => ensures_pure _ _ trivial) hp)
  have throttled : ∀ client scope limit {p : Act Answer},
      Ensures (protocol lib settings i q) p Hand.empty (fun _ _ => True) →
      Ensures (protocol lib settings i q)
        (throttle lib settings client scope limit >>= fun _ => p) Hand.empty (fun _ _ => True) :=
    fun client scope limit _ hp => ensures_bind (ensures_other
      (throttle_within lib settings client scope limit) (by decide) (fun _ => hp))
  have reading : footprint q ⊆ .database :: otherParts →
      Ensures (protocol lib settings i q) (handled lib settings i q) Hand.empty
        (fun _ _ => True) :=
    fun h => ensures_reading (handled_within lib settings i q) h
  cases q with
  | signup f email password client =>
    exact throttled _ _ _ (status _ (ensures_signup f email password))
  | verifyEmail email code => exact status _ (ensures_verifyEmail email code)
  | resendVerification email => exact status _ (ensures_sendVerification email)
  | forgotPassword email client => exact throttled _ _ _ (status _ (ensures_forgotPassword email))
  | resetPassword email code password => exact status _ (ensures_resetPassword email code password)
  | changePassword user current new => exact status _ (ensures_changePassword user current new)
  | oauthLogin f provider idToken nonce =>
    exact ensures_map (ensures_mono (fun _ _ _ => trivial)
      (ensures_oauthLogin f provider idToken nonce))
  | _ =>
    apply reading
    simp only [footprint]
    decide

theorem ensures_serve (q : Request) :
    Ensures (protocol lib settings i q) (serve lib settings i q) Hand.empty (fun _ _ => True) := by
  apply ensures_bind
  apply ensures_mono _ (ensures_tryCatch (ensures_handled q) _)
  · intro g answer _
    apply ensures_bind
    exact ensures_mono (fun _ _ _ => ensures_pure _ _ trivial) (rollback_allowed i g)
  · intro e g
    apply ensures_bind
    exact ensures_mono (fun _ _ _ => ensures_throw _ _) (rollback_allowed i g)

theorem obeys (lib : Libraries) (settings : Settings) :
    Obeys (service lib settings) (contract lib settings) where
  program := fun i q => keeps_mono _ _ (fun _ _ _ => trivial) (ensures_serve q)
  cancelled := by
    intro i q p hp g
    cases q with
    | warm f =>
      cases hp
      trivial
    | _ => cases hp

end Gamely.AccountContract
