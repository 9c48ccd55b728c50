import Gamely.HttpRefinement
import Gamely.Trusting

/-!
# What a response can say

An error that reaches a client is one of a fixed list of texts: no text of a driver's
exception, no value of a request and nothing of the stores is in it. Every response carries
the identifier of its request and the security headers, and no error sets a cookie.
-/

set_option autoImplicit false

namespace Gamely.HttpResponses
open Gamely.Calls Gamely.Stores Gamely.EmailJobs Gamely.Services Gamely.TokenService
open Gamely.EmailFilter Gamely.AuthService Gamely.OAuthService Gamely.Requests
open Gamely.HttpMessages Gamely.Interleaving Gamely.Relying Gamely.Trusting

/-! ## The texts -/

def badRequests : List String :=
  ["A valid email address is required.",
   "Passwords must be at least 12 characters long.",
   "Please wait before requesting another code.",
   "The verification code is invalid or expired.",
   "The reset code is invalid or expired.",
   "The OAuth provider is unsupported.",
   "The OAuth provider is not configured.",
   "The google OAuth provider is not configured.",
   "The apple OAuth provider is not configured.",
   "The microsoft OAuth provider is not configured."]

def unauthorized : List String :=
  ["Authentication is required to access this resource.",
   "The access token is invalid or expired.",
   "A refresh token is required.",
   "The refresh token is invalid or expired.",
   "The refresh token has already been used.",
   "The email address or password is incorrect.",
   "The current password is incorrect.",
   "The OAuth challenge is invalid or expired.",
   "The provider token is invalid.",
   "The provider token could not be verified.",
   "The provider did not supply a verified email address.",
   "The provider did not supply a valid email address."]

/-- The errors the service shows, each with the texts it can come with. -/
def Spoken : Failure → Prop
  | .badRequest message => message ∈ badRequests
  | .unauthorized message => message ∈ unauthorized
  | .conflict message => message = "An account already exists for this email address."
  | .tooManyRequests message => message = "Too many requests. Please try again later."
  | .serviceUnavailable message => message = "The service is temporarily unavailable."
  | _ => True

variable {lib : Libraries} {settings : Settings} {A : Type}

abbrev Speaks (p : Act A) : Prop := Raises Spoken p

/-! ## Tokens -/

theorem speaks_issueAccess (user : UserId) (email : Email) (verified : Bool) :
    Speaks (issueAccess lib settings user email verified) :=
  raises_bind (raises_invoke _) (fun _ => raises_pure _)

theorem speaks_decodeAccess (value : String) : Speaks (decodeAccess lib settings value) := by
  refine raises_bind (raises_invoke _) (fun now => ?_)
  have refused : Spoken (.unauthorized "The access token is invalid or expired.") := by
    simp [Spoken, unauthorized]
  rcases lib.decodeJwt value with _ | claims
  · exact raises_throw refused
  · dsimp only
    split
    · exact raises_pure _
    · exact raises_throw refused

theorem speaks_familyId (family? : Option FamilyId) : Speaks (familyId family?) := by
  cases family? with
  | some family => exact raises_pure family
  | none => exact raises_invoke _

theorem speaks_issueRefresh (user : UserId) (family? : Option FamilyId) :
    Speaks (issueRefresh lib settings user family?) :=
  raises_bind (raises_invoke _) (fun _ => raises_bind (speaks_familyId family?)
    (fun _ => raises_bind (raises_invoke _) (fun _ => raises_pure _)))

theorem speaks_revokeFamily (session : Session) : Speaks (revokeFamily session) :=
  raises_bind (raises_invoke _) (fun _ => raises_invoke _)

theorem speaks_rotateRefresh (value : Token) : Speaks (rotateRefresh lib settings value) := by
  refine raises_bind (raises_invoke _) (fun reply => ?_)
  cases reply with
  | missing => exact raises_throw (by simp [Spoken, unauthorized])
  | rotated session => exact raises_pure session
  | reused session =>
    exact raises_bind (speaks_revokeFamily session)
      (fun _ => raises_throw (by simp [Spoken, unauthorized]))

theorem speaks_revokeRefresh (value : Token) : Speaks (revokeRefresh lib value) := by
  refine raises_bind (raises_invoke _) (fun found => ?_)
  cases found with
  | none => exact raises_pure ()
  | some session => exact speaks_revokeFamily session

theorem speaks_revokeAll (user : UserId) : Speaks (revokeAll user) :=
  raises_bind (raises_invoke _) (fun _ => raises_bind (raises_invoke _)
    (fun families => raises_bind
      (raises_forM families _ (fun family => speaks_revokeFamily ⟨user, family⟩))
      (fun _ => raises_invoke _)))

/-! ## The filter -/

theorem speaks_mightExist (f : FilterSettings) (email : Email) : Speaks (mightExist f email) := by
  unfold mightExist
  split
  · exact raises_pure true
  · refine raises_tryCatch (raises_bind ?_ (fun _ => raises_pure _)) (fun _ _ => raises_pure _)
    exact raises_bind (raises_invoke _) (fun _ => raises_bind (raises_invoke _)
      (fun _ => raises_pure _))

theorem speaks_addMany (f : FilterSettings) (items : List String) : Speaks (addMany f items) := by
  unfold addMany
  split
  · exact raises_pure 0
  · exact raises_bind (raises_invoke _) (fun _ => raises_pure _)

theorem speaks_remember (f : FilterSettings) (email : Email) : Speaks (remember f email) := by
  unfold remember
  split
  · exact raises_pure ()
  · refine raises_tryCatch (raises_bind ?_ (fun _ => raises_pure ())) (fun _ _ => ?_)
    · exact raises_bind (speaks_addMany f [email]) (fun _ => raises_pure _)
    · exact raises_tryCatch (raises_invoke _) (fun _ _ => raises_pure ())

theorem speaks_throttle (client scope : String) (limit : ℕ) :
    Speaks (throttle lib settings client scope limit) := by
  refine raises_bind (raises_tryCatch (raises_invoke _) (fun _ _ => raises_throw rfl))
    (fun hits => ?_)
  split
  · exact raises_throw rfl
  · exact raises_pure ()

/-! ## Codes -/

theorem speaks_normalizeEmail (value : String) : Speaks (ofResult (normalizeEmail lib value)) := by
  refine raises_ofResult (fun e he => ?_)
  simp only [normalizeEmail] at he
  split at he
  · cases he
    simp [Spoken, badRequests]
  · cases he

theorem speaks_checkPassword (value : String) : Speaks (ofResult (checkPassword value)) := by
  refine raises_ofResult (fun e he => ?_)
  simp only [checkPassword] at he
  split at he
  · cases he
    simp [Spoken, badRequests]
  · cases he

/-- What is wrong with a job is not shown to clients. -/
theorem speaks_job (j : JobFields) : Speaks (ofResult (EmailJob.make j)) := by
  refine raises_ofResult (fun e he => ?_)
  unfold EmailJob.make at he
  split at he
  · cases he
  · cases he
    rename_i hbad
    unfold postInit at hbad
    split_ifs at hbad <;> cases hbad <;> trivial

theorem speaks_later (now minutes : ℕ) : Speaks (ofResult (later now minutes)) := by
  refine raises_ofResult (fun e he => ?_)
  unfold later at he
  split at he
  · cases he
  · cases he
    trivial

theorem speaks_deliverCode (key : CodeKey) (code : String) (expiresAt : DateTimes.DateTime) :
    Speaks (deliverCode lib settings key code expiresAt) :=
  raises_bind (raises_invoke _) (fun _ => raises_bind (speaks_job _) (fun _ => raises_invoke _))

theorem speaks_sendCode (email : Email) (purpose : Purpose) :
    Speaks (sendCode lib settings email purpose) := by
  refine raises_bind (raises_invoke _) (fun fresh => ?_)
  split
  · exact raises_throw (by simp [Spoken, badRequests])
  · refine raises_bind (raises_map (raises_invoke _)) (fun code => raises_bind (raises_invoke _)
      (fun now => raises_bind (speaks_later _ _) (fun expiresAt => ?_)))
    exact raises_tryCatch (speaks_deliverCode _ code expiresAt)
      (fun e he => raises_bind (raises_invoke _) (fun _ => raises_throw he))

theorem speaks_consumeCode (email : Email) (purpose : Purpose) (code : String) :
    Speaks (consumeCode lib email purpose code) := by
  refine raises_bind (raises_invoke _) (fun stored => ?_)
  rcases stored with _ | payload
  · exact raises_pure false
  · dsimp only
    split
    · exact raises_bind (raises_invoke _) (fun _ => raises_pure false)
    · split
      · exact raises_bind (raises_invoke _)
          (fun _ => raises_bind (raises_invoke _) (fun _ => raises_pure false))
      · exact raises_bind (raises_invoke _) (fun _ => raises_pure true)

theorem speaks_askCode (purpose : Purpose) (due : User → Prop) [DecidablePred due]
    (email : String) : Speaks (askCode lib settings purpose due email) := by
  refine raises_bind (speaks_normalizeEmail email) (fun address =>
    raises_bind (raises_invoke _) (fun found => ?_))
  rcases found with _ | user
  · exact raises_pure ()
  · dsimp only
    split
    · exact raises_tryCatch (speaks_sendCode _ purpose) (fun _ _ => raises_pure ())
    · exact raises_pure ()

theorem speaks_presentCode (purpose : Purpose) {message : String} (email code : String)
    {accepted : User → Act Unit} (hm : message ∈ badRequests) (h : ∀ user, Speaks (accepted user)) :
    Speaks (presentCode lib purpose message email code accepted) := by
  refine raises_bind (speaks_normalizeEmail email) (fun address =>
    raises_bind (raises_invoke _) (fun found => ?_))
  rcases found with _ | user
  · exact raises_throw hm
  · refine raises_bind (speaks_consumeCode _ purpose code) (fun valid => ?_)
    split
    · exact h user
    · exact raises_throw hm

/-! ## Accounts -/

theorem speaks_requireUser (user : UserId) : Speaks (requireUser user) := by
  refine raises_bind (raises_invoke _) (fun found => ?_)
  rcases found with _ | row
  · exact raises_throw (by simp [Spoken, unauthorized])
  · exact raises_pure row

theorem speaks_createUser (session : ℕ) (email : Email) (h : Option Hash) (verified : Bool) :
    Speaks (createUser session email h verified) := by
  refine raises_bind ?_ (fun verifiedAt => raises_bind (raises_invoke _)
    (fun id => raises_bind (raises_invoke _) (fun _ => raises_pure _)))
  unfold emailVerifiedAt
  split
  · exact raises_map (raises_invoke _)
  · exact raises_pure none

theorem speaks_emailTaken (f : FilterSettings) (email : Email) : Speaks (emailTaken f email) := by
  refine raises_bind (speaks_mightExist f email) (fun hit => ?_)
  split
  · exact raises_bind (raises_invoke _) (fun _ => raises_pure _)
  · exact raises_pure false

theorem speaks_createAccount (f : FilterSettings) (session : ℕ) (email password : String) :
    Speaks (createAccount lib settings f session email password) :=
  raises_bind (raises_invoke _) (fun _ => raises_bind (speaks_createUser _ _ _ _)
    (fun _ => raises_bind (speaks_remember f email)
      (fun _ => raises_bind (speaks_sendCode email .verify) (fun _ => raises_invoke _))))

theorem speaks_signup (f : FilterSettings) (session : ℕ) (email password : String) :
    Speaks (signup lib settings f session email password) := by
  refine raises_bind (speaks_normalizeEmail email) (fun address =>
    raises_bind (speaks_checkPassword password) (fun _ =>
      raises_bind (speaks_emailTaken f address) (fun taken => ?_)))
  split
  · exact raises_throw rfl
  · refine raises_tryCatch (speaks_createAccount f session address password) (fun e he => ?_)
    refine raises_bind (raises_invoke _) (fun _ => ?_)
    split
    · exact raises_bind (speaks_remember f address) (fun _ => raises_throw rfl)
    · exact raises_throw he

theorem speaks_grant (user : User) (family? : Option FamilyId) :
    Speaks (grant lib settings user family?) :=
  raises_bind (speaks_issueAccess _ _ _) (fun _ => raises_bind (speaks_issueRefresh _ _)
    (fun _ => raises_pure _))

theorem speaks_login (email password : String) : Speaks (login lib settings email password) := by
  have refused : Spoken (.unauthorized "The email address or password is incorrect.") := by
    simp [Spoken, unauthorized]
  refine raises_bind (speaks_normalizeEmail email) (fun address =>
    raises_bind (raises_invoke _) (fun found => ?_))
  rcases found with _ | user
  · exact raises_throw refused
  · dsimp only
    split
    · exact speaks_grant user none
    · exact raises_throw refused

theorem speaks_verifyEmail (session : ℕ) (email code : String) :
    Speaks (verifyEmail lib session email code) := by
  rw [verifyEmail_eq]
  exact speaks_presentCode .verify email code (by simp [badRequests])
    (fun user => raises_bind (raises_invoke _) (fun now => raises_invoke _))

theorem speaks_resetPassword (session : ℕ) (email code password : String) :
    Speaks (resetPassword lib session email code password) := by
  rw [resetPassword_eq]
  refine raises_bind (speaks_checkPassword password) (fun _ => ?_)
  exact speaks_presentCode .reset email code (by simp [badRequests])
    (fun user => raises_bind (raises_invoke _) (fun h => raises_bind (raises_invoke _)
      (fun _ => speaks_revokeAll user.id)))

theorem speaks_changePassword (session : ℕ) (user : UserId) (current new : String) :
    Speaks (changePassword lib session user current new) := by
  refine raises_bind (speaks_checkPassword new) (fun _ =>
    raises_bind (speaks_requireUser user) (fun row => ?_))
  split
  · exact raises_bind (raises_invoke _) (fun h => raises_bind (raises_invoke _)
      (fun _ => speaks_revokeAll row.id))
  · exact raises_throw (by simp [Spoken, unauthorized])

theorem speaks_refresh (value : Token) : Speaks (refresh lib settings value) :=
  raises_bind (speaks_rotateRefresh value) (fun session =>
    raises_bind (speaks_requireUser session.user) (fun user => speaks_grant user _))

/-! ## Provider logins -/

theorem speaks_providerConfig (provider : String) :
    Speaks (ofResult (providerConfig settings provider)) := by
  refine raises_ofResult (fun e he => ?_)
  simp only [providerConfig, configured] at he
  split_ifs at he with h₁ h₂ h₃ h₄ h₅ h₆ h₇ <;> cases he <;> simp_all [Spoken, badRequests]

theorem speaks_oauthEmailAddress (value : String) :
    Speaks (ofResult (oauthEmailAddress lib value)) := by
  refine raises_ofResult (fun e he => ?_)
  simp only [oauthEmailAddress] at he
  split at he
  · cases he
    simp [Spoken, unauthorized]
  · cases he

theorem speaks_compareDigest (a b : String) : Speaks (ofResult (compareDigest a b)) := by
  refine raises_ofResult (fun e he => ?_)
  unfold compareDigest at he
  split at he
  · cases he
  · cases he
    trivial

theorem speaks_verifiedClaims (config : ProviderConfig) (idToken nonce : String) :
    Speaks (verifiedClaims config idToken nonce) := by
  have invalid : Spoken (.unauthorized "The provider token is invalid.") := by
    simp [Spoken, unauthorized]
  have unverified : Spoken (.unauthorized "The provider token could not be verified.") := by
    simp [Spoken, unauthorized]
  refine raises_bind (raises_tryCatch (raises_invoke _) (fun _ _ => raises_throw invalid))
    (fun decoded => ?_)
  rcases decoded with _ | claims
  · exact raises_throw invalid
  · dsimp only
    split
    · exact raises_throw unverified
    · refine raises_bind (speaks_compareDigest _ _) (fun same => ?_)
      split
      · exact raises_throw unverified
      · exact raises_pure claims

theorem speaks_identityUser (f : FilterSettings) (session : ℕ) (provider subject : String)
    (email : Email) : Speaks (identityUser f session provider subject email) := by
  refine raises_bind (raises_invoke _) (fun identity => ?_)
  rcases identity with _ | identity
  · refine raises_bind (raises_invoke _) (fun found => ?_)
    rcases found with _ | user
    · exact raises_bind (speaks_createUser _ _ _ _) (fun user =>
        raises_bind (speaks_remember f email) (fun _ =>
          raises_bind (raises_invoke _) (fun _ => raises_pure user)))
    · dsimp only
      split
      · exact raises_bind (raises_invoke _) (fun now =>
          raises_bind (raises_invoke _) (fun _ => raises_pure _))
      · exact raises_bind (raises_invoke _) (fun _ => raises_pure user)
  · exact speaks_requireUser identity.userId

theorem speaks_oauthLogin (f : FilterSettings) (session : ℕ) (provider idToken nonce : String) :
    Speaks (oauthLogin lib settings f session provider idToken nonce) := by
  refine raises_bind (raises_invoke _) (fun spent => ?_)
  split
  · exact raises_throw (by simp [Spoken, unauthorized])
  · refine raises_bind (speaks_providerConfig provider) (fun config =>
      raises_bind (speaks_verifiedClaims config idToken nonce) (fun claims =>
        raises_bind (speaks_oauthEmailAddress _) (fun email => ?_)))
    split
    · exact raises_throw (by simp [Spoken, unauthorized])
    · exact raises_bind (speaks_identityUser f session _ _ email)
        (fun user => speaks_grant user none)

theorem speaks_createChallenge (provider : String) : Speaks (createChallenge settings provider) :=
  raises_bind (speaks_providerConfig provider) (fun _ => raises_bind (raises_invoke _)
    (fun _ => raises_bind (raises_invoke _) (fun _ => raises_pure _)))

/-! ## Requests -/

theorem speaks_handled (session : ℕ) (q : Request) (h : ∀ f, q ≠ .warm f) :
    Speaks (handled lib settings session q) := by
  cases q with
  | warm f => exact absurd rfl (h f)
  | emailAvailable f email client =>
    refine raises_map (raises_bind (speaks_throttle _ _ _) (fun _ =>
      raises_bind (speaks_normalizeEmail email) (fun address =>
        raises_bind (speaks_mightExist f address) (fun hit => ?_))))
    split
    · exact raises_bind (raises_invoke _) (fun _ => raises_pure _)
    · exact raises_pure true
  | signup f email password client =>
    exact raises_bind (speaks_throttle _ _ _) (fun _ =>
      raises_bind (speaks_signup f session email password) (fun _ => raises_pure _))
  | login email password => exact raises_map (speaks_login email password)
  | verifyEmail email code =>
    exact raises_bind (speaks_verifyEmail session email code) (fun _ => raises_pure _)
  | resendVerification email =>
    refine raises_bind ?_ (fun _ => raises_pure _)
    rw [sendVerification_eq]
    exact speaks_askCode _ _ email
  | forgotPassword email client =>
    refine raises_bind (speaks_throttle _ _ _) (fun _ => raises_bind ?_ (fun _ => raises_pure _))
    rw [forgotPassword_eq]
    exact speaks_askCode _ _ email
  | resetPassword email code password =>
    exact raises_bind (speaks_resetPassword session email code password) (fun _ => raises_pure _)
  | changePassword user current new =>
    exact raises_bind (speaks_changePassword session user current new) (fun _ => raises_pure _)
  | refresh value => exact raises_map (speaks_refresh value)
  | logout value =>
    simp only [handled]
    split
    · exact raises_pure _
    · exact raises_bind (speaks_revokeRefresh value) (fun _ => raises_pure _)
  | logoutAll user => exact raises_bind (speaks_revokeAll user) (fun _ => raises_pure _)
  | oauthChallenge provider => exact raises_map (speaks_createChallenge provider)
  | oauthLogin f provider idToken nonce =>
    exact raises_map (speaks_oauthLogin f session provider idToken nonce)

/-! ## Exchanges -/

section
open Gamely.AuthController Gamely.HttpRefinement Gamely.Mirroring Gamely.Pasts Gamely.Replays

variable {http : HttpSettings} {digit : Char → Bool}

/-- The service's own errors, and the framework's for a request it can not route or read. -/
def Announced (r : HttpRequest) (p : Problem) : Prop :=
  (∃ e, Spoken e ∧ p = problem e) ∨ p = validationProblem ∨
    ∃ error, r.route = .unmatched error ∧ p = httpProblem error

theorem status_of_announced {r : HttpRequest} {p : Problem} (h : Announced r p) :
    400 ≤ p.status := by
  rcases h with ⟨e, -, rfl⟩ | rfl | ⟨error, -, rfl⟩
  · cases e <;> simp [problem]
  · simp [validationProblem]
  · exact error.error

/-- The readiness probe of a replica that misses one of its services, in its own words. -/
def unavailable : Response := ⟨503, [], [], some (.status "unavailable")⟩

/-- A response before the middlewares have it. -/
inductive Made (r : HttpRequest) : Response → Prop
  | failed (p : Problem) (announced : Announced r p) : Made r (errorResponse p)
  | unready (probe : r.route = .readiness false) : Made r unavailable
  | succeeded (response : Response) (status : response.status ∈ [200, 202, 204])
      (content : ∀ code message, response.content ≠ some (.error code message))
      (headers : response.headers = [] ∨ response.headers = [("cache-control", "no-store")]) :
      Made r response

theorem made_failed {r : HttpRequest} {e : Failure} (h : Spoken e) :
    Made r (errorResponse (problem e)) := .failed _ (Or.inl ⟨e, h, rfl⟩)

theorem status_mem (call : Call digit) : call.status ∈ [200, 202, 204] := by
  cases call <;> simp [Call.status]

theorem made_respond (r : HttpRequest) (call : Call digit) (o : Outcome)
    (content : ∀ code message, o.content ≠ some (.error code message))
    (headers : o.headers = [] ∨ o.headers = [("cache-control", "no-store")]) :
    Made r (respond digit call o) :=
  .succeeded _ (status_mem call) content headers

theorem made_outcome (r : HttpRequest) (call : Call digit) (a : Answer) :
    Made r (respond digit call (outcome settings http call a)) := by
  apply made_respond
  · intro code message h
    cases a <;> cases call <;> cases h
  · cases a <;> cases call <;> simp [outcome, tokenResponse]

/-- The service of an endpoint, its errors shown. -/
abbrev Answers (r : HttpRequest) (p : Act (Option Response)) : Prop :=
  Relies (kind (fun _ => True)) (fun _ _ reply => ∀ e, reply = .error e → Spoken e) p ()
    (fun _ result => ∀ response, result = .ok (some response) →
      ∃ inner, Made r inner ∧ response = outgoing r inner)

theorem requestOf_ne_warm (f : FilterSettings) (call : Call digit) (g : FilterSettings) :
    requestOf f call ≠ .warm g := by
  cases call <;> simp [requestOf]

theorem speaks_endpoint (r : HttpRequest) (session : ℕ) (call : Call digit) :
    Relies (kind (fun _ => True)) (fun _ _ reply => ∀ e, reply = .error e → Spoken e)
      (respond digit call <$> endpoint lib settings http r.filter session call) ()
      (fun _ result => (∀ e, result = .error e → Spoken e) ∧
        ∀ response, result = .ok response → Made r response) := by
  by_cases h : ∃ user, call = .me user
  · obtain ⟨user, rfl⟩ := h
    refine relies_map (relies_bind (relies_mono (fun _ result hr => ?_) (speaks_requireUser user)))
    cases result with
    | error e =>
      constructor
      · rintro _ ⟨⟩
        exact hr e rfl
      · rintro _ ⟨⟩
    | ok row =>
      constructor
      · rintro _ ⟨⟩
      · rintro _ ⟨⟩
        exact made_respond r _ _ (fun _ _ h => nomatch h) (Or.inl rfl)
  · have hne : ∀ user, call ≠ .me user := fun user hc => h ⟨user, hc⟩
    rw [endpoint_eq r.filter session call hne]
    refine relies_map (relies_map (relies_mono (fun _ result hr => ?_)
      (speaks_handled session _ (requestOf_ne_warm r.filter call))))
    cases result with
    | error e =>
      constructor
      · rintro _ ⟨⟩
        exact hr e rfl
      · rintro _ ⟨⟩
    | ok a =>
      constructor
      · rintro _ ⟨⟩
      · rintro _ ⟨⟩
        exact made_outcome r call a

theorem answers_served (r : HttpRequest) (session : ℕ) (call : Call digit) :
    Answers r (some <$> served lib settings http digit session r call) := by
  refine relies_map (relies_bind (relies_tryCatch (relies_mono (fun g result hr => ?_)
    (speaks_endpoint r session call))))
  have mapped : ∀ inner, Made r inner → Relies (kind (fun _ => True))
      (fun _ _ reply => ∀ e, reply = .error e → Spoken e)
      (do
        AuthService.rollback session
        return outgoing r inner) g
      (fun _ result => ∀ response, result.map some = .ok (some response) →
        ∃ inner, Made r inner ∧ response = outgoing r inner) := by
    intro inner hmade
    refine relies_bind (relies_invoke trivial (fun reply _ => ?_))
    cases reply with
    | error e =>
      rintro _ ⟨⟩
    | ok _ =>
      rintro _ ⟨⟩
      exact ⟨inner, hmade, rfl⟩
  cases result with
  | ok response => exact mapped response (hr.2 response rfl)
  | error e => exact mapped _ (made_failed (hr.1 e rfl))

theorem announced_parsed {T : Type} {parse : Body → Option T} {r : HttpRequest}
    {intend : T → Except Problem (Intent digit)} {p : Problem}
    (h : parsed digit parse r intend = .error p)
    (hintend : ∀ body, intend body = .error p → Announced r p) : Announced r p := by
  unfold parsed at h
  split at h
  case h_1 body _ => exact hintend body h
  case h_2 =>
    cases h
    exact Or.inr (Or.inl rfl)

theorem announced_client {r : HttpRequest} {intend : String → Intent digit} {p : Problem}
    (h : (do
      let client ← AuthController.clientAddress r
      return intend client) = Except.error p) : Announced r p := by
  unfold AuthController.clientAddress at h
  split at h
  · cases h
  · cases h
    exact Or.inl ⟨.valueError "", trivial, rfl⟩

theorem announced_intent {r : HttpRequest} {p : Problem}
    (h : intent http digit r = .error p) : Announced r p := by
  unfold intent at h
  split at h
  case h_1 | h_2 | h_6 => exact announced_parsed h (fun _ hc => announced_client hc)
  case h_3 | h_4 | h_5 | h_7 | h_8 | h_14 => exact announced_parsed h (fun _ hc => nomatch hc)
  case h_9 =>
    have required : Announced r (problem (.unauthorized "A refresh token is required.")) :=
      Or.inl ⟨.unauthorized _, by simp [Spoken, unauthorized], rfl⟩
    split at h
    · split at h
      · cases h
        exact required
      · cases h
    · cases h
      exact required
  case h_19 error hroute =>
    cases h
    exact Or.inr (Or.inr ⟨error, hroute, rfl⟩)
  all_goals cases h

theorem client_open {r : HttpRequest} {call : String → Call digit} {status : ℕ}
    {content : Content} :
    (do
      let client ← AuthController.clientAddress r
      return Intent.open (call client)) ≠ Except.ok (.fixed status content) := by
  unfold AuthController.clientAddress
  intro h
  split at h <;> cases h

theorem made_fixed {r : HttpRequest} {status : ℕ} {content : Content}
    (h : intent http digit r = .ok (.fixed status content)) :
    Made r ⟨status, [], [], some content⟩ := by
  have well : ∀ content : Content, (∀ code message, content ≠ .error code message) →
      Made r ⟨200, [], [], some content⟩ := fun content hcontent =>
    .succeeded _ (by simp) (fun code message hc => hcontent code message (Option.some.inj hc))
      (Or.inl rfl)
  unfold intent at h
  split at h <;> rename_i hroute
  case h_1 | h_2 | h_6 =>
    obtain ⟨body, -, hbody⟩ := parsed_ok h
    exact absurd hbody client_open
  case h_3 | h_4 | h_5 | h_7 | h_8 | h_14 =>
    obtain ⟨body, -, hbody⟩ := parsed_ok h
    cases hbody
  case h_9 =>
    split at h
    · split at h <;> cases h
    · cases h
  case h_15 | h_16 | h_17 =>
    cases h
    exact well _ (fun _ _ hc => nomatch hc)
  case h_18 =>
    cases h
    exact .unready hroute
  all_goals cases h

theorem speaks_currentUser (headers : Headers) : Speaks (currentUser lib settings headers) := by
  unfold currentUser
  split
  · exact speaks_decodeAccess _
  · exact raises_throw (by simp [Spoken, unauthorized])

theorem answers_exchange (i : ℕ) (r : HttpRequest) :
    Answers r (some <$> exchange lib settings http digit i r) := by
  have shown : ∀ inner, Made r inner → Answers r (pure (some (outgoing r inner))) := by
    rintro inner hmade _ ⟨⟩
    exact ⟨inner, hmade, rfl⟩
  rcases hi : intent http digit r with p | ⟨status, content⟩ | call | call
  · simp only [exchange, admitted, hi]
    exact shown _ (.failed p (announced_intent hi))
  · simp only [exchange, admitted, hi]
    exact shown _ (made_fixed hi)
  · simp only [exchange, admitted, hi]
    exact answers_served r i call
  · simp only [exchange, admitted, hi, map_bind]
    refine relies_bind (relies_tryCatch (relies_bind (relies_mono (fun g result hr => ?_)
      (speaks_currentUser r.headers))))
    cases result with
    | ok user => exact answers_served r i (call user)
    | error e => exact shown _ (made_failed (hr e rfl))

/-! ## Runs -/

/-- A driver raises one error of its own kind, or says that a unique index was violated. -/
theorem perform_error {c : Command} {x : Choice} {w w' : World} {e : Failure}
    (h : perform lib c x w = some (.error e, w')) : e = .external ∨ e = .integrityError := by
  rcases perform_cases h with ⟨-, -, he, -⟩ | ⟨-, h⟩
  · cases he
    exact Or.inl rfl
  · right
    cases c with
    | tokenUrlsafe | uuid4 | randbelow =>
      simp only [answer] at h
      split at h <;> cases h
    | database c =>
      obtain ⟨⟨reply, db⟩, hc, heq⟩ := Option.map_eq_some_iff.mp h
      cases heq
      cases c with
      | createUser session row =>
        simp only [DatabaseCall.perform] at hc
        split at hc
        · cases hc
          rfl
        · split at hc <;> cases hc
      | commit session changes =>
        simp only [DatabaseCall.perform] at hc
        split at hc
        · cases hc
          rfl
        · cases hc
      | _ => cases hc
    | _ => cases h

variable (lib settings http digit) in
/-- Every thread of the server relies on the drivers to raise errors of their own only. -/
def speaking : Interleaving.Contract Command Reply Failure (Option Response) Arrival Unit where
  start := ()
  protocol := fun _ _ => kind (fun _ => True)
  post := fun a _ result => ∀ r response, a = .http r → result = .ok (some response) →
    ∃ inner, Made r inner ∧ response = outgoing r inner

abbrev quietly : ℕ → Arrival → Unit → (c : Command) → Except Failure (Reply c) → Prop :=
  fun _ _ _ _ reply => ∀ e, reply = .error e → Spoken e

theorem obeys_speaking : Obeys (server lib settings http digit) (reliance speaking quietly) := by
  apply obeys_reliance
  · rintro i (r | f)
    · refine relies_mono (fun _ result h => ?_) (answers_exchange i r)
      rintro r' response ⟨⟩ hresult
      exact h response hresult
    · refine relies_of_keeps _ _ (keeps_mono _ _ (fun _ _ _ => ?_) (only_any _))
      rintro r response ⟨⟩
  · rintro i (r | f) p hp g
    · cases hp
    · cases hp
      rintro r response ⟨⟩

theorem sustained_speaking : Sustained (server lib settings http digit) speaking quietly
    (fun _ _ => True) (fun _ _ => True) where
  call := by
    rintro s i x q c reply w hand - - - hp -
    refine ⟨?_, trivial⟩
    rintro e rfl
    rcases perform_error hp with rfl | rfl
    · trivial
    · trivial
  pass := fun _ _ _ _ _ => trivial

theorem header_outgoing {r : HttpRequest} {inner : Response} (h : Made r inner) :
    header "x-request-id" (outgoing r inner).headers =
        some (requestId (header "x-request-id" r.headers) r.generated) ∧
      header "x-content-type-options" (outgoing r inner).headers = some "nosniff" ∧
      header "x-frame-options" (outgoing r inner).headers = some "DENY" ∧
      header "referrer-policy" (outgoing r inner).headers =
        some "strict-origin-when-cross-origin" := by
  have hplain : inner.headers = [] ∨ inner.headers = [("cache-control", "no-store")] := by
    cases h with
    | failed | unready => exact Or.inl rfl
    | succeeded _ _ _ headers => exact headers
  rcases hplain with hp | hp <;>
    simp [outgoing, securityHeaders, httpLogging, hp, setHeader, setDefault, header]

/-- What every response to a request promises. -/
structure Safe (r : HttpRequest) (response : Response) : Prop where
  identified : header "x-request-id" response.headers =
    some (requestId (header "x-request-id" r.headers) r.generated)
  nosniff : header "x-content-type-options" response.headers = some "nosniff"
  frame : header "x-frame-options" response.headers = some "DENY"
  referrer : header "referrer-policy" response.headers = some "strict-origin-when-cross-origin"
  failed : ∀ code message, response.content = some (.error code message) →
    400 ≤ response.status ∧ response.cookies = [] ∧ Announced r ⟨response.status, code, message⟩
  succeeded : (∀ code message, response.content ≠ some (.error code message)) →
    response.status ∈ [200, 202, 204] ∨
      r.route = .readiness false ∧ response.status = 503 ∧ response.cookies = [] ∧
        response.content = some (.status "unavailable")

theorem safe_outgoing {r : HttpRequest} {inner : Response} (h : Made r inner) :
    Safe r (outgoing r inner) := by
  obtain ⟨identified, nosniff, frame, referrer⟩ := header_outgoing h
  refine ⟨identified, nosniff, frame, referrer, fun code message hcontent => ?_,
    fun hcontent => ?_⟩
  · cases h with
    | failed p announced =>
      cases hcontent
      exact ⟨status_of_announced announced, rfl, announced⟩
    | unready => cases hcontent
    | succeeded _ _ content _ => exact absurd hcontent (content code message)
  · cases h with
    | failed p announced => exact absurd rfl (hcontent p.code p.message)
    | unready probe => exact Or.inr ⟨probe, rfl, rfl, rfl⟩
    | succeeded _ status _ _ => exact Or.inl status

/-- Every response carries the identifier of its request and the security headers; an error
has an error status, sets no cookie and shows one of the service's texts, or the framework's
for a request it can not route or read. An exchange has no response only when its session
could not be closed, which leaves the client with the server's own error page. -/
theorem responses_safe (lib : Libraries) (settings : Settings) (http : HttpSettings)
    (digit : Char → Bool) (now : ℕ) (database : Database)
    (ls : List (Label Arrival Choice Passing)) (i : ℕ) (r : HttpRequest)
    (result : Except Failure (Option Response))
    (h : endedWith (run (server lib settings http digit) ls
      (initial (World.fresh now database))) i = some (.http r, result)) :
    (∃ response, result = .ok (some response) ∧ Safe r response) ∨
      ∃ before e, result = .error e ∧
        (calls (run (server lib settings http digit) ls
          (initial (World.fresh now database))).history i).map Step.of =
            before ++ [⟨.database (.rollback i), .error e⟩] := by
  obtain ⟨ms, -, hmirror⟩ := mirror_server lib settings http digit now database ls
  obtain ⟨rest, -, hends⟩ := ends_of_endedWith hmirror h
  have shown : ∀ response, result = .ok (some response) → Safe r response := by
    intro response hresult
    obtain ⟨inner, hmade, rfl⟩ := (reliance_run obeys_speaking sustained_speaking ls
      (World.fresh now database) trivial (meets_trivial ls _)).2 i _ _ h r response rfl hresult
    exact safe_outgoing hmade
  generalize (calls _ i).map Step.of = es at hends ⊢
  rcases result with e | _ | response
  · right
    cases hends with
    | stranded _ before => exact ⟨before, e, rfl, rfl⟩
  · cases hends
  · exact Or.inl ⟨response, rfl, shown response rfl⟩

/-- A login for an address nobody has, with the steps of its exchange. -/
def stranger : HttpRequest where
  route := .login
  headers := [("x-request-id", "first")]
  cookies := []
  client := some "10.0.0.1"
  body := some [("email", some "c@d"), ("password", some "some long password")]
  generated := "drawn"
  filter := withoutFilter

def plainHttp : HttpSettings where
  appName := "Games API"
  authRefreshCookieName := "games_refresh"
  authRefreshCookieDomain := none
  authRefreshCookiePath := "/auth"
  authRefreshCookieSecure := true
  authRefreshCookieSamesite := .lax

def strangerResponse : Response :=
  outgoing stranger
    (errorResponse (problem (.unauthorized "The email address or password is incorrect.")))

theorem responses_safe_stranger :
    header "x-request-id" strangerResponse.headers = some "first" ∧
      strangerResponse.cookies = [] ∧
      Announced stranger ⟨401, "unauthorized", "The email address or password is incorrect."⟩ := by
  rcases responses_safe plainLibraries plainSettings plainHttp Char.isDigit 0 oneAccount
    [.spawn (.http stranger), .run 0 {}, .run 0 {}] 0 stranger (.ok (some strangerResponse))
    rfl with
    ⟨response, hresult, hsafe⟩ | ⟨before, e, hresult, -⟩
  · obtain rfl := Option.some.inj (Except.ok.inj hresult)
    exact ⟨hsafe.identified, (hsafe.failed _ _ rfl).2⟩
  · cases hresult

end

end Gamely.HttpResponses
