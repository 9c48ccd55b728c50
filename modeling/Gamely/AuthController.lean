import Gamely.ClientAddress
import Gamely.HttpMessages

/-!
# The authentication controller

One HTTP exchange, from the routed request to the response behind the middlewares. What
the framework and the controller decide before the database session of the request is used
is told apart from the rest, since a session that was not used has nothing to roll back.
-/

set_option autoImplicit false

namespace Gamely.AuthController
open Gamely.Calls Gamely.Stores Gamely.EmailJobs Gamely.Services Gamely.TokenService
open Gamely.AuthService Gamely.OAuthService Gamely.Requests Gamely.HttpMessages

inductive SameSite where
  | lax
  | strict
  | none
  deriving DecidableEq, Repr

def SameSite.text : SameSite → String
  | .lax => "lax"
  | .strict => "strict"
  | .none => "none"

structure HttpSettings where
  appName : String
  authRefreshCookieName : String
  authRefreshCookieDomain : Option String
  authRefreshCookiePath : String
  authRefreshCookieSecure : Bool
  authRefreshCookieSamesite : SameSite

/-- The routes of `auth_controller` and `create_app`; `ready` says whether `services.ready()`
raised nothing. A request that matches none of them ends in an HTTP error of the framework.
What the framework answers by itself is left out: a preflight, which `CORSMiddleware` answers
outside the other middlewares, a redirect to a path with or without its last slash, and the
pages of its documentation. -/
inductive Route where
  | emailAvailable
  | signup
  | login
  | verifyEmail
  | resendVerification
  | forgotPassword
  | resetPassword
  | changePassword
  | refresh
  | logout
  | logoutAll
  | me
  | oauthChallenge (provider : String)
  | oauthLogin (provider : String)
  | root
  | liveness
  | readiness (ready : Bool)
  | unmatched (error : HttpError)
  deriving DecidableEq, Repr

/-- `body` is absent when it is not a JSON object; `generated` is the identifier the logging
middleware draws, `filter` the filter settings of the replica that answers. -/
structure HttpRequest where
  route : Route
  headers : Headers
  cookies : List (String × String)
  client : Option String
  body : Option Body
  generated : String
  filter : FilterSettings

/-- `request.cookies.get(name)`. -/
def HttpRequest.cookie (r : HttpRequest) (name : String) : Option String :=
  (r.cookies.find? (·.1 = name)).map Prod.snd

variable (lib : Libraries) (settings : Settings) (http : HttpSettings) (digit : Char → Bool)

/-! ## Endpoints -/

/-- An endpoint that is called, with the arguments it works on. -/
inductive Call (digit : Char → Bool) where
  | emailAvailable (body : EmailRequest) (client : String)
  | signup (body : CredentialsRequest) (client : String)
  | login (body : CredentialsRequest)
  | verifyEmail (body : VerifyEmailRequest digit)
  | resendVerification (body : EmailRequest)
  | forgotPassword (body : EmailRequest) (client : String)
  | resetPassword (body : ResetPasswordRequest digit)
  | changePassword (user : UserId) (body : ChangePasswordRequest)
  | refresh (value : Token)
  | logout (value : Token)
  | logoutAll (user : UserId)
  | me (user : UserId)
  | oauthChallenge (provider : String)
  | oauthLogin (provider : String) (body : OAuthTokenRequest)

/-- What an endpoint returns and writes to the response it is given. -/
structure Outcome where
  content : Option Content
  cookies : List Cookie := []
  headers : Headers := []

def setRefresh (value : Token) : Cookie where
  key := http.authRefreshCookieName
  value := value
  maxAge := settings.authRefreshTokenDays*86400
  domain := http.authRefreshCookieDomain
  path := http.authRefreshCookiePath
  secure := http.authRefreshCookieSecure
  httponly := true
  samesite := http.authRefreshCookieSamesite.text

/-- `_clear_refresh`, with the framework's defaults for what it leaves out. -/
def clearRefresh : Cookie where
  key := http.authRefreshCookieName
  value := ""
  maxAge := 0
  domain := http.authRefreshCookieDomain
  path := http.authRefreshCookiePath
  secure := false
  httponly := false
  samesite := "lax"

def tokenResponse (g : Grant) : Outcome where
  content := some (.token g.access "bearer")
  cookies := [setRefresh settings http g.refresh]

def emailAvailable (f : FilterSettings) (body : EmailRequest) (client : String) : Act Outcome := do
  let free ← isAvailable lib settings f body.email client
  return { content := some (.available free), headers := [("cache-control", "no-store")] }

def signup (f : FilterSettings) (session : ℕ) (body : CredentialsRequest) (client : String) :
    Act Outcome := do
  throttle lib settings client "signup" settings.authSignupLimit
  AuthService.signup lib settings f session body.email body.password
  return { content := some (.status "verification_sent") }

def login (body : CredentialsRequest) : Act Outcome := do
  let g ← AuthService.login lib settings body.email body.password
  return tokenResponse settings http g

def verifyEmail (session : ℕ) (body : VerifyEmailRequest digit) : Act Outcome := do
  AuthService.verifyEmail lib session body.email body.code
  return { content := some (.status "verified") }

def resendVerification (body : EmailRequest) : Act Outcome := do
  sendVerification lib settings body.email
  return { content := some (.status "verification_sent") }

def forgotPassword (body : EmailRequest) (client : String) : Act Outcome := do
  throttle lib settings client "forgot-password" settings.authSignupLimit
  AuthService.forgotPassword lib settings body.email
  return { content := some (.status "reset_sent") }

def resetPassword (session : ℕ) (body : ResetPasswordRequest digit) : Act Outcome := do
  AuthService.resetPassword lib session body.email body.code body.password
  return { content := some (.status "password_reset") }

def changePassword (session : ℕ) (user : UserId) (body : ChangePasswordRequest) :
    Act Outcome := do
  AuthService.changePassword lib session user body.currentPassword body.newPassword
  return { content := some (.status "password_changed"), cookies := [clearRefresh http] }

def refresh (value : Token) : Act Outcome := do
  let g ← AuthService.refresh lib settings value
  return tokenResponse settings http g

def logout (value : Token) : Act Outcome :=
  if value = "" then return { content := none, cookies := [clearRefresh http] }
  else do
    revokeRefresh lib value
    return { content := none, cookies := [clearRefresh http] }

def logoutAll (user : UserId) : Act Outcome := do
  revokeAll user
  return { content := none, cookies := [clearRefresh http] }

def me (user : UserId) : Act Outcome := do
  let user ← requireUser user
  return { content := some (.profile user.id user.email user.emailVerifiedAt.isSome) }

def oauthChallenge (provider : String) : Act Outcome := do
  let nonce ← createChallenge settings provider
  return { content := some (.nonce nonce) }

def oauthLogin (f : FilterSettings) (session : ℕ) (provider : String) (body : OAuthTokenRequest) :
    Act Outcome := do
  let g ← OAuthService.oauthLogin lib settings f session provider body.idToken body.nonce
  return tokenResponse settings http g

variable {digit}

def endpoint (f : FilterSettings) (session : ℕ) : Call digit → Act Outcome
  | .emailAvailable body client => emailAvailable lib settings f body client
  | .signup body client => signup lib settings f session body client
  | .login body => login lib settings http body
  | .verifyEmail body => verifyEmail lib digit session body
  | .resendVerification body => resendVerification lib settings body
  | .forgotPassword body client => forgotPassword lib settings body client
  | .resetPassword body => resetPassword lib digit session body
  | .changePassword user body => changePassword lib http session user body
  | .refresh value => refresh lib settings http value
  | .logout value => logout lib http value
  | .logoutAll user => logoutAll http user
  | .me user => me user
  | .oauthChallenge provider => oauthChallenge settings provider
  | .oauthLogin provider body => oauthLogin lib settings http f session provider body

/-- The status of the decorator, or the one the endpoint sets. -/
def Call.status : Call digit → ℕ
  | .signup .. | .resendVerification _ | .forgotPassword .. => 202
  | .logout _ | .logoutAll _ => 204
  | _ => 200

/-! ## What comes before the session -/

/-- `header.startswith("Bearer ")` and `header[7:]`. -/
def bearer (headers : Headers) : Option String :=
  let header := ((header "authorization" headers).getD "").toList
  if "Bearer ".toList.isPrefixOf header then some (String.ofList (header.drop 7)) else none

def currentUser (headers : Headers) : Act UserId :=
  match bearer headers with
  | some value => decodeAccess lib settings value
  | none => throw (.unauthorized "Authentication is required to access this resource.")

/-- What a routed request asks for: a fixed answer, an endpoint, or an endpoint for the user
of the access token. -/
inductive Intent (digit : Char → Bool) where
  | fixed (status : ℕ) (content : Content)
  | open (call : Call digit)
  | guarded (call : UserId → Call digit)

variable (digit)

/-- Validation of the body, then what the endpoint reads of the request. -/
def parsed {T : Type} (parse : Body → Option T) (r : HttpRequest)
    (intend : T → Except Problem (Intent digit)) : Except Problem (Intent digit) :=
  match r.body.bind parse with
  | some body => intend body
  | none => .error validationProblem

/-- `client_address(request)`, an exception of which is not one of the service's own. -/
def clientAddress (r : HttpRequest) : Except Problem String :=
  match ClientAddress.clientAddress r.client with
  | some client => .ok client
  | none => .error (problem (.valueError ""))

def intent (r : HttpRequest) : Except Problem (Intent digit) :=
  match r.route with
  | .emailAvailable => parsed digit EmailRequest.parse r (fun body => do
      let client ← clientAddress r
      return .open (.emailAvailable body client))
  | .signup => parsed digit CredentialsRequest.parse r (fun body => do
      let client ← clientAddress r
      return .open (.signup body client))
  | .login => parsed digit CredentialsRequest.parse r (fun body => .ok (.open (.login body)))
  | .verifyEmail => parsed digit (VerifyEmailRequest.parse digit) r
      (fun body => .ok (.open (.verifyEmail body)))
  | .resendVerification => parsed digit EmailRequest.parse r
      (fun body => .ok (.open (.resendVerification body)))
  | .forgotPassword => parsed digit EmailRequest.parse r (fun body => do
      let client ← clientAddress r
      return .open (.forgotPassword body client))
  | .resetPassword => parsed digit (ResetPasswordRequest.parse digit) r
      (fun body => .ok (.open (.resetPassword body)))
  | .changePassword => parsed digit ChangePasswordRequest.parse r
      (fun body => .ok (.guarded (fun user => .changePassword user body)))
  | .refresh => match r.cookie http.authRefreshCookieName with
    | some value =>
      if value = "" then .error (problem (.unauthorized "A refresh token is required."))
      else .ok (.open (.refresh value))
    | none => .error (problem (.unauthorized "A refresh token is required."))
  | .logout => .ok (.open (.logout ((r.cookie http.authRefreshCookieName).getD "")))
  | .logoutAll => .ok (.guarded .logoutAll)
  | .me => .ok (.guarded .me)
  | .oauthChallenge provider => .ok (.open (.oauthChallenge provider))
  | .oauthLogin provider => parsed digit OAuthTokenRequest.parse r
      (fun body => .ok (.open (.oauthLogin provider body)))
  | .root => .ok (.fixed 200 (.named http.appName "ok"))
  | .liveness => .ok (.fixed 200 (.status "ok"))
  | .readiness true => .ok (.fixed 200 (.status "ok"))
  | .readiness false => .ok (.fixed 503 (.status "unavailable"))
  | .unmatched error => .error (httpProblem error)

/-- The response, or the endpoint to call for it. -/
def admitted (r : HttpRequest) : Act (Response ⊕ Call digit) :=
  match intent http digit r with
  | .error p => return .inl (errorResponse p)
  | .ok (.fixed status content) => return .inl ⟨status, [], [], some content⟩
  | .ok (.open call) => return .inr call
  | .ok (.guarded call) => tryCatchThe Failure
    (do
      let user ← currentUser lib settings r.headers
      return .inr (call user))
    (fun e => return .inl (errorResponse (problem e)))

/-! ## An exchange -/

/-- The framework merges what the endpoint wrote into the response it makes. -/
def respond (call : Call digit) (o : Outcome) : Response :=
  ⟨call.status, o.headers, o.cookies, o.content⟩

/-- What the middlewares add to a response on its way out. -/
def outgoing (r : HttpRequest) (response : Response) : Response :=
  securityHeaders
    (httpLogging (requestId (header "x-request-id" r.headers) r.generated) response)

def served (session : ℕ) (r : HttpRequest) (call : Call digit) : Act Response := do
  let response ← tryCatchThe Failure
    (respond digit call <$> endpoint lib settings http r.filter session call)
    (fun e => return errorResponse (problem e))
  rollback session
  return outgoing r response

/-- A scope that cannot be closed leaves the request to the server's own error page. -/
def exchange (session : ℕ) (r : HttpRequest) : Act Response := do
  match ← admitted lib settings http digit r with
  | .inl response => return outgoing r response
  | .inr call => served lib settings http digit session r call

/-! ## The server -/

/-- A request arrives, or a replica starts and warms its filter. -/
inductive Arrival where
  | http (r : HttpRequest)
  | startup (f : FilterSettings)

def Arrival.program (session : ℕ) : Arrival → Act (Option Response)
  | .http r => some <$> exchange lib settings http digit session r
  | .startup f => (fun _ => none) <$> serve lib settings session (.warm f)

def Arrival.cancelled : Arrival → Option (Act (Option Response))
  | .http _ => none
  | .startup _ => some (pure none)

/-- All replicas behind their middlewares, over the stores of the service. -/
def server : Interleaving.System Command Reply Failure (Option Response) World Choice Arrival
    Passing where
  perform := perform lib
  program := Arrival.program lib settings http digit
  cancelled := Arrival.cancelled
  pass := passed

end Gamely.AuthController
