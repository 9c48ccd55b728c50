import Gamely.OAuthService

/-!
# Requests

Everything a client or the start of a replica can ask for, as one program each.
The service is the interleaving of any number of them, on any number of
replicas, over one Redis, one database and one broker.
-/

set_option autoImplicit false

namespace Gamely.Requests
open Gamely.Calls Gamely.Stores Gamely.EmailJobs Gamely.Services Gamely.TokenService
open Gamely.EmailFilter Gamely.AuthService Gamely.OAuthService

variable (lib : Libraries) (settings : Settings)

/-- `_digest` of a client address: the first 32 characters of the keyed digest. -/
def clientDigest (client : String) : String :=
  String.ofList ((lib.digest client).toList.take 32)

def throttle (client scope : String) (limit : ℕ) : Act Unit := do
  let hits : ℕ ← tryCatchThe Failure
    (invoke (Command.fixedWindow scope (clientDigest lib client)
      settings.authThrottleWindowSeconds))
    (fun _ => throw (.serviceUnavailable "The service is temporarily unavailable."))
  if limit < hits then
    throw (.tooManyRequests "Too many requests. Please try again later.")
  else return ()

def isAvailable (f : FilterSettings) (email client : String) : Act Bool := do
  throttle lib settings client "availability" settings.authAvailabilityLimit
  let address ← ofResult (normalizeEmail lib email)
  if ← mightExist f address then return (← byEmail address).isNone
  else return true

/-- What a client, or the start of a replica, can ask for. `logoutAll` and
`changePassword` name the user their access token was issued to. -/
inductive Request where
  | emailAvailable (f : FilterSettings) (email client : String)
  | signup (f : FilterSettings) (email password client : String)
  | login (email password : String)
  | verifyEmail (email code : String)
  | resendVerification (email : String)
  | forgotPassword (email client : String)
  | resetPassword (email code password : String)
  | changePassword (user : UserId) (current new : String)
  | refresh (value : Token)
  | logout (value : Token)
  | logoutAll (user : UserId)
  | oauthChallenge (provider : String)
  | oauthLogin (f : FilterSettings) (provider idToken nonce : String)
  | warm (f : FilterSettings)

inductive Answer where
  | available (free : Bool)
  | status (text : String)
  | granted (g : Grant)
  | nonce (value : String)
  | empty
  deriving DecidableEq, Repr

/-- The controller's part of a request; `session` is the number of its database
session. -/
def handled (session : ℕ) : Request → Act Answer
  | .emailAvailable f email client => .available <$> isAvailable lib settings f email client
  | .signup f email password client => do
    throttle lib settings client "signup" settings.authSignupLimit
    signup lib settings f session email password
    return .status "verification_sent"
  | .login email password => .granted <$> login lib settings email password
  | .verifyEmail email code => do
    verifyEmail lib session email code
    return .status "verified"
  | .resendVerification email => do
    sendVerification lib settings email
    return .status "verification_sent"
  | .forgotPassword email client => do
    throttle lib settings client "forgot-password" settings.authSignupLimit
    forgotPassword lib settings email
    return .status "reset_sent"
  | .resetPassword email code password => do
    resetPassword lib session email code password
    return .status "password_reset"
  | .changePassword user current new => do
    changePassword lib session user current new
    return .status "password_changed"
  | .refresh value => .granted <$> refresh lib settings value
  | .logout value =>
    if value = "" then return .empty
    else do
      revokeRefresh lib value
      return .empty
  | .logoutAll user => do
    revokeAll user
    return .empty
  | .oauthChallenge provider => .nonce <$> createChallenge settings provider
  | .oauthLogin f provider idToken nonce =>
    .granted <$> oauthLogin lib settings f session provider idToken nonce
  | .warm f => do
    warm lib f
    return .empty

/-- The request's scope closes its database session, which rolls back what was
not committed, however the request ended. -/
def serve (session : ℕ) (request : Request) : Act Answer := do
  let answer ← tryCatchThe Failure (handled lib settings session request)
    (fun e => do
      rollback session
      throw e)
  rollback session
  return answer

/-- `asyncio.wait_for` cancels a rebuild that overruns; the warmer then returns.
No other task is cancelled. -/
def cancelled : Request → Option (Act Answer)
  | .warm _ => some (pure .empty)
  | _ => none

/-- All replicas of the service over one Redis, one database and one broker. -/
def service : Interleaving.System Command Reply Failure Answer World Choice Request Passing where
  perform := perform lib
  program := serve lib settings
  cancelled := cancelled
  pass := passed

abbrev Occurrence := Interleaving.Event Command Reply Failure Request

abbrev Past := List Occurrence

abbrev Service := Interleaving.State Command Reply Failure Answer World Request

/-! ## A deployment to run requests on -/

def plainLibraries : Libraries where
  digest := id
  digest_injective := Function.injective_id
  sha256 := id
  hash := fun password _ => password
  verify := fun password h => password = h
  verify_hash := by simp
  strip := id
  lower := id
  filterDefaults := ⟨1024, 2, 1, 20⟩
  lower_strip := fun _ => rfl
  decodeIdToken := fun _ _ _ => none
  encodeJwt := fun claims => claims.sub
  decodeJwt := fun _ => none

def plainSettings : Settings where
  authRefreshTokenDays := 30
  authRefreshTokenDays_pos := by decide
  authAccessTokenMinutes := 15
  authCodeMinutes := 15
  authCodeMinutes_pos := by decide
  authJwtIssuer := "gamely"
  authJwtAudience := "gamely"
  authAvailabilityLimit := 20
  authSignupLimit := 5
  authThrottleWindowSeconds := 60
  googleClientId := "client"
  microsoftClientId := ""
  microsoftTenantId := ""
  appleClientId := ""

def withoutFilter : FilterSettings where
  enabled := false
  params := ⟨1024, 2, 1, 20⟩
  batchSize := 100
  batchSize_pos := by decide
  lockSeconds := 600
  rebuildTimeoutSeconds := 30

def withFilter : FilterSettings := { withoutFilter with enabled := true }

def oneAccount : Database := ⟨[⟨"user", "a@b", some "long password", none⟩], [], []⟩

/-- Calls of one thread in a row, each with the name it draws if it draws one. -/
def steps (thread : ℕ) (names : List String) : List (Interleaving.Label Request Choice Passing) :=
  names.map (fun name => .run thread { name := name })

/-- No call fails, no task is cancelled and no key goes away but by its TTL. -/
def faultless : Interleaving.Label Request Choice Passing → Bool
  | .spawn _ => true
  | .run _ x => !x.fail
  | .cancel _ => false
  | .pass (.elapse _) => true
  | .pass _ => false

def spawns (kind : Request → Bool) : Interleaving.Label Request Choice Passing → Bool
  | .spawn q => kind q
  | _ => true

end Gamely.Requests
