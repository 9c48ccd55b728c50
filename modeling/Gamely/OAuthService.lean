import Gamely.AuthService

/-!
# Provider logins

A provider login spends its challenge before anything else is looked at. The
signature check runs on the provider's keys and is a call of its own.
-/

set_option autoImplicit false

namespace Gamely.OAuthService
open Gamely.Calls Gamely.Stores Gamely.EmailJobs Gamely.Services Gamely.TokenService
open Gamely.EmailFilter Gamely.AuthService

variable (lib : Libraries) (settings : Settings)

structure ProviderConfig where
  clientId : String
  issuers : List String
  jwksUrl : String
  deriving DecidableEq, Repr

def configured (provider clientId : String) (issuers : List String) (jwksUrl : String) :
    Except Failure ProviderConfig :=
  if clientId = "" then
    .error (.badRequest ("The " ++ provider ++ " OAuth provider is not configured."))
  else .ok ⟨clientId, issuers, jwksUrl⟩

def providerConfig (provider : String) : Except Failure ProviderConfig :=
  if provider = "google" then
    configured provider settings.googleClientId
      ["https://accounts.google.com", "accounts.google.com"]
      "https://www.googleapis.com/oauth2/v3/certs"
  else if provider = "apple" then
    configured provider settings.appleClientId ["https://appleid.apple.com"]
      "https://appleid.apple.com/auth/keys"
  else if provider = "microsoft" then
    let tenant := settings.microsoftTenantId
    if tenant = "" then .error (.badRequest "The OAuth provider is not configured.")
    else configured provider settings.microsoftClientId
      ["https://login.microsoftonline.com/" ++ tenant ++ "/v2.0"]
      ("https://login.microsoftonline.com/" ++ tenant ++ "/discovery/v2.0/keys")
  else .error (.badRequest "The OAuth provider is unsupported.")

def createChallenge (provider : String) : Act String := do
  let _ ← ofResult (providerConfig settings provider)
  let nonce ← tokenUrlsafe
  invoke (Command.setNonce provider nonce 300)
  return nonce

/-- `secrets.compare_digest` on text refuses characters outside ASCII. -/
def compareDigest (a b : String) : Except Failure Bool :=
  if a.toList.all (fun c => c.toNat < 128) && b.toList.all (fun c => c.toNat < 128) then
    .ok (a = b)
  else .error (.typeError "comparing strings with non-ASCII characters is not supported")

def oauthEmailAddress (value : String) : Except Failure Email :=
  let email := lib.lower (lib.strip value)
  if '@' ∉ email.toList ∨ 320 < email.length then
    .error (.unauthorized "The provider did not supply a valid email address.")
  else .ok email

/-- Microsoft may leave `email` out; an empty text counts as left out. -/
def emailClaim (provider : String) (claims : IdClaims) : String :=
  if provider = "microsoft" ∧ claims.email = "" then claims.preferredUsername else claims.email

/-- The user of a verified identity: the linked account, the account of the
address, or a new one. -/
def identityUser (f : FilterSettings) (session : ℕ) (provider subject : String)
    (email : Email) : Act User := do
  match ← database (.byIdentity provider subject) with
  | some identity => requireUser identity.userId
  | none =>
    match ← byEmail email with
    | none =>
      let user ← createUser session email none true
      remember f email
      commit session [.identity ⟨user.id, provider, subject⟩]
      return user
    | some user =>
      if user.emailVerifiedAt = none then
        let now ← utcnow
        commit session [.emailVerifiedAt user.id now, .identity ⟨user.id, provider, subject⟩]
        return { user with emailVerifiedAt := some now }
      else
        commit session [.identity ⟨user.id, provider, subject⟩]
        return user

/-- The claims of a token that is genuine and answers this challenge. -/
def verifiedClaims (config : ProviderConfig) (idToken nonce : String) : Act IdClaims := do
  let decoded : Option IdClaims ← tryCatchThe Failure
    (invoke (Command.idToken config.jwksUrl config.clientId idToken))
    (fun _ => throw (.unauthorized "The provider token is invalid."))
  match decoded with
  | none => throw (.unauthorized "The provider token is invalid.")
  | some claims =>
    if claims.issuer ∉ config.issuers then
      throw (.unauthorized "The provider token could not be verified.")
    else
      let same ← ofResult (compareDigest claims.nonce nonce)
      if same = false then
        throw (.unauthorized "The provider token could not be verified.")
      else return claims

def oauthLogin (f : FilterSettings) (session : ℕ) (provider idToken nonce : String) :
    Act Grant := do
  let spent : Bool ← invoke (Command.delNonce provider nonce)
  if spent = false then
    throw (.unauthorized "The OAuth challenge is invalid or expired.")
  else
    let config : ProviderConfig ← ofResult (providerConfig settings provider)
    let claims ← verifiedClaims config idToken nonce
    let email ← ofResult (oauthEmailAddress lib (emailClaim provider claims))
    if claims.subject = "" ∨ (provider ≠ "microsoft" ∧ claims.emailVerified = false) then
      throw (.unauthorized "The provider did not supply a verified email address.")
    else
      let user ← identityUser f session provider claims.subject email
      grant lib settings user none

end Gamely.OAuthService
