import Gamely.Services

/-!
# The token service

Refresh tokens are random, stored by digest and grouped in families. Every
`await` of the source on Redis is one call here, in the source's order.
-/

set_option autoImplicit false

namespace Gamely.TokenService
open Gamely.Calls Gamely.Stores Gamely.EmailJobs Gamely.Services

variable (lib : Libraries) (settings : Settings)

def redis (c : SessionCall) : Act c.Reply := invoke (Command.session c)

def tokenUrlsafe : Act String := invoke Command.tokenUrlsafe

def utcnow : Act ℕ := invoke Command.utcnow

/-- `for x in xs` over a Python set: any order. -/
def iterate (xs : List String) : Act (List String) := invoke (Command.iterate xs)

def issueAccess (user : UserId) (email : Email) (verified : Bool) : Act String := do
  let now ← utcnow
  return lib.encodeJwt {
    sub := user
    email := email
    verified := verified
    iss := settings.authJwtIssuer
    aud := settings.authJwtAudience
    iat := now/1000
    exp := (now+60000*settings.authAccessTokenMinutes)/1000 }

/-- `jwt.decode` with its issuer, audience and time checks. -/
def decodeAccess (value : String) : Act UserId := do
  let now ← utcnow
  match lib.decodeJwt value with
  | some claims =>
    if claims.iss = settings.authJwtIssuer ∧ claims.aud = settings.authJwtAudience ∧
        1000*claims.iat ≤ now ∧ now < 1000*claims.exp then
      return claims.sub
    else throw (.unauthorized "The access token is invalid or expired.")
  | none => throw (.unauthorized "The access token is invalid or expired.")

/-- `auth_refresh_token_days` in seconds. -/
def refreshTtl : ℕ := settings.authRefreshTokenDays*86400

/-- `family_id or secrets.token_urlsafe(24)`; a family id is never empty. -/
def familyId : Option FamilyId → Act FamilyId
  | some family => return family
  | none => tokenUrlsafe

def issueRefresh (user : UserId) (family? : Option FamilyId) : Act Token := do
  let value ← tokenUrlsafe
  let digest := lib.digest value
  let family ← familyId family?
  redis (.issue digest ⟨user, family⟩ (refreshTtl settings))
  return value

def revokeFamily (session : Session) : Act Unit := do
  let digests ← redis (.familyMembers session)
  redis (.revoke digests session)

def rotateRefresh (value : Token) : Act Session := do
  match ← redis (.rotate (lib.digest value) (refreshTtl settings)) with
  | .missing => throw (.unauthorized "The refresh token is invalid or expired.")
  | .reused session =>
    revokeFamily session
    throw (.unauthorized "The refresh token has already been used.")
  | .rotated session => return session

def revokeRefresh (value : Token) : Act Unit := do
  match ← redis (.getRefresh (lib.digest value)) with
  | some session => revokeFamily session
  | none => return ()

def revokeAll (user : UserId) : Act Unit := do
  let families ← iterate (← redis (.userFamilies user))
  forM families (fun family => revokeFamily ⟨user, family⟩)
  redis (.dropSessions user)

end Gamely.TokenService
