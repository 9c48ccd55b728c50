import Gamely.RedisCommands
import Gamely.RedisKeys
import Gamely.Requests

/-!
# What the service sends to Redis

Every call on Redis as the commands, pipelines and scripts the source sends, under the
spelled keys and with values as texts, and what the source makes of the replies. The clock,
the database, the broker and the local calls are those of the stores.
-/

set_option autoImplicit false

namespace Gamely.RedisClient
open Gamely.Calls Gamely.Stores Gamely.EmailJobs Gamely.Services Gamely.ExpiringStore
open Gamely.RedisCommands Gamely.RedisKeys Gamely.UUIDs Gamely.Requests

/-! ## Keys -/

/-- A key with the texts it is spelled from, whatever they are. -/
inductive Slot where
  | refresh (digest : String)
  | reuse (digest : String)
  | family (user familyId : String)
  | sessions (user : String)
  | code (purpose : Purpose) (email : String)
  | cooldown (purpose : Purpose) (email : String)
  | oauthNonce (name : String)
  | throttle (scope digest : String)
  | emailFilter
  | emailFilterMeta
  | emailFilterLock
  deriving DecidableEq

def Slot.text : Slot → String
  | .refresh digest => "auth:refresh:" ++ digest
  | .reuse digest => "auth:reuse:" ++ digest
  | .family user familyId => "auth:session:" ++ user ++ ":" ++ familyId
  | .sessions user => "auth:sessions:" ++ user
  | .code purpose email => "auth:code:" ++ purpose.text ++ ":" ++ email
  | .cooldown purpose email => "auth:code:cooldown:" ++ purpose.text ++ ":" ++ email
  | .oauthNonce name => "auth:oauth-nonce:" ++ name
  | .throttle scope digest => "auth:throttle:" ++ scope ++ ":" ++ digest
  | .emailFilter => "auth:email:filter"
  | .emailFilterMeta => "auth:email:filter:meta"
  | .emailFilterLock => "auth:email:filter:rebuild"

def nonceSlot (provider nonce : String) : Slot := .oauthNonce (provider ++ ":" ++ nonce)

/-- The texts the service spells keys from. -/
def Slot.Proper : Slot → Prop
  | .family user _ => ':' ∉ user.toList
  | .throttle scope _ => ':' ∉ scope.toList
  | _ => True

/-! ## Values -/

/-- `_session_value`. -/
def sessionText (s : Session) : String := s.user ++ ":" ++ s.family

/-- `f"{digest}:{attempts}"`. -/
def payloadText (p : CodePayload) : String := p.digest ++ ":" ++ toString p.attempts

variable (transform : List Char → List Char)

def decimalDigits (text : List Char) : Option ℕ :=
  let groups := text.splitOn '_'
  if groups.any List.isEmpty then none
  else if groups.flatten.all Char.isDigit then some (Nat.ofDigitChars 10 groups.flatten 0)
  else none

/-- `int(text)`; `transform` replaces the spaces and digits of other scripts. -/
def intText (text : List Char) : Option ℤ :=
  let ascii := if text.all (fun c => c.toNat < 128) then text else transform text
  match strip whitespace ascii with
  | '-'::digits => (decimalDigits digits).map (fun n => -Int.ofNat n)
  | '+'::digits => (decimalDigits digits).map Int.ofNat
  | digits => (decimalDigits digits).map Int.ofNat

/-- `stored.split(":", 1)` and `int(attempts)`. -/
def parsePayload (stored : String) : Except Failure CodePayload :=
  match stored.toList.span (· ≠ ':') with
  | (_, []) => .error (.valueError "")
  | (digest, _::attempts) => match intText transform attempts with
    | some n => .ok ⟨String.ofList digest, n.toNat⟩
    | none => .error (.valueError "")

def session (value : String) : Except Failure Session :=
  match parseSession transform value with
  | some (user, familyId) => .ok ⟨userText user, familyId⟩
  | none => .error (.unauthorized "The refresh token is invalid or expired.")

/-! ## `TokenService` -/

def issueRefresh (digest : Digest) (s : Session) (ttl : ℕ) : Script Slot Unit :=
  execute [
    .on (.refresh digest) (.set (sessionText s) (some ttl) false),
    .on (.family s.user s.family) (.sadd digest),
    .on (.family s.user s.family) (.expire ttl),
    .on (.sessions s.user) (.sadd s.family),
    .on (.sessions s.user) (.expire ttl)]

/-- `_ROTATE_REFRESH` on its two keys. -/
def rotateRefresh (refresh reuse : Slot) (ttl : ℕ) : Script Slot Resp := do
  match ← send (.on refresh .get) with
  | .text session =>
    let _ ← send (.del [refresh])
    let _ ← send (.on reuse (.set session (some ttl) false))
    return .array ["rotated", session]
  | _ => match ← send (.on reuse .get) with
    | .text reused =>
      let _ ← send (.del [reuse])
      return .array ["reused", reused]
    | _ => return .array ["missing", ""]

def resultPair : Resp → String × String
  | .array [status, session] => (if status = "" then "missing" else status, session)
  | _ => ("missing", "")

def rotateReply (reply : Resp) : Except Failure RotateReply :=
  if (resultPair reply).1 = "missing" then .ok .missing
  else match session transform (resultPair reply).2 with
    | .error e => .error e
    | .ok s =>
      if (resultPair reply).1 = "reused" then .ok (.reused s)
      else if (resultPair reply).1 ≠ "rotated" then
        .error (.unauthorized "The refresh token is invalid or expired.")
      else .ok (.rotated s)

def revokeFamily (digests : List Digest) (s : Session) : Script Slot Unit :=
  execute (digests.flatMap (fun d => [.del [.refresh d], .del [.reuse d]]) ++
    [.del [.family s.user s.family], .on (.sessions s.user) (.srem s.family)])

/-- `_text` of a reply to GET. -/
def textReply : Resp → Option String
  | .text s => some s
  | _ => none

def sessionReply (reply : Resp) : Except Failure (Option Session) :=
  match textReply reply with
  | some value => some <$> session transform value
  | none => .ok none

def payloadReply (reply : Resp) : Except Failure (Option CodePayload) :=
  match textReply reply with
  | some stored => some <$> parsePayload transform stored
  | none => .ok none

def integerReply : Resp → Except Failure ℤ
  | .integer n => .ok n
  | _ => .error .external

def membersReply : Resp → List String
  | .array items => items
  | _ => []

/-- Whether a reply is true in the sense of `if`. -/
def truthy : Resp → Bool
  | .null => false
  | .ok => true
  | .integer n => n ≠ 0
  | .text s => s ≠ ""
  | .array items => items ≠ []
  | .integers ns => ns ≠ []

/-! ## The rate limiter, challenges and the filter -/

def fixedWindow (key : Slot) (window : ℕ) : Script Slot Resp := do
  let hits ← send (.on key .incr)
  if hits = .integer 1 then
    let _ ← send (.on key (.expire window))
    return hits
  else return hits

/-- `_count` of the script's reply, which is a positive integer. -/
def hitsReply (reply : Resp) : Except Failure ℕ := Int.toNat <$> integerReply reply

def reserve (params : FilterParams) : Script Slot Bool :=
  tryCatchThe Refusal
    (do
      let _ ← send (.on .emailFilter (.cfReserve params))
      return true)
    (fun e => if e = .exists then return false else throw e)

def insertedReply : Resp → List ℤ
  | .integers ns => ns
  | _ => []

def releaseLock (token : String) : Script Slot Resp := do
  if (← send (.on .emailFilterLock .get)) = .text token then send (.del [.emailFilterLock])
  else return .integer 0

/-! ## Calls -/

/-- A script under the spelled keys; a refusal is a `ResponseError`. -/
def answeredBy {A B : Type} (server : Server) (script : Script Slot A)
    (decode : A → Except Failure B) (redis : Store String Value) :
    Except Failure B × Store String Value :=
  match atomically server (renamed Slot.text script) redis with
  | (.ok a, redis') => (decode a, redis')
  | (.error _, redis') => (.error .external, redis')

variable (server : Server)

def onSession :
    (c : SessionCall) → Store String Value → Except Failure c.Reply × Store String Value
  | .issue digest s ttl => answeredBy server (issueRefresh digest s ttl) .ok
  | .rotate digest ttl =>
    answeredBy server (rotateRefresh (.refresh digest) (.reuse digest) ttl) (rotateReply transform)
  | .getRefresh digest =>
    answeredBy server (send (.on (.refresh digest) .get)) (sessionReply transform)
  | .familyMembers s => answeredBy server (send (.on (.family s.user s.family) .smembers))
    (fun reply => .ok (membersReply reply))
  | .userFamilies user => answeredBy server (send (.on (.sessions user) .smembers))
    (fun reply => .ok (membersReply reply))
  | .revoke digests s => answeredBy server (revokeFamily digests s) .ok
  | .dropSessions user => answeredBy server (send (.del [.sessions user])) (fun _ => .ok ())

def onCode : (c : CodeCall) → Store String Value → Except Failure c.Reply × Store String Value
  | .setCooldown key ttl =>
    answeredBy server (send (.on (.cooldown key.purpose key.email) (.set "1" (some ttl) true)))
      (fun reply => .ok (truthy reply))
  | .setCode key payload ttl =>
    answeredBy server
      (send (.on (.code key.purpose key.email) (.set (payloadText payload) (some ttl) false)))
      (fun _ => .ok ())
  | .delCooldownAndCode key =>
    answeredBy server
      (send (.del [.cooldown key.purpose key.email, .code key.purpose key.email]))
      (fun _ => .ok ())
  | .getCode key =>
    answeredBy server (send (.on (.code key.purpose key.email) .get)) (payloadReply transform)
  | .ttlCode key =>
    answeredBy server (send (.on (.code key.purpose key.email) .ttl)) integerReply
  | .delCode key => answeredBy server (send (.del [.code key.purpose key.email])) (fun _ => .ok ())

def onFilter :
    (c : FilterCall) → Store String Value → Except Failure c.Reply × Store String Value
  | .getMarker => answeredBy server (send (.on .emailFilterMeta .get))
    (fun reply => .ok (textReply reply))
  | .exists item => answeredBy server (send (.on .emailFilter (.cfExists item)))
    (fun reply => .ok (reply = .integer 1))
  | .insert items capacity => answeredBy server (send (.on .emailFilter (.cfInsert items capacity)))
    (fun reply => .ok (insertedReply reply))
  | .reserve params => answeredBy server (reserve params) .ok
  | .setMarker fingerprint =>
    answeredBy server (send (.on .emailFilterMeta (.set fingerprint none false)))
      (fun _ => .ok ())
  | .delMarker => answeredBy server (send (.del [.emailFilterMeta])) (fun _ => .ok ())
  | .drop => answeredBy server (send (.del [.emailFilter, .emailFilterMeta])) (fun _ => .ok ())
  | .setLock token ttl =>
    answeredBy server (send (.on .emailFilterLock (.set token (some ttl) true)))
      (fun reply => .ok (truthy reply))
  | .releaseLock token => answeredBy server (releaseLock token) (fun _ => .ok ())

def onRedis : (c : Command) → Store String Value →
    Option (Except Failure (Reply c) × Store String Value)
  | .session c, redis => some (onSession transform server c redis)
  | .code c, redis => some (onCode transform server c redis)
  | .setNonce provider nonce ttl, redis => some (answeredBy server
      (send (.on (nonceSlot provider nonce) (.set "1" (some ttl) false))) (fun _ => .ok ()) redis)
  | .delNonce provider nonce, redis => some (answeredBy server
      (send (.del [nonceSlot provider nonce])) (fun reply => .ok (truthy reply)) redis)
  | .fixedWindow scope client window, redis => some (answeredBy server
      (fixedWindow (.throttle scope client) window) hitsReply redis)
  | .filter c, redis => some (onFilter server c redis)
  | _, _ => none

/-! ## The deployment -/

structure Deployment where
  now : ℕ
  drawn : List String
  redis : Store String Value
  database : Database
  published : List EmailJob

/-- All of a deployment but what is in Redis. -/
def Deployment.outside (v : Deployment) : World :=
  { World.fresh v.now v.database with drawn := v.drawn, published := v.published }

def Deployment.fresh (now : ℕ) (database : Database) : Deployment :=
  ⟨now, [], ExpiringStore.empty, database, []⟩

variable (lib : Libraries)

def serverOf (x : Choice) (now : ℕ) : Server := ⟨now, lib.filterDefaults, x.hit, x.refused⟩

def answer (c : Command) (x : Choice) (v : Deployment) :
    Option (Except Failure (Reply c) × Deployment) :=
  match onRedis transform (serverOf lib x v.now) c v.redis with
  | some r => some (r.1, { v with redis := r.2 })
  | none => (Services.answer lib x v.outside c).map (fun r => (r.1,
      { v with drawn := r.2.drawn, database := r.2.database, published := r.2.published }))

def perform (c : Command) (x : Choice) (v : Deployment) :
    Option (Except Failure (Reply c) × Deployment) :=
  if x.fail = true ∧ c.isLocal = false then some (.error .external, v)
  else answer transform lib c x v

def evicted : Passing → Option Slot
  | .elapse _ => none
  | .evictRefresh d => some (.refresh d)
  | .evictReuse d => some (.reuse d)
  | .evictFamily s => some (.family s.user s.family)
  | .evictSessions user => some (.sessions user)
  | .evictCode key => some (.code key.purpose key.email)
  | .evictLock => some .emailFilterLock

def passed (d : Passing) (v : Deployment) : Deployment :=
  match d, evicted d with
  | .elapse ms, _ => { v with now := v.now+ms }
  | _, some slot => { v with redis := del v.redis slot.text }
  | _, none => v

/-- All replicas of the service over one Redis as it is, one database and one broker. -/
def deployed (settings : Settings) :
    Interleaving.System Command Reply Failure Answer Deployment Choice Request Passing where
  perform := perform transform lib
  program := serve lib settings
  cancelled := cancelled
  pass := passed

end Gamely.RedisClient
