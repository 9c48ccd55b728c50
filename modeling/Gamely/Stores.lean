import Gamely.EmailJobs
import Gamely.ExpiringStore

/-!
# The stores behind the authentication service

Each part of Redis the service writes is a store of its own, keyed by the
arguments of the source's key names, and the tables of PostgreSQL are lists of
committed rows with the rows an open transaction has flushed beside them. A
call of a store is one atomic command, script, MULTI/EXEC pipeline or statement.
-/

set_option autoImplicit false

namespace Gamely.Stores
open Gamely.ExpiringStore Gamely.EmailJobs

abbrev UserId := String
abbrev FamilyId := String
abbrev Token := String
abbrev Digest := String
abbrev Email := String
abbrev Hash := String

/-- Deadline of a key written with `EX seconds`; the clock counts milliseconds. -/
def ex (now seconds : ℕ) : Option ℕ := some (now+1000*seconds)

/-! ## Refresh sessions -/

/-- The value of `auth:refresh:{digest}` and `auth:reuse:{digest}`, and the
arguments of `auth:session:{user}:{family}`. -/
structure Session where
  user : UserId
  family : FamilyId
  deriving DecidableEq, Repr

structure SessionStore where
  refresh : Store Digest Session
  reuse : Store Digest Session
  family : Store Session (List Digest)
  sessions : Store UserId (List FamilyId)

inductive RotateReply where
  | rotated (session : Session)
  | reused (session : Session)
  | missing
  deriving DecidableEq, Repr

inductive SessionCall where
  | issue (digest : Digest) (session : Session) (ttl : ℕ)
  | rotate (digest : Digest) (ttl : ℕ)
  | getRefresh (digest : Digest)
  | familyMembers (session : Session)
  | userFamilies (user : UserId)
  | revoke (digests : List Digest) (session : Session)
  | dropSessions (user : UserId)
  deriving DecidableEq

abbrev SessionCall.Reply : SessionCall → Type
  | .issue .. => Unit
  | .rotate .. => RotateReply
  | .getRefresh _ => Option Session
  | .familyMembers _ => List Digest
  | .userFamilies _ => List FamilyId
  | .revoke .. => Unit
  | .dropSessions _ => Unit

/-- The pipeline of `issue_refresh`: SET, SADD, EXPIRE, SADD, EXPIRE. -/
def issued (now : ℕ) (s : SessionStore) (digest : Digest) (session : Session) (ttl : ℕ) :
    SessionStore where
  refresh := set s.refresh digest session (ex now ttl)
  reuse := s.reuse
  family := expire now (sadd now s.family session digest) session (now+1000*ttl)
  sessions := expire now (sadd now s.sessions session.user session.family) session.user
    (now+1000*ttl)

/-- The script `_ROTATE_REFRESH`. -/
def rotated (now : ℕ) (s : SessionStore) (digest : Digest) (ttl : ℕ) :
    RotateReply × SessionStore :=
  match get now s.refresh digest with
  | some session => (.rotated session,
      { s with refresh := del s.refresh digest, reuse := set s.reuse digest session (ex now ttl) })
  | none => match get now s.reuse digest with
    | some session => (.reused session, { s with reuse := del s.reuse digest })
    | none => (.missing, s)

/-- The pipeline of `_revoke_family`: DEL of every refresh and reuse key read,
DEL of the family set, SREM from the user's sessions. -/
def revoked (now : ℕ) (s : SessionStore) (digests : List Digest) (session : Session) :
    SessionStore where
  refresh := delAll s.refresh digests
  reuse := delAll s.reuse digests
  family := del s.family session
  sessions := srem now s.sessions session.user session.family

def SessionCall.perform (now : ℕ) : (c : SessionCall) → SessionStore → c.Reply × SessionStore
  | .issue digest session ttl, s => ((), issued now s digest session ttl)
  | .rotate digest ttl, s => rotated now s digest ttl
  | .getRefresh digest, s => (get now s.refresh digest, s)
  | .familyMembers session, s => (members now s.family session, s)
  | .userFamilies user, s => (members now s.sessions user, s)
  | .revoke digests session, s => ((), revoked now s digests session)
  | .dropSessions user, s => ((), { s with sessions := del s.sessions user })

/-! ## One-time codes -/

inductive Purpose where
  | verify
  | reset
  deriving DecidableEq, Repr

def Purpose.text : Purpose → String
  | .verify => "verify"
  | .reset => "reset"

/-- The arguments of `auth:code:{purpose}:{email}` and its cooldown key. -/
structure CodeKey where
  email : Email
  purpose : Purpose
  deriving DecidableEq, Repr

/-- The value `{digest}:{attempts}`. -/
structure CodePayload where
  digest : Digest
  attempts : ℕ
  deriving DecidableEq, Repr

structure CodeStore where
  code : Store CodeKey CodePayload
  cooldown : Store CodeKey Unit

inductive CodeCall where
  | setCooldown (key : CodeKey) (ttl : ℕ)
  | setCode (key : CodeKey) (payload : CodePayload) (ttl : ℕ)
  | delCooldownAndCode (key : CodeKey)
  | getCode (key : CodeKey)
  | ttlCode (key : CodeKey)
  | delCode (key : CodeKey)
  deriving DecidableEq

abbrev CodeCall.Reply : CodeCall → Type
  | .setCooldown .. => Bool
  | .setCode .. => Unit
  | .delCooldownAndCode _ => Unit
  | .getCode _ => Option CodePayload
  | .ttlCode _ => ℤ
  | .delCode _ => Unit

def CodeCall.perform (now : ℕ) : (c : CodeCall) → CodeStore → c.Reply × CodeStore
  | .setCooldown key ttl, s => match get now s.cooldown key with
    | none => (true, { s with cooldown := set s.cooldown key () (ex now ttl) })
    | some _ => (false, s)
  | .setCode key payload ttl, s => ((), { s with code := set s.code key payload (ex now ttl) })
  | .delCooldownAndCode key, s =>
    ((), { s with code := del s.code key, cooldown := del s.cooldown key })
  | .getCode key, s => (get now s.code key, s)
  | .ttlCode key, s => (ExpiringStore.ttl now s.code key, s)
  | .delCode key, s => ((), { s with code := del s.code key })

/-! ## The email filter -/

structure FilterParams where
  capacity : ℕ
  bucketSize : ℕ
  expansion : ℕ
  maxIterations : ℕ
  deriving DecidableEq, Repr

/-- The text published under the marker key. -/
def FilterParams.fingerprint (p : FilterParams) : String :=
  s!"{p.capacity}:{p.bucketSize}:{p.expansion}:{p.maxIterations}:v1"

/-- A filter key: the parameters it was created with and every item the module
stored in it since. -/
structure Cuckoo where
  params : FilterParams
  items : List String
  deriving DecidableEq, Repr

structure FilterStore where
  filter : Option Cuckoo
  marker : Option String
  lock : Store Unit String

inductive FilterCall where
  | getMarker
  | exists (item : String)
  | insert (items : List String) (capacity : ℕ)
  | reserve (params : FilterParams)
  | setMarker (fingerprint : String)
  | delMarker
  | drop
  | setLock (token : String) (ttl : ℕ)
  | releaseLock (token : String)
  deriving DecidableEq

abbrev FilterCall.Reply : FilterCall → Type
  | .getMarker => Option String
  | .exists _ => Bool
  | .insert .. => List ℤ
  | .reserve _ => Bool
  | .setMarker _ => Unit
  | .delMarker => Unit
  | .drop => Unit
  | .setLock .. => Bool
  | .releaseLock _ => Unit

/-- CF.INSERT: items at the refused positions are answered `-1` and not stored. -/
def stored (refused : List ℕ) (items : List String) : List String :=
  (items.zipIdx.filter (fun x => x.2 ∉ refused)).map Prod.fst

def insertReplies (refused : List ℕ) (items : List String) : List ℤ :=
  items.zipIdx.map (fun x => if x.2 ∈ refused then -1 else 1)

/-- CF.INSERT creates a missing key with the module's defaults for everything but
the capacity. -/
def inserted (defaults : FilterParams) (refused : List ℕ) (items : List String) (capacity : ℕ) :
    Option Cuckoo → Cuckoo
  | some f => { f with items := f.items ++ stored refused items }
  | none => ⟨{ defaults with capacity := capacity }, stored refused items⟩

/-- CF.EXISTS: certain on stored items, false on a missing key, and otherwise
whatever the fingerprints happen to answer. -/
def contains (hit : Bool) (item : String) : Option Cuckoo → Bool
  | some f => if item ∈ f.items then true else hit
  | none => false

def FilterCall.perform (defaults : FilterParams) (now : ℕ) (hit : Bool) (refused : List ℕ) :
    (c : FilterCall) → FilterStore → c.Reply × FilterStore
  | .getMarker, s => (s.marker, s)
  | .exists item, s => (contains hit item s.filter, s)
  | .insert items capacity, s => (insertReplies refused items,
      { s with filter := some (inserted defaults refused items capacity s.filter) })
  | .reserve params, s => match s.filter with
    | none => (true, { s with filter := some ⟨params, []⟩ })
    | some _ => (false, s)
  | .setMarker fingerprint, s => ((), { s with marker := some fingerprint })
  | .delMarker, s => ((), { s with marker := none })
  | .drop, s => ((), { s with filter := none, marker := none })
  | .setLock token ttl, s => match get now s.lock () with
    | none => (true, { s with lock := set s.lock () token (ex now ttl) })
    | some _ => (false, s)
  | .releaseLock token, s =>
    if get now s.lock () = some token then ((), { s with lock := del s.lock () }) else ((), s)

/-! ## Accounts -/

structure User where
  id : UserId
  email : Email
  passwordHash : Option Hash
  emailVerifiedAt : Option ℕ
  deriving DecidableEq, Repr

structure OAuthIdentity where
  userId : UserId
  provider : String
  subject : String
  deriving DecidableEq, Repr

/-- `flushed` holds the inserts of transactions that have not ended, each with
the number of its database session. -/
structure Database where
  users : List User
  identities : List OAuthIdentity
  flushed : List (ℕ × User)

def noAccounts : Database := ⟨[], [], []⟩

/-- What the unit of work of a database session writes at commit besides its
flushed inserts. -/
inductive Change where
  | passwordHash (user : UserId) (hash : Hash)
  | emailVerifiedAt (user : UserId) (at' : ℕ)
  | identity (row : OAuthIdentity)
  deriving DecidableEq

inductive DatabaseCall where
  | byEmail (email : Email)
  | byId (user : UserId)
  | byIdentity (provider subject : String)
  | createUser (session : ℕ) (row : User)
  | commit (session : ℕ) (changes : List Change)
  | rollback (session : ℕ)
  | emails
  deriving DecidableEq

abbrev DatabaseCall.Reply : DatabaseCall → Type
  | .byEmail _ => Option User
  | .byId _ => Option User
  | .byIdentity .. => Option OAuthIdentity
  | .createUser .. => Unit
  | .commit .. => Unit
  | .rollback _ => Unit
  | .emails => List Email

def Change.apply (db : Database) : Change → Database
  | .passwordHash user hash => { db with users := db.users.map (fun u =>
      if u.id = user then { u with passwordHash := some hash } else u) }
  | .emailVerifiedAt user t => { db with users := db.users.map (fun u =>
      if u.id = user then { u with emailVerifiedAt := some t } else u) }
  | .identity row => { db with identities := db.identities ++ [row] }

def Change.setsPassword : Change → Bool
  | .passwordHash .. => true
  | _ => false

def Change.duplicate (db : Database) : Change → Bool
  | .identity row => db.identities.any (fun i =>
      i.provider = row.provider && i.subject = row.subject)
  | _ => false

def ended (db : Database) (session : ℕ) : Database :=
  { db with flushed := db.flushed.filter (fun x => x.1 ≠ session) }

def committed (db : Database) (session : ℕ) (changes : List Change) : Database :=
  changes.foldl Change.apply { ended db session with
    users := db.users ++ (db.flushed.filter (fun x => x.1 = session)).map Prod.snd }

/-- The unique index on `users.email` refuses a committed address at flush and
makes a second open insert of one address wait; the one on identities is
checked when the commit flushes. -/
def DatabaseCall.perform : (c : DatabaseCall) → Database →
    Option (Except Failure c.Reply × Database)
  | .byEmail email, db => some (.ok (db.users.find? (fun u => u.email = email)), db)
  | .byId user, db => some (.ok (db.users.find? (fun u => u.id = user)), db)
  | .byIdentity provider subject, db => some (.ok (db.identities.find? (fun i =>
      i.provider = provider && i.subject = subject)), db)
  | .createUser session row, db =>
    if db.users.any (fun u => u.email = row.email) then some (.error .integrityError, db)
    else if db.flushed.any (fun x => x.1 ≠ session && x.2.email = row.email) then none
    else some (.ok (), { db with flushed := db.flushed ++ [(session, row)] })
  | .commit session changes, db =>
    if changes.any (Change.duplicate db) then some (.error .integrityError, ended db session)
    else some (.ok (), committed db session changes)
  | .rollback session, db => some (.ok (), ended db session)
  | .emails, db => some (.ok (db.users.map User.email), db)

end Gamely.Stores
