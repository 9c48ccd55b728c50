import Gamely.TokenService

/-!
# The email filter and its warmer

A miss of the filter lets signup and the availability endpoint skip the
database, so a lookup answers a miss only under a marker that vouches for the
filter. The warmer drops the key and its marker, streams one snapshot of the
addresses into a new key and publishes the marker last.
-/

set_option autoImplicit false

namespace Gamely.EmailFilter
open Gamely.Calls Gamely.Stores Gamely.EmailJobs Gamely.Services Gamely.TokenService

def cuckoo (c : FilterCall) : Act c.Reply := invoke (Command.filter c)

def database (c : DatabaseCall) : Act c.Reply := invoke (Command.database c)

/-! ## Addresses -/

def emailMaxLength : ℕ := 320

def normalizeEmail (lib : Libraries) (value : String) : Except Failure Email :=
  let email := lib.lower (lib.strip value)
  if '@' ∉ email.toList ∨ emailMaxLength < email.length then
    .error (.badRequest "A valid email address is required.")
  else .ok email

/-! ## `RedisCuckooFilter` -/

def addMany (f : FilterSettings) (items : List String) : Act ℕ :=
  if items = [] then return 0
  else do
    let replies : List ℤ ← cuckoo (.insert items f.params.capacity)
    return (replies.filter (· = 1)).length

def add (f : FilterSettings) (item : String) : Act Bool := do
  let added ← addMany f [item]
  return added = 1

/-- A plain pipeline: the two commands are sent together and answered in order,
but nothing keeps another client's command from running between them. -/
def containsIfReady (f : FilterSettings) (item : String) : Act (Option Bool) := do
  let marker : Option String ← cuckoo .getMarker
  let hit : Bool ← cuckoo (.exists item)
  return if marker ≠ some f.params.fingerprint then none else some hit

/-! ## `EmailFilter` -/

def mightExist (f : FilterSettings) (email : Email) : Act Bool :=
  if f.enabled = false then return true
  else tryCatchThe Failure
    (do
      let hit ← containsIfReady f email
      return hit.getD true)
    (fun _ => return true)

def withdrawTrust : Act Unit :=
  tryCatchThe Failure (cuckoo .delMarker) (fun _ => return ())

def remember (f : FilterSettings) (email : Email) : Act Unit :=
  if f.enabled = false then return ()
  else tryCatchThe Failure
    (do
      let _ ← add f email
      return ())
    (fun _ => withdrawTrust)

/-! ## `EmailFilterWarmer` -/

/-- `yield_per`: the rows of one statement in groups of the batch size. -/
def batches (size : ℕ) (emails : List Email) : List (List Email) := emails.toChunks size

def addBatch (lib : Libraries) (f : FilterSettings) (batch : List Email) : Act Unit :=
  match batch.mapM (normalizeEmail lib) with
  | .ok items => do
    let _ ← addMany f items
    return ()
  | .error e => throw e

def rebuild (lib : Libraries) (f : FilterSettings) : Act Unit := do
  cuckoo .drop
  let _ ← cuckoo (.reserve f.params)
  let emails : List Email ← database .emails
  forM (batches f.batchSize emails) (addBatch lib f)
  cuckoo (.setMarker f.params.fingerprint)

/-- The rebuild under the lock, if this run takes it. -/
def lockedRebuild (lib : Libraries) (f : FilterSettings) (token : String) : Act Unit := do
  let locked : Bool ← cuckoo (.setLock token f.lockSeconds)
  if locked = false then return ()
  else
    tryCatchThe Failure (rebuild lib f)
      (fun e => do
        cuckoo (.releaseLock token)
        throw e)

def warm (lib : Libraries) (f : FilterSettings) : Act Unit :=
  if f.enabled = false then return ()
  else tryCatchThe Failure (tokenUrlsafe >>= lockedRebuild lib f) (fun _ => return ())

end Gamely.EmailFilter
