import Gamely.EmailFilter

/-!
# The authentication service

A request works in one database session; its unit of work is the list of
changes its commit writes. Password hashing and checking run in a thread and
touch nothing shared, so they are not calls, except that a new hash is salted.
-/

set_option autoImplicit false

namespace Gamely.AuthService
open Gamely.Calls Gamely.Stores Gamely.EmailJobs Gamely.Services Gamely.TokenService
open Gamely.EmailFilter Gamely.DateTimes

variable (lib : Libraries) (settings : Settings)

def codes (c : CodeCall) : Act c.Reply := invoke (Command.code c)

def byEmail (email : Email) : Act (Option User) := database (.byEmail email)

def hash (password : String) : Act Hash := invoke (Command.hash password)

def checkPassword (value : String) : Except Failure Unit :=
  if value.length < 12 then
    .error (.badRequest "Passwords must be at least 12 characters long.")
  else .ok ()

/-- `f"{n:06d}"`. -/
def sixDigits (n : ℕ) : String :=
  let digits := (toString n).toList
  String.ofList (List.replicate (6-digits.length) '0' ++ digits)

theorem length_sixDigits {n : ℕ} (h : n < 1000000) : (sixDigits n).length = 6 := by
  have hlen : (toString n).length ≤ 6 := Nat.repr_length n 6 (by decide) h
  have hlist : (toString n).toList.length ≤ 6 := by rwa [String.length_toList]
  simp only [sixDigits, String.length_ofList, List.length_append, List.length_replicate]
  omega

theorem isDigit_of_ascii {c : Char} (h : c.isDigit = true) : isDigit c = true := by
  simp only [Char.isDigit, ge_iff_le, Bool.and_eq_true, decide_eq_true_eq] at h
  have hlo : 48 ≤ c.toNat := h.1
  have hhi : c.toNat ≤ 57 := h.2
  simp [isDigit, digitPoint, digitRanges, hlo, hhi]

theorem isDigits_sixDigits {n : ℕ} (h : n < 1000000) : isDigits (sixDigits n) = true := by
  have hne : (sixDigits n).toList ≠ [] := by
    intro hnil
    have := length_sixDigits h
    rw [← String.length_toList, hnil] at this
    cases this
  have hall : ∀ c ∈ (sixDigits n).toList, isDigit c = true := by
    intro c hc
    simp only [sixDigits, String.toList_ofList, List.mem_append, List.mem_replicate] at hc
    rcases hc with ⟨-, rfl⟩ | hc
    · decide
    · apply isDigit_of_ascii
      have hrepr : (toString n).toList = Nat.toDigits 10 n := by
        simp [toString, Nat.repr_eq_ofList_toDigits]
      rw [hrepr] at hc
      exact Nat.isDigit_of_mem_toDigits (by decide) (by decide) hc
  exact Bool.and_eq_true_iff.mpr ⟨decide_eq_true hne, List.all_eq_true.mpr hall⟩

def emailVerifiedAt (verified : Bool) : Act (Option ℕ) :=
  if verified then some <$> utcnow else return none

/-- `AuthRepository.create_user`: the row is added and flushed. -/
def createUser (session : ℕ) (email : Email) (passwordHash : Option Hash)
    (verified : Bool) : Act User := do
  let verifiedAt ← emailVerifiedAt verified
  let id ← invoke Command.uuid4
  let user : User := ⟨id, email, passwordHash, verifiedAt⟩
  database (.createUser session user)
  return user

def commit (session : ℕ) (changes : List Change) : Act Unit :=
  database (.commit session changes)

def rollback (session : ℕ) : Act Unit := database (.rollback session)

/-! ## One-time codes -/

/-- `datetime.now(UTC) + timedelta(minutes=minutes)`. -/
def later (now minutes : ℕ) : Except Failure DateTime :=
  match DateTime.make (1000*(now+60000*minutes)) (some 0) with
  | some t => .ok t
  | none => .error .overflowError

theorem later_offset {now minutes : ℕ} {t : DateTime} (h : later now minutes = .ok t) :
    t.utcoffset ≠ none := by
  unfold later at h
  split at h
  case h_1 t' hmake =>
    cases h
    unfold DateTime.make at hmake
    split at hmake
    · cases hmake
      exact Option.some_ne_none 0
    · cases hmake
  case h_2 => cases h

theorem valid_address {lib : Libraries} {email : String} {address : Email}
    (ha : normalizeEmail lib email = .ok address) :
    '@' ∈ address.toList ∧ address.length ≤ 320 := by
  unfold normalizeEmail at ha
  dsimp only at ha
  split at ha
  case isTrue => cases ha
  case isFalse hvalid =>
    have he : lib.lower (lib.strip email) = address := Except.ok.inj ha
    rw [he] at hvalid
    simpa [emailMaxLength, not_or] using hvalid

theorem postInit_drawn {email : Email} (purpose : Purpose) {n now minutes : ℕ} {t : DateTime}
    (ha : '@' ∈ email.toList ∧ email.length ≤ 320) (hn : n < 1000000)
    (ht : later now minutes = .ok t) :
    postInit { recipient := email, template := purpose.text, code := sixDigits n, expiresAt := t } =
      .ok () := by
  have htemplate : purpose.text = "verify" ∨ purpose.text = "reset" := by
    cases purpose with
    | verify => exact Or.inl rfl
    | reset => exact Or.inr rfl
  exact (postInit_ok _).mpr ⟨ha, htemplate, ⟨length_sixDigits hn, isDigits_sixDigits hn⟩,
    later_offset ht, le_rfl⟩

def deliverCode (key : CodeKey) (code : String) (expiresAt : DateTime) : Act Unit := do
  codes (.setCode key ⟨lib.sha256 code, 0⟩ (60*settings.authCodeMinutes))
  let job ← ofResult (EmailJob.make
    { recipient := key.email, template := key.purpose.text, code := code, expiresAt := expiresAt })
  invoke (Command.publish job)

def sendCode (email : Email) (purpose : Purpose) : Act Unit := do
  let key : CodeKey := ⟨email, purpose⟩
  let fresh : Bool ← codes (.setCooldown key 60)
  if fresh = false then
    throw (.badRequest "Please wait before requesting another code.")
  else
    let code ← sixDigits <$> invoke (Command.randbelow 1000000)
    let now : ℕ ← utcnow
    let expiresAt : DateTime ← ofResult (later now settings.authCodeMinutes)
    tryCatchThe Failure (deliverCode lib settings key code expiresAt)
      (fun e => do
        codes (.delCooldownAndCode key)
        throw e)

def consumeCode (email : Email) (purpose : Purpose) (code : String) : Act Bool := do
  let key : CodeKey := ⟨email, purpose⟩
  match ← codes (.getCode key) with
  | none => return false
  | some ⟨digest, attempts⟩ =>
    if 4 ≤ attempts then
      codes (.delCode key)
      return false
    else if digest ≠ lib.sha256 code then
      let ttl : ℤ ← codes (.ttlCode key)
      codes (.setCode key ⟨digest, attempts+1⟩ (max ttl 1).toNat)
      return false
    else
      codes (.delCode key)
      return true

/-! ## Accounts and sessions -/

def requireUser (user : UserId) : Act User := do
  match ← database (.byId user) with
  | some user => return user
  | none => throw (.unauthorized "Authentication is required to access this resource.")

/-- The address is known when the filter does not exclude it and the database
has it; a filter miss skips the database. -/
def emailTaken (f : FilterSettings) (email : Email) : Act Bool := do
  if ← mightExist f email then return (← byEmail email).isSome
  else return false

def createAccount (f : FilterSettings) (session : ℕ) (email password : String) : Act Unit := do
  let _ ← createUser session email (some (← hash password)) false
  remember f email
  sendCode lib settings email .verify
  commit session []

def signup (f : FilterSettings) (session : ℕ) (email password : String) : Act Unit := do
  let email ← ofResult (normalizeEmail lib email)
  ofResult (checkPassword password)
  if ← emailTaken f email then
    throw (.conflict "An account already exists for this email address.")
  else
    tryCatchThe Failure (createAccount lib settings f session email password)
      (fun e => do
        rollback session
        if e = .integrityError then
          remember f email
          throw (.conflict "An account already exists for this email address.")
        else throw e)

structure Grant where
  user : User
  access : String
  refresh : Token
  deriving DecidableEq, Repr

def grant (user : User) (family? : Option FamilyId) : Act Grant := do
  let access ← issueAccess lib settings user.id user.email user.emailVerifiedAt.isSome
  let refresh ← issueRefresh lib settings user.id family?
  return ⟨user, access, refresh⟩

def passwordMatches (user : User) (password : String) : Bool :=
  match user.passwordHash with
  | some h => lib.verify password h
  | none => false

def login (email password : String) : Act Grant := do
  let email ← ofResult (normalizeEmail lib email)
  match ← byEmail email with
  | some user =>
    if passwordMatches lib user password then grant lib settings user none
    else throw (.unauthorized "The email address or password is incorrect.")
  | none => throw (.unauthorized "The email address or password is incorrect.")

def sendVerification (email : String) : Act Unit := do
  let email ← ofResult (normalizeEmail lib email)
  match ← byEmail email with
  | some user =>
    if user.emailVerifiedAt = none then
      tryCatchThe Failure (sendCode lib settings user.email .verify) (fun _ => return ())
    else return ()
  | none => return ()

def verifyEmail (session : ℕ) (email code : String) : Act Unit := do
  let email ← ofResult (normalizeEmail lib email)
  match ← byEmail email with
  | some user =>
    if ← consumeCode lib user.email .verify code then
      let now ← utcnow
      commit session [.emailVerifiedAt user.id now]
    else throw (.badRequest "The verification code is invalid or expired.")
  | none => throw (.badRequest "The verification code is invalid or expired.")

def forgotPassword (email : String) : Act Unit := do
  let email ← ofResult (normalizeEmail lib email)
  match ← byEmail email with
  | some user =>
    if user.passwordHash ≠ none then
      tryCatchThe Failure (sendCode lib settings user.email .reset) (fun _ => return ())
    else return ()
  | none => return ()

def resetPassword (session : ℕ) (email code password : String) : Act Unit := do
  ofResult (checkPassword password)
  let email ← ofResult (normalizeEmail lib email)
  match ← byEmail email with
  | some user =>
    if ← consumeCode lib user.email .reset code then
      let h ← hash password
      commit session [.passwordHash user.id h]
      revokeAll user.id
    else throw (.badRequest "The reset code is invalid or expired.")
  | none => throw (.badRequest "The reset code is invalid or expired.")

def changePassword (session : ℕ) (user : UserId) (current new : String) : Act Unit := do
  ofResult (checkPassword new)
  let user ← requireUser user
  if passwordMatches lib user current then
    let h ← hash new
    commit session [.passwordHash user.id h]
    revokeAll user.id
  else throw (.unauthorized "The current password is incorrect.")

def refresh (value : Token) : Act Grant := do
  let rotated ← rotateRefresh lib settings value
  let user ← requireUser rotated.user
  grant lib settings user (some rotated.family)

/-! ## Asking for a code and presenting one -/

/-- Both requests for a code: an account that is due one is sent one, and nobody is told. -/
def askCode (purpose : Purpose) (due : User → Prop) [DecidablePred due] (email : String) :
    Act Unit := do
  let email ← ofResult (normalizeEmail lib email)
  match ← byEmail email with
  | some user =>
    if due user then
      tryCatchThe Failure (sendCode lib settings user.email purpose) (fun _ => return ())
    else return ()
  | none => return ()

theorem sendVerification_eq (email : String) : sendVerification lib settings email =
    askCode lib settings .verify (fun user => user.emailVerifiedAt = none) email := rfl

theorem forgotPassword_eq (email : String) : forgotPassword lib settings email =
    askCode lib settings .reset (fun user => user.passwordHash ≠ none) email := rfl

/-- Both requests with a code: a wrong code is refused in the words for an unknown address. -/
def presentCode (purpose : Purpose) (message email code : String) (accepted : User → Act Unit) :
    Act Unit := do
  let email ← ofResult (normalizeEmail lib email)
  match ← byEmail email with
  | some user =>
    if ← consumeCode lib user.email purpose code then accepted user
    else throw (.badRequest message)
  | none => throw (.badRequest message)

theorem verifyEmail_eq (session : ℕ) (email code : String) : verifyEmail lib session email code =
    presentCode lib .verify "The verification code is invalid or expired." email code
      (fun user => do
        let now ← utcnow
        commit session [.emailVerifiedAt user.id now]) := rfl

theorem resetPassword_eq (session : ℕ) (email code password : String) :
    resetPassword lib session email code password = (do
      ofResult (checkPassword password)
      presentCode lib .reset "The reset code is invalid or expired." email code (fun user => do
        let h ← hash password
        commit session [.passwordHash user.id h]
        revokeAll user.id)) := rfl

end Gamely.AuthService
