import Gamely.Footprints

/-!
# What a request does to a one-time code

A request that presents a code reads the stored payload, compares, and then
writes the raised count or deletes the key in a command of its own. The
contract remembers the comparison in between; a request that sends a code
presents none.
-/

set_option autoImplicit false

namespace Gamely.CodeContract
open Gamely.Calls Gamely.Stores Gamely.EmailJobs Gamely.Services Gamely.TokenService
open Gamely.EmailFilter Gamely.AuthService Gamely.OAuthService Gamely.Requests
open Gamely.Footprints Gamely.Interleaving

/-- The code a request presents. -/
def presented : Request → Option String
  | .verifyEmail _ code => some code
  | .resetPassword _ code _ => some code
  | _ => none

inductive Verdict where
  | locked
  | wrong
  | right
  deriving DecidableEq, Repr

def verdict (lib : Libraries) (q : Request) (payload : CodePayload) : Verdict :=
  if 4 ≤ payload.attempts then .locked
  else if (presented q).map lib.sha256 = some payload.digest then .right
  else .wrong

/-- A comparison whose outcome the request has still to write. -/
structure Comparison where
  key : CodeKey
  payload : CodePayload
  verdict : Verdict
  deriving DecidableEq, Repr

def next (lib : Libraries) (q : Request) (g : Option Comparison) :
    (c : Command) → Except Failure (Reply c) → Option Comparison
  | .code (.getCode key), .ok found =>
    found.map (fun payload => ⟨key, payload, verdict lib q payload⟩)
  | .code (.ttlCode _), .ok _ => g
  | .code _, _ => none
  | _, _ => g

/-- After a comparison only its outcome is written. -/
def allows (q : Request) : Option Comparison → Command → Prop
  | none, .code (.setCode _ payload _) => presented q = none ∧ payload.attempts = 0
  | none, .code (.delCode _) => False
  | none, _ => True
  | some seen, .code (.ttlCode key) => key = seen.key ∧ seen.verdict = .wrong
  | some seen, .code (.setCode key payload _) => key = seen.key ∧ seen.verdict = .wrong ∧
    seen.payload.attempts < 4 ∧ payload = ⟨seen.payload.digest, seen.payload.attempts+1⟩
  | some seen, .code (.delCode key) => key = seen.key ∧ seen.verdict ≠ .wrong
  | some _, _ => False

def protocol (lib : Libraries) (q : Request) : Protocol Command Reply Failure (Option Comparison) :=
  ⟨allows q, next lib q⟩

/-- A request that presents a code ends with nothing left to write. -/
def contract (lib : Libraries) : Contract Command Reply Failure Answer Request (Option Comparison)
    where
  start := none
  protocol := fun _ q => protocol lib q
  post := fun q g _ => presented q ≠ none → g = none

/-! ## The code keeps the contract -/

def otherParts : List Part := [.name, .random, .clock, .order, .session, .nonce, .throttle,
  .filter, .rebuild, .lock, .database, .account, .snapshot, .transaction, .password, .broker,
  .provider]

variable (lib : Libraries) (settings : Settings) (q : Request)

variable {A B : Type}

/-- However the program ends, it has no outcome left to write. -/
def Settles (p : Act A) : Prop := Keeps (protocol lib q) p none (fun g _ => g = none)

theorem settles_pure (a : A) : Settles lib q (pure a) := rfl

theorem settles_throw (e : Failure) : Settles lib q (throw e : Act A) := rfl

theorem settles_ofResult (r : Except Failure A) : Settles lib q (ofResult r : Act A) :=
  (keeps_ofResult _ _ _).mpr rfl

theorem settles_bind {p : Act A} {f : A → Act B} (hp : Settles lib q p)
    (hf : ∀ a, Settles lib q (f a)) : Settles lib q (p >>= f) := by
  refine (keeps_bind _ _ _ _).mpr (keeps_mono _ _ (fun g r hg => ?_) hp)
  subst hg
  cases r with
  | ok a => exact hf a
  | error e => rfl

theorem settles_map {f : A → B} {p : Act A} (hp : Settles lib q p) : Settles lib q (f <$> p) :=
  settles_bind lib q hp (fun a => settles_pure lib q (f a))

theorem settles_tryCatch {p : Act A} {handler : Failure → Act A} (hp : Settles lib q p)
    (hh : ∀ e, Settles lib q (handler e)) : Settles lib q (tryCatchThe Failure p handler) := by
  refine (keeps_tryCatch _ _ _ _).mpr (keeps_mono _ _ (fun g r hg => ?_) hp)
  subst hg
  cases r with
  | ok a => rfl
  | error e => exact hh e

theorem settles_invoke {c : Command} (ha : allows q none c)
    (hn : ∀ reply, next lib q none c reply = none) : Settles lib q (invoke c) :=
  (keeps_invoke _ _ _).mpr ⟨ha, hn⟩

theorem settles_within {p : Act A} {parts : List Part} (hp : Within parts p)
    (ho : parts ⊆ otherParts) : Settles lib q p := by
  apply keeps_of_only _ (within_mono ho hp)
  · intro c hc
    cases c with
    | code c => simp [part, otherParts] at hc
    | _ => exact ⟨trivial, fun reply => rfl⟩
  · exact fun _ => rfl

theorem settles_consumeCode (email : Email) (purpose : Purpose) (code : String)
    (hq : presented q = some code) : Settles lib q (consumeCode lib email purpose code) := by
  refine ⟨trivial, fun found => ?_⟩
  rcases found with e | _ | ⟨digest, attempts⟩
  · rfl
  · rfl
  · show Keeps (protocol lib q) _
      (some ⟨⟨email, purpose⟩, ⟨digest, attempts⟩, verdict lib q ⟨digest, attempts⟩⟩) _
    dsimp only [ofResult, Calls.bind]
    split
    case isTrue hlocked =>
      rw [show verdict lib q ⟨digest, attempts⟩ = .locked from if_pos hlocked]
      refine ⟨⟨rfl, by simp⟩, fun reply => ?_⟩
      cases reply <;> rfl
    case isFalse hfree =>
      have hlt : attempts < 4 := Nat.lt_of_not_le hfree
      split
      case isTrue hne =>
        have hv : verdict lib q ⟨digest, attempts⟩ = .wrong := by
          simp [verdict, hfree, hq, Ne.symm hne]
        rw [hv]
        refine ⟨⟨rfl, rfl⟩, fun ttl => ?_⟩
        rcases ttl with e | ttl
        · rfl
        · refine ⟨⟨rfl, rfl, hlt, rfl⟩, fun reply => ?_⟩
          cases reply <;> rfl
      case isFalse he =>
        have hv : verdict lib q ⟨digest, attempts⟩ = .right := by
          simp only [ne_eq, not_not] at he
          simp [verdict, hfree, hq, he]
        rw [hv]
        refine ⟨⟨rfl, by simp⟩, fun reply => ?_⟩
        cases reply <;> rfl

theorem settles_sendCode (email : Email) (purpose : Purpose) (hq : presented q = none) :
    Settles lib q (sendCode lib settings email purpose) := by
  apply settles_bind
  · exact settles_invoke lib q trivial (fun reply => by cases reply <;> rfl)
  · intro fresh
    split
    · exact settles_throw lib q _
    · apply settles_bind
      · exact settles_map lib q (settles_invoke lib q trivial (fun reply => rfl))
      · intro number
        apply settles_bind
        · exact settles_invoke lib q trivial (fun reply => rfl)
        · intro now
          apply settles_bind
          · exact settles_ofResult lib q _
          · intro expiresAt
            apply settles_tryCatch
            · apply settles_bind
              · exact settles_invoke lib q ⟨hq, rfl⟩ (fun reply => by cases reply <;> rfl)
              · intro _
                apply settles_bind
                · exact settles_ofResult lib q _
                · exact fun job => settles_invoke lib q trivial (fun reply => rfl)
            · intro e
              apply settles_bind
              · exact settles_invoke lib q trivial (fun reply => by cases reply <;> rfl)
              · exact fun _ => settles_throw lib q e

theorem settles_createAccount (f : FilterSettings) (session : ℕ) (email password : String)
    (hq : presented q = none) :
    Settles lib q (createAccount lib settings f session email password) := by
  apply settles_bind
  · exact settles_invoke lib q trivial (fun reply => rfl)
  · intro h
    apply settles_bind
    · exact settles_within lib q (createUser_within session email (some h) false) (by decide)
    · intro user
      apply settles_bind
      · exact settles_within lib q (remember_within f email) (by decide)
      · intro _
        apply settles_bind
        · exact settles_sendCode lib settings q email .verify hq
        · exact fun _ => settles_invoke lib q trivial (fun reply => rfl)

theorem settles_signup (f : FilterSettings) (session : ℕ) (email password : String)
    (hq : presented q = none) : Settles lib q (signup lib settings f session email password) := by
  apply settles_bind
  · exact settles_ofResult lib q _
  · intro email
    apply settles_bind
    · exact settles_ofResult lib q _
    · intro _
      apply settles_bind
      · exact settles_within lib q (emailTaken_within f email) (by decide)
      · intro taken
        split
        · exact settles_throw lib q _
        · apply settles_tryCatch
          · exact settles_createAccount lib settings q f session email password hq
          · intro e
            apply settles_bind
            · exact settles_within lib q (rollback_within session) (by decide)
            · intro _
              split
              · apply settles_bind
                · exact settles_within lib q (remember_within f email) (by decide)
                · exact fun _ => settles_throw lib q _
              · exact settles_throw lib q e

theorem settles_askCode (purpose : Purpose) (due : User → Prop) [DecidablePred due]
    (email : String) (hq : presented q = none) :
    Settles lib q (askCode lib settings purpose due email) := by
  apply settles_bind
  · exact settles_ofResult lib q _
  · intro email
    apply settles_bind
    · exact settles_within lib q (byEmail_within email) (by decide)
    · intro found
      cases found with
      | none => exact settles_pure lib q _
      | some user =>
        dsimp only
        split
        · apply settles_tryCatch
          · exact settles_sendCode lib settings q _ _ hq
          · exact fun _ => settles_pure lib q _
        · exact settles_pure lib q _

theorem settles_presentCode (purpose : Purpose) (message email code : String)
    {accepted : User → Act Unit} (hq : presented q = some code)
    (h : ∀ user, Settles lib q (accepted user)) :
    Settles lib q (presentCode lib purpose message email code accepted) := by
  apply settles_bind
  · exact settles_ofResult lib q _
  · intro email
    apply settles_bind
    · exact settles_within lib q (byEmail_within email) (by decide)
    · intro found
      cases found with
      | none => exact settles_throw lib q _
      | some user =>
        apply settles_bind
        · exact settles_consumeCode lib q user.email purpose code hq
        · intro accepted
          split
          · exact h user
          · exact settles_throw lib q _

theorem settles_verifyEmail (session : ℕ) (email code : String) (hq : presented q = some code) :
    Settles lib q (verifyEmail lib session email code) := by
  rw [verifyEmail_eq]
  apply settles_presentCode lib q .verify _ email code hq
  intro user
  apply settles_bind
  · exact settles_invoke lib q trivial (fun reply => rfl)
  · exact fun now => settles_within lib q (commit_within session _ rfl) (by decide)

theorem settles_resetPassword (session : ℕ) (email code password : String)
    (hq : presented q = some code) :
    Settles lib q (resetPassword lib session email code password) := by
  rw [resetPassword_eq]
  apply settles_bind
  · exact settles_ofResult lib q _
  · intro _
    apply settles_presentCode lib q .reset _ email code hq
    intro user
    apply settles_bind
    · exact settles_invoke lib q trivial (fun reply => rfl)
    · intro h
      apply settles_bind
      · exact settles_invoke lib q trivial (fun reply => rfl)
      · exact fun _ => settles_within lib q (revokeAll_within user.id) (by decide)

theorem settles_handled (session : ℕ) : Settles lib q (handled lib settings session q) := by
  have status : ∀ {B : Type} {p : Act B} (a : Answer), Settles lib q p →
      Settles lib q (p >>= fun _ => pure a) :=
    fun a hp => settles_bind lib q hp (fun _ => settles_pure lib q a)
  have other : ∀ {B : Type} {parts : List Part} {p : Act B}, Within parts p →
      parts ⊆ otherParts → Settles lib q p := fun hp ho => settles_within lib q hp ho
  have throttled : ∀ client scope limit {B : Type} {p : Act B}, Settles lib q p →
      Settles lib q (throttle lib settings client scope limit >>= fun _ => p) :=
    fun client scope limit _ _ hp => settles_bind lib q
      (other (throttle_within lib settings client scope limit) (by decide)) (fun _ => hp)
  cases q with
  | emailAvailable f email client =>
    exact settles_map lib _ (other (isAvailable_within lib settings f email client) (by decide))
  | signup f email password client =>
    apply throttled
    exact status _ (settles_signup lib settings _ f session email password rfl)
  | login email password =>
    exact settles_map lib _ (other (login_within lib settings email password) (by decide))
  | verifyEmail email code => exact status _ (settles_verifyEmail lib _ session email code rfl)
  | resendVerification email =>
    apply status
    rw [sendVerification_eq]
    exact settles_askCode lib settings _ _ _ email rfl
  | forgotPassword email client =>
    apply throttled
    apply status
    rw [forgotPassword_eq]
    exact settles_askCode lib settings _ _ _ email rfl
  | resetPassword email code password =>
    exact status _ (settles_resetPassword lib _ session email code password rfl)
  | changePassword user current new =>
    exact status _ (other (changePassword_within lib session user current new) (by decide))
  | refresh value => exact settles_map lib _ (other (refresh_within lib settings value) (by decide))
  | logout value =>
    simp only [handled]
    split
    · exact settles_pure lib _ _
    · exact status _ (other (revokeRefresh_within lib value) (by decide))
  | logoutAll user => exact status _ (other (revokeAll_within user) (by decide))
  | oauthChallenge provider =>
    exact settles_map lib _ (other (createChallenge_within settings provider) (by decide))
  | oauthLogin f provider idToken nonce =>
    exact settles_map lib _
      (other (oauthLogin_within lib settings f session provider idToken nonce) (by decide))
  | warm f => exact status _ (other (warm_within lib f) (by decide))

theorem settles_serve (session : ℕ) : Settles lib q (serve lib settings session q) := by
  have rolled : Settles lib q (rollback session) :=
    settles_within lib q (rollback_within session) (by decide)
  apply settles_bind
  · apply settles_tryCatch lib q (settles_handled lib settings q session)
    exact fun e => settles_bind lib q rolled (fun _ => settles_throw lib q e)
  · exact fun answer => settles_bind lib q rolled (fun _ => settles_pure lib q answer)

theorem obeys : Obeys (service lib settings) (contract lib) where
  program := fun i q => keeps_mono _ _ (fun _ _ hg _ => hg) (settles_serve lib settings q i)
  cancelled := by
    intro i q p hp g
    cases q with
    | warm f =>
      cases hp
      exact fun hq => absurd rfl hq
    | _ => cases hp

end Gamely.CodeContract
