import Gamely.Requests
import Gamely.Sequential

/-!
# Guessing which addresses have accounts

A caller without the password of an address and without a live code of it gets every
answer from a machine that has no accounts, no codes and no broker: only the clock and
the throttle counters. Two worlds that agree on these cannot be told apart.
-/

set_option autoImplicit false

namespace Gamely.Enumeration
open Gamely.Calls Gamely.Sequential Gamely.ExpiringStore Gamely.Stores Gamely.EmailJobs
open Gamely.Services Gamely.TokenService Gamely.EmailFilter Gamely.AuthService Gamely.Requests

variable (lib : Libraries) (settings : Settings)

/-- PostgreSQL and Redis answer; the broker takes a job or raises, each time anew. -/
def steady : Command → Choice → Choice
  | .publish _, x => x
  | _, x => { x with fail := false }

def performing (c : Command) (x : Choice) (w : World) :
    Option (Except Failure (Reply c) × World) :=
  perform lib c (steady c x) w

/-- The requests that answer for an address without a session. -/
inductive Probe where
  | login (email password : String)
  | verifyEmail (email code : String)
  | resendVerification (email : String)
  | forgotPassword (email client : String)
  | resetPassword (email code password : String)

def Probe.request : Probe → Request
  | .login email password => .login email password
  | .verifyEmail email code => .verifyEmail email code
  | .resendVerification email => .resendVerification email
  | .forgotPassword email client => .forgotPassword email client
  | .resetPassword email code password => .resetPassword email code password

def Probe.email : Probe → String
  | .login email _ => email
  | .verifyEmail email _ => email
  | .resendVerification email => email
  | .forgotPassword email _ => email
  | .resetPassword email _ _ => email

/-- A probe, the number of its database session and the milliseconds before it. -/
structure Attempt where
  after : ℕ
  session : ℕ
  probe : Probe

/-! ## The caller -/

def account? (a : Email) (w : World) : Option User :=
  w.database.users.find? (fun u => u.email = a)

/-- The code would be accepted. -/
def live (w : World) (key : CodeKey) (code : String) : Bool :=
  match get w.now w.codes.code key with
  | some payload => payload.digest = lib.sha256 code && payload.attempts < 4
  | none => false

/-- The probe presents the password of the address or a live code of it. -/
def presents (a : Email) (w : World) : Probe → Bool
  | .login _ password => (account? a w).any (fun u => passwordMatches lib u password)
  | .verifyEmail _ code => live lib w ⟨a, .verify⟩ code
  | .resetPassword _ code _ => live lib w ⟨a, .reset⟩ code
  | .resendVerification _ => false
  | .forgotPassword .. => false

/-- Nothing is promised of an attempt that presents the password or a live code. -/
def execute (a : Email) (t : Attempt) (w : World)
    (post : Except Failure Answer → World → Prop) : Prop :=
  presents lib a (passed (.elapse t.after) w) t.probe = false →
    Alone (performing lib) (fun _ => True) (serve lib settings t.session t.probe.request)
      (passed (.elapse t.after) w) post

/-! ## The machine without accounts -/

structure Visible where
  now : ℕ
  throttles : Store (String × String) ℕ

def visible (w : World) : Visible := ⟨w.now, w.throttles⟩

def forgotHits (m : Visible) (client : String) : ℕ × Store (String × String) ℕ :=
  windowCount m.now m.throttles ("forgot-password", clientDigest lib client)
    settings.authThrottleWindowSeconds

def respond (m : Visible) : Probe → Except Failure Answer × Visible
  | .login .. => (.error (.unauthorized "The email address or password is incorrect."), m)
  | .verifyEmail .. => (.error (.badRequest "The verification code is invalid or expired."), m)
  | .resendVerification _ => (.ok (.status "verification_sent"), m)
  | .forgotPassword _ client =>
    (if settings.authSignupLimit < (forgotHits lib settings m client).1 then
      .error (.tooManyRequests "Too many requests. Please try again later.")
    else .ok (.status "reset_sent"), { m with throttles := (forgotHits lib settings m client).2 })
  | .resetPassword _ _ password => match checkPassword password with
    | .error e => (.error e, m)
    | .ok _ => (.error (.badRequest "The reset code is invalid or expired."), m)

def step (m : Visible) (t : Attempt) (_ : Unit) : Except Failure Answer × Visible :=
  respond lib settings { m with now := m.now+t.after } t.probe

/-! ## Calls -/

variable {lib settings} {w : World} {a : Email} {A : Type}

variable (lib) in
abbrev Ends (p : Act A) (w : World) (post : Except Failure A → World → Prop) : Prop :=
  Alone (performing lib) (fun _ => True) p w post

theorem ends_codes (c : CodeCall) {post : Except Failure c.Reply → World → Prop}
    (h : post (.ok (c.perform w.now w.codes).1) { w with codes := (c.perform w.now w.codes).2 }) :
    Ends lib (codes c) w post :=
  alone_settled {} (fun _ => rfl) h

theorem ends_byEmail {post : Except Failure (Option User) → World → Prop}
    (h : post (.ok (account? a w)) w) : Ends lib (byEmail a) w post :=
  alone_settled {} (fun _ => rfl) h

/-- Calls the public does not see. -/
def quiet : Command → Prop
  | .code _ => True
  | .randbelow bound => 0 < bound
  | .utcnow => True
  | .publish _ => True
  | _ => False

theorem quiet_answered {c : Command} (w : World) (hc : quiet c) :
    ∃ x r, performing lib c x w = some r := by
  cases c with
  | randbelow bound =>
    have hb : 0 < bound := hc
    exact ⟨{}, (.ok 0, w), by simp [performing, perform, steady, answer, hb]⟩
  | code | utcnow | publish => exact ⟨{}, _, rfl⟩
  | tokenUrlsafe | uuid4 | hash | iterate | session | setNonce | delNonce | fixedWindow | filter
  | database | idToken => exact hc.elim

theorem quiet_step {c : Command} {x : Choice} {w' : World} {r : Except Failure (Reply c)}
    (hc : quiet c) (h : performing lib c x w = some (r, w')) : visible w' = visible w := by
  rcases perform_cases h with ⟨-, -, -, rfl⟩ | ⟨-, h⟩
  · rfl
  · cases c with
    | randbelow bound =>
      simp only [answer] at h
      split at h <;> cases h
      rfl
    | code | utcnow | publish =>
      cases h
      rfl
    | tokenUrlsafe | uuid4 | hash | iterate | session | setNonce | delNonce | fixedWindow | filter
    | database | idToken => exact hc.elim

theorem ends_quiet {p : Act A} (hp : Only quiet p) :
    Ends lib p w (fun _ w' => visible w' = visible w) := by
  apply alone_of_only (I := fun w' => visible w' = visible w) _ _ hp rfl
  · intro c w₁ hc _
    obtain ⟨x, r, h⟩ := quiet_answered w₁ hc
    exact ⟨x, r, trivial, h⟩
  · intro c x w₁ r w₂ hc _ h₁ hr
    exact (quiet_step hc hr).trans h₁

theorem sendCode_quiet (email : Email) (purpose : Purpose) :
    Only quiet (sendCode lib settings email purpose) := by
  have hc : ∀ c, Only quiet (codes c) := fun c => only_invoke _ trivial
  apply only_bind _ _ (hc _)
  intro fresh
  split
  · exact only_throw _
  · apply only_bind _ _ (only_map _ _ (only_invoke _ (by simp [quiet])))
    intro code
    apply only_bind _ _ (only_invoke _ trivial)
    intro now
    apply only_bind _ _ (only_ofResult _)
    intro expiresAt
    apply only_tryCatch
    · apply only_bind _ _ (hc _)
      intro _
      apply only_bind _ _ (only_ofResult _)
      intro job
      exact only_invoke _ trivial
    · intro e
      exact only_bind _ _ (hc _) (fun _ => only_throw _)

/-! ## Codes -/

/-- A code is sent, refused or lost, and nobody is told which. -/
theorem ends_sendCode_silent (email : Email) (purpose : Purpose) :
    Ends lib (tryCatchThe Failure (sendCode lib settings email purpose) (fun _ => return ())) w
      (fun r w' => r = .ok () ∧ visible w' = visible w) := by
  apply alone_tryCatch
  apply alone_mono _ (ends_quiet (sendCode_quiet email purpose))
  intro r w' hv
  cases r with
  | ok _ => exact ⟨rfl, hv⟩
  | error e => exact alone_pure _ ⟨rfl, hv⟩

/-- A code that is not live is refused, whatever is stored and however often it was
tried. -/
theorem ends_consumeCode (email : Email) (purpose : Purpose) (code : String)
    (h : live lib w ⟨email, purpose⟩ code = false) :
    Ends lib (consumeCode lib email purpose code) w
      (fun r w' => r = .ok false ∧ visible w' = visible w) := by
  apply alone_bind
  apply ends_codes
  unfold live at h
  simp only [CodeCall.perform]
  cases hg : get w.now w.codes.code ⟨email, purpose⟩ with
  | none => exact alone_pure _ ⟨rfl, rfl⟩
  | some payload =>
    obtain ⟨digest, attempts⟩ := payload
    rw [hg] at h
    dsimp only at h ⊢
    split
    · apply alone_bind
      apply ends_codes
      exact alone_pure _ ⟨rfl, rfl⟩
    · split
      · apply alone_bind
        apply ends_codes
        apply alone_bind
        apply ends_codes
        exact alone_pure _ ⟨rfl, rfl⟩
      case isFalse.isFalse htries hsame =>
        exfalso
        simp [of_not_not hsame, not_le.mp htries] at h

/-! ## Requests -/

/-- Hearing what the machine answers, and leaving what it leaves. -/
abbrev Hears (lib : Libraries) (settings : Settings) (t : Probe) (w : World)
    (r : Except Failure Answer) (w' : World) : Prop :=
  (r, visible w') = respond lib settings (visible w) t

theorem ends_login {email password : String} (ha : normalizeEmail lib email = .ok a)
    (h : presents lib a w (.login email password) = false) :
    Ends lib (login lib settings email password) w (fun r w' =>
      r = .error (.unauthorized "The email address or password is incorrect.") ∧
      visible w' = visible w) := by
  apply alone_bind
  apply alone_ofResult
  rw [ha]
  apply alone_bind
  apply ends_byEmail
  unfold presents at h
  cases hu : account? a w with
  | none => exact alone_throw _ ⟨rfl, rfl⟩
  | some user =>
    have hp : passwordMatches lib user password = false := by simpa [hu] using h
    simp only [hp]
    exact alone_throw _ ⟨rfl, rfl⟩

theorem ends_askCode (purpose : Purpose) (due : User → Prop) [DecidablePred due] {email : String}
    (ha : normalizeEmail lib email = .ok a) :
    Ends lib (askCode lib settings purpose due email) w
      (fun r w' => r = .ok () ∧ visible w' = visible w) := by
  apply alone_bind
  apply alone_ofResult
  rw [ha]
  apply alone_bind
  apply ends_byEmail
  cases account? a w with
  | none => exact alone_pure _ ⟨rfl, rfl⟩
  | some user =>
    dsimp only
    split
    · exact ends_sendCode_silent _ _
    · exact alone_pure _ ⟨rfl, rfl⟩

theorem ends_presentCode (purpose : Purpose) (message code : String)
    {accepted : User → Act Unit} {email : String} (ha : normalizeEmail lib email = .ok a)
    (h : live lib w ⟨a, purpose⟩ code = false) :
    Ends lib (presentCode lib purpose message email code accepted) w
      (fun r w' => r = .error (.badRequest message) ∧ visible w' = visible w) := by
  apply alone_bind
  apply alone_ofResult
  rw [ha]
  apply alone_bind
  apply ends_byEmail
  cases hu : account? a w with
  | none => exact alone_throw _ ⟨rfl, rfl⟩
  | some user =>
    have hemail : user.email = a := by simpa using List.find?_some hu
    dsimp only
    apply alone_bind
    apply alone_mono _ (ends_consumeCode user.email purpose code (hemail ▸ h))
    rintro _ w' ⟨rfl, hv⟩
    exact alone_throw _ ⟨rfl, hv⟩

theorem ends_throttle (client : String) :
    Ends lib (throttle lib settings client "forgot-password" settings.authSignupLimit) w
      (fun r w' => visible w' = { visible w with
          throttles := (forgotHits lib settings (visible w) client).2 } ∧
        r = if settings.authSignupLimit < (forgotHits lib settings (visible w) client).1 then
          .error (.tooManyRequests "Too many requests. Please try again later.") else .ok ()) := by
  apply alone_bind
  apply alone_tryCatch
  apply alone_settled {} (fun _ => rfl)
  dsimp only
  split
  case isTrue h =>
    apply alone_throw
    exact ⟨rfl, (if_pos h).symm⟩
  case isFalse h =>
    apply alone_pure
    exact ⟨rfl, (if_neg h).symm⟩

theorem ends_handled (session : ℕ) (t : Probe) (ha : normalizeEmail lib t.email = .ok a)
    (h : presents lib a w t = false) :
    Ends lib (handled lib settings session t.request) w (Hears lib settings t w) := by
  cases t with
  | login email password =>
    apply alone_map
    apply alone_mono _ (ends_login ha h)
    rintro _ w' ⟨rfl, hv⟩
    exact Prod.ext rfl hv
  | verifyEmail email code =>
    apply alone_bind
    apply alone_mono _ (ends_presentCode .verify _ code ha h)
    rintro _ w' ⟨rfl, hv⟩
    exact Prod.ext rfl hv
  | resendVerification email =>
    apply alone_bind
    apply alone_mono _ (ends_askCode .verify _ ha)
    rintro _ w' ⟨rfl, hv⟩
    exact Prod.ext rfl hv
  | forgotPassword email client =>
    apply alone_bind
    apply alone_mono _ (ends_throttle client)
    rintro _ w₁ ⟨hv₁, rfl⟩
    by_cases hlimit : settings.authSignupLimit < (forgotHits lib settings (visible w) client).1
    · rw [if_pos hlimit]
      exact Prod.ext (if_pos hlimit).symm hv₁
    · rw [if_neg hlimit]
      apply alone_bind
      apply alone_mono _ (ends_askCode .reset _ ha)
      rintro _ w' ⟨rfl, hv⟩
      exact Prod.ext (if_neg hlimit).symm (hv.trans hv₁)
  | resetPassword email code password =>
    apply alone_bind
    rw [resetPassword_eq]
    apply alone_bind
    apply alone_ofResult
    simp only [Hears, respond]
    cases checkPassword password with
    | error e => rfl
    | ok _ =>
      apply alone_mono _ (ends_presentCode .reset _ code ha h)
      rintro _ w' ⟨rfl, hv⟩
      exact Prod.ext rfl hv

theorem ends_rollback (session : ℕ) :
    Ends lib (rollback session) w (fun r w' => r = .ok () ∧ visible w' = visible w) :=
  alone_settled {} (fun _ => rfl) ⟨rfl, rfl⟩

/-- The rollback that ends a request changes nothing the public sees. -/
theorem ends_serve (session : ℕ) (t : Probe) (ha : normalizeEmail lib t.email = .ok a)
    (h : presents lib a w t = false) :
    Ends lib (serve lib settings session t.request) w (Hears lib settings t w) := by
  apply alone_bind
  apply alone_tryCatch
  apply alone_mono _ (ends_handled session t ha h)
  intro r w₁ hr
  cases r with
  | ok answer =>
    dsimp only
    apply alone_bind
    apply alone_mono _ (ends_rollback session)
    rintro _ w' ⟨rfl, hv⟩
    apply alone_pure
    show (_, visible w') = _
    rw [hv]
    exact hr
  | error e =>
    dsimp only
    apply alone_bind
    apply alone_mono _ (ends_rollback session)
    rintro _ w' ⟨rfl, hv⟩
    apply alone_throw
    show (_, visible w') = _
    rw [hv]
    exact hr

/-! ## Sequences -/

theorem execute_mono (a : Email) (t : Attempt) (w : World)
    (post weaker : Except Failure Answer → World → Prop) (h : ∀ r w, post r w → weaker r w)
    (he : execute lib settings a t w post) : execute lib settings a t w weaker :=
  fun hout => alone_mono h (he hout)

theorem simulates_attempt (t : Attempt) (m : Visible) (w : World)
    (ha : normalizeEmail lib t.probe.email = .ok a) (hm : m = visible w) :
    execute lib settings a t w (fun r w' => ∃ n, r = (step lib settings m t n).1 ∧
      (step lib settings m t n).2 = visible w') := by
  intro hout
  apply alone_mono _ (ends_serve t.session t.probe ha hout)
  intro r w' hr
  subst hm
  exact ⟨(), congrArg Prod.fst hr, (congrArg Prod.snd hr).symm⟩

variable (lib settings) in
def answers (m : Visible) (attempts : List Attempt) : List (Except Failure Answer) :=
  (trace (step lib settings) m (attempts.zip (List.replicate attempts.length ()))).1

theorem hears_machine (attempts : List Attempt) (w : World)
    (ha : ∀ t ∈ attempts, normalizeEmail lib t.probe.email = .ok a) :
    Sequence (execute lib settings a) attempts w
      (fun heard _ => heard = answers lib settings (visible w) attempts) := by
  apply sequence_mono (execute_mono a) _ (sequence_simulates (execute_mono a)
    (fun t m w ht hm => simulates_attempt t m w ht hm) attempts (visible w) w ha rfl)
  rintro heard w' ⟨ns, hlength, rfl, -⟩
  have hns : ns = List.replicate attempts.length () :=
    List.eq_replicate_iff.mpr ⟨hlength, fun _ _ => rfl⟩
  rw [hns]
  rfl

/-- Two worlds with one clock and one set of throttle counters, whatever accounts, codes
and cooldowns they hold and whatever the broker does in either, give the same answers to
every sequence of attempts at an address without its password or a live code of it. -/
theorem accounts_hidden (lib : Libraries) (settings : Settings) (a : Email)
    (attempts : List Attempt)
    (ha : ∀ t ∈ attempts, normalizeEmail lib t.probe.email = .ok a) (w₁ w₂ : World)
    (hnow : w₁.now = w₂.now) (hthrottles : w₁.throttles = w₂.throttles) :
    Sequence (execute lib settings a) attempts w₁ (fun heard₁ _ =>
      Sequence (execute lib settings a) attempts w₂ (fun heard₂ _ => heard₁ = heard₂)) := by
  have hvisible : visible w₁ = visible w₂ := by
    simp only [visible, hnow, hthrottles]
  apply sequence_mono (execute_mono a) _ (hears_machine attempts w₁ ha)
  intro heard₁ _ h₁
  apply sequence_mono (execute_mono a) _ (hears_machine attempts w₂ ha)
  intro heard₂ _ h₂
  rw [h₁, h₂, hvisible]

/-- An address with no account, and the same with one. -/
theorem accounts_hidden_oneAccount :
    let attempts : List Attempt := [⟨0, 0, .login "a@b" "short"⟩, ⟨5, 1, .forgotPassword "a@b" "c"⟩,
      ⟨0, 2, .resetPassword "a@b" "999999" "another password"⟩]
    Sequence (execute plainLibraries plainSettings "a@b") attempts (World.fresh 0 ⟨[], [], []⟩)
      (fun heard₁ _ => Sequence (execute plainLibraries plainSettings "a@b") attempts
        (World.fresh 0 oneAccount) (fun heard₂ _ => heard₁ = heard₂)) :=
  accounts_hidden plainLibraries plainSettings "a@b" [⟨0, 0, .login "a@b" "short"⟩,
    ⟨5, 1, .forgotPassword "a@b" "c"⟩, ⟨0, 2, .resetPassword "a@b" "999999" "another password"⟩]
    (by decide) (World.fresh 0 ⟨[], [], []⟩) (World.fresh 0 oneAccount) rfl rfl

end Gamely.Enumeration
