import Gamely.AccountWrites

/-!
# The mails a request has written

A code leaves a request only by the mail of the key it has just been stored under, and the
address of the key is the one the request names.
-/

set_option autoImplicit false

namespace Gamely.CodeMails
open Gamely.Calls Gamely.Stores Gamely.EmailJobs Gamely.Services Gamely.TokenService
open Gamely.EmailFilter Gamely.AuthService Gamely.OAuthService Gamely.Requests
open Gamely.DateTimes Gamely.Footprints Gamely.Interleaving Gamely.Pasts Gamely.SessionOrigins

variable (lib : Libraries) (settings : Settings)

/-- The request has a code sent to the address it names: to the account it has just created,
or to one it has read that is due a code of that purpose. -/
def Asked (before : Before) (key : CodeKey) : Request → Prop
  | .signup _ email _ _ => key.purpose = .verify ∧ normalizeEmail lib email = .ok key.email ∧
      ∃ session row, ⟨.database (.createUser session row), .ok ()⟩ ∈ before ∧
        row.email = key.email
  | .resendVerification email => key.purpose = .verify ∧ ∃ address row,
      normalizeEmail lib email = .ok address ∧ row.email = key.email ∧
        ⟨.database (.byEmail address), .ok (some row)⟩ ∈ before ∧ row.emailVerifiedAt = none
  | .forgotPassword email _ => key.purpose = .reset ∧ ∃ address row,
      normalizeEmail lib email = .ok address ∧ row.email = key.email ∧
        ⟨.database (.byEmail address), .ok (some row)⟩ ∈ before ∧ row.passwordHash ≠ none
  | _ => False

def fieldsOf (key : CodeKey) (n : ℕ) (expiresAt : DateTime) : JobFields where
  recipient := key.email
  template := key.purpose.text
  code := sixDigits n
  expiresAt := expiresAt

/-- The job carries the number that was drawn, once its digest is stored under the key. -/
def Coded (before : Before) (key : CodeKey) (job : EmailJob) : Prop := ∃ n now expiresAt,
  ⟨.code (.setCooldown key 60), .ok true⟩ ∈ before ∧ ⟨.randbelow 1000000, .ok n⟩ ∈ before ∧
    ⟨.utcnow, .ok now⟩ ∈ before ∧ later now settings.authCodeMinutes = .ok expiresAt ∧
    ⟨.code (.setCode key ⟨lib.sha256 (sixDigits n), 0⟩ (60*settings.authCodeMinutes)),
      .ok ()⟩ ∈ before ∧
    job.fields = fieldsOf key n expiresAt

def allows (q : Request) (before : Before) : Command → Prop
  | .publish job => ∃ key, Asked lib before key q ∧ Coded lib settings before key job
  | _ => True

abbrev protocol (q : Request) : Protocol Command Reply Failure Before :=
  remembering some (allows lib settings q)

variable {lib settings} {q : Request} {A : Type}

/-! ## Calls that publish nothing -/

/-- A call that publishes nothing. -/
def Mailless : Command → Prop
  | .publish _ => False
  | _ => True

/-- What was done before is remembered, the publishing aside. -/
def Recalls (before after : Before) : Prop :=
  ∀ step ∈ before, Mailless step.command → step ∈ after

theorem recalls_of_subset {before after : Before} (h : before ⊆ after) : Recalls before after :=
  fun _ hs _ => h hs

theorem asked_mono {before after : Before} (h : Recalls before after) {key : CodeKey}
    (ha : Asked lib before key q) : Asked lib after key q := by
  cases q with
  | signup f email password client =>
    obtain ⟨hp, hn, session, row, hrow, he⟩ := ha
    exact ⟨hp, hn, session, row, h _ hrow trivial, he⟩
  | resendVerification email =>
    obtain ⟨hp, address, row, hn, he, hrow, hdue⟩ := ha
    exact ⟨hp, address, row, hn, he, h _ hrow trivial, hdue⟩
  | forgotPassword email client =>
    obtain ⟨hp, address, row, hn, he, hrow, hdue⟩ := ha
    exact ⟨hp, address, row, hn, he, h _ hrow trivial, hdue⟩
  | _ => exact ha

theorem coded_mono {before after : Before} (h : Recalls before after) {key : CodeKey}
    {job : EmailJob} (hc : Coded lib settings before key job) :
    Coded lib settings after key job := by
  obtain ⟨n, now, expiresAt, hcool, hn, hnow, hlater, hstored, hfields⟩ := hc
  exact ⟨n, now, expiresAt, h _ hcool trivial, h _ hn trivial, h _ hnow trivial, hlater,
    h _ hstored trivial, hfields⟩

theorem allows_mailless (before : Before) (c : Command) (hc : Mailless c) :
    allows lib settings q before c := by
  cases c with
  | publish job => exact absurd hc id
  | _ => trivial

theorem mailless_within {parts : List Part} {p : Act A} (hp : Within parts p)
    (hb : .broker ∉ parts) : Only Mailless p := by
  refine only_mono (fun c hc => ?_) p hp
  cases c with
  | publish job => exact absurd hc hb
  | _ => trivial

theorem ensures_mailless {p : Act A} (hp : Only Mailless p) (before : Before) :
    Ensures (protocol lib settings q) p before (fun _ _ => True) :=
  ensures_mono (fun _ _ _ => trivial) (ensures_continues allows_mailless hp before)

theorem mailless_database (c : DatabaseCall) :
    Only Mailless (invoke (Command.database c) : Act c.Reply) := only_invoke _ trivial

theorem mailless_verifyEmail (session : ℕ) (email code : String) :
    Only Mailless (verifyEmail lib session email code) := by
  refine only_bind _ _ (only_ofResult _) (fun address =>
    only_bind _ _ (mailless_database _) (fun found => ?_))
  rcases found with _ | user
  · exact only_throw _
  · refine only_bind _ _ (mailless_within (consumeCode_within lib user.email .verify code)
      (by decide)) (fun accepted => ?_)
    split
    · exact only_bind _ _ (only_invoke Command.utcnow trivial) (fun now => mailless_database _)
    · exact only_throw _

/-! ## Sending a code -/

theorem ensures_deliverCode {before : Before} {key : CodeKey} {n now : ℕ} {expiresAt : DateTime}
    (ha : Asked lib before key q)
    (hcool : ⟨.code (.setCooldown key 60), .ok true⟩ ∈ before)
    (hn : ⟨.randbelow 1000000, .ok n⟩ ∈ before) (hnow : ⟨.utcnow, .ok now⟩ ∈ before)
    (hlater : later now settings.authCodeMinutes = .ok expiresAt) :
    Ensures (protocol lib settings q) (deliverCode lib settings key (sixDigits n) expiresAt)
      before (fun _ _ => True) := by
  refine ensures_read allows_mailless trivial (fun _ hstored => ?_)
  refine ensures_bind (ensures_ofResult _ _ (fun job hjob => ?_))
  have hsub := continues_subset hstored
  have hasked := asked_mono (recalls_of_subset hsub) ha
  exact ensures_invoke ⟨key, hasked, n, now, expiresAt, hsub hcool, hsub hn, hsub hnow, hlater,
    mem_last _ _, make_fields hjob⟩ (fun _ => trivial)

theorem ensures_sendCode {before : Before} {email : Email} {purpose : Purpose}
    (ha : Asked lib before ⟨email, purpose⟩ q) :
    Ensures (protocol lib settings q) (sendCode lib settings email purpose) before
      (fun _ _ => True) := by
  have cleaned : ∀ after e, Ensures (protocol lib settings q)
      (codes (.delCooldownAndCode ⟨email, purpose⟩) >>= fun _ => throw e) after
      (fun (_ : Before) (_ : Unit) => True) :=
    fun after e => ensures_bind (ensures_invoke trivial (fun _ => ensures_throw e _))
  refine ensures_read allows_mailless trivial (fun fresh hfresh => ?_)
  split
  · exact ensures_throw _ _
  case isFalse hnew =>
    obtain rfl : fresh = true := by simpa using hnew
    refine ensures_bind (ensures_map (ensures_invoke trivial (fun n => ?_)))
    refine ensures_read allows_mailless trivial (fun now hnow => ?_)
    refine ensures_bind (ensures_ofResult _ _ (fun expiresAt hlater => ?_))
    let cooled : Before := before ++ [⟨.code (.setCooldown ⟨email, purpose⟩ 60), .ok true⟩]
    have hdrawn : Continues Mailless cooled (cooled ++ [⟨.randbelow 1000000, .ok n⟩]) :=
      continues_step cooled trivial (.ok n)
    have hsub := continues_subset (continues_trans hfresh (continues_trans hdrawn hnow))
    have hasked := asked_mono (recalls_of_subset hsub) ha
    refine ensures_tryCatch (ensures_deliverCode hasked ?_ ?_ (mem_last _ _) hlater)
      (fun e after => cleaned after e)
    · exact continues_subset (continues_trans hdrawn hnow) (mem_last _ _)
    · exact continues_subset hnow (mem_last _ _)

/-! ## Requests -/

theorem ensures_createAccount (f : FilterSettings) (session : ℕ) {email : Email}
    (password : String) {before : Before}
    (ha : ∀ row after, before ⊆ after → row.email = email →
      ⟨.database (.createUser session row), .ok ()⟩ ∈ after →
      Asked lib after ⟨email, .verify⟩ q) :
    Ensures (protocol lib settings q) (createAccount lib settings f session email password) before
      (fun _ _ => True) := by
  refine ensures_read allows_mailless trivial (fun h hhash => ?_)
  refine ensures_bind (ensures_after allows_mailless
    (mailless_within (emailVerifiedAt_within false) (by decide))
    (fun verifiedAt after hafter => ?_))
  refine ensures_read allows_mailless trivial (fun id hid => ?_)
  refine ensures_read allows_mailless trivial (fun _ hcreated => ensures_pure _ _ ?_)
  refine ensures_after allows_mailless (mailless_within (remember_within f email) (by decide))
    (fun _ last hlast => ?_)
  have hall := continues_trans hhash (continues_trans hafter (continues_trans hid
    (continues_trans hcreated hlast)))
  refine ensures_bind (ensures_mono
    (fun ending _ _ => ensures_mailless (mailless_database _) ending)
    (ensures_sendCode (ha ⟨id, email, some h, verifiedAt⟩ last (continues_subset hall) rfl ?_)))
  exact continues_subset hlast (mem_last _ _)

theorem ensures_signup (f : FilterSettings) (session : ℕ) (email password client : String)
    {before : Before} :
    Ensures (protocol lib settings (.signup f email password client))
      (signup lib settings f session email password) before (fun _ _ => True) := by
  refine ensures_bind (ensures_ofResult _ _ (fun address ha => ?_))
  refine ensures_bind (ensures_ofResult _ _ (fun _ _ => ?_))
  refine ensures_after allows_mailless (mailless_within (emailTaken_within f address) (by decide))
    (fun taken after _ => ?_)
  split
  · exact ensures_throw _ _
  · refine ensures_tryCatch (ensures_createAccount f session password ?_) (fun e last => ?_)
    · exact fun row last _ he hrow => ⟨rfl, ha, session, row, hrow, he⟩
    · refine ensures_mailless (only_bind _ _ (mailless_database _) (fun _ => ?_)) last
      split
      · exact only_bind _ _ (mailless_within (remember_within f address) (by decide))
          (fun _ => only_throw _)
      · exact only_throw _

theorem ensures_askCode (purpose : Purpose) (due : User → Prop) [DecidablePred due]
    (email : String) (ha : ∀ address row before, normalizeEmail lib email = .ok address →
      ⟨.database (.byEmail address), .ok (some row)⟩ ∈ before → due row →
      Asked lib before ⟨row.email, purpose⟩ q) (before : Before) :
    Ensures (protocol lib settings q) (askCode lib settings purpose due email) before
      (fun _ _ => True) := by
  refine ensures_bind (ensures_ofResult _ _ (fun address hn => ?_))
  refine ensures_read allows_mailless trivial (fun found hfound => ?_)
  rcases found with _ | row
  · exact ensures_pure _ _ trivial
  · dsimp only
    split
    case isTrue hdue =>
      exact ensures_tryCatch (ensures_sendCode (ha address row _ hn (mem_last _ _) hdue))
        (fun _ after => ensures_pure _ _ trivial)
    case isFalse => exact ensures_pure _ _ trivial

theorem ensures_handled (i : ℕ) (q : Request) :
    Ensures (protocol lib settings q) (handled lib settings i q) [] (fun _ _ => True) := by
  have others : ∀ q, .broker ∉ footprint q →
      Ensures (protocol lib settings q) (handled lib settings i q) [] (fun _ _ => True) :=
    fun q hb => ensures_mailless (mailless_within (handled_within lib settings i q) hb) []
  have throttled : ∀ client scope limit, Only Mailless (throttle lib settings client scope limit) :=
    fun client scope limit =>
      mailless_within (throttle_within lib settings client scope limit) (by decide)
  have status : ∀ {p : Act Unit} {q : Request} {before : Before} (a : Answer),
      Ensures (protocol lib settings q) p before (fun _ _ => True) →
      Ensures (protocol lib settings q) (p >>= fun _ => pure a) before (fun _ _ => True) :=
    fun a hp => ensures_bind (ensures_mono (fun _ _ _ => ensures_pure a _ trivial) hp)
  cases q with
  | signup f email password client =>
    exact ensures_after allows_mailless (throttled client _ _) (fun _ after _ =>
      status _ (ensures_signup f i email password client))
  | resendVerification email =>
    refine status _ (ensures_askCode .verify _ email ?_ [])
    exact fun address row before hn hrow hdue => ⟨rfl, address, row, hn, rfl, hrow, hdue⟩
  | forgotPassword email client =>
    refine ensures_after allows_mailless (throttled client _ _) (fun _ after _ =>
      status _ (ensures_askCode .reset _ email ?_ after))
    exact fun address row before hn hrow hdue => ⟨rfl, address, row, hn, rfl, hrow, hdue⟩
  | verifyEmail email code =>
    exact status _ (ensures_mailless (mailless_verifyEmail i email code) [])
  | _ =>
    apply others
    simp [footprint]

theorem ensures_serve (i : ℕ) (q : Request) :
    Ensures (protocol lib settings q) (serve lib settings i q) [] (fun _ _ => True) := by
  have closing : ∀ {B : Type} (p : Act B) (before : Before), Only Mailless p →
      Ensures (protocol lib settings q) (rollback i >>= fun _ => p) before (fun _ _ => True) :=
    fun p before hp =>
      ensures_mailless (only_bind _ _ (mailless_database _) (fun _ => hp)) before
  exact ensures_bind (ensures_mono (fun after a _ => closing _ after (only_pure a))
    (ensures_tryCatch (ensures_handled i q) (fun e after => closing _ after (only_throw e))))

end Gamely.CodeMails
