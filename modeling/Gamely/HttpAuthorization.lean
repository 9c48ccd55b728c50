import Gamely.Grants
import Gamely.HttpRefinement
import Gamely.HttpResponses

/-!
# Who may do what

A password is replaced only in an exchange that proved the right to it: with a valid access
token of the account and its current password, or with the reset code stored for it. All
sessions of a user end only on a valid access token of that user or right after the
password was replaced, and a profile is shown to its own user.
-/

set_option autoImplicit false

namespace Gamely.HttpAuthorization
open Gamely.Calls Gamely.Stores Gamely.EmailJobs Gamely.Services Gamely.TokenService
open Gamely.EmailFilter Gamely.AuthService Gamely.OAuthService Gamely.Footprints
open Gamely.Requests Gamely.HttpMessages Gamely.Interleaving Gamely.Mirroring Gamely.Pasts

abbrev Before := List (Step Command Reply Failure)

variable (lib : Libraries) (settings : Settings) (digit : Char → Bool)

/-! ## Proofs of a right -/

/-- The access token of a request names a user, and was in force when the clock was read. -/
def Bearing (r : AuthController.HttpRequest) (before : Before) (user : UserId) : Prop :=
  ∃ value claims now, AuthController.bearer r.headers = some value ∧
    lib.decodeJwt value = some claims ∧ claims.sub = user ∧
    claims.iss = settings.authJwtIssuer ∧ claims.aud = settings.authJwtAudience ∧
    ⟨.utcnow, .ok now⟩ ∈ before ∧ 1000*claims.iat ≤ now ∧ now < 1000*claims.exp

/-- The current password of the row of the token's user, and a new one that is long enough. -/
def Changing (r : AuthController.HttpRequest) (before : Before) (user : UserId) (hash : Hash) :
    Prop :=
  ∃ row body, r.route = .changePassword ∧
    r.body.bind ChangePasswordRequest.parse = some body ∧
    Bearing lib settings r before user ∧
    ⟨.database (.byId user), .ok (some row)⟩ ∈ before ∧ row.id = user ∧
    passwordMatches lib row body.currentPassword = true ∧
    12 ≤ body.newPassword.val.length ∧ ⟨.hash body.newPassword, .ok hash⟩ ∈ before

/-- The reset code stored for the row of the address, not yet guessed at too often, and
removed before the password is replaced. -/
def Resetting (r : AuthController.HttpRequest) (before : Before) (user : UserId) (hash : Hash) :
    Prop :=
  ∃ address row payload body, r.route = .resetPassword ∧
    r.body.bind (ResetPasswordRequest.parse digit) = some body ∧
    normalizeEmail lib body.email = .ok address ∧
    ⟨.database (.byEmail address), .ok (some row)⟩ ∈ before ∧ row.id = user ∧
    ⟨.code (.getCode ⟨row.email, .reset⟩), .ok (some payload)⟩ ∈ before ∧
    payload.attempts < 4 ∧ payload.digest = lib.sha256 body.code ∧
    ⟨.code (.delCode ⟨row.email, .reset⟩), .ok ()⟩ ∈ before ∧
    12 ≤ body.password.val.length ∧ ⟨.hash body.password, .ok hash⟩ ∈ before

/-- All sessions of the user may end, which is when the index of its families is deleted: the
client asked for it with a valid token, or the password was just replaced. -/
def Leaving (r : AuthController.HttpRequest) (before : Before) (user : UserId) : Prop :=
  (r.route = .logoutAll ∧ Bearing lib settings r before user) ∨
    ∃ session hash, ⟨.database (.commit session [.passwordHash user hash]), .ok ()⟩ ∈ before

/-- The row of the user of a valid token. -/
def Shown (r : AuthController.HttpRequest) (before : Before) (id email : String)
    (verified : Bool) : Prop :=
  ∃ row, Bearing lib settings r before row.id ∧
    ⟨.database (.byId row.id), .ok (some row)⟩ ∈ before ∧
    id = row.id ∧ email = row.email ∧ verified = row.emailVerifiedAt.isSome

def Permits (a : AuthController.Arrival) (before : Before) : Command → Prop
  | .database (.commit _ changes) => ∀ user hash, .passwordHash user hash ∈ changes →
      ∃ r, a = .http r ∧ (Changing lib settings r before user hash ∨
        Resetting lib digit r before user hash)
  | .session (.dropSessions user) => ∃ r, a = .http r ∧ Leaving lib settings r before user
  | _ => True

/-- The database gave the rows it was asked for. -/
def Genuine (before : Before) : Prop :=
  ∀ user row, ⟨.database (.byId user), .ok (some row)⟩ ∈ before → row.id = user

/-- A call that needs no proof. -/
def Harmless : Command → Prop
  | .database (.commit _ changes) => ∀ user hash, .passwordHash user hash ∉ changes
  | .session (.dropSessions _) => False
  | _ => True

variable {lib settings digit} {A : Type} {a : AuthController.Arrival}

abbrev protocol (lib : Libraries) (settings : Settings) (digit : Char → Bool)
    (a : AuthController.Arrival) : Protocol Command Reply Failure Before :=
  remembering some (fun before c => Genuine before → Permits lib settings digit a before c)

theorem permits_harmless (before : Before) (c : Command) (hc : Harmless c) :
    Permits lib settings digit a before c := by
  cases c with
  | database c =>
    cases c with
    | commit session changes => exact fun user hash h => absurd h (hc user hash)
    | _ => trivial
  | session c =>
    cases c with
    | dropSessions user => exact absurd hc id
    | _ => trivial
  | _ => trivial

theorem keeps_harmless {p : Act A} (hp : Only Harmless p) (before : Before) :
    Keeps (protocol lib settings digit a) p before
      (fun after _ => before <+: after) :=
  keeps_onward hp (fun before c hc _ => permits_harmless before c hc) before

theorem harmless_within {parts : List Part} {p : Act A} (hp : Within parts p)
    (hs : .session ∉ parts) (hpw : .password ∉ parts) : Only Harmless p := by
  refine only_mono (fun c hc => ?_) p hp
  cases c with
  | session c => exact absurd hc hs
  | database c =>
    cases c with
    | commit session changes =>
      intro user hash hm
      have hany : changes.any Change.setsPassword = true := List.any_eq_true.mpr ⟨_, hm, rfl⟩
      simp only [part, hany, if_true] at hc
      exact hpw hc
    | _ => trivial
  | _ => trivial

/-! ## Exchanges that need no proof -/

theorem harmless_revokeFamily (session : Session) : Only Harmless (revokeFamily session) :=
  only_bind _ _ (only_invoke _ trivial) (fun _ => only_invoke _ trivial)

theorem harmless_rotateRefresh (value : Token) :
    Only Harmless (rotateRefresh lib settings value) := by
  refine only_bind _ _ (only_invoke _ trivial) (fun reply => ?_)
  cases reply with
  | missing => exact only_throw _
  | rotated session => exact only_pure session
  | reused session =>
    exact only_bind _ _ (harmless_revokeFamily session) (fun _ => only_throw _)

theorem harmless_revokeRefresh (value : Token) : Only Harmless (revokeRefresh lib value) := by
  refine only_bind _ _ (only_invoke _ trivial) (fun found => ?_)
  cases found with
  | none => exact only_pure ()
  | some session => exact harmless_revokeFamily session

theorem harmless_grant (user : User) (family? : Option FamilyId) :
    Only Harmless (grant lib settings user family?) := by
  refine only_bind _ _ (only_bind _ _ (only_invoke _ trivial) (fun _ => only_pure _)) (fun access =>
    only_bind _ _ (only_bind _ _ (only_invoke _ trivial) (fun value =>
      only_bind _ _ ?_ (fun family =>
        only_bind _ _ (only_invoke _ trivial) (fun _ => only_pure _))))
      (fun _ => only_pure _))
  cases family? with
  | some family => exact only_pure family
  | none => exact only_invoke _ trivial

theorem harmless_login (email password : String) :
    Only Harmless (login lib settings email password) := by
  refine only_bind _ _ (only_ofResult _) (fun address =>
    only_bind _ _ (only_invoke _ trivial) (fun found => ?_))
  rcases found with _ | user
  · exact only_throw _
  · dsimp only
    split
    · exact harmless_grant user none
    · exact only_throw _

theorem harmless_refresh (value : Token) : Only Harmless (refresh lib settings value) :=
  only_bind _ _ (harmless_rotateRefresh value) (fun session =>
    only_bind _ _ (harmless_within (requireUser_within session.user) (by decide) (by decide))
      (fun user => harmless_grant user _))

theorem harmless_oauthLogin (f : FilterSettings) (session : ℕ) (provider idToken nonce : String) :
    Only Harmless (oauthLogin lib settings f session provider idToken nonce) := by
  refine only_bind _ _ (only_invoke _ trivial) (fun spent => ?_)
  split
  · exact only_throw _
  · refine only_bind _ _ (only_ofResult _) (fun config => only_bind _ _
      (harmless_within (verifiedClaims_within config idToken nonce) (by decide) (by decide))
      (fun claims => only_bind _ _ (only_ofResult _) (fun email => ?_)))
    split
    · exact only_throw _
    · exact only_bind _ _
        (harmless_within (identityUser_within f session _ _ email) (by decide) (by decide))
        (fun user => harmless_grant user none)

/-! ## Replacing a password -/

theorem keeps_revokeAll {r : AuthController.HttpRequest} {user : UserId} {before : Before}
    (h : ∀ after, before <+: after → Leaving lib settings r after user) :
    Keeps (protocol lib settings digit (.http r)) (revokeAll user) before (fun _ _ => True) := by
  have hfirst : ∀ families : List String, Only Harmless
      (forM families (fun family => revokeFamily ⟨user, family⟩)) :=
    fun families => only_forM families _ (fun family => harmless_revokeFamily ⟨user, family⟩)
  refine (keeps_bind _ _ _ _).mpr (keeps_mono _ _ (fun g₁ listed hg₁ => ?_)
    (keeps_harmless (p := redis (.userFamilies user)) (only_invoke _ trivial) before))
  obtain ⟨more₁, rfl⟩ := hg₁
  cases listed with
  | error e => trivial
  | ok listed =>
    refine (keeps_bind _ _ _ _).mpr (keeps_mono _ _ (fun g₂ families hg₂ => ?_)
      (keeps_harmless (p := iterate listed) (only_invoke _ trivial) _))
    obtain ⟨more₂, rfl⟩ := hg₂
    cases families with
    | error e => trivial
    | ok families =>
      refine (keeps_bind _ _ _ _).mpr (keeps_mono _ _ (fun g₃ done hg₃ => ?_)
        (keeps_harmless (hfirst families) _))
      obtain ⟨more₃, rfl⟩ := hg₃
      cases done with
      | error e => trivial
      | ok _ =>
        refine (keeps_invoke _ _ _).mpr ⟨fun _ => ?_, fun _ => trivial⟩
        refine ⟨r, rfl, h _ ⟨more₁ ++ (more₂ ++ more₃), ?_⟩⟩
        simp only [List.append_assoc]

/-- Once the right is proved the password is replaced, and the sessions end after it. -/
theorem keeps_replacePassword {r : AuthController.HttpRequest} {session : ℕ} {user : UserId}
    {password : String} {before : Before}
    (h : ∀ hash, Genuine (before ++ [⟨.hash password, .ok hash⟩]) →
      Changing lib settings r (before ++ [⟨.hash password, .ok hash⟩]) user hash ∨
        Resetting lib digit r (before ++ [⟨.hash password, .ok hash⟩]) user hash) :
    Keeps (protocol lib settings digit (.http r)) (do
      let h ← hash password
      commit session [.passwordHash user h]
      revokeAll user) before (fun _ _ => True) := by
  refine (keeps_bind _ _ _ _).mpr ((keeps_invoke _ _ _).mpr ⟨fun _ => trivial, fun made => ?_⟩)
  cases made with
  | error e => trivial
  | ok hash =>
    refine (keeps_bind _ _ _ _).mpr ((keeps_invoke _ _ _).mpr ⟨?_, fun reply => ?_⟩)
    · intro hgenuine user' hash' hm
      cases List.mem_singleton.mp hm
      exact ⟨r, rfl, h hash hgenuine⟩
    · cases reply with
      | error e => trivial
      | ok _ =>
        apply keeps_revokeAll
        intro after hafter
        refine Or.inr ⟨session, hash, hafter.mem ?_⟩
        exact List.mem_append_right _ (List.mem_singleton.mpr rfl)

theorem length_of_checkPassword {value : String} (h : checkPassword value = .ok ()) :
    12 ≤ value.length := by
  unfold checkPassword at h
  split at h
  · cases h
  · omega

/-- A token that was in force stays proof. -/
theorem bearing_append {r : AuthController.HttpRequest} {before : Before} {user : UserId}
    (h : Bearing lib settings r before user) (more : Before) :
    Bearing lib settings r (before ++ more) user := by
  obtain ⟨value, claims, now, hb, hd, hsub, hiss, haud, hnow, hin⟩ := h
  exact ⟨value, claims, now, hb, hd, hsub, hiss, haud, List.mem_append_left more hnow, hin⟩

theorem keeps_changePassword {r : AuthController.HttpRequest} {session : ℕ} {named : UserId}
    {body : ChangePasswordRequest} {before : Before} (hroute : r.route = .changePassword)
    (hbody : r.body.bind ChangePasswordRequest.parse = some body)
    (hbearing : Bearing lib settings r before named) :
    Keeps (protocol lib settings digit (.http r))
      (changePassword lib session named body.currentPassword body.newPassword) before
      (fun _ _ => True) := by
  refine (keeps_bind _ _ _ _).mpr ((keeps_ofResult _ _ _).mpr ?_)
  rcases hlen : checkPassword body.newPassword with e | _
  · trivial
  · refine (keeps_bind _ _ _ _).mpr ((keeps_bind _ _ _ _).mpr
      ((keeps_invoke _ _ _).mpr ⟨fun _ => trivial, fun found => ?_⟩))
    rcases found with e | _ | row
    · trivial
    · trivial
    · refine (keeps_pure _ _ _).mpr ?_
      dsimp only
      split
      case isTrue hmatches =>
        apply keeps_replacePassword
        intro hash hgenuine
        have hread : ⟨.database (.byId named), .ok (some row)⟩ ∈
            before ++ [⟨.database (.byId named), .ok (some row)⟩] ++
              [⟨.hash body.newPassword, .ok hash⟩] :=
          List.mem_append_left _ (List.mem_append_right _ (List.mem_singleton.mpr rfl))
        obtain rfl := hgenuine named row hread
        left
        refine ⟨row, body, hroute, hbody, ?_, hread, rfl, hmatches,
          length_of_checkPassword hlen, ?_⟩
        · exact bearing_append (bearing_append hbearing _) _
        · exact List.mem_append_right _ (List.mem_singleton.mpr rfl)
      case isFalse => trivial

variable (lib) in
/-- A code that was accepted: it was the stored one, few guesses were made, and it is gone. -/
def Accepted (key : CodeKey) (code : String) (before after : Before)
    (accepted : Except Failure Bool) : Prop :=
  before <+: after ∧ (accepted = .ok true → ∃ payload,
    ⟨.code (.getCode key), .ok (some payload)⟩ ∈ after ∧ payload.attempts < 4 ∧
      payload.digest = lib.sha256 code ∧ ⟨.code (.delCode key), .ok ()⟩ ∈ after)

theorem keeps_consumeCode (email : Email) (purpose : Purpose) (code : String) (before : Before) :
    Keeps (protocol lib settings digit a) (consumeCode lib email purpose code) before
      (Accepted lib ⟨email, purpose⟩ code before) := by
  refine (keeps_bind _ _ _ _).mpr ((keeps_invoke _ _ _).mpr ⟨fun _ => trivial, fun found => ?_⟩)
  rcases found with e | _ | payload
  · exact ⟨⟨_, rfl⟩, fun h => nomatch h⟩
  · exact ⟨⟨_, rfl⟩, fun h => nomatch h⟩
  · have refused : ∀ (p : Act Unit), Only Harmless p → ∀ g, before <+: g →
        Keeps (protocol lib settings digit a) (p >>= fun _ => return false) g
          (Accepted lib ⟨email, purpose⟩ code before) := by
      intro p hp g hg
      refine (keeps_bind _ _ _ _).mpr
        (keeps_mono _ _ (fun after reply hafter => ?_) (keeps_harmless hp g))
      cases reply with
      | error e => exact ⟨hg.trans hafter, fun h => nomatch h⟩
      | ok _ => exact ⟨hg.trans hafter, fun h => nomatch h⟩
    dsimp only
    split
    case isTrue => exact refused _ (only_invoke _ trivial) _ ⟨_, rfl⟩
    case isFalse hfew =>
      split
      case isTrue =>
        have hwrong : Only Harmless (do
            let ttl : ℤ ← codes (.ttlCode ⟨email, purpose⟩)
            codes (.setCode ⟨email, purpose⟩ ⟨payload.digest, payload.attempts+1⟩
              (max ttl 1).toNat)) :=
          only_bind _ _ (only_invoke _ trivial) (fun _ => only_invoke _ trivial)
        have hrefused := refused _ hwrong
          (before ++ [⟨.code (.getCode ⟨email, purpose⟩), .ok (some payload)⟩]) ⟨_, rfl⟩
        rw [bind_assoc] at hrefused
        exact hrefused
      case isFalse hsame =>
        refine (keeps_bind _ _ _ _).mpr
          ((keeps_invoke _ _ _).mpr ⟨fun _ => trivial, fun reply => ?_⟩)
        cases reply with
        | error e =>
          exact ⟨(List.prefix_append before _).trans (List.prefix_append _ _), fun h => nomatch h⟩
        | ok _ =>
          refine ⟨(List.prefix_append before _).trans (List.prefix_append _ _),
            fun _ => ⟨payload, ?_, by omega, ?_, ?_⟩⟩
          · exact List.mem_append_left _ (List.mem_append_right _ (List.mem_singleton.mpr rfl))
          · exact not_not.mp hsame
          · exact List.mem_append_right _ (List.mem_singleton.mpr rfl)

theorem keeps_resetPassword {r : AuthController.HttpRequest} {session : ℕ}
    {body : ResetPasswordRequest digit} {before : Before} (hroute : r.route = .resetPassword)
    (hbody : r.body.bind (ResetPasswordRequest.parse digit) = some body) :
    Keeps (protocol lib settings digit (.http r))
      (resetPassword lib session body.email body.code body.password) before (fun _ _ => True) := by
  rw [resetPassword_eq]
  refine (keeps_bind _ _ _ _).mpr ((keeps_ofResult _ _ _).mpr ?_)
  rcases hlen : checkPassword body.password with e | _
  · trivial
  · refine (keeps_bind _ _ _ _).mpr ((keeps_ofResult _ _ _).mpr ?_)
    rcases haddress : normalizeEmail lib body.email with e | address
    · trivial
    · refine (keeps_bind _ _ _ _).mpr ((keeps_invoke _ _ _).mpr ⟨fun _ => trivial, fun found => ?_⟩)
      rcases found with e | _ | row
      · trivial
      · trivial
      · refine (keeps_bind _ _ _ _).mpr
          (keeps_mono _ _ (fun after accepted h => ?_) (keeps_consumeCode _ _ _ _))
        obtain ⟨hextends, haccepted⟩ := h
        rcases accepted with e | _ | _
        · trivial
        · trivial
        · obtain ⟨payload, hget, hfew, hdigest, hgone⟩ := haccepted rfl
          apply keeps_replacePassword
          intro hash _
          right
          refine ⟨address, row, payload, body, hroute, hbody, haddress, ?_, rfl, ?_, hfew, hdigest,
            ?_, length_of_checkPassword hlen, ?_⟩
          · apply List.mem_append_left
            apply hextends.mem
            exact List.mem_append_right _ (List.mem_singleton.mpr rfl)
          · exact List.mem_append_left _ hget
          · exact List.mem_append_left _ hgone
          · exact List.mem_append_right _ (List.mem_singleton.mpr rfl)

/-! ## Requests and endpoints -/

theorem harmless_handled (session : ℕ) (q : Request)
    (hreset : ∀ email code password, q ≠ .resetPassword email code password)
    (hchange : ∀ user current new, q ≠ .changePassword user current new)
    (hleave : ∀ user, q ≠ .logoutAll user) : Only Harmless (handled lib settings session q) := by
  cases q with
  | resetPassword email code password => exact absurd rfl (hreset email code password)
  | changePassword user current new => exact absurd rfl (hchange user current new)
  | logoutAll user => exact absurd rfl (hleave user)
  | login email password => exact only_map _ _ (harmless_login email password)
  | refresh value => exact only_map _ _ (harmless_refresh value)
  | oauthLogin f provider idToken nonce =>
    exact only_map _ _ (harmless_oauthLogin f session provider idToken nonce)
  | emailAvailable f email client =>
    exact only_map _ _ (harmless_within (isAvailable_within lib settings f email client)
      (by decide) (by decide))
  | signup f email password client =>
    exact only_bind _ _
      (harmless_within (throttle_within lib settings client _ _) (by decide) (by decide))
      (fun _ => only_bind _ _ (harmless_within (signup_within lib settings f session email password)
        (by decide) (by decide)) (fun _ => only_pure _))
  | verifyEmail email code =>
    exact only_bind _ _ (harmless_within (verifyEmail_within lib session email code)
      (by decide) (by decide)) (fun _ => only_pure _)
  | resendVerification email =>
    exact only_bind _ _ (harmless_within (sendVerification_within lib settings email)
      (by decide) (by decide)) (fun _ => only_pure _)
  | forgotPassword email client =>
    exact only_bind _ _
      (harmless_within (throttle_within lib settings client _ _) (by decide) (by decide))
      (fun _ => only_bind _ _ (harmless_within (forgotPassword_within lib settings email)
        (by decide) (by decide)) (fun _ => only_pure _))
  | logout value =>
    simp only [handled]
    split
    · exact only_pure _
    · exact only_bind _ _ (harmless_revokeRefresh value) (fun _ => only_pure _)
  | oauthChallenge provider =>
    exact only_map _ _ (harmless_within (createChallenge_within settings provider)
      (by decide) (by decide))
  | warm f =>
    exact only_bind _ _ (harmless_within (warm_within lib f) (by decide) (by decide))
      (fun _ => only_pure _)

section
open Gamely.AuthController Gamely.HttpRefinement

variable {http : HttpSettings}

/-- An endpoint is called with what its route took from the request. -/
def Justly (lib : Libraries) (settings : Settings) (digit : Char → Bool)
    (r : AuthController.HttpRequest) (before : Before) : Call digit → Prop
  | .changePassword user body => r.route = .changePassword ∧
      r.body.bind ChangePasswordRequest.parse = some body ∧ Bearing lib settings r before user
  | .resetPassword body => r.route = .resetPassword ∧
      r.body.bind (ResetPasswordRequest.parse digit) = some body
  | .logoutAll user => r.route = .logoutAll ∧ Bearing lib settings r before user
  | .me user => Bearing lib settings r before user
  | _ => True

theorem keeps_handled {r : HttpRequest} {before : Before} {call : Call digit} (session : ℕ)
    (h : Justly lib settings digit r before call) :
    Keeps (protocol lib settings digit (.http r))
      (handled lib settings session (requestOf r.filter call)) before (fun _ _ => True) := by
  have harmless : Only Harmless (handled lib settings session (requestOf r.filter call)) →
      Keeps (protocol lib settings digit (.http r))
        (handled lib settings session (requestOf r.filter call)) before (fun _ _ => True) :=
    fun hp => keeps_mono _ _ (fun _ _ _ => trivial) (keeps_harmless hp before)
  have answered : ∀ {p : Act Unit} (answer : Answer),
      Keeps (protocol lib settings digit (.http r)) p before (fun _ _ => True) →
      Keeps (protocol lib settings digit (.http r)) (p >>= fun _ => return answer) before
        (fun _ _ => True) := by
    intro p answer hp
    refine (keeps_bind _ _ _ _).mpr (keeps_mono _ _ (fun _ result _ => ?_) hp)
    cases result <;> trivial
  cases call with
  | changePassword user body => exact answered _ (keeps_changePassword h.1 h.2.1 h.2.2)
  | resetPassword body => exact answered _ (keeps_resetPassword h.1 h.2)
  | logoutAll user =>
    apply answered
    apply keeps_revokeAll
    rintro _ ⟨more, rfl⟩
    exact Or.inl ⟨h.1, bearing_append h.2 more⟩
  | _ =>
    apply harmless
    apply harmless_handled
    · exact fun _ _ _ hq => nomatch hq
    · exact fun _ _ _ hq => nomatch hq
    · exact fun _ hq => nomatch hq

/-! ## Exchanges -/

def Profiled (lib : Libraries) (settings : Settings) (a : Arrival) (after : Before)
    (result : Except Failure (Option Response)) : Prop :=
  ∀ r response id email verified, a = .http r → result = .ok (some response) →
    response.content = some (.profile id email verified) → Genuine after →
      Shown lib settings r after id email verified

theorem profiled_error {after : Before} (e : Failure) :
    Profiled lib settings a after (.error e) := fun _ _ _ _ _ _ h => nomatch h

theorem profiled_plain {after : Before} {response : Response}
    (h : ∀ id email verified, response.content ≠ some (.profile id email verified)) :
    Profiled lib settings a after (.ok (some response)) := by
  rintro r _ id email verified - ⟨⟩ hcontent -
  exact absurd hcontent (h id email verified)

theorem keeps_closing (session : ℕ) (r : HttpRequest) (inner : Response) (before : Before)
    (h : ∀ more, Profiled lib settings (.http r) (before ++ more) (.ok (some (outgoing r inner)))) :
    Keeps (protocol lib settings digit (.http r)) (do
      AuthService.rollback session
      return some (outgoing r inner)) before (Profiled lib settings (.http r)) := by
  refine (keeps_bind _ _ _ _).mpr ((keeps_invoke _ _ _).mpr ⟨fun _ => trivial, fun reply => ?_⟩)
  cases reply with
  | error e => exact profiled_error e
  | ok _ => exact h _

theorem outcome_content (settings : Settings) (http : HttpSettings) (call : Call digit) (a : Answer)
    (id email : String) (verified : Bool) :
    (outcome settings http call a).content ≠ some (.profile id email verified) := by
  cases a <;> exact fun h => nomatch h

theorem keeps_served {r : HttpRequest} {before : Before} {call : Call digit} (session : ℕ)
    (h : Justly lib settings digit r before call) :
    Keeps (protocol lib settings digit (.http r))
      (some <$> served lib settings http digit session r call) before
      (Profiled lib settings (.http r)) := by
  by_cases hme : ∃ user, call = .me user
  · obtain ⟨user, rfl⟩ := hme
    rw [served_me]
    refine (keeps_settle _ _ _ _).mpr ((keeps_bind _ _ _ _).mpr
      ((keeps_invoke _ _ _).mpr ⟨fun _ => trivial, fun found => ?_⟩))
    rcases found with e | _ | row
    · exact keeps_closing session r _ _ (fun _ => profiled_plain (fun _ _ _ h => nomatch h))
    · exact keeps_closing session r _ _ (fun _ => profiled_plain (fun _ _ _ h => nomatch h))
    · refine keeps_closing session r _ _ (fun more => ?_)
      rintro _ _ id email verified ⟨⟩ ⟨⟩ ⟨⟩ hgenuine
      have hread : ⟨.database (.byId user), .ok (some row)⟩ ∈
          before ++ [⟨.database (.byId user), .ok (some row)⟩] ++ more :=
        List.mem_append_left _ (List.mem_append_right _ (List.mem_singleton.mpr rfl))
      obtain rfl := hgenuine user row hread
      exact ⟨row, bearing_append (bearing_append h _) more, hread, rfl, rfl, rfl⟩
  · have hne : ∀ user, call ≠ .me user := fun user hc => hme ⟨user, hc⟩
    rw [served_settle session r call hne]
    refine (keeps_settle _ _ _ _).mpr
      (keeps_mono _ _ (fun after result _ => ?_) (keeps_handled session h))
    cases result with
    | ok a =>
      refine keeps_closing session r _ _ (fun _ => profiled_plain ?_)
      exact outcome_content settings http call a
    | error e =>
      exact keeps_closing session r _ _ (fun _ => profiled_plain (fun _ _ _ h => nomatch h))

theorem keeps_currentUser (r : HttpRequest) :
    Keeps (protocol lib settings digit (.http r)) (currentUser lib settings r.headers) []
      (fun after result => ∀ user, result = .ok user → Bearing lib settings r after user) := by
  rcases hb : bearer r.headers with _ | value
  · simp only [currentUser, hb]
    rintro _ ⟨⟩
  · simp only [currentUser, hb, decodeAccess]
    refine (keeps_bind _ _ _ _).mpr ((keeps_invoke _ _ _).mpr ⟨fun _ => trivial, fun clock => ?_⟩)
    cases clock with
    | error e => rintro _ ⟨⟩
    | ok now =>
      rcases hd : lib.decodeJwt value with _ | claims
      · rintro _ ⟨⟩
      · dsimp only
        split
        case isTrue hin =>
          rintro _ ⟨⟩
          exact ⟨value, claims, now, hb, hd, rfl, hin.1, hin.2.1, List.mem_singleton.mpr rfl,
            hin.2.2.1, hin.2.2.2⟩
        case isFalse => rintro _ ⟨⟩

def Meant (lib : Libraries) (settings : Settings) (digit : Char → Bool) (r : HttpRequest) :
    Intent digit → Prop
  | .fixed _ content => ∀ id email verified, content ≠ .profile id email verified
  | .open call => Justly lib settings digit r [] call
  | .guarded call => ∀ user before, Bearing lib settings r before user →
      Justly lib settings digit r before (call user)

theorem meant_client {r : HttpRequest} {call : String → Call digit} {x : Intent digit}
    (h : (do
      let client ← AuthController.clientAddress r
      return Intent.open (call client)) = Except.ok x)
    (hcall : ∀ client, Justly lib settings digit r [] (call client)) :
    Meant lib settings digit r x := by
  unfold AuthController.clientAddress at h
  split at h
  · cases h
    exact hcall _
  · cases h

theorem meant_intent {r : HttpRequest} {x : Intent digit} (h : intent http digit r = .ok x) :
    Meant lib settings digit r x := by
  unfold intent at h
  split at h <;> rename_i hroute
  case h_1 | h_2 | h_6 =>
    obtain ⟨body, -, hbody⟩ := parsed_ok h
    exact meant_client hbody (fun _ => trivial)
  case h_3 | h_4 | h_5 | h_14 =>
    obtain ⟨body, -, hbody⟩ := parsed_ok h
    cases hbody
    trivial
  case h_7 =>
    obtain ⟨body, hparse, hbody⟩ := parsed_ok h
    cases hbody
    exact ⟨hroute, hparse⟩
  case h_8 =>
    obtain ⟨body, hparse, hbody⟩ := parsed_ok h
    cases hbody
    exact fun user before hbearing => ⟨hroute, hparse, hbearing⟩
  case h_9 =>
    split at h
    · split at h
      · cases h
      · cases h
        trivial
    · cases h
  case h_11 =>
    cases h
    exact fun user before hbearing => ⟨hroute, hbearing⟩
  case h_12 =>
    cases h
    exact fun user before hbearing => hbearing
  case h_15 | h_16 | h_17 | h_18 =>
    cases h
    exact fun _ _ _ h => nomatch h
  case h_19 => cases h
  all_goals
    cases h
    trivial

theorem keeps_exchange (i : ℕ) (r : HttpRequest) :
    Keeps (protocol lib settings digit (.http r))
      (some <$> exchange lib settings http digit i r) [] (Profiled lib settings (.http r)) := by
  have turned : ∀ (p : Problem) (after : Before), Profiled lib settings (.http r) after
      (.ok (some (outgoing r (errorResponse p)))) :=
    fun _ _ => profiled_plain (fun _ _ _ h => nomatch h)
  rcases hi : intent http digit r with p | ⟨status, content⟩ | call | call
  · simp only [exchange, admitted, hi]
    exact turned p []
  · have hmeant : Meant lib settings digit r (.fixed status content) := meant_intent hi
    simp only [exchange, admitted, hi]
    refine profiled_plain (fun id email verified h => ?_)
    exact hmeant id email verified (Option.some.inj h)
  · simp only [exchange, admitted, hi]
    exact keeps_served i (meant_intent hi)
  · have hmeant : Meant lib settings digit r (.guarded call) := meant_intent hi
    simp only [exchange, admitted, hi, map_settle, bind_settle, tryCatch_settle, settle_settle]
    refine (keeps_settle _ _ _ _).mpr
      (keeps_mono _ _ (fun after result hbearing => ?_) (keeps_currentUser r))
    cases result with
    | ok user =>
      have hserved : Keeps (protocol lib settings digit (.http r))
          (some <$> served lib settings http digit i r (call user)) after
          (Profiled lib settings (.http r)) :=
        keeps_served i (hmeant user after (hbearing user rfl))
      rw [map_settle] at hserved
      exact hserved
    | error e => exact turned (problem e) after

/-! ## Runs -/

/-- The contract of the server on proofs. -/
def proving (lib : Libraries) (settings : Settings) (digit : Char → Bool) :
    Interleaving.Contract Command Reply Failure (Option Response) Arrival Before :=
  memory some (fun _ a before c => Genuine before → Permits lib settings digit a before c)
    (Profiled lib settings)

theorem harmless_startup (i : ℕ) (f : FilterSettings) :
    Only Harmless (Arrival.program lib settings http digit i (.startup f)) := by
  apply only_map
  refine only_bind _ _ (only_tryCatch _ _ ?_ (fun e => ?_)) (fun answer =>
    only_bind _ _ (only_invoke _ trivial) (fun _ => only_pure _))
  · refine harmless_handled i (.warm f) ?_ ?_ ?_
    · exact fun _ _ _ hq => nomatch hq
    · exact fun _ _ _ hq => nomatch hq
    · exact fun _ hq => nomatch hq
  · exact only_bind _ _ (only_invoke _ trivial) (fun _ => only_throw e)

theorem obeys_proving : Obeys (server lib settings http digit) (proving lib settings digit) where
  program := by
    rintro i (r | f)
    · exact keeps_exchange i r
    · have hp : Only Harmless (Arrival.program lib settings http digit i (.startup f)) :=
        harmless_startup i f
      refine keeps_mono _ _ (fun g result _ => ?_) (keeps_harmless hp [])
      rintro r _ _ _ _ ⟨⟩
  cancelled := by
    rintro i (r | f) p hp g
    · cases hp
    · cases hp
      rintro r _ _ _ _ ⟨⟩

theorem genuine_preserved : Preserved (server lib settings http digit)
    (proving lib settings digit) (fun _ _ => True)
    (fun _ h => ∀ e ∈ h, ∀ user row, Step.of e = ⟨.database (.byId user), .ok (some row)⟩ →
      row.id = user) where
  call := by
    intro s i x q c reply w hs hu ha hp _ e he user row hstep
    rcases List.mem_append.mp he with he | he
    · exact hs e he user row hstep
    · rw [List.mem_singleton.mp he] at hstep
      cases hstep
      exact id_of_byId hp
  pass := fun _ _ hs _ => hs

theorem genuine_past {h : List (Event Command Reply Failure Arrival)} {n i : ℕ}
    (hh : ∀ e ∈ h, ∀ user row, Step.of e = ⟨.database (.byId user), .ok (some row)⟩ →
      row.id = user) : Genuine (past some (h.take n) i) := by
  intro user row hmem
  obtain ⟨m, -, e, he, -, hstep⟩ := mem_past hmem
  exact hh e (List.mem_of_getElem? he) user row (Option.some.inj hstep)

/-- In every run of the server, a password is replaced only by a request that had proved its
right to it by then, all sessions of a user end only on a valid token of that user or after
a password was replaced, and a response shows a profile only to its own user. -/
theorem rights_proven (lib : Libraries) (settings : Settings) (http : HttpSettings)
    (digit : Char → Bool) (now : ℕ) (database : Database)
    (ls : List (Label Arrival Choice Passing)) :
    let s := run (server lib settings http digit) ls (initial (World.fresh now database))
    (∀ n e, s.history[n]? = some e →
      Permits lib settings digit e.request (past some (s.history.take n) e.thread) e.command) ∧
    ∀ i r response id email verified, returned s i = some (.http r, some response) →
      response.content = some (.profile id email verified) →
        Shown lib settings r (past some s.history i) id email verified := by
  intro s
  have hobeys : Obeys (server lib settings http digit) (proving lib settings digit) := obeys_proving
  have hrows := invariant_run hobeys genuine_preserved ls (initial (World.fresh now database))
    (following_initial _) (fun _ h => by cases h) (meets_trivial ls _)
  constructor
  · intro n e he
    exact allowed_run obeys_proving ls (World.fresh now database) n e he (genuine_past hrows)
  · intro i r response id email verified hreturned hcontent
    have hgenuine : Genuine (past some s.history i) := by
      have hpast : Genuine (past some (s.history.take s.history.length) i) := genuine_past hrows
      rwa [List.take_length] at hpast
    exact post_run obeys_proving ls (World.fresh now database) hreturned r response id email
      verified rfl rfl hcontent hgenuine

/-- A client whose access token is the name of its user. -/
def named : Libraries :=
  { plainLibraries with
    decodeJwt := fun value => some ⟨value, "a@b", true, "gamely", "gamely", 0, 1⟩ }

def changing : HttpRequest :=
  { HttpResponses.stranger with
    route := .changePassword
    headers := [("authorization", "Bearer user")]
    body := some [("current_password", some "long password"),
      ("new_password", some "another password")] }

def changingRun : List (Label Arrival Choice Passing) :=
  .spawn (.http changing) :: ["", "", "", ""].map (fun name => .run 0 { name := name })

theorem rights_proven_changing :
    let before := past some ((run (server named plainSettings HttpResponses.plainHttp Char.isDigit)
      changingRun (initial (World.fresh 0 oneAccount))).history.take 3) 0
    Changing named plainSettings changing before "user" "another password" ∨
      Resetting named Char.isDigit changing before "user" "another password" := by
  obtain ⟨r, hr, h⟩ := (rights_proven named plainSettings HttpResponses.plainHttp Char.isDigit 0
    oneAccount changingRun).1 3 _ rfl "user" "another password" (List.mem_singleton.mpr rfl)
  cases hr
  exact h

end

end Gamely.HttpAuthorization
