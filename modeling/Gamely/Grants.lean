import Gamely.Footprints
import Gamely.Mirroring
import Gamely.Pasts

/-!
# What a sign-in hands out

A request that is granted something has issued exactly one refresh session, for the user it
answers with, and its access token names the same user. No other request issues any.
-/

set_option autoImplicit false

namespace Gamely.Grants
open Gamely.Calls Gamely.Stores Gamely.EmailJobs Gamely.Services Gamely.TokenService
open Gamely.AuthService Gamely.OAuthService Gamely.Requests Gamely.Footprints
open Gamely.Interleaving Gamely.Mirroring Gamely.Pasts

/-- A refresh session written to Redis. -/
structure Issue where
  digest : Digest
  session : Session
  ttl : ℕ
  deriving DecidableEq, Repr

def issued : Step Command Reply Failure → Option Issue
  | ⟨.session (.issue digest session ttl), .ok _⟩ => some ⟨digest, session, ttl⟩
  | _ => none

variable (lib : Libraries) (settings : Settings)

/-- The tokens of a grant are for its user, in one session of the lifetime of the settings. -/
def Backed (g : Grant) (issues : List Issue) : Prop :=
  (∃ family, issues = [⟨lib.digest g.refresh, ⟨g.user.id, family⟩, refreshTtl settings⟩]) ∧
    ∃ claims, g.access = lib.encodeJwt claims ∧ claims.sub = g.user.id ∧
      claims.email = g.user.email ∧ claims.verified = g.user.emailVerifiedAt.isSome

def Tells (issues : List Issue) : Except Failure Answer → Prop
  | .ok (.granted g) => Backed lib settings g issues
  | _ => issues = []

abbrev issuing : Protocol Command Reply Failure (List Issue) := remembering issued (fun _ _ => True)

/-- A call that issues nothing. -/
def Silent (c : Command) : Prop := ∀ digest session ttl, c ≠ .session (.issue digest session ttl)

variable {lib settings} {A : Type}

theorem issued_silent {c : Command} (hc : Silent c) (reply : Except Failure (Reply c)) :
    issued ⟨c, reply⟩ = none := by
  cases c with
  | session c =>
    cases c with
    | issue digest session ttl => exact absurd rfl (hc digest session ttl)
    | _ => rfl
  | _ => rfl

theorem silent_inert (g : List Issue) (c : Command) (hc : Silent c) :
    issuing.allows g c ∧ ∀ reply, issuing.next g c reply = g := by
  refine ⟨trivial, fun reply => ?_⟩
  simp only [remembering, issued_silent hc reply, Option.toList_none, List.append_nil]

theorem keeps_silent {p : Act A} (hp : Only Silent p) (g : List Issue) :
    Keeps issuing p g (fun g' _ => g' = g) :=
  keeps_of_only p hp g _ (silent_inert g) (fun _ => rfl)

theorem silent_within {parts : List Part} {p : Act A} (hp : Within parts p)
    (h : .session ∉ parts) : Only Silent p := by
  refine only_mono (fun c hc => ?_) p hp
  rintro digest session ttl rfl
  exact h hc

/-! ## Sessions that end -/

theorem silent_revokeFamily (session : Session) : Only Silent (revokeFamily session) :=
  only_bind _ _ (only_invoke _ (by simp [Silent])) (fun _ => only_invoke _ (by simp [Silent]))

theorem silent_rotateRefresh (value : Token) : Only Silent (rotateRefresh lib settings value) := by
  refine only_bind _ _ (only_invoke _ (by simp [Silent])) (fun reply => ?_)
  cases reply with
  | missing => exact only_throw _
  | rotated session => exact only_pure session
  | reused session =>
    exact only_bind _ _ (silent_revokeFamily session) (fun _ => only_throw _)

theorem silent_revokeRefresh (value : Token) : Only Silent (revokeRefresh lib value) := by
  refine only_bind _ _ (only_invoke _ (by simp [Silent])) (fun found => ?_)
  cases found with
  | none => exact only_pure ()
  | some session => exact silent_revokeFamily session

theorem silent_revokeAll (user : UserId) : Only Silent (revokeAll user) :=
  only_bind _ _ (only_invoke _ (by simp [Silent]))
    (fun _ => only_bind _ _ (only_invoke _ (by simp [Silent]))
      (fun families => only_bind _ _
        (only_forM families _ (fun family => silent_revokeFamily ⟨user, family⟩))
        (fun _ => only_invoke _ (by simp [Silent]))))

theorem silent_replacePassword (session : ℕ) (user : UserId) (password : String) :
    Only Silent (do
      let h ← hash password
      commit session [.passwordHash user h]
      revokeAll user) :=
  only_bind _ _ (only_invoke _ (by simp [Silent]))
    (fun _ => only_bind _ _ (only_invoke _ (by simp [Silent])) (fun _ => silent_revokeAll user))

theorem silent_changePassword (session : ℕ) (user : UserId) (current new : String) :
    Only Silent (changePassword lib session user current new) := by
  refine only_bind _ _ (only_ofResult _) (fun _ => only_bind _ _
    (silent_within (requireUser_within user) (by decide)) (fun row => ?_))
  split
  · exact silent_replacePassword session row.id new
  · exact only_throw _

theorem silent_resetPassword (session : ℕ) (email code password : String) :
    Only Silent (resetPassword lib session email code password) := by
  rw [resetPassword_eq]
  refine only_bind _ _ (only_ofResult _) (fun _ => only_bind _ _ (only_ofResult _) (fun address =>
    only_bind _ _ (silent_within (byEmail_within address) (by decide)) (fun found => ?_)))
  rcases found with _ | user
  · exact only_throw _
  · refine only_bind _ _ (silent_within (consumeCode_within lib _ _ code) (by decide))
      (fun accepted => ?_)
    split
    · exact silent_replacePassword session user.id password
    · exact only_throw _

/-! ## Sessions that begin -/

theorem keeps_issueAccess (user : UserId) (email : Email) (verified : Bool) (g : List Issue) :
    Keeps issuing (issueAccess lib settings user email verified) g (fun g' r => g' = g ∧
      ∀ token, r = .ok token → ∃ claims, token = lib.encodeJwt claims ∧ claims.sub = user ∧
        claims.email = email ∧ claims.verified = verified) := by
  refine (keeps_bind _ _ _ _).mpr ((keeps_invoke _ _ _).mpr ⟨trivial, fun reply => ?_⟩)
  have hg : issuing.next g Command.utcnow reply = g :=
    (silent_inert g _ (by simp [Silent])).2 reply
  cases reply with
  | error e => exact ⟨hg, fun _ h => nomatch h⟩
  | ok now =>
    refine ⟨hg, ?_⟩
    rintro _ ⟨⟩
    exact ⟨_, rfl, rfl, rfl, rfl⟩

variable (lib settings) in
/-- One session for the token that was made, if one was. -/
def Begun (user : UserId) (issues : List Issue) : Except Failure Token → Prop
  | .ok value => ∃ family, issues = [⟨lib.digest value, ⟨user, family⟩, refreshTtl settings⟩]
  | .error _ => issues = []

theorem keeps_issueRefresh (user : UserId) (family? : Option FamilyId) :
    Keeps issuing (issueRefresh lib settings user family?) [] (Begun lib settings user) := by
  have hname : Only Silent tokenUrlsafe := only_invoke _ (by simp [Silent])
  have hfamily : Only Silent (familyId family?) := by
    cases family? with
    | some family => exact only_pure family
    | none => exact hname
  refine (keeps_bind _ _ _ _).mpr (keeps_mono _ _ (fun g₁ value h₁ => ?_) (keeps_silent hname []))
  subst h₁
  cases value with
  | error e => rfl
  | ok value =>
    refine (keeps_bind _ _ _ _).mpr
      (keeps_mono _ _ (fun g₂ family h₂ => ?_) (keeps_silent hfamily []))
    subst h₂
    cases family with
    | error e => rfl
    | ok family =>
      refine (keeps_bind _ _ _ _).mpr ((keeps_invoke _ _ _).mpr ⟨trivial, fun reply => ?_⟩)
      cases reply with
      | error e => rfl
      | ok _ => exact ⟨family, rfl⟩

theorem keeps_grant (user : User) (family? : Option FamilyId) :
    Keeps issuing (grant lib settings user family?) [] (fun g' r =>
      Tells lib settings g' (r.map Answer.granted)) := by
  refine (keeps_bind _ _ _ _).mpr
    (keeps_mono _ _ (fun g₁ access h₁ => ?_) (keeps_issueAccess user.id user.email _ []))
  obtain ⟨rfl, haccess⟩ := h₁
  cases access with
  | error e => rfl
  | ok access =>
    refine (keeps_bind _ _ _ _).mpr
      (keeps_mono _ _ (fun g₂ value h₂ => ?_) (keeps_issueRefresh user.id family?))
    cases value with
    | error e => exact h₂
    | ok value => exact ⟨h₂, haccess access rfl⟩

theorem keeps_signIn {p : Act A} {f : A → Act Grant} (hp : Only Silent p)
    (hf : ∀ a, Keeps issuing (f a) [] (fun g r => Tells lib settings g (r.map Answer.granted))) :
    Keeps issuing (p >>= f) [] (fun g r => Tells lib settings g (r.map Answer.granted)) := by
  refine (keeps_bind _ _ _ _).mpr (keeps_mono _ _ (fun g r hg => ?_) (keeps_silent hp []))
  subst hg
  cases r with
  | ok a => exact hf a
  | error e => rfl

theorem tells_throw (e : Failure) :
    Keeps issuing (throw e : Act Grant) [] (fun g r => Tells lib settings g (r.map .granted)) := rfl

theorem keeps_login (email password : String) :
    Keeps issuing (login lib settings email password) [] (fun g r =>
      Tells lib settings g (r.map Answer.granted)) := by
  refine keeps_signIn (only_ofResult _) (fun address =>
    keeps_signIn (silent_within (byEmail_within address) (by decide)) (fun found => ?_))
  rcases found with _ | user
  · exact tells_throw _
  · dsimp only
    split
    · exact keeps_grant user none
    · exact tells_throw _

theorem keeps_refresh (value : Token) :
    Keeps issuing (refresh lib settings value) [] (fun g r =>
      Tells lib settings g (r.map Answer.granted)) :=
  keeps_signIn (silent_rotateRefresh value) (fun session =>
    keeps_signIn (silent_within (requireUser_within session.user) (by decide))
      (fun user => keeps_grant user (some session.family)))

theorem keeps_oauthLogin (f : FilterSettings) (session : ℕ) (provider idToken nonce : String) :
    Keeps issuing (oauthLogin lib settings f session provider idToken nonce) [] (fun g r =>
      Tells lib settings g (r.map Answer.granted)) := by
  refine keeps_signIn (only_invoke _ (by simp [Silent])) (fun spent => ?_)
  split
  · exact tells_throw _
  · refine keeps_signIn (only_ofResult _) (fun config => keeps_signIn
      (silent_within (verifiedClaims_within config idToken nonce) (by decide)) (fun claims =>
        keeps_signIn (only_ofResult _) (fun email => ?_)))
    split
    · exact tells_throw _
    · exact keeps_signIn (silent_within (identityUser_within f session _ _ email) (by decide))
        (fun user => keeps_grant user none)

/-! ## Requests -/

theorem keeps_granted {p : Act Grant} {g : List Issue} (h : Keeps issuing p g (fun g' r =>
    Tells lib settings g' (r.map Answer.granted))) :
    Keeps issuing (Answer.granted <$> p) g (Tells lib settings) := by
  refine (keeps_map _ _ _ _).mpr (keeps_mono _ _ (fun g' r hr => ?_) h)
  cases r with
  | ok a => exact hr
  | error e => exact hr

/-- A program that issues nothing and ends in something else than a grant. -/
def Plain (p : Act Answer) : Prop :=
  ∃ (A : Type) (p' : Act A) (f : A → Answer), p = (p' >>= fun a => return f a) ∧
    Only Silent p' ∧ ∀ a g, f a ≠ .granted g

theorem plain_bind {p : Act A} {f : A → Answer} (hp : Only Silent p)
    (hf : ∀ a g, f a ≠ .granted g) : Plain (p >>= fun a => return f a) := ⟨A, p, f, rfl, hp, hf⟩

theorem plain_empty {p : Act Unit} (hp : Only Silent p) : Plain (p >>= fun _ => return .empty) :=
  plain_bind hp (by rintro _ _ ⟨⟩)

theorem plain_status {p : Act Unit} {text : String} (hp : Only Silent p) :
    Plain (p >>= fun _ => return .status text) :=
  plain_bind hp (by rintro _ _ ⟨⟩)

theorem silent_throttle (client scope : String) (limit : ℕ) :
    Only Silent (throttle lib settings client scope limit) :=
  silent_within (throttle_within lib settings client scope limit) (by decide)

/-- The requests that are granted something when they succeed. -/
def signsIn : Request → Bool
  | .login .. | .refresh _ | .oauthLogin .. => true
  | _ => false

theorem plain_handled (session : ℕ) (q : Request) (hq : signsIn q = false) :
    Plain (handled lib settings session q) := by
  cases q with
  | login | refresh | oauthLogin => cases hq
  | emailAvailable f email client =>
    exact plain_bind (silent_within (isAvailable_within lib settings f email client) (by decide))
      (by rintro _ _ ⟨⟩)
  | signup f email password client =>
    simp only [handled]
    rw [← bind_assoc]
    refine plain_status (only_bind _ _ (silent_throttle _ _ _) (fun _ => ?_))
    exact silent_within (signup_within lib settings f session email password) (by decide)
  | verifyEmail email code =>
    exact plain_status (silent_within (verifyEmail_within lib session email code) (by decide))
  | resendVerification email =>
    exact plain_status (silent_within (sendVerification_within lib settings email) (by decide))
  | forgotPassword email client =>
    simp only [handled]
    rw [← bind_assoc]
    refine plain_status (only_bind _ _ (silent_throttle _ _ _) (fun _ => ?_))
    exact silent_within (forgotPassword_within lib settings email) (by decide)
  | resetPassword email code password =>
    exact plain_status (silent_resetPassword session email code password)
  | changePassword user current new =>
    exact plain_status (silent_changePassword session user current new)
  | logout value =>
    simp only [handled]
    split
    · exact plain_empty (p := pure ()) (only_pure ())
    · exact plain_empty (silent_revokeRefresh value)
  | logoutAll user => exact plain_empty (silent_revokeAll user)
  | oauthChallenge provider =>
    exact plain_bind (silent_within (createChallenge_within settings provider) (by decide))
      (by rintro _ _ ⟨⟩)
  | warm f => exact plain_empty (silent_within (warm_within lib f) (by decide))

theorem keeps_plain {p : Act Answer} (hp : Plain p) :
    Keeps issuing p [] (Tells lib settings) := by
  obtain ⟨A, p, f, rfl, hp, hf⟩ := hp
  refine (keeps_bind _ _ _ _).mpr (keeps_mono _ _ (fun g r hg => ?_) (keeps_silent hp []))
  subst hg
  cases r with
  | error e => rfl
  | ok a =>
    change Tells lib settings [] (.ok (f a))
    rcases ha : f a with _ | _ | g | _ | _
    · rfl
    · rfl
    · exact absurd ha (hf a g)
    · rfl
    · rfl

theorem keeps_handled (session : ℕ) (q : Request) :
    Keeps issuing (handled lib settings session q) [] (Tells lib settings) := by
  cases q with
  | login email password => exact keeps_granted (keeps_login email password)
  | refresh value => exact keeps_granted (keeps_refresh value)
  | oauthLogin f provider idToken nonce =>
    exact keeps_granted (keeps_oauthLogin f session provider idToken nonce)
  | _ => exact keeps_plain (plain_handled session _ rfl)

end Gamely.Grants
