import Gamely.Footprints

/-!
# What a request holds

Along its calls a request comes to hold names, a rotated session, a family set
it has read and a list of families it has still to end. The contract says what
every request may do to the refresh sessions with what it holds; the code of
every request keeps it whatever the services answer.
-/

set_option autoImplicit false

namespace Gamely.SessionContract
open Gamely.Calls Gamely.Stores Gamely.EmailJobs Gamely.Services Gamely.TokenService
open Gamely.EmailFilter Gamely.AuthService Gamely.OAuthService Gamely.Requests
open Gamely.Footprints Gamely.Interleaving

/-- `fresh` are names drawn and not used yet, `held` is the session of a token
rotated out and not yet issued for, `caught` the session of a token found
reused, `read` the family set last read, `detected` the families ended on reuse,
`replaced` the user whose new password was committed, and `sweep` the user whose
sessions are being ended with the families still to do. -/
structure Hand where
  fresh : List String
  held : Option Session
  caught : Option Session
  read : Option (Session × List Digest)
  detected : List Session
  replaced : Option UserId
  sweep : Option (UserId × List FamilyId)
  deriving DecidableEq

def Hand.empty : Hand := ⟨[], none, none, none, [], none, none⟩

def replacedUser (changes : List Change) : Option UserId :=
  changes.findSome? (fun c => match c with
    | .passwordHash user _ => some user
    | _ => none)

def next (g : Hand) : (c : Command) → Except Failure (Reply c) → Hand
  | .tokenUrlsafe, .ok name => { g with fresh := name :: g.fresh }
  | .session (.issue ..), .ok _ => { g with fresh := [], held := none }
  | .session (.rotate ..), .ok (RotateReply.rotated session) => { g with held := some session }
  | .session (.rotate ..), .ok (RotateReply.reused session) => { g with caught := some session }
  | .session (.familyMembers session), .ok digests => { g with read := some (session, digests) }
  | .session (.revoke _ session), .ok _ => { g with
      read := none
      detected := if g.caught = some session then session :: g.detected else g.detected
      sweep := g.sweep.map (fun s => (s.1, s.2.tail)) }
  | .session (.userFamilies user), .ok families => { g with sweep := some (user, families) }
  | .iterate _, .ok families => { g with sweep := g.sweep.map (fun s => (s.1, families)) }
  | .database (.byId _), .ok (some row) =>
    { g with held := g.held.map (fun s => ⟨row.id, s.family⟩) }
  | .database (.commit _ changes), .ok _ =>
    { g with replaced := (replacedUser changes).or g.replaced }
  | _, _ => g

variable (lib : Libraries) (settings : Settings)

def allows (g : Hand) : Command → Prop
  | .session (.issue digest session ttl) => ttl = refreshTtl settings ∧
      ∃ value, digest = lib.digest value ∧
        ((g.held = some session ∧ g.fresh = [value]) ∨
          (g.held = none ∧ g.fresh = [session.family, value]))
  | .session (.rotate _ ttl) => ttl = refreshTtl settings ∧ g.held = none
  | .session (.familyMembers session) =>
      ∀ s, g.sweep = some s → s.1 = session.user ∧ ∃ rest, s.2 = session.family :: rest
  | .session (.revoke digests session) => g.read = some (session, digests) ∧
      ∀ s, g.sweep = some s → s.1 = session.user ∧ ∃ rest, s.2 = session.family :: rest
  | .session (.userFamilies user) => g.read = none ∧ ∀ u, g.replaced = some u → u = user
  | .iterate xs => ∃ user, g.sweep = some (user, xs)
  | .session (.dropSessions user) => g.sweep = some (user, [])
  | .database (.byId user) => ∀ s, g.held = some s → user = s.user
  | .database (.commit _ changes) => replacedUser changes ≠ none →
      g.replaced = none ∧ g.sweep = none
  | _ => True

def protocol : Protocol Command Reply Failure Hand := ⟨allows lib settings, next⟩

/-- A request that replaced a password returns only after it has ended every
family it read. -/
def settled (g : Hand) : Request → Prop
  | .changePassword .. | .resetPassword .. =>
    ∃ user, g.replaced = some user ∧ g.sweep = some (user, [])
  | _ => True

def contract : Contract Command Reply Failure Answer Request Hand where
  start := Hand.empty
  protocol := fun _ _ => protocol lib settings
  post := fun q g r => ∀ a, r = .ok a → settled g q

/-! ## The code keeps the contract -/

def quietParts : List Part :=
  [.random, .clock, .code, .nonce, .throttle, .filter, .rebuild, .lock, .database, .account,
    .snapshot,
    .transaction, .broker, .provider]

theorem replacedUser_of_quiet (changes : List Change)
    (h : changes.any Change.setsPassword = false) : replacedUser changes = none := by
  rw [replacedUser, List.findSome?_eq_none_iff]
  intro c hc
  have hs : c.setsPassword = false := by
    by_contra hn
    exact Bool.false_ne_true (h.symm.trans (List.any_eq_true.mpr ⟨c, hc, by simpa using hn⟩))
  cases c with
  | passwordHash => cases hs
  | emailVerifiedAt => rfl
  | identity => rfl

theorem quiet_inert (g : Hand) (hg : g.held = none) (c : Command) (hc : part c ∈ quietParts) :
    allows lib settings g c ∧ ∀ reply, next g c reply = g := by
  cases c with
  | tokenUrlsafe => simp [part, quietParts] at hc
  | iterate xs => simp [part, quietParts] at hc
  | session c => simp [part, quietParts] at hc
  | database c =>
    cases c with
    | byId user =>
      refine ⟨by simp [allows, hg], fun reply => ?_⟩
      rcases reply with e | _ | row
      · rfl
      · rfl
      · obtain ⟨fresh, held, caught, read, detected, replaced, sweep⟩ := g
        cases hg
        rfl
    | commit session changes =>
      have hn : changes.any Change.setsPassword = false := by
        by_contra h
        have hp : part (.database (.commit session changes)) = .password :=
          if_pos (Bool.not_eq_false _ ▸ h)
        rw [hp] at hc
        simp [quietParts] at hc
      have hr := replacedUser_of_quiet changes hn
      refine ⟨fun h => absurd hr h, fun reply => ?_⟩
      cases reply with
      | error e => rfl
      | ok a => simp [next, hr]
    | _ => exact ⟨trivial, fun reply => rfl⟩
  | _ => exact ⟨trivial, fun reply => rfl⟩

variable {A : Type}

theorem ensures_quiet {p : Act A} {parts : List Part} (hp : Within parts p)
    (hq : parts ⊆ quietParts) {g : Hand} (hg : g.held = none) {post : Hand → A → Prop}
    (hpost : ∀ a, post g a) : Ensures (protocol lib settings) p g post :=
  ensures_of_only (within_mono hq hp) (quiet_inert lib settings g hg) hpost

theorem ensures_issueAccess (user : UserId) (email : Email) (verified : Bool) (g : Hand)
    {post : Hand → String → Prop} (hpost : ∀ a, post g a) :
    Ensures (protocol lib settings) (issueAccess lib settings user email verified) g post :=
  ensures_bind (ensures_invoke trivial (fun _ => ensures_pure _ g (hpost _)))

theorem ensures_issueRefresh (user : UserId) (family? : Option FamilyId) (g : Hand)
    (hf : g.fresh = []) (hh : g.held = family?.map (fun f => ⟨user, f⟩)) :
    Ensures (protocol lib settings) (issueRefresh lib settings user family?) g
      (fun _ _ => True) := by
  refine ensures_bind (ensures_invoke trivial (fun value => ?_))
  cases family? with
  | some family =>
    refine ensures_bind (ensures_pure family _ ?_)
    refine ensures_bind (ensures_invoke ?_ (fun _ => ensures_pure _ _ trivial))
    exact ⟨rfl, value, rfl, Or.inl ⟨hh, by simp [protocol, next, hf]⟩⟩
  | none =>
    refine ensures_bind (ensures_invoke trivial (fun family => ?_))
    refine ensures_bind (ensures_invoke ?_ (fun _ => ensures_pure _ _ trivial))
    exact ⟨rfl, value, rfl, Or.inr ⟨hh, by simp [protocol, next, hf]⟩⟩

theorem ensures_grant (user : User) (family? : Option FamilyId) (g : Hand)
    (hf : g.fresh = []) (hh : g.held = family?.map (fun f => ⟨user.id, f⟩)) :
    Ensures (protocol lib settings) (grant lib settings user family?) g (fun _ _ => True) := by
  refine ensures_bind (ensures_issueAccess lib settings _ _ _ g (fun access => ?_))
  refine ensures_bind (ensures_mono ?_ (ensures_issueRefresh lib settings _ _ g hf hh))
  exact fun g' refresh _ => ensures_pure _ _ trivial

theorem ensures_revokeFamily (session : Session) (g : Hand)
    (hs : ∀ s, g.sweep = some s → s.1 = session.user ∧ ∃ rest, s.2 = session.family :: rest)
    {post : Hand → Unit → Prop}
    (hpost : ∀ digests, post (next { g with read := some (session, digests) }
      (.session (.revoke digests session)) (.ok ())) ()) :
    Ensures (protocol lib settings) (revokeFamily session) g post := by
  refine ensures_bind (ensures_invoke hs (fun digests => ?_))
  exact ensures_invoke ⟨rfl, hs⟩ (fun _ => hpost digests)

theorem ensures_revokeAll (user : UserId) (g : Hand) (hread : g.read = none)
    (hr : ∀ u, g.replaced = some u → u = user) :
    Ensures (protocol lib settings) (revokeAll user) g
      (fun g' _ => g'.replaced = g.replaced ∧ g'.sweep = some (user, [])) := by
  refine ensures_bind (ensures_invoke ⟨hread, hr⟩ (fun listed => ?_))
  refine ensures_bind (ensures_invoke ⟨user, rfl⟩ (fun families => ?_))
  refine ensures_bind (ensures_mono ?_ (ensures_forM _
    (fun families g' => g'.replaced = g.replaced ∧ g'.sweep = some (user, families)) families _
    ⟨rfl, rfl⟩ ?_))
  · rintro g' - ⟨hr', hs⟩
    exact ensures_invoke hs (fun _ => ⟨hr', hs⟩)
  · rintro family rest g' ⟨hr', hs⟩
    refine ensures_revokeFamily lib settings _ _ ?_ (fun digests => ⟨hr', ?_⟩)
    · intro s h
      rw [hs] at h
      cases h
      exact ⟨rfl, rest, rfl⟩
    · simp [next, hs]

theorem ensures_rotateRefresh (value : Token) (g : Hand) (hg : g.held = none)
    (hs : g.sweep = none) :
    Ensures (protocol lib settings) (rotateRefresh lib settings value) g
      (fun g' session => g' = { g with held := some session }) := by
  refine ensures_bind (ensures_invoke ⟨rfl, hg⟩ (fun reply => ?_))
  cases reply with
  | rotated session => exact ensures_pure _ _ rfl
  | missing => exact ensures_throw _ _
  | reused session =>
    refine ensures_bind (ensures_revokeFamily lib settings _ _ ?_ (fun _ => ensures_throw _ _))
    intro s h
    exact absurd (hs.symm.trans h) (by simp)

theorem ensures_requireUser (user : UserId) (g : Hand) (hu : ∀ s, g.held = some s → user = s.user)
    {post : Hand → User → Prop}
    (hpost : ∀ row : User,
      post { g with held := g.held.map (fun s => ⟨row.id, s.family⟩) } row) :
    Ensures (protocol lib settings) (requireUser user) g post := by
  refine ensures_bind (ensures_invoke hu (fun found => ?_))
  cases found with
  | none => exact ensures_throw _ _
  | some row => exact ensures_pure _ _ (hpost row)

theorem ensures_refresh (value : Token) :
    Ensures (protocol lib settings) (refresh lib settings value) Hand.empty
      (fun _ _ => True) := by
  refine ensures_bind (ensures_mono ?_ (ensures_rotateRefresh lib settings value _ rfl rfl))
  rintro g session rfl
  refine ensures_bind (ensures_requireUser lib settings _ _ ?_ (fun row => ?_))
  · rintro s ⟨⟩
    rfl
  · exact ensures_grant lib settings row _ _ rfl rfl

theorem ensures_login (email password : String) :
    Ensures (protocol lib settings) (login lib settings email password) Hand.empty
      (fun _ _ => True) := by
  refine ensures_bind (ensures_ofResult _ _ (fun email _ => ?_))
  refine ensures_bind (ensures_quiet lib settings (byEmail_within email)
    (by simp [quietParts]) rfl (fun found => ?_))
  cases found with
  | none => exact ensures_throw _ _
  | some user =>
    dsimp only
    split
    · exact ensures_grant lib settings user none _ rfl rfl
    · exact ensures_throw _ _

theorem ensures_oauthLogin (f : FilterSettings) (session : ℕ) (provider idToken nonce : String) :
    Ensures (protocol lib settings)
      (oauthLogin lib settings f session provider idToken nonce) Hand.empty
      (fun _ _ => True) := by
  refine ensures_bind (ensures_invoke trivial (fun spent => ?_))
  split
  · exact ensures_throw _ _
  · refine ensures_bind (ensures_ofResult _ _ (fun config _ => ?_))
    refine ensures_bind (ensures_quiet lib settings (verifiedClaims_within config _ _)
      (by simp [quietParts]) rfl (fun claims => ?_))
    refine ensures_bind (ensures_ofResult _ _ (fun email _ => ?_))
    split
    · exact ensures_throw _ _
    · refine ensures_bind (ensures_quiet lib settings (identityUser_within f session _ _ _)
        (by simp [quietParts]) rfl (fun user => ?_))
      exact ensures_grant lib settings user none _ rfl rfl

theorem ensures_replacePassword (session : ℕ) (user : UserId) (password : String) :
    Ensures (protocol lib settings)
      (do
        let h ← hash password
        commit session [.passwordHash user h]
        revokeAll user) Hand.empty
      (fun g _ => ∃ user, g.replaced = some user ∧ g.sweep = some (user, [])) := by
  refine ensures_bind (ensures_invoke trivial (fun h => ?_))
  refine ensures_bind (ensures_invoke (fun _ => ⟨rfl, rfl⟩) (fun _ => ?_))
  refine ensures_mono ?_ (ensures_revokeAll lib settings user _ rfl ?_)
  · rintro g - ⟨hr, hs⟩
    exact ⟨user, hr, hs⟩
  · rintro u ⟨⟩
    rfl

theorem ensures_resetPassword (session : ℕ) (email code password : String) :
    Ensures (protocol lib settings) (resetPassword lib session email code password) Hand.empty
      (fun g _ => ∃ user, g.replaced = some user ∧ g.sweep = some (user, [])) := by
  refine ensures_bind (ensures_ofResult _ _ (fun _ _ => ensures_bind (ensures_ofResult _ _
    (fun email _ => ?_))))
  refine ensures_bind (ensures_quiet lib settings (byEmail_within email)
    (by simp [quietParts]) rfl (fun found => ?_))
  cases found with
  | none => exact ensures_throw _ _
  | some user =>
    refine ensures_bind (ensures_quiet lib settings (consumeCode_within lib _ _ code)
      (by simp [quietParts]) rfl (fun accepted => ?_))
    split
    · exact ensures_replacePassword lib settings session user.id password
    · exact ensures_throw _ _

theorem ensures_changePassword (session : ℕ) (user : UserId) (current new : String) :
    Ensures (protocol lib settings) (changePassword lib session user current new) Hand.empty
      (fun g _ => ∃ user, g.replaced = some user ∧ g.sweep = some (user, [])) := by
  refine ensures_bind (ensures_ofResult _ _ (fun _ _ => ?_))
  refine ensures_bind (ensures_requireUser lib settings user _ (fun s h => by cases h)
    (fun row => ?_))
  split
  · exact ensures_replacePassword lib settings session row.id new
  · exact ensures_throw _ _

theorem ensures_revokeRefresh (value : Token) :
    Ensures (protocol lib settings) (revokeRefresh lib value) Hand.empty (fun _ _ => True) := by
  refine ensures_bind (ensures_invoke trivial (fun found => ?_))
  cases found with
  | none => exact ensures_pure _ _ trivial
  | some session =>
    exact ensures_revokeFamily lib settings _ _ (fun s h => by cases h) (fun _ => trivial)

theorem ensures_createChallenge (provider : String) :
    Ensures (protocol lib settings) (createChallenge settings provider) Hand.empty
      (fun _ _ => True) := by
  refine ensures_bind (ensures_ofResult _ _ (fun _ _ => ?_))
  refine ensures_bind (ensures_invoke trivial (fun nonce => ?_))
  exact ensures_bind (ensures_invoke trivial (fun _ => ensures_pure _ _ trivial))

theorem ensures_warm (f : FilterSettings) :
    Ensures (protocol lib settings) (warm lib f) Hand.empty (fun _ _ => True) := by
  unfold warm
  split
  · exact ensures_pure _ _ trivial
  · refine ensures_tryCatch ?_ (fun _ _ => ensures_pure _ _ trivial)
    refine ensures_bind (ensures_invoke trivial (fun token => ?_))
    exact ensures_quiet lib settings (lockedRebuild_within lib f token) (by simp [quietParts]) rfl
      (fun _ => trivial)

theorem ensures_rollback (session : ℕ) (g : Hand) {post : Hand → Unit → Prop}
    (hpost : post g ()) : Ensures (protocol lib settings) (rollback session) g post :=
  ensures_invoke trivial (fun _ => hpost)

theorem ensures_handled (session : ℕ) (q : Request) :
    Ensures (protocol lib settings) (handled lib settings session q) Hand.empty
      (fun g _ => settled g q) := by
  have hthrottle : ∀ client scope limit {B : Type} (p : Act B) (post : Hand → B → Prop),
      Ensures (protocol lib settings) p Hand.empty post →
      Ensures (protocol lib settings)
        (throttle lib settings client scope limit >>= fun _ => p) Hand.empty post :=
    fun client scope limit _ p post hp => ensures_bind (ensures_quiet lib settings
      (throttle_within lib settings client scope limit) (by simp [quietParts]) rfl (fun _ => hp))
  have hquiet : ∀ {B : Type} {parts : List Part} (p : Act B), Within parts p →
      parts ⊆ quietParts → Ensures (protocol lib settings) p Hand.empty (fun _ _ => True) :=
    fun p hp hq => ensures_quiet lib settings hp hq rfl (fun _ => trivial)
  have haccount : accountParts ⊆ quietParts := by simp [accountParts, quietParts]
  have hsending : sendingParts ⊆ quietParts := by simp [sendingParts, quietParts]
  cases q with
  | emailAvailable f email client =>
    exact ensures_map (hquiet _ (isAvailable_within lib settings f email client)
      (by simp [quietParts]))
  | signup f email password client =>
    refine hthrottle _ _ _ _ _ (ensures_bind ?_)
    exact ensures_mono (fun _ _ _ => ensures_pure _ _ trivial)
      (hquiet _ (signup_within lib settings f session email password) haccount)
  | login email password => exact ensures_map (ensures_login lib settings email password)
  | verifyEmail email code =>
    exact ensures_bind (ensures_mono (fun _ _ _ => ensures_pure _ _ trivial)
      (hquiet _ (verifyEmail_within lib session email code) haccount))
  | resendVerification email =>
    exact ensures_bind (ensures_mono (fun _ _ _ => ensures_pure _ _ trivial)
      (hquiet _ (sendVerification_within lib settings email) hsending))
  | forgotPassword email client =>
    refine hthrottle _ _ _ _ _ (ensures_bind ?_)
    exact ensures_mono (fun _ _ _ => ensures_pure _ _ trivial)
      (hquiet _ (forgotPassword_within lib settings email) hsending)
  | resetPassword email code password =>
    exact ensures_bind (ensures_mono (fun _ _ h => ensures_pure _ _ h)
      (ensures_resetPassword lib settings session email code password))
  | changePassword user current new =>
    exact ensures_bind (ensures_mono (fun _ _ h => ensures_pure _ _ h)
      (ensures_changePassword lib settings session user current new))
  | refresh value => exact ensures_map (ensures_refresh lib settings value)
  | logout value =>
    simp only [handled]
    split
    · exact ensures_pure _ _ trivial
    · exact ensures_bind (ensures_mono (fun _ _ _ => ensures_pure _ _ trivial)
        (ensures_revokeRefresh lib settings value))
  | logoutAll user =>
    exact ensures_bind (ensures_mono (fun _ _ _ => ensures_pure _ _ trivial)
      (ensures_revokeAll lib settings user _ rfl (fun u h => by cases h)))
  | oauthChallenge provider =>
    exact ensures_map (ensures_createChallenge lib settings provider)
  | oauthLogin f provider idToken nonce =>
    exact ensures_map (ensures_oauthLogin lib settings f session provider idToken nonce)
  | warm f =>
    exact ensures_bind (ensures_mono (fun _ _ _ => ensures_pure _ _ trivial)
      (ensures_warm lib settings f))

theorem ensures_serve (session : ℕ) (q : Request) :
    Ensures (protocol lib settings) (serve lib settings session q) Hand.empty
      (fun g _ => settled g q) := by
  refine ensures_bind (ensures_mono ?_ (ensures_tryCatch
    (ensures_handled lib settings session q) (fun e g => ?_)))
  · exact fun g answer hg =>
      ensures_bind (ensures_rollback lib settings session g (ensures_pure _ _ hg))
  · exact ensures_bind (ensures_rollback lib settings session g (ensures_throw _ _))

theorem obeys : Obeys (service lib settings) (contract lib settings) where
  program := fun i q => ensures_serve lib settings i q
  cancelled := by
    intro i q p hp g
    cases q with
    | warm f =>
      cases hp
      exact ensures_pure _ _ trivial
    | _ => cases hp

end Gamely.SessionContract
