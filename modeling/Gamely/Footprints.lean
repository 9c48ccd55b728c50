import Gamely.Requests

/-!
# Footprints

Which services each function talks to. A property of one store is kept by every
function whose footprint leaves that store out.
-/

set_option autoImplicit false

namespace Gamely.Footprints
open Gamely.Calls Gamely.Stores Gamely.EmailJobs Gamely.Services Gamely.TokenService
open Gamely.EmailFilter Gamely.AuthService Gamely.OAuthService Gamely.Requests

/-- What only a rebuild does to the filter, and what it does to its lock, is told apart
from what any request does.
Reads of the database, inserts of accounts, the stream of all addresses and the
ends of transactions are told apart, and commits by whether they replace a
password hash. -/
inductive Part where
  | name
  | random
  | clock
  | order
  | session
  | code
  | nonce
  | throttle
  | filter
  | rebuild
  | lock
  | database
  | account
  | snapshot
  | transaction
  | password
  | broker
  | provider
  deriving DecidableEq, Repr

def part : Command → Part
  | .tokenUrlsafe => .name
  | .uuid4 => .random
  | .randbelow _ => .random
  | .hash _ => .random
  | .utcnow => .clock
  | .iterate _ => .order
  | .session _ => .session
  | .code _ => .code
  | .setNonce .. => .nonce
  | .delNonce .. => .nonce
  | .fixedWindow .. => .throttle
  | .filter .getMarker => .filter
  | .filter (.exists _) => .filter
  | .filter (.insert ..) => .filter
  | .filter .delMarker => .filter
  | .filter (.reserve _) => .rebuild
  | .filter (.setMarker _) => .rebuild
  | .filter .drop => .rebuild
  | .filter (.setLock ..) => .lock
  | .filter (.releaseLock _) => .lock
  | .database (.commit _ changes) =>
    if changes.any Change.setsPassword then .password else .transaction
  | .database (.rollback _) => .transaction
  | .database (.createUser ..) => .account
  | .database .emails => .snapshot
  | .database (.byEmail _) => .database
  | .database (.byId _) => .database
  | .database (.byIdentity ..) => .database
  | .publish _ => .broker
  | .idToken .. => .provider

def drops : (c : Command) → Except Failure (Reply c) → Bool
  | .filter .drop, .ok _ => true
  | _, _ => false

def Within {A : Type} (parts : List Part) (p : Act A) : Prop := Only (fun c => part c ∈ parts) p

theorem within_mono {A : Type} {parts more : List Part} (h : parts ⊆ more) {p : Act A}
    (hp : Within parts p) : Within more p := only_mono (fun _ hc => h hc) p hp

variable (lib : Libraries) (settings : Settings)

/-! ## Tokens -/

theorem issueAccess_within (user : UserId) (email : Email) (verified : Bool) :
    Within [.clock] (issueAccess lib settings user email verified) :=
  only_bind _ _ (only_invoke _ (by decide)) (fun _ => only_pure _)

theorem revokeFamily_within (session : Session) : Within [.session] (revokeFamily session) :=
  only_bind _ _ (only_invoke _ (List.mem_singleton.mpr rfl))
    (fun _ => only_invoke _ (List.mem_singleton.mpr rfl))

/-! ## The filter -/

theorem cuckoo_within (c : FilterCall) (h : part (.filter c) = .filter) :
    Within [.filter] (cuckoo c) :=
  only_invoke _ (by simp [h])

theorem mightExist_within (f : FilterSettings) (email : Email) :
    Within [.filter] (mightExist f email) := by
  unfold mightExist
  split
  · exact only_pure _
  · refine only_tryCatch _ _ (only_bind _ _ ?_ (fun _ => only_pure _)) (fun _ => only_pure _)
    exact only_bind _ _ (cuckoo_within _ rfl)
      (fun _ => only_bind _ _ (cuckoo_within _ rfl) (fun _ => only_pure _))

theorem addMany_within (f : FilterSettings) (items : List String) :
    Within [.filter] (addMany f items) := by
  unfold addMany
  split
  · exact only_pure _
  · exact only_bind _ _ (cuckoo_within _ rfl) (fun _ => only_pure _)

theorem remember_within (f : FilterSettings) (email : Email) :
    Within [.filter] (remember f email) := by
  unfold remember
  split
  · exact only_pure _
  · refine only_tryCatch _ _ (only_bind _ _ ?_ (fun _ => only_pure _))
      (fun _ => only_tryCatch _ _ (cuckoo_within _ rfl) (fun _ => only_pure _))
    exact only_bind _ _ (addMany_within f _) (fun _ => only_pure _)

theorem rebuild_within (f : FilterSettings) :
    Within [.filter, .rebuild, .snapshot] (rebuild lib f) := by
  apply only_bind _ _ (only_invoke _ (by decide))
  intro _
  apply only_bind _ _ (only_invoke _ (by simp [part]))
  intro _
  apply only_bind _ _ (only_invoke _ (by decide))
  intro emails
  refine only_bind _ _ (only_forM _ _ (fun batch => ?_)) (fun _ => only_invoke _ (by simp [part]))
  unfold addBatch
  split
  · exact only_bind _ _ (within_mono (by simp) (addMany_within f _)) (fun _ => only_pure _)
  · exact only_throw _

theorem lockedRebuild_within (f : FilterSettings) (token : String) :
    Within [.filter, .rebuild, .snapshot, .lock] (lockedRebuild lib f token) := by
  apply only_bind _ _ (only_invoke _ (by simp [part]))
  intro locked
  split
  · exact only_pure _
  · exact only_tryCatch _ _ (within_mono (by simp) (rebuild_within lib f))
      (fun _ => only_bind _ _ (only_invoke _ (by simp [part])) (fun _ => only_throw _))

/-! ## Accounts -/

theorem read_within (c : DatabaseCall) (h : part (.database c) = .database) :
    Within [.database] (database c) :=
  only_invoke _ (by simp [h])

theorem requireUser_within (user : UserId) : Within [.database] (requireUser user) := by
  apply only_bind _ _ (read_within _ rfl)
  intro found
  cases found with
  | none => exact only_throw _
  | some user => exact only_pure _

theorem emailVerifiedAt_within (verified : Bool) : Within [.clock] (emailVerifiedAt verified) := by
  unfold emailVerifiedAt
  split
  · exact only_map _ _ (only_invoke _ (by simp [part]))
  · exact only_pure _

theorem createUser_within (session : ℕ) (email : Email) (h : Option Hash) (verified : Bool) :
    Within [.clock, .random, .account] (createUser session email h verified) := by
  apply only_bind _ _ (within_mono (by simp) (emailVerifiedAt_within verified))
  intro at'
  apply only_bind _ _ (only_invoke Command.uuid4 (by simp [part]))
  intro id
  exact only_bind _ _ (only_invoke _ (by simp [part])) (fun _ => only_pure _)

theorem sendCode_within (email : Email) (purpose : Purpose) :
    Within [.code, .random, .clock, .broker] (sendCode lib settings email purpose) := by
  have hc : ∀ c, Within [.code, .random, .clock, .broker] (codes c) :=
    fun c => only_invoke _ (by simp [part])
  unfold sendCode
  apply only_bind _ _ (hc _)
  intro fresh
  split
  · exact only_throw _
  · apply only_bind _ _ (only_map _ _ (only_invoke _ (by simp [part])))
    intro code
    apply only_bind _ _ (only_invoke _ (by simp [part]))
    intro now
    apply only_bind _ _ (only_ofResult _)
    intro expiresAt
    refine only_tryCatch _ _ ?_ (fun _ => only_bind _ _ (hc _) (fun _ => only_throw _))
    exact only_bind _ _ (hc _) (fun _ => only_bind _ _ (only_ofResult _)
      (fun job => only_invoke _ (by simp [part])))

theorem consumeCode_within (email : Email) (purpose : Purpose) (code : String) :
    Within [.code] (consumeCode lib email purpose code) := by
  have hc : ∀ c, Within [.code] (codes c) := fun c => only_invoke _ (List.mem_singleton.mpr rfl)
  unfold consumeCode
  apply only_bind _ _ (hc _)
  intro stored
  cases stored with
  | none => exact only_pure _
  | some payload =>
    dsimp only
    split
    · exact only_bind _ _ (hc _) (fun _ => only_pure _)
    · split
      · exact only_bind _ _ (hc _) (fun _ => only_bind _ _ (hc _) (fun _ => only_pure _))
      · exact only_bind _ _ (hc _) (fun _ => only_pure _)

theorem byEmail_within (email : Email) : Within [.database] (byEmail email) :=
  read_within _ rfl

theorem commit_within (session : ℕ) (changes : List Change)
    (h : changes.any Change.setsPassword = false) :
    Within [.transaction] (commit session changes) :=
  only_invoke _ (by simp [part, h])

theorem rollback_within (session : ℕ) : Within [.transaction] (rollback session) :=
  only_invoke _ (by simp [part])

/-! ## Requests that touch no session -/

theorem throttle_within (client scope : String) (limit : ℕ) :
    Within [.throttle] (throttle lib settings client scope limit) := by
  apply only_bind _ _ (only_tryCatch _ _ (only_invoke _ (by simp [part]))
    (fun _ => only_throw _))
  intro hits
  split
  · exact only_throw _
  · exact only_pure _

theorem isAvailable_within (f : FilterSettings) (email client : String) :
    Within [.throttle, .filter, .database] (isAvailable lib settings f email client) := by
  refine only_bind _ _ (within_mono (by simp) (throttle_within lib settings _ _ _))
    (fun _ => only_bind _ _ (only_ofResult _) (fun address => ?_))
  apply only_bind _ _ (within_mono (by simp) (mightExist_within f _))
  intro hit
  split
  · exact only_bind _ _ (within_mono (by simp) (byEmail_within _)) (fun _ => only_pure _)
  · exact only_pure _

theorem emailTaken_within (f : FilterSettings) (email : Email) :
    Within [.filter, .database] (emailTaken f email) := by
  apply only_bind _ _ (within_mono (by simp) (mightExist_within f _))
  intro hit
  split
  · exact only_bind _ _ (within_mono (by simp) (byEmail_within _)) (fun _ => only_pure _)
  · exact only_pure _

def accountParts : List Part := [.random, .clock, .code, .throttle, .filter, .database, .account,
  .transaction, .broker]

theorem createAccount_within (f : FilterSettings) (session : ℕ) (email password : String) :
    Within accountParts (createAccount lib settings f session email password) := by
  apply only_bind _ _ (only_invoke _ (by simp [part, accountParts]))
  intro h
  apply only_bind _ _ (within_mono (by simp [accountParts]) (createUser_within _ _ _ _))
  intro _
  apply only_bind _ _ (within_mono (by simp [accountParts]) (remember_within _ _))
  intro _
  apply only_bind _ _ (within_mono (by simp [accountParts]) (sendCode_within lib settings _ _))
  intro _
  exact within_mono (by simp [accountParts]) (commit_within _ _ rfl)

theorem signup_within (f : FilterSettings) (session : ℕ) (email password : String) :
    Within accountParts (signup lib settings f session email password) := by
  have hr : ∀ e, Within accountParts (remember f e) :=
    fun e => within_mono (by simp [accountParts]) (remember_within f e)
  refine only_bind _ _ (only_ofResult _)
    (fun email => only_bind _ _ (only_ofResult _) (fun _ => ?_))
  apply only_bind _ _ (within_mono (by simp [accountParts]) (emailTaken_within f _))
  intro taken
  split
  · exact only_throw _
  · apply only_tryCatch _ _ (createAccount_within lib settings f session _ _)
    intro e
    apply only_bind _ _ (within_mono (by simp [accountParts]) (rollback_within session))
    intro _
    split
    · exact only_bind _ _ (hr _) (fun _ => only_throw _)
    · exact only_throw _

def sendingParts : List Part := [.random, .clock, .code, .database, .broker]

theorem askCode_within (purpose : Purpose) (due : User → Prop) [DecidablePred due]
    (email : String) : Within sendingParts (askCode lib settings purpose due email) := by
  apply only_bind _ _ (only_ofResult _)
  intro email
  apply only_bind _ _ (within_mono (by simp [sendingParts]) (byEmail_within _))
  intro found
  cases found with
  | none => exact only_pure _
  | some user =>
    dsimp only
    split
    · exact only_tryCatch _ _ (within_mono (by simp [sendingParts])
        (sendCode_within lib settings _ _)) (fun _ => only_pure _)
    · exact only_pure _

theorem sendVerification_within (email : String) :
    Within sendingParts (sendVerification lib settings email) := by
  rw [sendVerification_eq]
  exact askCode_within lib settings _ _ email

theorem forgotPassword_within (email : String) :
    Within sendingParts (forgotPassword lib settings email) := by
  rw [forgotPassword_eq]
  exact askCode_within lib settings _ _ email

theorem presentCode_within {parts : List Part} (hparts : [.database, .code] ⊆ parts)
    (purpose : Purpose) (message email code : String) {accepted : User → Act Unit}
    (h : ∀ user, Within parts (accepted user)) :
    Within parts (presentCode lib purpose message email code accepted) := by
  have hdatabase : [.database] ⊆ parts := fun p hp => hparts (List.mem_cons.mpr
    (Or.inl (List.mem_singleton.mp hp)))
  have hcode : [.code] ⊆ parts := fun p hp => hparts (List.mem_cons_of_mem _ hp)
  apply only_bind _ _ (only_ofResult _)
  intro email
  apply only_bind _ _ (within_mono hdatabase (byEmail_within _))
  intro found
  cases found with
  | none => exact only_throw _
  | some user =>
    apply only_bind _ _ (within_mono hcode (consumeCode_within lib _ _ _))
    intro accepted
    split
    · exact h user
    · exact only_throw _

theorem verifyEmail_within (session : ℕ) (email code : String) :
    Within accountParts (verifyEmail lib session email code) := by
  rw [verifyEmail_eq]
  apply presentCode_within lib (by simp [accountParts])
  intro user
  apply only_bind _ _ (only_invoke _ (by simp [part, accountParts]))
  intro now
  exact within_mono (by simp [accountParts]) (commit_within _ _ rfl)

theorem verifiedClaims_within (config : OAuthService.ProviderConfig) (idToken nonce : String) :
    Within [.provider] (verifiedClaims config idToken nonce) := by
  apply only_bind _ _ (only_tryCatch _ _ (only_invoke _ (by simp [part]))
    (fun _ => only_throw _))
  intro decoded
  cases decoded with
  | none => exact only_throw _
  | some claims =>
    dsimp only
    split
    · exact only_throw _
    · apply only_bind _ _ (only_ofResult _)
      intro same
      split
      · exact only_throw _
      · exact only_pure _

theorem identityUser_within (f : FilterSettings) (session : ℕ) (provider subject : String)
    (email : Email) :
    Within [.clock, .random, .filter, .database, .account, .transaction]
      (identityUser f session provider subject email) := by
  have hd : ∀ c, part (.database c) = .database →
      Within [.clock, .random, .filter, .database, .account, .transaction]
        (EmailFilter.database c) :=
    fun c h => within_mono (by simp) (read_within c h)
  have hc : ∀ changes, changes.any Change.setsPassword = false →
      Within [.clock, .random, .filter, .database, .account, .transaction]
        (commit session changes) :=
    fun changes h => within_mono (by simp) (commit_within session changes h)
  apply only_bind _ _ (hd _ rfl)
  intro identity
  cases identity with
  | some identity => exact within_mono (by simp) (requireUser_within _)
  | none =>
    apply only_bind _ _ (hd _ rfl)
    intro found
    cases found with
    | none =>
      apply only_bind _ _ (within_mono (by simp) (createUser_within _ _ _ _))
      intro user
      apply only_bind _ _ (within_mono (by simp) (remember_within _ _))
      intro _
      exact only_bind _ _ (hc _ rfl) (fun _ => only_pure _)
    | some user =>
      dsimp only
      split
      · apply only_bind _ _ (only_invoke _ (by simp [part]))
        intro now
        exact only_bind _ _ (hc _ rfl) (fun _ => only_pure _)
      · exact only_bind _ _ (hc _ rfl) (fun _ => only_pure _)

theorem warm_within (f : FilterSettings) :
    Within [.name, .filter, .rebuild, .snapshot, .lock] (warm lib f) := by
  unfold warm
  split
  · exact only_pure _
  · refine only_tryCatch _ _ (only_bind _ _ (only_invoke _ (by simp [part])) (fun token => ?_))
      (fun _ => only_pure _)
    exact within_mono (by simp) (lockedRebuild_within lib f token)

/-! ## Requests on sessions -/

theorem redis_within (c : SessionCall) : Within [.session] (redis c) :=
  only_invoke _ (List.mem_singleton.mpr rfl)

theorem issueRefresh_within (user : UserId) (family? : Option FamilyId) :
    Within [.name, .session] (issueRefresh lib settings user family?) := by
  have hname : Within [.name, .session] tokenUrlsafe := only_invoke _ (by simp [part])
  refine only_bind _ _ hname (fun value => only_bind _ _ ?_ (fun family => ?_))
  · cases family? with
    | some family => exact only_pure _
    | none => exact hname
  · exact only_bind _ _ (within_mono (by simp) (redis_within _)) (fun _ => only_pure _)

theorem grant_within (user : User) (family? : Option FamilyId) :
    Within [.name, .clock, .session] (grant lib settings user family?) := by
  apply only_bind _ _ (within_mono (by simp) (issueAccess_within lib settings _ _ _))
  intro access
  exact only_bind _ _ (within_mono (by simp) (issueRefresh_within lib settings _ _))
    (fun _ => only_pure _)

theorem revokeAll_within (user : UserId) : Within [.session, .order] (revokeAll user) := by
  have hs : ∀ c, Within [.session, .order] (redis c) :=
    fun c => within_mono (by simp) (redis_within c)
  apply only_bind _ _ (hs _)
  intro listed
  apply only_bind _ _ (only_invoke _ (by simp [part]))
  intro families
  refine only_bind _ _ (only_forM _ _ (fun family => ?_)) (fun _ => hs _)
  exact within_mono (by simp) (revokeFamily_within _)

theorem revokeRefresh_within (value : Token) : Within [.session] (revokeRefresh lib value) := by
  apply only_bind _ _ (redis_within _)
  intro found
  cases found with
  | none => exact only_pure _
  | some session => exact revokeFamily_within session

theorem login_within (email password : String) :
    Within [.name, .clock, .session, .database] (login lib settings email password) := by
  apply only_bind _ _ (only_ofResult _)
  intro email
  apply only_bind _ _ (within_mono (by simp) (byEmail_within _))
  intro found
  cases found with
  | none => exact only_throw _
  | some user =>
    dsimp only
    split
    · exact within_mono (by simp) (grant_within lib settings user none)
    · exact only_throw _

theorem refresh_within (value : Token) :
    Within [.name, .clock, .session, .database] (refresh lib settings value) := by
  refine only_bind _ _ (only_bind _ _ (within_mono (by simp) (redis_within _)) (fun reply => ?_))
    (fun session => ?_)
  · cases reply with
    | rotated session => exact only_pure _
    | missing => exact only_throw _
    | reused session =>
      exact only_bind _ _ (within_mono (by simp) (revokeFamily_within session))
        (fun _ => only_throw _)
  · apply only_bind _ _ (within_mono (by simp) (requireUser_within _))
    intro user
    exact within_mono (by simp) (grant_within lib settings user _)

theorem replacePassword_within (session : ℕ) (user : UserId) (password : String) :
    Within [.random, .password, .session, .order]
      (do
        let h ← hash password
        commit session [.passwordHash user h]
        revokeAll user) := by
  apply only_bind _ _ (only_invoke _ (by simp [part]))
  intro h
  apply only_bind _ _ (only_invoke _ (by simp [part, Change.setsPassword]))
  intro _
  exact within_mono (by simp) (revokeAll_within user)

theorem changePassword_within (session : ℕ) (user : UserId) (current new : String) :
    Within [.random, .password, .session, .order, .database]
      (changePassword lib session user current new) := by
  apply only_bind _ _ (only_ofResult _)
  intro _
  apply only_bind _ _ (within_mono (by simp) (requireUser_within user))
  intro row
  split
  · exact within_mono (by simp) (replacePassword_within session row.id new)
  · exact only_throw _

theorem resetPassword_within (session : ℕ) (email code password : String) :
    Within [.random, .password, .session, .order, .database, .code]
      (resetPassword lib session email code password) := by
  rw [resetPassword_eq]
  apply only_bind _ _ (only_ofResult _)
  intro _
  apply presentCode_within lib (by simp)
  exact fun user => within_mono (by simp) (replacePassword_within session user.id password)

theorem createChallenge_within (provider : String) :
    Within [.name, .nonce] (createChallenge settings provider) := by
  apply only_bind _ _ (only_ofResult _)
  intro _
  apply only_bind _ _ (only_invoke _ (by simp [part]))
  intro nonce
  exact only_bind _ _ (only_invoke _ (by simp [part])) (fun _ => only_pure _)

theorem oauthLogin_within (f : FilterSettings) (session : ℕ) (provider idToken nonce : String) :
    Within [.nonce, .provider, .clock, .random, .filter, .database, .account, .transaction, .name,
        .session]
      (oauthLogin lib settings f session provider idToken nonce) := by
  apply only_bind _ _ (only_invoke _ (by simp [part]))
  intro spent
  split
  · exact only_throw _
  · apply only_bind _ _ (only_ofResult _)
    intro config
    refine only_bind _ _ (within_mono (by simp) (verifiedClaims_within config _ _))
      (fun claims => only_bind _ _ (only_ofResult _) (fun email => ?_))
    split
    · exact only_throw _
    · apply only_bind _ _ (within_mono (by simp) (identityUser_within f session _ _ _))
      intro user
      exact within_mono (by simp) (grant_within lib settings user none)

/-! ## Whole requests -/

/-- What a request uses, its final rollback aside. -/
def footprint : Request → List Part
  | .emailAvailable .. => [.throttle, .filter, .database]
  | .signup .. => accountParts
  | .login .. => [.name, .clock, .session, .database]
  | .verifyEmail .. => accountParts
  | .resendVerification _ => sendingParts
  | .forgotPassword .. => .throttle :: sendingParts
  | .resetPassword .. => [.random, .password, .session, .order, .database, .code]
  | .changePassword .. => [.random, .password, .session, .order, .database]
  | .refresh _ => [.name, .clock, .session, .database]
  | .logout _ => [.session]
  | .logoutAll _ => [.session, .order]
  | .oauthChallenge _ => [.name, .nonce]
  | .oauthLogin .. => [.nonce, .provider, .clock, .random, .filter, .database, .account,
      .transaction, .name, .session]
  | .warm _ => [.name, .filter, .rebuild, .snapshot, .lock]

theorem handled_within (session : ℕ) (q : Request) :
    Within (footprint q) (handled lib settings session q) := by
  have status : ∀ {parts : List Part} {p : Act Unit} (a : Answer), Within parts p →
      Within parts (p >>= fun _ => pure a) :=
    fun a hp => only_bind _ _ hp (fun _ => only_pure a)
  cases q with
  | emailAvailable f email client =>
    exact only_map _ _ (isAvailable_within lib settings f email client)
  | signup f email password client =>
    apply only_bind _ _ (within_mono (by simp [footprint, accountParts])
      (throttle_within lib settings _ _ _))
    intro _
    exact status _ (signup_within lib settings f session email password)
  | login email password => exact only_map _ _ (login_within lib settings email password)
  | verifyEmail email code => exact status _ (verifyEmail_within lib session email code)
  | resendVerification email => exact status _ (sendVerification_within lib settings email)
  | forgotPassword email client =>
    apply only_bind _ _ (within_mono (by simp [footprint])
      (throttle_within lib settings _ _ _))
    intro _
    exact status _ (within_mono (List.subset_cons_self _ _)
      (forgotPassword_within lib settings email))
  | resetPassword email code password =>
    exact status _ (resetPassword_within lib session email code password)
  | changePassword user current new =>
    exact status _ (changePassword_within lib session user current new)
  | refresh value => exact only_map _ _ (refresh_within lib settings value)
  | logout value =>
    simp only [handled]
    split
    · exact only_pure _
    · exact status _ (revokeRefresh_within lib value)
  | logoutAll user => exact status _ (revokeAll_within user)
  | oauthChallenge provider => exact only_map _ _ (createChallenge_within settings provider)
  | oauthLogin f provider idToken nonce =>
    exact only_map _ _ (oauthLogin_within lib settings f session provider idToken nonce)
  | warm f => exact status _ (warm_within lib f)

theorem serve_within (session : ℕ) (q : Request) :
    Within (.transaction :: footprint q) (serve lib settings session q) := by
  have hr : Within (.transaction :: footprint q) (rollback session) :=
    within_mono (by simp) (rollback_within session)
  refine only_bind _ _ (only_tryCatch _ _ ?_ (fun _ => only_bind _ _ hr (fun _ => only_throw _)))
    (fun answer => only_bind _ _ hr (fun _ => only_pure _))
  exact within_mono (List.subset_cons_self _ _) (handled_within lib settings session q)

end Gamely.Footprints
