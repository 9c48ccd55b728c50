import Gamely.Credentials
import Gamely.FilterContract
import Gamely.SessionOrigins

/-!
# What is written to the directory

An account or an identity that is committed stays. A request writes addresses in their normal
form, and one identity at most, for an account it has read by its address or created in the
transaction that is still open.
-/

set_option autoImplicit false

namespace Gamely.AccountWrites
open Gamely.Calls Gamely.Stores Gamely.EmailJobs Gamely.Services Gamely.TokenService
open Gamely.EmailFilter Gamely.AuthService Gamely.OAuthService Gamely.Requests
open Gamely.Footprints Gamely.Interleaving Gamely.Pasts Gamely.AccountMoves
open Gamely.SessionOrigins

/-! ## What stays -/

/-- No account and no identity goes away; an account keeps its id, its address, a password if
it has one, and its verification. -/
structure Persists (db db' : Database) : Prop where
  users : ∀ u ∈ db.users, ∃ u' ∈ db'.users, u'.id = u.id ∧ u'.email = u.email ∧
    (u.passwordHash ≠ none → u'.passwordHash ≠ none) ∧
    (u.emailVerifiedAt ≠ none → u'.emailVerifiedAt ≠ none)
  identities : db.identities ⊆ db'.identities

theorem persists_of_eq {db db' : Database} (hu : db'.users = db.users)
    (hi : db'.identities = db.identities) : Persists db db' := by
  constructor
  · rw [hu]
    exact fun u hm => ⟨u, hm, rfl, rfl, id, id⟩
  · rw [hi]
    exact fun _ hx => hx

theorem persists_trans {db db' db'' : Database} (h : Persists db db') (h' : Persists db' db'') :
    Persists db db'' := by
  constructor
  · intro u hu
    obtain ⟨u', hu', hid, hemail, hpassword, hverified⟩ := h.users u hu
    obtain ⟨u'', hu'', hid', hemail', hpassword', hverified'⟩ := h'.users u' hu'
    exact ⟨u'', hu'', hid'.trans hid, hemail'.trans hemail, fun hn => hpassword' (hpassword hn),
      fun hn => hverified' (hverified hn)⟩
  · exact fun x hx => h'.identities (h.identities hx)

theorem onUser_verified (change : Change) (u : User) (h : u.emailVerifiedAt ≠ none) :
    (onUser u change).emailVerifiedAt ≠ none := by
  cases change with
  | passwordHash user hash =>
    simp only [onUser]
    split <;> exact h
  | emailVerifiedAt user t =>
    simp only [onUser]
    split
    · exact Option.some_ne_none t
    · exact h
  | identity row => exact h

theorem changes_verified (changes : List Change) (u : User) (h : u.emailVerifiedAt ≠ none) :
    (changes.foldl onUser u).emailVerifiedAt ≠ none := by
  induction changes generalizing u with
  | nil => exact h
  | cons change changes ih => exact ih _ (onUser_verified change u h)

theorem users_committed (db : Database) (session : ℕ) (changes : List Change) :
    (committed db session changes).users =
      (db.users ++ (db.flushed.filter (fun x => x.1 = session)).map Prod.snd).map
        (fun u => changes.foldl onUser u) :=
  (apply_changes changes _).1

theorem identities_committed (db : Database) (session : ℕ) (changes : List Change) :
    (committed db session changes).identities = db.identities ++ changes.filterMap added :=
  (apply_changes changes _).2.1

theorem flushed_committed (db : Database) (session : ℕ) (changes : List Change) :
    (committed db session changes).flushed = db.flushed.filter (fun x => x.1 ≠ session) :=
  (apply_changes changes _).2.2

theorem persists_committed (db : Database) (session : ℕ) (changes : List Change) :
    Persists db (committed db session changes) := by
  constructor
  · intro u hu
    obtain ⟨hid, hemail, hpassword⟩ := changes_kept changes u
    refine ⟨changes.foldl onUser u, ?_, hid, hemail, hpassword, changes_verified changes u⟩
    rw [users_committed]
    exact List.mem_map_of_mem (List.mem_append_left _ hu)
  · rw [identities_committed]
    exact List.subset_append_left _ _

theorem persists_database {c : DatabaseCall} {db db' : Database} {reply : Except Failure c.Reply}
    (h : c.perform db = some (reply, db')) : Persists db db' := by
  cases c with
  | createUser session row =>
    simp only [DatabaseCall.perform] at h
    split at h
    · cases h
      exact persists_of_eq rfl rfl
    · split at h
      · cases h
      · cases h
        exact persists_of_eq rfl rfl
  | commit session changes =>
    simp only [DatabaseCall.perform] at h
    split at h
    · cases h
      exact persists_of_eq rfl rfl
    · cases h
      exact persists_committed db session changes
  | _ =>
    cases h
    exact persists_of_eq rfl rfl

theorem persists_perform {lib : Libraries} {c : Command} {x : Choice} {w w' : World}
    {reply : Except Failure (Reply c)} (h : perform lib c x w = some (reply, w')) :
    Persists w.database w'.database := by
  rcases perform_cases h with ⟨-, -, -, rfl⟩ | ⟨-, h⟩
  · exact persists_of_eq rfl rfl
  · rcases answer_database h with ⟨d, rfl⟩ | he
    · obtain ⟨r, hr, hw⟩ := Option.map_eq_some_iff.mp h
      cases hw
      exact persists_database hr
    · rw [he]
      exact persists_of_eq rfl rfl

/-! ## What an answer says of the directory -/

def Account (db : Database) (address : Email) (user : UserId) : Prop :=
  ∃ u ∈ db.users, u.email = address ∧ u.id = user

/-- What an answered call found in the directory or wrote to it, and what a token says. -/
def Holds (lib : Libraries) (db : Database) : (c : Command) → Except Failure (Reply c) → Prop
  | .database (.byEmail address), .ok (some row) =>
    row.email = address ∧ Account db address row.id
  | .database (.byId user), .ok (some row) => row.id = user
  | .database (.byIdentity provider subject), .ok (some x) =>
    x.provider = provider ∧ x.subject = subject ∧ x ∈ db.identities
  | .database (.commit _ changes), .ok _ => ∀ x ∈ changes.filterMap added, x ∈ db.identities
  | .database .emails, .ok emails => ∀ address ∈ emails, ∃ user, Account db address user
  | .idToken jwksUrl clientId idToken, .ok claims =>
    claims = lib.decodeIdToken jwksUrl clientId idToken
  | _, _ => True

theorem account_mono {db db' : Database} (h : Persists db db') {address : Email} {user : UserId}
    (ha : Account db address user) : Account db' address user := by
  obtain ⟨u, hu, hemail, hid⟩ := ha
  obtain ⟨u', hu', hid', hemail', -⟩ := h.users u hu
  exact ⟨u', hu', hemail'.trans hemail, hid'.trans hid⟩

theorem holds_mono {lib : Libraries} {db db' : Database} (h : Persists db db') {c : Command}
    {reply : Except Failure (Reply c)} (hc : Holds lib db c reply) : Holds lib db' c reply := by
  unfold Holds at hc ⊢
  split
  · exact ⟨hc.1, account_mono h hc.2⟩
  · exact hc
  · exact ⟨hc.1, hc.2.1, h.identities hc.2.2⟩
  · exact fun x hx => h.identities (hc x hx)
  · intro address ha
    obtain ⟨user, hu⟩ := hc address ha
    exact ⟨user, account_mono h hu⟩
  · exact hc
  · trivial

theorem holds_error (lib : Libraries) (db : Database) (c : Command) (e : Failure) :
    Holds lib db c (.error e) := by
  cases c with
  | database c => cases c <;> trivial
  | _ => trivial

theorem holds_database (lib : Libraries) {c : DatabaseCall} {db db' : Database}
    {reply : Except Failure c.Reply} (h : c.perform db = some (reply, db')) :
    Holds lib db' (.database c) reply := by
  cases c with
  | byEmail address =>
    cases h
    rcases hf : db.users.find? (fun u => u.email = address) with _ | row <;> rw [hf]
    · trivial
    · have hemail : row.email = address := by simpa using List.find?_some hf
      exact ⟨hemail, row, List.mem_of_find?_eq_some hf, hemail, rfl⟩
  | byId user =>
    cases h
    rcases hf : db.users.find? (fun u => u.id = user) with _ | row <;> rw [hf]
    · trivial
    · simpa [Holds] using List.find?_some hf
  | byIdentity provider subject =>
    cases h
    rcases hf : db.identities.find? (fun i => i.provider = provider && i.subject = subject)
      with _ | x <;> rw [hf]
    · trivial
    · have hx : x.provider = provider ∧ x.subject = subject := by simpa using List.find?_some hf
      exact ⟨hx.1, hx.2, List.mem_of_find?_eq_some hf⟩
  | commit session changes =>
    simp only [DatabaseCall.perform] at h
    split at h
    · cases h
      trivial
    · cases h
      intro x hx
      rw [identities_committed]
      exact List.mem_append_right _ hx
  | createUser session row => cases reply <;> trivial
  | rollback session => cases reply <;> trivial
  | emails =>
    cases h
    intro address ha
    obtain ⟨u, hu, rfl⟩ := List.mem_map.mp ha
    exact ⟨u.id, u, hu, rfl, rfl⟩

theorem holds_perform {lib : Libraries} {c : Command} {x : Choice} {w w' : World}
    {reply : Except Failure (Reply c)} (h : perform lib c x w = some (reply, w')) :
    Holds lib w'.database c reply := by
  rcases perform_cases h with ⟨-, -, rfl, -⟩ | ⟨-, h⟩
  · exact holds_error lib _ c _
  · cases c with
    | database c =>
      obtain ⟨r, hr, hw⟩ := Option.map_eq_some_iff.mp h
      cases hw
      exact holds_database lib hr
    | idToken jwksUrl clientId idToken =>
      cases h
      rfl
    | _ => cases reply <;> trivial

/-! ## What a request writes -/

variable (lib : Libraries) (settings : Settings) (i : ℕ)

def Normal (email : Email) : Prop := normalizeEmail lib email = .ok email

def Ending : Command → Prop
  | .database (.commit ..) => True
  | .database (.rollback _) => True
  | _ => False

/-- The user of a row that was read by its address, or is flushed and not yet committed. -/
def Known (before : Before) (user : UserId) : Prop :=
  (∃ address row, ⟨.database (.byEmail address), .ok (some row)⟩ ∈ before ∧ row.id = user) ∨
    ∃ row, ⟨.database (.createUser i row), .ok ()⟩ ∈ before ∧ row.id = user ∧
      ∀ step ∈ before, ¬Ending step.command

/-- Addresses are written in their normal form, and one identity at a time for a known user. -/
def writes (before : Before) : Command → Prop
  | .database (.createUser session row) => session = i ∧ Normal lib row.email
  | .database (.commit session changes) => session = i ∧ (changes.filterMap added).length ≤ 1 ∧
      ∀ x ∈ changes.filterMap added, Known i before x.userId
  | .database (.rollback session) => session = i
  | _ => True

def writing : Contract Command Reply Failure Answer Request Before :=
  memory some (fun i _ => writes lib i) (fun _ _ _ => True)

/-- A call that needs nothing to be known. -/
def Fitting : Command → Prop
  | .database (.createUser session row) => session = i ∧ Normal lib row.email
  | .database (.commit session changes) => session = i ∧ changes.filterMap added = []
  | .database (.rollback session) => session = i
  | _ => True

variable {lib settings i} {A : Type}

theorem writes_fitting (before : Before) (c : Command) (hc : Fitting lib i c) :
    writes lib i before c := by
  cases c with
  | database c =>
    cases c with
    | commit session changes =>
      obtain ⟨rfl, hnone⟩ : session = i ∧ changes.filterMap added = [] := hc
      simp only [writes, hnone]
      exact ⟨trivial, Nat.zero_le 1, fun x hx => by cases hx⟩
    | _ => exact hc
  | _ => trivial

theorem fitting_within {parts : List Part} {p : Act A} (hp : Within parts p)
    (ha : .account ∉ parts) (ht : .transaction ∉ parts) (hpw : .password ∉ parts) :
    Only (Fitting lib i) p := by
  refine only_mono (fun c hc => ?_) p hp
  cases c with
  | database c =>
    cases c with
    | createUser session row => exact absurd hc ha
    | commit session changes =>
      simp only [part] at hc
      split at hc
      · exact absurd hc hpw
      · exact absurd hc ht
    | rollback session => exact absurd hc ht
    | _ => trivial
  | _ => trivial

/-! ## Programs -/

theorem fitting_commit {changes : List Change} (h : changes.filterMap added = []) :
    Only (Fitting lib i) (commit i changes) := only_invoke _ ⟨rfl, h⟩

theorem fitting_rollback : Only (Fitting lib i) (rollback i) := only_invoke _ rfl

theorem fitting_createUser {email : Email} (h : Option Hash) (verified : Bool)
    (hn : Normal lib email) : Only (Fitting lib i) (createUser i email h verified) :=
  only_bind _ _ (fitting_within (emailVerifiedAt_within verified) (by decide) (by decide)
    (by decide)) (fun _ => only_bind _ _ (only_invoke _ trivial)
      (fun _ => only_bind _ _ (only_invoke _ ⟨rfl, hn⟩) (fun _ => only_pure _)))

theorem fitting_remember (f : FilterSettings) (email : Email) :
    Only (Fitting lib i) (remember f email) :=
  fitting_within (remember_within f email) (by decide) (by decide) (by decide)

theorem only_after {B : Type} {ok : Command → Prop} {r : Except Failure A} {f : A → Act B}
    (h : ∀ a, r = .ok a → Only ok (f a)) : Only ok (ofResult r >>= f) := by
  cases r with
  | error e => exact only_throw e
  | ok a => exact h a rfl

theorem fitting_signup (f : FilterSettings) (email password : String) :
    Only (Fitting lib i) (signup lib settings f i email password) := by
  refine only_after (fun address ha => only_bind _ _ (only_ofResult _) (fun _ => only_bind _ _
    (fitting_within (emailTaken_within f address) (by decide) (by decide) (by decide))
    (fun taken => ?_)))
  have hn : Normal lib address := FilterContract.normalizeEmail_idem lib ha
  split
  · exact only_throw _
  · refine only_tryCatch _ _ ?_ (fun e => only_bind _ _ fitting_rollback (fun _ => ?_))
    · exact only_bind _ _ (only_invoke _ trivial) (fun h => only_bind _ _
        (fitting_createUser _ false hn) (fun _ => only_bind _ _ (fitting_remember f address)
          (fun _ => only_bind _ _ (fitting_within (sendCode_within lib settings address .verify)
            (by decide) (by decide) (by decide)) (fun _ => fitting_commit rfl))))
    · split
      · exact only_bind _ _ (fitting_remember f address) (fun _ => only_throw _)
      · exact only_throw _

theorem fitting_presentCode (purpose : Purpose) (message email code : String)
    {accepted : User → Act Unit} (h : ∀ user, Only (Fitting lib i) (accepted user)) :
    Only (Fitting lib i) (presentCode lib purpose message email code accepted) := by
  refine only_bind _ _ (only_ofResult _) (fun address =>
    only_bind _ _ (only_invoke _ trivial) (fun found => ?_))
  rcases found with _ | user
  · exact only_throw _
  · refine only_bind _ _ (fitting_within (consumeCode_within lib _ _ code) (by decide) (by decide)
      (by decide)) (fun accepted => ?_)
    split
    · exact h user
    · exact only_throw _

theorem fitting_replacePassword (user : UserId) (password : String) :
    Only (Fitting lib i) (do
      let h ← hash password
      commit i [.passwordHash user h]
      revokeAll user) :=
  only_bind _ _ (only_invoke _ trivial) (fun _ => only_bind _ _ (fitting_commit rfl)
    (fun _ => fitting_within (revokeAll_within user) (by decide) (by decide) (by decide)))

theorem fitting_resetPassword (email code password : String) :
    Only (Fitting lib i) (resetPassword lib i email code password) := by
  rw [resetPassword_eq]
  exact only_bind _ _ (only_ofResult _) (fun _ =>
    fitting_presentCode _ _ _ _ (fun user => fitting_replacePassword user.id password))

theorem fitting_verifyEmail (email code : String) :
    Only (Fitting lib i) (verifyEmail lib i email code) := by
  rw [verifyEmail_eq]
  exact fitting_presentCode _ _ _ _ (fun user =>
    only_bind _ _ (only_invoke _ trivial) (fun _ => fitting_commit rfl))

theorem fitting_changePassword (user : UserId) (current new : String) :
    Only (Fitting lib i) (changePassword lib i user current new) := by
  refine only_bind _ _ (only_ofResult _) (fun _ => only_bind _ _
    (fitting_within (requireUser_within user) (by decide) (by decide) (by decide)) (fun row => ?_))
  split
  · exact fitting_replacePassword row.id new
  · exact only_throw _

/-! ## Identities -/

abbrev Writing (lib : Libraries) (i : ℕ) : Protocol Command Reply Failure Before :=
  remembering some (writes lib i)

variable (lib i) in
/-- A call that fits and ends no transaction. -/
def Aside (c : Command) : Prop := Fitting lib i c ∧ ¬Ending c

theorem writes_aside (before : Before) (c : Command) (hc : Aside lib i c) :
    writes lib i before c := writes_fitting before c hc.1

theorem aside_within {parts : List Part} {p : Act A} (hp : Within parts p)
    (ha : .account ∉ parts) (ht : .transaction ∉ parts) (hpw : .password ∉ parts) :
    Only (Aside lib i) p := by
  refine only_mono (fun c hc => ?_) p hp
  cases c with
  | database c =>
    cases c with
    | createUser session row => exact absurd hc ha
    | commit session changes =>
      simp only [part] at hc
      split at hc
      · exact absurd hc hpw
      · exact absurd hc ht
    | rollback session => exact absurd hc ht
    | _ => exact ⟨trivial, id⟩
  | _ => exact ⟨trivial, id⟩

theorem ensures_link {changes : List Change} {before : Before} {user : User} (x : OAuthIdentity)
    (hx : changes.filterMap added = [x]) (h : Known i before x.userId) :
    Ensures (Writing lib i) (do
      commit i changes
      return user) before (fun _ _ => True) := by
  refine ensures_bind (ensures_invoke ?_ (fun _ => ensures_pure _ _ trivial))
  simp only [Writing, remembering, writes, hx]
  refine ⟨trivial, le_rfl, fun y hy => ?_⟩
  rw [List.mem_singleton.mp hy]
  exact h

theorem ensures_identityUser (f : FilterSettings) (provider subject : String) {email : Email}
    (hn : Normal lib email) {before : Before} (hbefore : Continues (Aside lib i) [] before) :
    Ensures (Writing lib i) (identityUser f i provider subject email) before
      (fun _ _ => True) := by
  refine ensures_read writes_aside ⟨trivial, id⟩ (fun linked hlinked => ?_)
  rcases linked with _ | identity
  · refine ensures_read writes_aside ⟨trivial, id⟩ (fun found hfound => ?_)
    have hread := continues_trans hbefore (continues_trans hlinked hfound)
    rcases found with _ | row
    · refine ensures_bind (ensures_after writes_aside
        (aside_within (emailVerifiedAt_within true) (by decide) (by decide) (by decide))
        (fun verifiedAt after hafter => ensures_read writes_aside ⟨trivial, id⟩ (fun id' hid =>
          ensures_read writes_aside ⟨⟨rfl, hn⟩, id⟩ (fun _ hcreated => ensures_pure _ _ ?_))))
      refine ensures_after writes_aside (aside_within (remember_within f email) (by decide)
        (by decide) (by decide)) (fun _ last hlast => ?_)
      refine ensures_link ⟨id', provider, subject⟩ rfl
        (Or.inr ⟨⟨id', email, none, verifiedAt⟩, ?_, rfl, ?_⟩)
      · exact continues_subset hlast (mem_last _ _)
      · have hall := continues_trans hread (continues_trans hafter
          (continues_trans hid (continues_trans hcreated hlast)))
        obtain ⟨more, rfl, hmore⟩ := hall
        exact fun step hstep => (hmore step hstep).2
    · have hmem : ⟨.database (.byEmail email), .ok (some row)⟩ ∈
          before ++ [⟨.database (.byIdentity provider subject), .ok none⟩] ++
            [⟨.database (.byEmail email), .ok (some row)⟩] := mem_last _ _
      dsimp only
      split
      · refine ensures_read writes_aside ⟨trivial, id⟩ (fun now hnow => ?_)
        exact ensures_link ⟨row.id, provider, subject⟩ rfl
          (Or.inl ⟨email, row, List.mem_append_left _ hmem, rfl⟩)
      · exact ensures_link ⟨row.id, provider, subject⟩ rfl (Or.inl ⟨email, row, hmem, rfl⟩)
  · exact ensures_mono (fun _ _ _ => trivial) (ensures_continues writes_aside
      (aside_within (requireUser_within identity.userId) (by decide) (by decide) (by decide)) _)

theorem ensures_oauthLogin (f : FilterSettings) (provider idToken nonce : String) :
    Ensures (Writing lib i) (oauthLogin lib settings f i provider idToken nonce) []
      (fun _ _ => True) := by
  refine ensures_read writes_aside ⟨trivial, id⟩ (fun spent hspent => ?_)
  split
  · exact ensures_throw _ _
  · refine ensures_bind (ensures_ofResult _ _ (fun config _ => ?_))
    refine ensures_after writes_aside (aside_within (verifiedClaims_within config idToken nonce)
      (by decide) (by decide) (by decide)) (fun claims after hafter => ?_)
    refine ensures_bind (ensures_ofResult _ _ (fun email hemail => ?_))
    split
    · exact ensures_throw _ _
    · have hn : Normal lib email := FilterContract.normalizeEmail_oauth lib hemail
      refine ensures_bind (ensures_mono (fun last user _ => ?_)
        (ensures_identityUser f provider claims.subject hn (continues_trans hspent hafter)))
      exact ensures_mono (fun _ _ _ => trivial) (ensures_continues writes_aside
        (aside_within (grant_within lib settings user none) (by decide) (by decide) (by decide)) _)

/-! ## Requests -/

theorem ensures_fitting {p : Act A} (hp : Only (Fitting lib i) p) (before : Before) :
    Ensures (Writing lib i) p before (fun _ _ => True) :=
  ensures_mono (fun _ _ _ => trivial) (ensures_continues writes_fitting hp before)

theorem ensures_handled (q : Request) :
    Ensures (Writing lib i) (handled lib settings i q) [] (fun _ _ => True) := by
  have others : ∀ q, .account ∉ footprint q → .transaction ∉ footprint q →
      .password ∉ footprint q →
      Ensures (Writing lib i) (handled lib settings i q) [] (fun _ _ => True) :=
    fun q ha ht hp => ensures_fitting (fitting_within (handled_within lib settings i q) ha ht hp) []
  cases q with
  | signup f email password client =>
    exact ensures_fitting (only_bind _ _ (fitting_within (throttle_within lib settings client _ _)
      (by decide) (by decide) (by decide)) (fun _ => only_bind _ _ (fitting_signup f email password)
        (fun _ => only_pure _))) []
  | verifyEmail email code =>
    exact ensures_fitting (only_bind _ _ (fitting_verifyEmail email code) (fun _ => only_pure _)) []
  | resetPassword email code password =>
    exact ensures_fitting (only_bind _ _ (fitting_resetPassword email code password)
      (fun _ => only_pure _)) []
  | changePassword user current new =>
    exact ensures_fitting (only_bind _ _ (fitting_changePassword user current new)
      (fun _ => only_pure _)) []
  | oauthLogin f provider idToken nonce =>
    exact ensures_map (ensures_oauthLogin f provider idToken nonce)
  | _ => apply others <;> simp [footprint, sendingParts]

theorem ensures_serve (q : Request) :
    Ensures (Writing lib i) (serve lib settings i q) [] (fun _ _ => True) := by
  have closing : ∀ {B : Type} (p : Act B) (before : Before), Only (Fitting lib i) p →
      Ensures (Writing lib i) (rollback i >>= fun _ => p) before (fun _ _ => True) :=
    fun p before hp => ensures_fitting (only_bind _ _ fitting_rollback (fun _ => hp)) before
  refine ensures_bind (ensures_mono (fun after a _ => closing _ after (only_pure a))
    (ensures_tryCatch (ensures_handled q) (fun e after => closing _ after (only_throw e))))

theorem obeys_writing (lib : Libraries) (settings : Settings) :
    Obeys (service lib settings) (writing lib) where
  program := fun i q => keeps_mono _ _ (fun _ _ _ => trivial) (ensures_serve q)
  cancelled := by
    intro i q p hp g
    cases q with
    | warm f =>
      cases hp
      trivial
    | _ => cases hp

end Gamely.AccountWrites
