import Gamely.Credentials
import Gamely.ReuseDetection

/-!
# Credentials of linked accounts

Anyone can sign up with an address, and log in before it is verified. A provider
login that links its identity to such an account comes from the owner of the address,
but it writes the time and the identity only: the password of the signup and the
sessions it began stay, unless a reset took them away before.
-/

set_option autoImplicit false

namespace Gamely.LinkedAccounts
open Gamely.Calls Gamely.Stores Gamely.EmailJobs Gamely.ExpiringStore Gamely.Services
open Gamely.TokenService Gamely.AuthService Gamely.Requests Gamely.Interleaving
open Gamely.SessionMoves

/-! ## What is to be shown -/

/-- What the past tells of accounts and sessions. A password is `unproved` from the
signup that stored it until a reset replaces it, also while whoever knows it changes it;
a session is `descended` if such a password began it; an account is `linked` if it was
unverified until a provider login linked its identity. -/
structure Ledger where
  unproved : UserId → Bool
  descended : Session → Bool
  linked : UserId → Bool

def Ledger.empty : Ledger := ⟨fun _ => false, fun _ => false, fun _ => false⟩

def verifiedUser : Change → Option UserId
  | .emailVerifiedAt user _ => some user
  | _ => none

def Ledger.committed (l : Ledger) (changes : List Change) : Request → Ledger
  | .resetPassword .. => { l with
      unproved := fun user =>
        l.unproved user && SessionContract.replacedUser changes ≠ some user }
  | .oauthLogin .. => { l with
      linked := fun user => l.linked user || user ∈ changes.filterMap verifiedUser }
  | _ => l

/-- A login begins a session and a refresh continues one. -/
def Ledger.issued (l : Ledger) (session : Session) : Request → Ledger
  | .login .. => { l with
      descended := Function.update l.descended session (l.unproved session.user) }
  | .refresh _ => l
  | _ => { l with descended := Function.update l.descended session false }

def recorded (l : Ledger) (q : Request) : (c : Command) → Except Failure (Reply c) → Ledger
  | .database (.createUser _ row), .ok _ =>
    { l with unproved := Function.update l.unproved row.id row.passwordHash.isSome }
  | .database (.commit _ changes), .ok _ => l.committed changes q
  | .session (.issue _ session _), .ok _ => l.issued session q
  | _, _ => l

def ledger (h : Past) : Ledger :=
  h.foldl (fun l e => recorded l e.request e.command e.reply) Ledger.empty

/-- The account has a password, and it is an unproved one. -/
def OpenToPassword (s : Service) (user : UserId) : Prop :=
  (ledger s.history).unproved user = true ∧
    ∃ u ∈ s.world.database.users, u.id = user ∧ u.passwordHash ≠ none

/-- A refresh token of a session that an unproved password began can be exchanged. -/
def OpenToToken (s : Service) (user : UserId) : Prop :=
  ∃ x ∈ issues s.history, x.2.user = user ∧ (ledger s.history).descended x.2 = true ∧
    get s.world.now s.world.sessions.refresh x.1 = some x.2

def Exposed (s : Service) (user : UserId) : Prop := OpenToPassword s user ∨ OpenToToken s user

/-- Nobody enters a linked account with what was set up before its owner was known. -/
def Evicted (s : Service) : Prop :=
  ∀ user, (ledger s.history).linked user = true → ¬Exposed s user

/-- The changes a provider login commits. -/
def linkOf : Request → Command → Option (List Change)
  | .oauthLogin .., .database (.commit _ changes) => some changes
  | _, _ => none

/-- When a provider login links an unverified account, a reset has replaced the password
of the signup and no session it began is alive. -/
def Vacated (s : Service) (_ : ℕ) (x : Choice) (q : Request) (c : Command) : Prop :=
  ∀ changes ∈ linkOf q c, x.fail = false →
    changes.any (Change.duplicate s.world.database) = false →
    ∀ user ∈ changes.filterMap verifiedUser, ¬Exposed s user

instance (s : Service) (user : UserId) : Decidable (Exposed s user) := by
  unfold Exposed OpenToPassword OpenToToken
  infer_instance

instance (s : Service) (i : ℕ) (x : Choice) (q : Request) (c : Command) :
    Decidable (Vacated s i x q c) :=
  inferInstanceAs (Decidable (∀ changes ∈ linkOf q c, _))

/-! ## The ledger -/

variable {l : Ledger} {h : Past} {q : Request} {c : Command} {reply : Except Failure (Reply c)}

theorem ledger_append (h : Past) (e : Occurrence) :
    ledger (h ++ [e]) = recorded (ledger h) e.request e.command e.reply := List.foldl_concat ..

def links (q : Request) (c : Command) (user : UserId) : Prop :=
  ∃ f provider idToken nonce session changes, q = .oauthLogin f provider idToken nonce ∧
    c = .database (.commit session changes) ∧ user ∈ changes.filterMap verifiedUser

theorem linked_recorded {user : UserId} (hl : (recorded l q c reply).linked user = true) :
    l.linked user = true ∨ (links q c user ∧ ∃ r, reply = .ok r) := by
  unfold recorded at hl
  split at hl
  case h_1 => exact Or.inl hl
  case h_2 session changes r =>
    unfold Ledger.committed at hl
    split at hl
    case h_2 f provider idToken nonce =>
      rcases (Bool.or_eq_true_iff).mp hl with hl | hl
      · exact Or.inl hl
      · exact Or.inr ⟨⟨f, provider, idToken, nonce, session, changes, rfl, rfl,
          of_decide_eq_true hl⟩, r, rfl⟩
    all_goals exact Or.inl hl
  case h_3 =>
    unfold Ledger.issued at hl
    split at hl <;> exact Or.inl hl
  case h_4 => exact Or.inl hl

theorem unproved_recorded {user : UserId} (hu : (recorded l q c reply).unproved user = true) :
    l.unproved user = true ∨ ∃ session row, c = .database (.createUser session row) ∧
      row.id = user ∧ row.passwordHash ≠ none ∧ ∃ r, reply = .ok r := by
  unfold recorded at hu
  split at hu
  case h_1 session row r =>
    dsimp only at hu
    by_cases hrow : row.id = user
    · subst hrow
      rw [Function.update_self] at hu
      exact Or.inr ⟨session, row, rfl, rfl, by simpa using Option.isSome_iff_ne_none.mp hu, r, rfl⟩
    · rw [Function.update_of_ne (Ne.symm hrow)] at hu
      exact Or.inl hu
  case h_2 session changes r =>
    unfold Ledger.committed at hu
    split at hu
    case h_1 => exact Or.inl (Bool.and_eq_true_iff.mp hu).1
    all_goals exact Or.inl hu
  case h_3 =>
    unfold Ledger.issued at hu
    split at hu <;> exact Or.inl hu
  case h_4 => exact Or.inl hu

/-- A session descends from an unproved password by a login, and by refreshing only. -/
theorem descended_recorded {session : Session}
    (hd : (recorded l q c reply).descended session = true) :
    (l.unproved session.user = true ∧ ∃ d, issueOf c reply = some (d, session)) ∨
      (l.descended session = true ∧
        ∀ d, issueOf c reply = some (d, session) → ∃ value, q = .refresh value) := by
  unfold recorded at hd
  split at hd
  case h_1 => exact Or.inr ⟨hd, fun d hi => by cases hi⟩
  case h_2 =>
    unfold Ledger.committed at hd
    split at hd <;> exact Or.inr ⟨hd, fun d hi => by cases hi⟩
  case h_3 digest session' ttl r =>
    have other : ∀ b, (Function.update l.descended session' b) session = true →
        session' ≠ session → l.descended session = true := by
      intro b hb hne
      rwa [Function.update_of_ne (Ne.symm hne)] at hb
    have apart : session' ≠ session → ∀ d,
        issueOf (.session (.issue digest session' ttl)) (.ok r) = some (d, session) →
          ∃ value, q = .refresh value := by
      intro hne d hi
      cases hi
      exact absurd rfl hne
    unfold Ledger.issued at hd
    split at hd
    case h_1 =>
      dsimp only at hd
      by_cases hs : session' = session
      · subst hs
        rw [Function.update_self] at hd
        exact Or.inl ⟨hd, digest, rfl⟩
      · exact Or.inr ⟨other _ hd hs, apart hs⟩
    case h_2 value => exact Or.inr ⟨hd, fun _ _ => ⟨value, rfl⟩⟩
    case h_3 =>
      dsimp only at hd
      by_cases hs : session' = session
      · subst hs
        rw [Function.update_self] at hd
        cases hd
      · exact Or.inr ⟨other _ hd hs, apart hs⟩
  case h_4 hother =>
    refine Or.inr ⟨hd, fun d hi => ?_⟩
    obtain ⟨⟨ttl, rfl⟩, r, rfl⟩ := issueOf_eq_some hi
    exact (hother _ _ _ _ rfl HEq.rfl).elim

/-! ## Tokens that can be exchanged -/

variable {lib : Libraries} {settings : Settings} {w w' : World} {x : Choice} {d : Digest}
  {session : Session}

theorem get_mono {t t' : Store Digest Session} {now : ℕ}
    (ht : ∀ e, t' d = some e → t d = some e) (hg : get now t' d = some session) :
    get now t d = some session := by
  obtain ⟨e, he, hlive, hv⟩ := (get_eq_some _ _ _ _).mp hg
  exact (get_eq_some _ _ _ _).mpr ⟨e, ht e he, hlive, hv⟩

theorem usable_cases (hp : perform lib c x w = some (reply, w'))
    (hg : get w'.now w'.sessions.refresh d = some session) :
    get w.now w.sessions.refresh d = some session ∨ issueOf c reply = some (d, session) := by
  rcases perform_cases hp with ⟨-, -, -, rfl⟩ | ⟨-, ha⟩
  · exact Or.inl hg
  · rcases answer_sessions ha with ⟨c, rfl⟩ | hsame
    · cases ha
      cases c with
      | issue digest session' ttl =>
        obtain ⟨e, he, hlive, hv⟩ := (get_eq_some _ _ _ _).mp hg
        rcases (set_eq_some _ _ _ _ _ _).mp he with ⟨rfl, rfl⟩ | ⟨-, he⟩
        · right
          rw [← hv]
          rfl
        · exact Or.inl ((get_eq_some _ _ _ _).mpr ⟨e, he, hlive, hv⟩)
      | rotate digest ttl =>
        left
        simp only [SessionCall.perform, rotated] at hg
        split at hg
        · exact get_mono (fun e he => ((del_eq_some _ _ _ _).mp he).2) hg
        · split at hg <;> exact hg
      | revoke digests session' =>
        exact Or.inl (get_mono (fun e he => ((delAll_eq_some _ _ _ _).mp he).2) hg)
      | _ => exact Or.inl hg
    · rw [hsame, answer_now ha] at hg
      exact Or.inl hg

/-! ## What a refresh holds -/

/-- The session a refresh rotated a token of; no other request holds one. -/
def next (held : Option Session) : Request → (c : Command) → Except Failure (Reply c) →
    Option Session
  | .refresh _, .session (.rotate ..), .ok (RotateReply.rotated session) => some session
  | .refresh _, .database (.byId _), .ok (some row) => held.map (fun s => ⟨row.id, s.family⟩)
  | _, _, _ => held

def allows (held : Option Session) : Request → Command → Prop
  | .refresh _, .session (.issue _ session _) => held = some session
  | .refresh _, .database (.byId user) => ∀ s, held = some s → user = s.user
  | .refresh _, _ => True
  | _, _ => held = none

def protocol (q : Request) : Protocol Command Reply Failure (Option Session) where
  allows := fun held c => allows held q c
  next := fun held c reply => next held q c reply

def contract : Contract Command Reply Failure Answer Request (Option Session) where
  start := none
  protocol := fun _ q => protocol q
  post := fun _ _ _ => True

theorem ensures_rotateRefresh (value value' : Token) :
    Ensures (protocol (.refresh value')) (rotateRefresh lib settings value) none
      (fun held session => held = some session) := by
  apply ensures_bind
  apply ensures_invoke trivial
  intro reply
  cases reply with
  | rotated session => exact ensures_pure _ _ rfl
  | missing => exact ensures_throw _ _
  | reused session =>
    apply ensures_bind
    apply ensures_bind
    apply ensures_invoke trivial
    intro digests
    apply ensures_invoke trivial
    intro _
    exact ensures_throw _ _

theorem ensures_requireUser (value : Token) (session : Session) :
    Ensures (protocol (.refresh value)) (requireUser session.user) (some session)
      (fun held row => held = some ⟨row.id, session.family⟩) := by
  apply ensures_bind
  apply ensures_invoke
  · rintro s ⟨⟩
    rfl
  · intro found
    cases found with
    | none => exact ensures_throw _ _
    | some row => exact ensures_pure _ _ rfl

theorem ensures_grant (value : Token) (user : User) (family : FamilyId) :
    Ensures (protocol (.refresh value)) (grant lib settings user (some family))
      (some ⟨user.id, family⟩) (fun _ _ => True) := by
  apply ensures_bind
  apply ensures_bind
  apply ensures_invoke trivial
  intro now
  apply ensures_pure
  apply ensures_bind
  apply ensures_bind
  apply ensures_invoke trivial
  intro token
  apply ensures_bind
  apply ensures_pure
  apply ensures_bind
  apply ensures_invoke
  · exact rfl
  · intro _
    apply ensures_pure
    exact ensures_pure _ _ trivial

theorem ensures_refresh (value : Token) :
    Ensures (protocol (.refresh value)) (refresh lib settings value) none (fun _ _ => True) := by
  apply ensures_bind
  apply ensures_mono _ (ensures_rotateRefresh value value)
  rintro _ session rfl
  apply ensures_bind
  apply ensures_mono _ (ensures_requireUser value session)
  rintro _ row rfl
  exact ensures_grant value row session.family

theorem ensures_serve_refresh (session : ℕ) (value : Token) :
    Ensures (protocol (.refresh value)) (serve lib settings session (.refresh value)) none
      (fun _ _ => True) := by
  have hrollback : ∀ held, Ensures (protocol (.refresh value)) (rollback session) held
      (fun _ _ => True) := fun _ => ensures_invoke trivial (fun _ => trivial)
  have hhandled : Ensures (protocol (.refresh value))
      (handled lib settings session (.refresh value)) none (fun _ _ => True) :=
    ensures_map (ensures_refresh value)
  apply ensures_bind
  apply ensures_mono _ (ensures_tryCatch hhandled _)
  · intro held answer _
    apply ensures_bind
    exact ensures_mono (fun _ _ _ => ensures_pure _ _ trivial) (hrollback held)
  · intro e held
    apply ensures_bind
    exact ensures_mono (fun _ _ _ => ensures_throw _ _) (hrollback held)

theorem keeps_other (hq : ∀ value, q ≠ .refresh value) {A : Type} (p : Act A) :
    Keeps (protocol q) p none (fun _ _ => True) := by
  apply keeps_of_kept (· = none) p (only_any p) none rfl _ _ (fun _ _ _ => trivial)
  rintro c - held rfl
  cases q with
  | refresh value => exact absurd rfl (hq value)
  | _ => exact ⟨rfl, fun _ => rfl⟩

theorem obeys (lib : Libraries) (settings : Settings) :
    Obeys (service lib settings) contract where
  program := by
    intro i q
    cases q with
    | refresh value => exact keeps_mono _ _ (fun _ _ _ => trivial) (ensures_serve_refresh i value)
    | _ => exact keeps_other (by simp) _
  cancelled := by
    intro i q p hp held
    cases q with
    | warm f =>
      cases hp
      trivial
    | _ => cases hp

/-! ## Accounts of the past -/

/-- Rows are inserted under new ids, and who is verified has an account, with a password
if the past tells of one. -/
def Known (s : Service) (_ : ℕ) (_ : Choice) (_ : Request) : Command → Prop
  | .database (.createUser _ row) => ∀ u ∈ s.world.database.users, u.id ≠ row.id
  | .database (.commit _ changes) => ∀ user ∈ changes.filterMap verifiedUser,
    ∃ u ∈ s.world.database.users, u.id = user ∧
      ((ledger s.history).unproved user = true → u.passwordHash ≠ none)
  | _ => True

theorem created_of_unproved (h : Past) {user : UserId} (hu : (ledger h).unproved user = true) :
    ∃ row, Credentials.Created h row ∧ row.id = user ∧ row.passwordHash ≠ none := by
  induction h using List.reverseRecOn with
  | nil => cases hu
  | append_singleton h e ih =>
    obtain ⟨i, q, c, reply⟩ := e
    rw [ledger_append] at hu
    dsimp only at hu
    rcases unproved_recorded hu with hu | ⟨session, row, rfl, hid, hn, r, rfl⟩
    · obtain ⟨row, ⟨j, q', session, hm⟩, hrow⟩ := ih hu
      exact ⟨row, ⟨j, q', session, List.mem_append_left _ hm⟩, hrow⟩
    · exact ⟨row, ⟨i, q, session, List.mem_append_right _ (List.mem_singleton_self _)⟩, hid, hn⟩

theorem known_of_credentialed {s : Service}
    (hf : Following (AccountContract.contract lib settings) s)
    (hc : Credentials.Credentialed lib settings s.world s.history)
    (a : Label Request Choice Passing) : OnCall Known s a := by
  cases a with
  | spawn | cancel | pass => trivial
  | run i x =>
    show Called (Known s i x) (upcoming s i)
    rcases hu : upcoming s i with _ | ⟨q, c⟩
    · trivial
    · have ha := allowed_of_upcoming hf hu
      show Known s i x q c
      unfold Known
      split
      case h_1 session row =>
        obtain ⟨-, hid, hmade, -⟩ := ha
        intro u hu he
        obtain ⟨j, row', hj, hsame⟩ := hc.sound.owned.users u hu
        have hids := hc.sound.owned.named j row' hj
        rw [← hsame.1, he] at hids
        obtain rfl := hc.sound.owned.apart i j row.id hid hids
        cases hmade.symm.trans hj
      case h_2 session changes =>
        obtain ⟨-, -, hjustified⟩ := ha
        intro user huser
        obtain ⟨change, hm, hv⟩ := List.mem_filterMap.mp huser
        cases change with
        | passwordHash | identity => cases hv
        | emailVerifiedAt user' t =>
          cases hv
          obtain ⟨row, address, hfound, -, rfl, -⟩ := hjustified _ hm
          obtain ⟨u, hu, hsame⟩ := (hc.sound.fits i).found row hfound
          refine ⟨u, hu, hsame.1, fun hunproved => ?_⟩
          obtain ⟨row', hcreated, hid, hn⟩ := created_of_unproved s.history hunproved
          obtain ⟨k, hk⟩ := hc.created row' hcreated
          have hmade := Credentials.same_of_made (i := i) hc.sound.owned
            (List.mem_append_left _ hu) hk (hsame.1.trans hid.symm)
          exact fun hnone => hn (hmade.2.2.mp hnone)
      case h_3 => trivial

/-! ## One call -/

theorem commit_performed {session : ℕ} {changes : List Change} {r : Unit}
    (hp : perform lib (.database (.commit session changes)) x w = some (.ok r, w')) :
    x.fail = false ∧ changes.any (Change.duplicate w.database) = false ∧
      w' = { w with database := Stores.committed w.database session changes } := by
  rcases perform_cases hp with ⟨-, -, hr, -⟩ | ⟨hup, ha⟩
  · cases hr
  · obtain ⟨⟨r', db⟩, hdb, he⟩ := Option.map_eq_some_iff.mp ha
    simp only [DatabaseCall.perform] at hdb
    split at hdb
    case isTrue =>
      cases hdb
      cases he
    case isFalse hfree =>
      cases hdb
      cases he
      exact ⟨by simpa [Command.isLocal] using hup, by simpa using hfree, rfl⟩

theorem row_committed (db : Database) (session : ℕ) (changes : List Change) {u : User}
    (hu : u ∈ db.users) :
    changes.foldl AccountMoves.onUser u ∈ (Stores.committed db session changes).users := by
  rw [Stores.committed, (AccountMoves.apply_changes changes _).1]
  exact List.mem_map_of_mem (List.mem_append_left _ hu)

theorem accounts_kept (hp : perform lib c x w = some (reply, w')) {user : UserId}
    (hu : ∃ u ∈ w.database.users, u.id = user) : ∃ u ∈ w'.database.users, u.id = user := by
  rcases perform_cases hp with ⟨-, -, -, rfl⟩ | ⟨-, ha⟩
  · exact hu
  · rcases answer_database ha with ⟨c, rfl⟩ | hsame
    · obtain ⟨⟨r, db⟩, hr, he⟩ := Option.map_eq_some_iff.mp ha
      cases he
      cases c with
      | commit session changes =>
        simp only [DatabaseCall.perform] at hr
        split at hr
        · cases hr
          exact hu
        · cases hr
          obtain ⟨u, hm, rfl⟩ := hu
          exact ⟨_, row_committed _ _ _ hm, (AccountMoves.changes_kept changes u).1⟩
      | createUser session row =>
        simp only [DatabaseCall.perform] at hr
        split at hr
        · cases hr
          exact hu
        · split at hr <;> cases hr
          exact hu
      | _ =>
        cases hr
        exact hu
    · rwa [hsame]

/-! ## Linked accounts along a run -/

/-- What holds of the linked accounts. The last clause is of the refresh under way, which
holds a session no store has. -/
structure Secured (w : World) (h : Past) : Prop where
  account : ∀ user, (ledger h).linked user = true → ∃ u ∈ w.database.users, u.id = user
  password : ∀ user, (ledger h).linked user = true → (ledger h).unproved user = false
  logged : ∀ d session, get w.now w.sessions.refresh d = some session → (d, session) ∈ issues h
  token : ∀ d session, get w.now w.sessions.refresh d = some session →
    (ledger h).linked session.user = true → (ledger h).descended session = false
  held : ∀ k, lastThread h = some k → ∀ session, ghost contract h k = some session →
    (ledger h).linked session.user = true → (ledger h).descended session = false

theorem secured_fresh (now : ℕ) (database : Database) : Secured (World.fresh now database) [] where
  account := fun _ hl => by cases hl
  password := fun _ hl => by cases hl
  logged := fun _ _ hg => by cases hg
  token := fun _ _ hg => by cases hg
  held := fun _ hk => by cases hk

theorem secured_passed (hs : Secured w h) (d : Passing) : Secured (passed d w) h where
  account := by
    cases d <;> exact hs.account
  password := hs.password
  logged := fun k session hg => hs.logged k session (SessionLists.get_passed d w k session hg)
  token := fun k session hg => hs.token k session (SessionLists.get_passed d w k session hg)
  held := hs.held

section Call

variable {s : Service} {i : ℕ}

/-- The commit that links an account comes when it is not exposed. -/
theorem unexposed_of_links {user : UserId} (hv : Vacated s i x q c) (hl : links q c user)
    (hok : ∃ r, reply = .ok r) (hp : perform lib c x s.world = some (reply, w)) :
    ¬Exposed s user := by
  obtain ⟨f, provider, idToken, nonce, session, changes, rfl, rfl, huser⟩ := hl
  obtain ⟨r, rfl⟩ := hok
  obtain ⟨hfail, hfree, -⟩ := commit_performed hp
  exact hv changes rfl hfail hfree user huser

theorem account_call (hs : Secured s.world s.history) (hk : Known s i x q c)
    (hp : perform lib c x s.world = some (reply, w)) (user : UserId)
    (hl : (recorded (ledger s.history) q c reply).linked user = true) :
    ∃ u ∈ w.database.users, u.id = user := by
  apply accounts_kept hp
  rcases linked_recorded hl with hbefore | ⟨⟨f, provider, idToken, nonce, session, changes, -, rfl,
    huser⟩, -⟩
  · exact hs.account user hbefore
  · obtain ⟨u, hu, hid, -⟩ := hk user huser
    exact ⟨u, hu, hid⟩

theorem password_call (hs : Secured s.world s.history) (hk : Known s i x q c)
    (hv : Vacated s i x q c) (hp : perform lib c x s.world = some (reply, w)) (user : UserId)
    (hl : (recorded (ledger s.history) q c reply).linked user = true) :
    (recorded (ledger s.history) q c reply).unproved user = false := by
  by_contra hn
  rcases linked_recorded hl with hbefore | ⟨hlinks, hok⟩
  · rcases unproved_recorded (by simpa using hn) with hu | ⟨session, row, rfl, hid, -, -⟩
    · rw [hs.password user hbefore] at hu
      cases hu
    · obtain ⟨u, hu, hu'⟩ := hs.account user hbefore
      exact hk u hu (hu'.trans hid.symm)
  · have hexposed := unexposed_of_links hv hlinks hok hp
    obtain ⟨f, provider, idToken, nonce, session, changes, rfl, rfl, huser⟩ := hlinks
    rcases unproved_recorded (by simpa using hn) with hu | ⟨session', row, hc, -⟩
    · obtain ⟨u, hm, hid, hpassword⟩ := hk user huser
      exact hexposed (Or.inl ⟨hu, u, hm, hid, hpassword hu⟩)
    · cases hc

theorem token_call (hs : Secured s.world s.history) (hv : Vacated s i x q c)
    (hheld : ∀ session, ghost contract s.history i = some session →
      (ledger s.history).linked session.user = true →
      (ledger s.history).descended session = false)
    (ha : allows (ghost contract s.history i) q c)
    (hp : perform lib c x s.world = some (reply, w))
    (hg : get w.now w.sessions.refresh d = some session)
    (hl : (recorded (ledger s.history) q c reply).linked session.user = true) :
    (recorded (ledger s.history) q c reply).descended session = false := by
  by_contra hn
  have hd := descended_recorded (Bool.not_eq_false _ ▸ hn)
  rcases linked_recorded hl with hbefore | ⟨hlinks, hok⟩
  · rcases hd with ⟨hu, -⟩ | ⟨hd, hrefresh⟩
    · rw [hs.password _ hbefore] at hu
      cases hu
    · rcases usable_cases hp hg with hold | hi
      · rw [hs.token d session hold hbefore] at hd
        cases hd
      · obtain ⟨value, rfl⟩ := hrefresh d hi
        obtain ⟨⟨ttl, rfl⟩, -⟩ := issueOf_eq_some hi
        rw [hheld session ha hbefore] at hd
        cases hd
  · have hexposed := unexposed_of_links hv hlinks hok hp
    obtain ⟨f, provider, idToken, nonce, n, changes, rfl, rfl, -⟩ := hlinks
    rcases hd with ⟨-, d', hi⟩ | ⟨hd, -⟩
    · cases hi
    · rcases usable_cases hp hg with hold | hi
      · exact hexposed (Or.inr ⟨(d, session), hs.logged d session hold, rfl, hd, hold⟩)
      · cases hi

theorem held_cases {held : Option Session} (ha : allows held q c)
    (hp : perform lib c x w = some (reply, w')) (hn : next held q c reply = some session) :
    (∃ value, q = .refresh value) ∧
      (held = some session ∨ ∃ d, get w.now w.sessions.refresh d = some session) := by
  cases q with
  | refresh value =>
    apply And.intro ⟨value, rfl⟩
    unfold next at hn
    split at hn
    case h_1 value' digest ttl session' _ =>
      cases hn
      rcases perform_cases hp with ⟨-, -, hr, -⟩ | ⟨-, ha'⟩
      · cases hr
      · right
        refine ⟨digest, ?_⟩
        simp only [answer, SessionCall.perform, rotated, Option.some.injEq, Prod.mk.injEq,
          Except.ok.injEq] at ha'
        have hr := ha'.1
        split at hr
        case h_1 session'' hg =>
          cases hr
          exact hg
        case h_2 => split at hr <;> cases hr
    case h_2 value' user row _ =>
      obtain ⟨s, rfl, rfl⟩ := Option.map_eq_some_iff.mp hn
      rcases perform_cases hp with ⟨-, -, hr, -⟩ | ⟨-, ha'⟩
      · cases hr
      · left
        simp only [answer, DatabaseCall.perform, Option.map_some, Option.some.injEq,
          Prod.mk.injEq, Except.ok.injEq] at ha'
        have hid : row.id = user := by simpa using List.find?_some ha'.1
        rw [hid, ha s rfl]
    case h_3 => exact Or.inl hn
  | _ => cases hn.symm.trans ha

theorem held_call (hs : Secured s.world s.history)
    (hheld : ∀ session, ghost contract s.history i = some session →
      (ledger s.history).linked session.user = true →
      (ledger s.history).descended session = false)
    (ha : allows (ghost contract s.history i) q c)
    (hp : perform lib c x s.world = some (reply, w))
    (hn : next (ghost contract s.history i) q c reply = some session)
    (hl : (recorded (ledger s.history) q c reply).linked session.user = true) :
    (recorded (ledger s.history) q c reply).descended session = false := by
  obtain ⟨⟨value, rfl⟩, hsource⟩ := held_cases ha hp hn
  have hbefore : (ledger s.history).linked session.user = true := by
    rcases linked_recorded hl with h | ⟨⟨f, provider, idToken, nonce, n, changes, hq, -⟩, -⟩
    · exact h
    · cases hq
  have hold : (ledger s.history).descended session = false := by
    rcases hsource with h | ⟨d, hg⟩
    · exact hheld session h hbefore
    · exact hs.token d session hg hbefore
  by_contra hd
  rcases descended_recorded (Bool.not_eq_false _ ▸ hd) with ⟨hu, -⟩ | ⟨h, -⟩
  · rw [hs.password _ hbefore] at hu
    cases hu
  · rw [hold] at h
    cases h

theorem secured_call (hs : Secured s.world s.history)
    (hturn : (∀ e ∈ s.history, e.thread ≠ i) ∨ lastThread s.history = some i)
    (ha : allows (ghost contract s.history i) q c) (hk : Known s i x q c)
    (hv : Vacated s i x q c) (hp : perform lib c x s.world = some (reply, w)) :
    Secured w (s.history ++ [⟨i, q, c, reply⟩]) := by
  have hheld : ∀ session, ghost contract s.history i = some session →
      (ledger s.history).linked session.user = true →
      (ledger s.history).descended session = false := by
    intro session hg
    rcases hturn with hnone | hlast
    · rw [ghost_unspawned s.history i hnone] at hg
      cases hg
    · exact hs.held i hlast session hg
  constructor
  · rw [ledger_append]
    exact account_call hs hk hp
  · rw [ledger_append]
    exact password_call hs hk hv hp
  · intro d session hg
    rw [issues_append]
    rcases usable_cases hp hg with hold | hi
    · exact List.mem_append_left _ (hs.logged d session hold)
    · apply List.mem_append_right
      dsimp only
      rw [hi]
      exact List.mem_singleton_self _
  · rw [ledger_append]
    exact fun d session hg => token_call hs hv hheld ha hp hg
  · intro k hlast session hn
    obtain rfl : i = k := by simpa using hlast
    rw [ghost_append, Function.update_self] at hn
    rw [ledger_append]
    exact held_call hs hheld ha hp hn

end Call

/-! ## Every run -/

theorem evicted_of_secured {s : Service} (hs : Secured s.world s.history) : Evicted s := by
  rintro user hl (⟨hu, -⟩ | ⟨y, -, rfl, hd, hg⟩)
  · rw [hs.password user hl] at hu
    cases hu
  · rw [hs.token _ _ hg hl] at hd
    cases hd

theorem secured_preserved (lib : Libraries) (settings : Settings) :
    Preserved (service lib settings) contract
      (fun s a => InTurn s ∧ OnCall Known s a ∧ OnCall Vacated s a) Secured where
  call := by
    rintro s i x q c reply w hs hu ha hp ⟨hturn, hknown, hvacated⟩
    exact secured_call hs (turn_of_upcoming hturn hu) ha (onCall_run hu hknown)
      (onCall_run hu hvacated) hp
  pass := fun _ d hs _ => secured_passed hs d

theorem known_run (lib : Libraries) (settings : Settings) (now : ℕ)
    (ls : List (Label Request Choice Passing)) :
    Meets (service lib settings) (OnCall Known) ls
      (initial (World.fresh now noAccounts)) := by
  apply meets_of_invariant (AccountContract.obeys lib settings)
    (Credentials.preserved lib settings) _ ls _ (following_initial _) _ (meets_trivial ls _)
  · exact fun s a hf hc _ => known_of_credentialed hf hc a
  · exact ⟨Credentials.sound_fresh now, fun _ ⟨_, _, _, hm⟩ => by cases hm⟩

/-- The step that links an account leaves it as exposed as it was. -/
theorem vacated_of_evicted {s : Service} {i : ℕ} {x : Choice}
    (he : Evicted (step (service lib settings) s (.run i x))) :
    OnCall Vacated s (.run i x : Label Request Choice Passing) := by
  show Called (Vacated s i x) (upcoming s i)
  rcases hu : upcoming s i with _ | ⟨q, c⟩
  · trivial
  · show Vacated s i x q c
    intro changes hlink hfail hfree user huser hexposed
    unfold linkOf at hlink
    split at hlink
    case h_2 => cases hlink
    case h_1 f provider idToken nonce session changes' =>
      cases hlink
      have hp : (service lib settings).perform (.database (.commit session changes)) x s.world =
          some (.ok (), { s.world with
            database := Stores.committed s.world.database session changes }) := by
        simp only [service, perform, hfail, Bool.false_eq_true, false_and, if_false, answer,
          DatabaseCall.perform, hfree, Option.map_some]
      obtain ⟨next, hstep⟩ := step_upcoming hu hp
      rw [hstep] at he
      have hledger : ledger (s.history ++ [⟨i, .oauthLogin f provider idToken nonce,
          .database (.commit session changes), .ok ()⟩]) =
          (ledger s.history).committed changes (.oauthLogin f provider idToken nonce) :=
        ledger_append ..
      apply he user
      · show (ledger (s.history ++ [_])).linked user = true
        rw [hledger]
        exact Bool.or_eq_true_iff.mpr (Or.inr (decide_eq_true huser))
      · rcases hexposed with ⟨hunproved, u, hm, hid, hpassword⟩ | ⟨y, hm, huser, hd, hg⟩
        · left
          constructor
          · show (ledger (s.history ++ [_])).unproved user = true
            rwa [hledger]
          · obtain ⟨hid', -, hpassword'⟩ := AccountMoves.changes_kept changes u
            exact ⟨_, row_committed _ session changes hm, hid'.trans hid, hpassword' hpassword⟩
        · right
          refine ⟨y, ?_, huser, ?_, hg⟩
          · show y ∈ issues (s.history ++ [_])
            rw [issues_append]
            exact List.mem_append_left _ hm
          · show (ledger (s.history ++ [_])).descended y.2 = true
            rwa [hledger]

/-- In runs of one request after another, the credentials set up before a link are without
effect from then on just when there are none left at the link. -/
theorem linking_evicts_iff (lib : Libraries) (settings : Settings) (now : ℕ)
    (ls : List (Label Request Choice Passing))
    (hserial : Meets (service lib settings) Serial ls
      (initial (World.fresh now noAccounts))) :
    (∀ ms, ms <+: ls → Evicted (run (service lib settings) ms
      (initial (World.fresh now noAccounts)))) ↔
      Meets (service lib settings) (OnCall Vacated) ls
        (initial (World.fresh now noAccounts)) := by
  constructor
  · apply meets_of_prefixes
    intro ls a hafter
    rw [run_append] at hafter
    cases a with
    | run i x => exact vacated_of_evicted hafter
    | spawn | cancel | pass => trivial
  · rintro hm ms ⟨rest, rfl⟩
    have hturn := meets_inTurn _ _ (inTurn_initial _) hserial
    have hall := meets_and _ _ hturn (meets_and _ _ (known_run lib settings now _) hm)
    apply evicted_of_secured
    exact invariant_run (obeys lib settings) (secured_preserved lib settings) ms _
      (following_initial _) (secured_fresh now _) ((meets_append _ ms rest _).mp hall).1

/-- One genuine token, whose subject owns the address. -/
def oneSubject : Libraries := { plainLibraries with
  decodeIdToken := fun _ _ token =>
    if token = "t" then some ⟨"accounts.google.com", "n", "a@b", "", true, "s"⟩ else none }

/-- Somebody signs up with the address and logs in. -/
def enteredFirst : List (Label Request Choice Passing) :=
  .spawn (.signup withoutFilter "a@b" "long password" "1.2.3.4") ::
    steps 0 ["", "", "", "u", "", "", "", "", "", "", "", ""] ++
  .spawn (.login "a@b" "long password") :: steps 1 ["", "", "r", "f", "", ""]

/-- The owner of the address resets the password. -/
def resetBetween : List (Label Request Choice Passing) :=
  .spawn (.forgotPassword "a@b" "1.2.3.4") :: steps 2 (List.replicate 8 "") ++
  .spawn (.resetPassword "a@b" "000000" "longer password") :: steps 3 (List.replicate 11 "")

/-- The owner of the address logs in with the provider. -/
def linkedLater (thread : ℕ) : List (Label Request Choice Passing) :=
  .spawn (.oauthChallenge "google") :: steps thread ["n", "", ""] ++
  .spawn (.oauthLogin withoutFilter "google" "t" "n") ::
    steps (thread+1) ["", "", "", "", "", "", "", "r1", "f1", "", ""]

theorem linking_evicts_iff_reset :
    let ls := enteredFirst ++ resetBetween ++ linkedLater 4
    let start := initial (World.fresh 0 noAccounts)
    (ledger (run (service oneSubject plainSettings) ls start).history).linked "u" = true ∧
      ∀ ms, ms <+: ls → Evicted (run (service oneSubject plainSettings) ms start) := by
  constructor
  · decide +kernel
  · apply (linking_evicts_iff oneSubject plainSettings 0 _ _).mpr
    · decide +kernel
    · decide +kernel

/-! ## A link without a reset -/

def onAccounts : Request → Bool
  | .signup .. | .login .. | .refresh _ | .verifyEmail .. | .resendVerification _
  | .forgotPassword .. | .resetPassword .. | .changePassword .. | .oauthChallenge _
  | .oauthLogin .. => true
  | _ => false

theorem linked_account_exposed :
    ¬∀ (lib : Libraries) (settings : Settings) (now : ℕ)
      (ls : List (Label Request Choice Passing)),
      (∀ l ∈ ls, faultless l ∧ spawns onAccounts l) →
      Meets (service lib settings) Serial ls
        (initial (World.fresh now noAccounts)) →
      Evicted (run (service lib settings) ls
        (initial (World.fresh now noAccounts))) := by
  intro h
  have hevicted := h oneSubject plainSettings 0 (enteredFirst ++ linkedLater 2) (by decide +kernel)
    (by decide +kernel) "u" (by decide +kernel)
  exact absurd hevicted (by decide +kernel)

/-- The token and the password of the signup, after the link. -/
def enteredAfter : List (Label Request Choice Passing) :=
  .spawn (.refresh "r") :: steps 4 ["", "", "", "r2", "", ""] ++
  .spawn (.login "a@b" "long password") :: steps 5 ["", "", "r3", "f3", "", ""]

example :
    let s := run (service oneSubject plainSettings) (enteredFirst ++ linkedLater 2 ++ enteredAfter)
      (initial (World.fresh 0 noAccounts))
    let user : User := ⟨"u", "a@b", some "long password", some 0⟩
    (returned s 4).map Prod.snd = some (.granted ⟨user, "u", "r2"⟩) ∧
      (returned s 5).map Prod.snd = some (.granted ⟨user, "u", "r3"⟩) := by
  decide +kernel

end Gamely.LinkedAccounts
