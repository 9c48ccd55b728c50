import Gamely.AccountWrites
import Mathlib.Data.List.Nodup

/-!
# The directory of accounts

Accounts are permanent. An address and a provider identity each stand for one account from the
time they first stand for any, so everybody who signs in with one of them, at whatever time and
beside whatever else, is signed in to the same account.
-/

set_option autoImplicit false

namespace Gamely.AccountDirectory
open Gamely.Calls Gamely.Stores Gamely.EmailJobs Gamely.Services Gamely.TokenService
open Gamely.EmailFilter Gamely.AuthService Gamely.OAuthService Gamely.Requests
open Gamely.Interleaving Gamely.Pasts Gamely.AccountMoves Gamely.SessionOrigins
open Gamely.AccountWrites

variable {lib : Libraries} {settings : Settings} {i : ℕ}

/-! ## An orderly directory -/

/-- The rows of the directory, those of open transactions included. -/
def rows (db : Database) : List User := db.users ++ db.flushed.map Prod.snd

def identityKey (x : OAuthIdentity) : String × String := (x.provider, x.subject)

variable (lib) in
/-- Ids, addresses and identities stand once, addresses in their normal form, and identities
are of accounts. -/
structure Orderly (db : Database) : Prop where
  ids : ((rows db).map User.id).Nodup
  emails : ((rows db).map User.email).Nodup
  normal : ∀ address ∈ (rows db).map User.email, Normal lib address
  identities : (db.identities.map identityKey).Nodup
  owned : ∀ x ∈ db.identities, ∃ u ∈ db.users, u.id = x.userId

variable {db db' : Database} {session : ℕ}

theorem rows_ended (db : Database) (session : ℕ) : (rows (ended db session)).Sublist (rows db) :=
  List.Sublist.append_left (List.Sublist.map Prod.snd List.filter_sublist) db.users

theorem orderly_ended (ho : Orderly lib db) (session : ℕ) : Orderly lib (ended db session) where
  ids := ho.ids.sublist ((rows_ended db session).map User.id)
  emails := ho.emails.sublist ((rows_ended db session).map User.email)
  normal := fun address ha => ho.normal address (((rows_ended db session).map User.email).subset ha)
  identities := ho.identities
  owned := ho.owned

/-- A commit moves rows, and keeps what no change touches. -/
theorem rows_committed {B : Type} {f : User → B} (db : Database) (session : ℕ)
    (changes : List Change) (hf : ∀ u, f (changes.foldl onUser u) = f u) :
    ((rows (committed db session changes)).map f).Perm ((rows db).map f) := by
  have hmoved : (rows (committed db session changes)).map f =
      db.users.map f ++ ((db.flushed.filter (fun x => x.1 = session) ++
        db.flushed.filter (fun x => x.1 ≠ session)).map Prod.snd).map f := by
    have hsame : ∀ us : List User, (us.map (fun u => changes.foldl onUser u)).map f = us.map f := by
      intro us
      rw [List.map_map]
      exact List.map_congr_left (fun u _ => hf u)
    rw [rows, users_committed, flushed_committed, List.map_append, hsame, List.map_append,
      List.append_assoc, List.map_append, List.map_append]
  have hsplit : (db.flushed.filter (fun x => x.1 = session) ++
      db.flushed.filter (fun x => x.1 ≠ session)).Perm db.flushed := by
    simpa using List.filter_append_perm (fun x => decide (x.1 = session)) db.flushed
  have hall : (rows db).map f = db.users.map f ++ (db.flushed.map Prod.snd).map f :=
    List.map_append
  rw [hmoved, hall]
  exact List.Perm.append_left _ ((hsplit.map Prod.snd).map f)

theorem nodup_identities (ho : (db.identities.map identityKey).Nodup) {changes : List Change}
    (hfree : changes.any (Change.duplicate db) = false)
    (hone : (changes.filterMap added).length ≤ 1) :
    ((db.identities ++ changes.filterMap added).map identityKey).Nodup := by
  rcases hx : changes.filterMap added with _ | ⟨x, _ | ⟨y, more⟩⟩
  · rwa [List.append_nil]
  · have hnew : identityKey x ∉ db.identities.map identityKey := by
      intro hold
      obtain ⟨y, hy, hkey⟩ := List.mem_map.mp hold
      have hmem : x ∈ changes.filterMap added := by rw [hx]; exact List.mem_singleton.mpr rfl
      obtain ⟨change, hchange, hadded⟩ := List.mem_filterMap.mp hmem
      have hdup := List.any_eq_false.mp hfree change hchange
      cases change with
      | passwordHash | emailVerifiedAt => cases hadded
      | identity row =>
        cases hadded
        apply hdup
        obtain ⟨hprovider, hsubject⟩ := Prod.mk.inj hkey
        exact List.any_eq_true.mpr ⟨y, hy, by simp [hprovider, hsubject]⟩
    rw [List.map_append]
    exact List.Nodup.append ho (List.nodup_singleton _)
      (List.disjoint_singleton.mpr hnew)
  · rw [hx] at hone
    simp at hone

theorem orderly_committed (ho : Orderly lib db) {changes : List Change}
    (hfree : changes.any (Change.duplicate db) = false)
    (hone : (changes.filterMap added).length ≤ 1)
    (howned : ∀ x ∈ changes.filterMap added, (∃ u ∈ db.users, u.id = x.userId) ∨
      ∃ row, (session, row) ∈ db.flushed ∧ row.id = x.userId) :
    Orderly lib (committed db session changes) where
  ids := (rows_committed db session changes (fun u => (changes_kept changes u).1)).nodup_iff.mpr
    ho.ids
  emails := (rows_committed db session changes
    (fun u => (changes_kept changes u).2.1)).nodup_iff.mpr ho.emails
  normal := fun address ha => ho.normal address ((rows_committed db session changes
    (fun u => (changes_kept changes u).2.1)).mem_iff.mp ha)
  identities := by
    rw [identities_committed]
    exact nodup_identities ho.identities hfree hone
  owned := by
    have stays : ∀ u ∈ db.users ++ (db.flushed.filter (fun x => x.1 = session)).map Prod.snd,
        ∃ u' ∈ (committed db session changes).users, u'.id = u.id := by
      intro u hu
      rw [users_committed]
      exact ⟨_, List.mem_map_of_mem hu, (changes_kept changes u).1⟩
    intro x hx
    rw [identities_committed] at hx
    rcases List.mem_append.mp hx with hold | hnew
    · obtain ⟨u, hu, hid⟩ := ho.owned x hold
      obtain ⟨u', hu', hid'⟩ := stays u (List.mem_append_left _ hu)
      exact ⟨u', hu', hid'.trans hid⟩
    · rcases howned x hnew with ⟨u, hu, hid⟩ | ⟨row, hrow, hid⟩
      · obtain ⟨u', hu', hid'⟩ := stays u (List.mem_append_left _ hu)
        exact ⟨u', hu', hid'.trans hid⟩
      · have hmem : row ∈ (db.flushed.filter (fun x => x.1 = session)).map Prod.snd :=
          List.mem_map_of_mem (f := Prod.snd) (List.mem_filter.mpr ⟨hrow, by simp⟩)
        obtain ⟨u', hu', hid'⟩ := stays row (List.mem_append_right _ hmem)
        exact ⟨u', hu', hid'.trans hid⟩

theorem orderly_inserted (ho : Orderly lib db) {row : User} (hn : Normal lib row.email)
    (hid : ∀ u ∈ rows db, u.id ≠ row.id) (hemail : ∀ u ∈ rows db, u.email ≠ row.email) :
    Orderly lib { db with flushed := db.flushed ++ [(session, row)] } := by
  have hrows : rows { db with flushed := db.flushed ++ [(session, row)] } = rows db ++ [row] := by
    simp only [rows, List.map_append, List.map_cons, List.map_nil, List.append_assoc]
  have fresh : ∀ {B : Type} (f : User → B), ((rows db).map f).Nodup →
      (∀ u ∈ rows db, f u ≠ f row) → ((rows db ++ [row]).map f).Nodup := by
    intro B f hnodup hnew
    rw [List.map_append]
    refine List.Nodup.append hnodup (List.nodup_singleton _) (List.disjoint_singleton.mpr ?_)
    intro hold
    obtain ⟨u, hu, heq⟩ := List.mem_map.mp hold
    exact hnew u hu heq
  constructor
  · rw [hrows]
    exact fresh User.id ho.ids hid
  · rw [hrows]
    exact fresh User.email ho.emails hemail
  · rw [hrows, List.map_append]
    intro address ha
    rcases List.mem_append.mp ha with hold | hnew
    · exact ho.normal address hold
    · rw [List.mem_singleton.mp hnew]
      exact hn
  · exact ho.identities
  · exact ho.owned

/-! ## Rows of their own -/

/-- A row is inserted under an id and an address no other row has. -/
def Separate (s : Service) (_ : ℕ) (_ : Choice) (_ : Request) : Command → Prop
  | .database (.createUser session row) => (∀ u ∈ rows s.world.database, u.id ≠ row.id) ∧
      ∀ x ∈ s.world.database.flushed, x.2.email = row.email → x.1 ≠ session
  | _ => True

theorem separate_of_credentialed {s : Service}
    (hf : Following (AccountContract.contract lib settings) s)
    (hc : Credentials.Credentialed lib settings s.world s.history)
    (a : Label Request Choice Passing) : OnCall Separate s a := by
  cases a with
  | spawn | cancel | pass => trivial
  | run i x =>
    show Called (Separate s i x) (upcoming s i)
    rcases hu : upcoming s i with _ | ⟨q, c⟩
    · trivial
    · have ha := allowed_of_upcoming hf hu
      show Separate s i x q c
      unfold Separate
      split
      case h_1 session row =>
        obtain ⟨rfl, hid, hmade, -⟩ := ha
        -- only this request draws the id, and it made no row before
        have other : ∀ k made, (ghost (AccountContract.contract lib settings) s.history k).made =
            some made → made.id ≠ row.id := by
          intro k made hk hsame
          have hids := hc.sound.owned.named k made hk
          rw [hsame] at hids
          obtain rfl := hc.sound.owned.apart session k row.id hid hids
          cases hmade.symm.trans hk
        refine ⟨fun u hu => ?_, ?_⟩
        · rcases List.mem_append.mp hu with hu | hu
          · obtain ⟨k, made, hk, hsame⟩ := hc.sound.owned.users u hu
            rw [hsame.1]
            exact other k made hk
          · obtain ⟨⟨k, flushed⟩, hx, rfl⟩ := List.mem_map.mp hu
            exact other k flushed (hc.sound.owned.flushed k flushed hx).1
        · rintro ⟨k, flushed⟩ hx - rfl
          cases hmade.symm.trans (hc.sound.owned.flushed k flushed hx).1
      case h_2 => trivial

theorem separate_run (lib : Libraries) (settings : Settings) (now : ℕ)
    (ls : List (Label Request Choice Passing)) :
    Meets (service lib settings) (OnCall Separate) ls
      (initial (World.fresh now noAccounts)) := by
  apply meets_of_invariant (AccountContract.obeys lib settings)
    (Credentials.preserved lib settings) _ ls _ (following_initial _) _ (meets_trivial ls _)
  · exact fun s a hf hc _ => separate_of_credentialed hf hc a
  · exact ⟨Credentials.sound_fresh now, fun _ ⟨_, _, _, hm⟩ => by cases hm⟩

/-! ## The directory along a run -/

variable (lib) in
/-- An orderly directory that has all that calls have found in it or written to it, and the
rows of open transactions. -/
structure Directed (w : World) (h : Past) : Prop where
  orderly : Orderly lib w.database
  holds : ∀ e ∈ h, Holds lib w.database e.command e.reply
  flushed : ∀ k row, ⟨.database (.createUser k row), .ok ()⟩ ∈ past some h k →
    (∀ step ∈ past some h k, ¬Ending step.command) → (k, row) ∈ w.database.flushed

theorem directed_fresh (now : ℕ) : Directed lib (World.fresh now noAccounts) [] where
  orderly := {
    ids := List.nodup_nil
    emails := List.nodup_nil
    normal := fun _ h => by cases h
    identities := List.nodup_nil
    owned := fun _ h => by cases h }
  holds := fun _ h => by cases h
  flushed := fun _ _ h => by cases h

theorem directed_passed {w : World} {h : Past} (hd : Directed lib w h) (d : Passing) :
    Directed lib (passed d w) h := by
  have hsame : (passed d w).database = w.database := by cases d <;> rfl
  constructor
  · rw [hsame]
    exact hd.orderly
  · rw [hsame]
    exact hd.holds
  · rw [hsame]
    exact hd.flushed

theorem holds_past {w : World} {h : Past} (hd : Directed lib w h) {k : ℕ}
    {step : Step Command Reply Failure} (hs : step ∈ past some h k) :
    Holds lib w.database step.command step.reply := by
  obtain ⟨e, he, hread⟩ := List.mem_filterMap.mp hs
  split at hread
  · cases hread
    exact hd.holds e he
  · cases hread

section Call

variable {s : Service} {x : Choice} {q : Request} {c : Command} {w : World}
  {reply : Except Failure (Reply c)}

theorem row_of_known (hd : Directed lib s.world s.history) {user : UserId}
    (hk : Known i (past some s.history i) user) : (∃ u ∈ s.world.database.users, u.id = user) ∨
      ∃ row, (i, row) ∈ s.world.database.flushed ∧ row.id = user := by
  rcases hk with ⟨address, row, hread, rfl⟩ | ⟨row, hcreated, hid, hopen⟩
  · obtain ⟨-, u, hu, -, hid⟩ := holds_past hd hread
    exact Or.inl ⟨u, hu, hid⟩
  · exact Or.inr ⟨row, hd.flushed i row hcreated hopen, hid⟩

theorem orderly_call (hd : Directed lib s.world s.history)
    (ha : writes lib i (past some s.history i) c) (hsep : Separate s i x q c)
    (hp : perform lib c x s.world = some (reply, w)) : Orderly lib w.database := by
  rcases perform_cases hp with ⟨-, -, -, rfl⟩ | ⟨-, h⟩
  · exact hd.orderly
  · rcases answer_database h with ⟨d, rfl⟩ | hsame
    · obtain ⟨⟨r, db⟩, hr, he⟩ := Option.map_eq_some_iff.mp h
      cases he
      cases d with
      | createUser session row =>
        obtain ⟨rfl, hn⟩ := ha
        obtain ⟨hids, hrivals⟩ := hsep
        simp only [DatabaseCall.perform] at hr
        split at hr
        · cases hr
          exact hd.orderly
        case isFalse hfree =>
          split at hr
          · cases hr
          case isFalse halone =>
            cases hr
            refine orderly_inserted hd.orderly hn hids (fun u hu hsame => ?_)
            rcases List.mem_append.mp hu with hu | hu
            · exact hfree (List.any_eq_true.mpr ⟨u, hu, by simpa using hsame⟩)
            · obtain ⟨y, hy, rfl⟩ := List.mem_map.mp hu
              exact halone (List.any_eq_true.mpr
                ⟨y, hy, by simp [hrivals y hy hsame, hsame]⟩)
      | commit session changes =>
        obtain ⟨rfl, hone, hknown⟩ := ha
        simp only [DatabaseCall.perform] at hr
        split at hr
        · cases hr
          exact orderly_ended hd.orderly _
        case isFalse hfree =>
          cases hr
          exact orderly_committed hd.orderly (by simpa using hfree) hone
            (fun y hy => row_of_known hd (hknown y hy))
      | rollback session =>
        cases hr
        exact orderly_ended hd.orderly _
      | _ =>
        cases hr
        exact hd.orderly
    · rw [hsame]
      exact hd.orderly

/-- A transaction is ended by its own request only. -/
theorem flushed_kept (ha : writes lib i (past some s.history i) c)
    (hp : perform lib c x s.world = some (reply, w)) {k : ℕ} {row : User}
    (hm : (k, row) ∈ s.world.database.flushed) (hk : Ending c → k ≠ i) :
    (k, row) ∈ w.database.flushed := by
  rcases perform_cases hp with ⟨-, -, -, rfl⟩ | ⟨-, h⟩
  · exact hm
  · rcases answer_database h with ⟨d, rfl⟩ | hsame
    · obtain ⟨⟨r, db⟩, hr, he⟩ := Option.map_eq_some_iff.mp h
      cases he
      cases d with
      | createUser session row' =>
        simp only [DatabaseCall.perform] at hr
        split at hr
        · cases hr
          exact hm
        · split at hr <;> cases hr
          exact List.mem_append_left _ hm
      | commit session changes =>
        obtain ⟨rfl, -⟩ := ha
        have hstays : (k, row) ∈ s.world.database.flushed.filter (fun y => y.1 ≠ session) :=
          List.mem_filter.mpr ⟨hm, by simpa using hk trivial⟩
        simp only [DatabaseCall.perform] at hr
        split at hr <;> cases hr
        · exact hstays
        · rw [flushed_committed]
          exact hstays
      | rollback session =>
        obtain rfl := ha
        cases hr
        exact List.mem_filter.mpr ⟨hm, by simpa using hk trivial⟩
      | _ =>
        cases hr
        exact hm
    · rwa [hsame]

theorem flushed_created {k : ℕ} {row : User}
    (hp : perform lib (.database (.createUser k row)) x s.world = some (.ok (), w)) :
    (k, row) ∈ w.database.flushed := by
  rcases perform_cases hp with ⟨-, -, hr, -⟩ | ⟨-, h⟩
  · cases hr
  · obtain ⟨⟨r, db⟩, hr, he⟩ := Option.map_eq_some_iff.mp h
    cases he
    simp only [DatabaseCall.perform] at hr
    split at hr
    · cases hr
    · split at hr <;> cases hr
      exact List.mem_append_right _ (List.mem_singleton.mpr rfl)

theorem flushed_call (hd : Directed lib s.world s.history)
    (ha : writes lib i (past some s.history i) c)
    (hp : perform lib c x s.world = some (reply, w)) (k : ℕ) (row : User)
    (hk : ⟨.database (.createUser k row), .ok ()⟩ ∈
      past some (s.history ++ [⟨i, q, c, reply⟩]) k)
    (hopen : ∀ step ∈ past some (s.history ++ [⟨i, q, c, reply⟩]) k, ¬Ending step.command) :
    (k, row) ∈ w.database.flushed := by
  rw [past_append] at hk hopen
  by_cases hi : i = k
  · rw [if_pos hi] at hk hopen
    have hnone : ¬Ending c := hopen ⟨c, reply⟩ (mem_last _ _)
    rcases List.mem_append.mp hk with hold | hnew
    · have hm := hd.flushed k row hold (fun step hs => hopen step (List.mem_append_left _ hs))
      exact flushed_kept ha hp hm (fun he => absurd he hnone)
    · cases List.mem_singleton.mp hnew
      exact flushed_created hp
  · rw [if_neg hi, Option.toList_none, List.append_nil] at hk hopen
    exact flushed_kept ha hp (hd.flushed k row hk hopen) (fun _ => Ne.symm hi)

theorem directed_call (hd : Directed lib s.world s.history)
    (ha : writes lib i (past some s.history i) c) (hsep : Separate s i x q c)
    (hp : perform lib c x s.world = some (reply, w)) :
    Directed lib w (s.history ++ [⟨i, q, c, reply⟩]) where
  orderly := orderly_call hd ha hsep hp
  holds := by
    intro e he
    rcases List.mem_append.mp he with hold | hnew
    · exact holds_mono (persists_perform hp) (hd.holds e hold)
    · cases List.mem_singleton.mp hnew
      exact holds_perform hp
  flushed := flushed_call hd ha hp

end Call

theorem directed_preserved (lib : Libraries) (settings : Settings) :
    Preserved (service lib settings) (writing lib) (OnCall Separate) (Directed lib) where
  call := by
    rintro s i x q c reply w hd hu ha hp hsep
    rw [writing, ghost_memory] at ha
    exact directed_call hd ha (onCall_run hu hsep) hp
  pass := fun _ d hd _ => directed_passed hd d

theorem directed_run (lib : Libraries) (settings : Settings) (now : ℕ)
    (ls : List (Label Request Choice Passing)) :
    let s := run (service lib settings) ls (initial (World.fresh now noAccounts))
    Directed lib s.world s.history :=
  invariant_run (obeys_writing lib settings) (directed_preserved lib settings) ls _
    (following_initial _) (directed_fresh now) (separate_run lib settings now ls)

theorem persists_run (lib : Libraries) (settings : Settings)
    (ls : List (Label Request Choice Passing)) (s : Service) :
    Persists s.world.database (run (service lib settings) ls s).world.database := by
  induction ls generalizing s with
  | nil => exact persists_of_eq rfl rfl
  | cons l ls ih =>
    refine persists_trans ?_ (ih _)
    rcases step_cases (S := service lib settings) s l with ⟨q, -, he⟩ |
      ⟨j, x, q, c, next, reply, w, -, -, hp, he⟩ | ⟨j, q, c, next, p, -, -, -, he⟩ |
      ⟨d, -, he⟩ | he
    · rw [he]
      exact persists_of_eq rfl rfl
    · rw [he]
      exact persists_perform hp
    · rw [he]
      exact persists_of_eq rfl rfl
    · rw [he]
      cases d <;> exact persists_of_eq rfl rfl
    · rw [he]
      exact persists_of_eq rfl rfl

theorem normal_of_account {w : World} {h : Past} (hd : Directed lib w h) {address : Email}
    {user : UserId} (ha : Account w.database address user) : Normal lib address := by
  obtain ⟨u, hu, rfl, -⟩ := ha
  exact hd.orderly.normal _ (List.mem_map_of_mem (List.mem_append_left _ hu))

theorem mapM_normal {batch : List Email} (h : ∀ address ∈ batch, Normal lib address) :
    batch.mapM (normalizeEmail lib) = .ok batch := by
  induction batch with
  | nil => rfl
  | cons address batch ih =>
    rw [List.mapM_cons, h address List.mem_cons_self,
      ih (fun a ha => h a (List.mem_cons_of_mem _ ha))]
    rfl

/-- Accounts and identities stay from the time they are committed. No two share an id, an
address or a subject, no identity is without its account, and a rebuild of the filter is
refused none of the addresses it reads. -/
theorem accounts_permanent (lib : Libraries) (settings : Settings) (now : ℕ)
    (ls more : List (Label Request Choice Passing)) :
    let s := run (service lib settings) ls (initial (World.fresh now noAccounts))
    Persists s.world.database (run (service lib settings) more s).world.database ∧
      Orderly lib s.world.database ∧
      ∀ i q emails size, (⟨i, q, .database .emails, .ok emails⟩ :
          Event Command Reply Failure Request) ∈ s.history →
        ∀ batch ∈ batches size emails, batch.mapM (normalizeEmail lib) = .ok batch := by
  intro s
  have hd : Directed lib s.world s.history := directed_run lib settings now ls
  refine ⟨persists_run lib settings more s, hd.orderly, ?_⟩
  intro i q emails size hread batch hbatch
  apply mapM_normal
  intro address ha
  have hmem : address ∈ emails := by
    rw [← FilterContract.batches_flatten size emails]
    exact List.mem_flatten_of_mem hbatch ha
  obtain ⟨user, hu⟩ := hd.holds _ hread address hmem
  exact normal_of_account hd hu

/-- A signup, and a rebuild of the filter after it. -/
def rebuilt : List (Label Request Choice Passing) :=
  .spawn (.signup withoutFilter "a@b" "long password" "1.2.3.4") ::
    steps 0 ["", "", "", "u", "", "", "", "", "", "", "", ""] ++
  .spawn (.warm withFilter) :: steps 1 ["k", "", "", "", ""]

theorem accounts_permanent_rebuilt :
    ["a@b"].mapM (normalizeEmail plainLibraries) = .ok ["a@b"] :=
  (accounts_permanent plainLibraries plainSettings 0 rebuilt []).2.2 1 (.warm withFilter) ["a@b"]
    1 (by
      apply List.mem_of_getElem? (i := 16)
      rfl) ["a@b"] (by decide)

/-! ## Who signs in -/

/-- What a user signs in with, the proof aside. -/
inductive SignInName where
  | address (email : Email)
  | subject (provider subject : String)

def signInName (lib : Libraries) (settings : Settings) : Request → Option SignInName
  | .login email _ => (normalizeEmail lib email).toOption.map .address
  | .oauthLogin _ provider idToken _ =>
    (providerConfig settings provider).toOption.bind (fun config =>
      (lib.decodeIdToken config.jwksUrl config.clientId idToken).map
        (fun claims => .subject provider claims.subject))
  | _ => none

def Stands (db : Database) (user : UserId) : SignInName → Prop
  | .address email => Account db email user
  | .subject provider subject => ⟨user, provider, subject⟩ ∈ db.identities

theorem stands_unique (ho : Orderly lib db) {name : SignInName} {user user' : UserId}
    (h : Stands db user name) (h' : Stands db user' name) : user = user' := by
  cases name with
  | address email =>
    obtain ⟨u, hu, hemail, rfl⟩ := h
    obtain ⟨u', hu', hemail', rfl⟩ := h'
    have hsame := List.inj_on_of_nodup_map ho.emails (List.mem_append_left _ hu)
      (List.mem_append_left _ hu') (hemail.trans hemail'.symm)
    rw [hsame]
  | subject provider subject =>
    have hsame := List.inj_on_of_nodup_map ho.identities h h' rfl
    exact congrArg OAuthIdentity.userId hsame

theorem identity_of_identified {w : World} {h : Past} (hd : Directed lib w h) {k : ℕ}
    {provider subject : String} {email : Email} {user : UserId}
    (hi : Identified (past some h k) provider subject email user) :
    ⟨user, provider, subject⟩ ∈ w.database.identities := by
  rcases hi with ⟨identity, row, hlinked, hrow, hid⟩ | ⟨session, row, changes, -, -, hmem, hcommit⟩
  · obtain ⟨rfl, rfl, hidentity⟩ := holds_past hd hlinked
    have huser : row.id = identity.userId := holds_past hd hrow
    rw [← hid, huser]
    exact hidentity
  · exact holds_past hd hcommit _ (List.mem_filterMap.mpr ⟨_, hmem, rfl⟩)

theorem stands_of_proved {w : World} {h : Past} (hd : Directed lib w h) {k : ℕ} {q : Request}
    {user : UserId} (hp : Proved lib settings (past some h k) user q) :
    ∃ name, signInName lib settings q = some name ∧ Stands w.database user name := by
  cases q with
  | login email password =>
    obtain ⟨address, row, ha, hrow, -, rfl⟩ := hp
    refine ⟨.address address, ?_, (holds_past hd hrow).2⟩
    simp only [signInName, ha]
    rfl
  | oauthLogin f provider idToken nonce =>
    obtain ⟨config, claims, address, -, htoken, ⟨hconfig, -⟩, hidentified⟩ := hp
    have hdecoded : some claims = lib.decodeIdToken config.jwksUrl config.clientId idToken :=
      holds_past hd htoken
    refine ⟨.subject provider claims.subject, ?_, identity_of_identified hd hidentified⟩
    simp [signInName, hconfig, Except.toOption, ← hdecoded]
  | _ => exact absurd hp id

/-- Whoever is signed in by an address or by a provider gets the account that it stands for,
and an address and a subject stand for one account from the first time on. -/
theorem sign_ins_agree (lib : Libraries) (settings : Settings) (now : ℕ)
    (ls more : List (Label Request Choice Passing)) :
    let s := run (service lib settings) ls (initial (World.fresh now noAccounts))
    let s' := run (service lib settings) more s
    (∀ i q g, returned s i = some (q, .granted g) → (∀ value, q ≠ .refresh value) →
      ∃ name, signInName lib settings q = some name ∧ Stands s.world.database g.user.id name) ∧
    ∀ name user user', Stands s.world.database user name → Stands s'.world.database user' name →
      user = user' := by
  intro s s'
  have hd : Directed lib s.world s.history := directed_run lib settings now ls
  have hd' : Directed lib s'.world s'.history := by
    have hrun := directed_run lib settings now (ls ++ more)
    rwa [run_append] at hrun
  refine ⟨fun i q g hg hq => ?_, fun name user user' h h' => ?_⟩
  · obtain ⟨family, ttl, -, hentitled⟩ :=
      post_run (SessionOrigins.obeys lib settings) ls _ hg _ rfl g rfl
    rcases hentitled with ⟨-, hproved⟩ | ⟨value, ttl', user, row, hrefresh, -⟩
    · exact stands_of_proved hd hproved
    · exact absurd hrefresh (hq value)
  · have hpersists := persists_run lib settings more s
    have hstill : Stands s'.world.database user name := by
      cases name with
      | address email => exact account_mono hpersists h
      | subject provider subject => exact hpersists.identities h
    exact stands_unique hd'.orderly hstill h'

/-- A signup, and a login after it. -/
def entered : List (Label Request Choice Passing) :=
  .spawn (.signup withoutFilter "a@b" "long password" "1.2.3.4") ::
    steps 0 ["", "", "", "u", "", "", "", "", "", "", "", ""] ++
  .spawn (.login "a@b" "long password") :: steps 1 ["", "", "r", "f", "", ""]

theorem sign_ins_agree_entered :
    let s := run (service plainLibraries plainSettings) entered
      (initial (World.fresh 0 noAccounts))
    (∃ name, signInName plainLibraries plainSettings (.login "a@b" "long password") = some name ∧
      Stands s.world.database "u" name) ∧
    ∀ user, Stands s.world.database user (.address "a@b") → user = "u" := by
  intro s
  obtain ⟨hgranted, hunique⟩ := sign_ins_agree plainLibraries plainSettings 0 entered []
  have hstands : Stands s.world.database "u" (.address "a@b") :=
    ⟨⟨"u", "a@b", some "long password", none⟩, by
      apply List.mem_of_getElem? (i := 0)
      rfl, rfl, rfl⟩
  refine ⟨?_, fun user hu => hunique (.address "a@b") user "u" hu hstands⟩
  have hg : ∃ g : Grant, returned s 1 = some (.login "a@b" "long password", .granted g) ∧
      g.user.id = "u" := ⟨_, rfl, rfl⟩
  obtain ⟨g, hg, hid⟩ := hg
  obtain ⟨name, hname, hstands⟩ := hgranted 1 _ g hg (by simp)
  rw [hid] at hstands
  exact ⟨name, hname, hstands⟩

end Gamely.AccountDirectory
