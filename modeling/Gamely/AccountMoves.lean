import Gamely.AccountContract
import Gamely.SessionMoves

/-!
# What one call does to the accounts and the codes

The moves act on a view of the world: the committed accounts and identities, the
rows of transactions that have not ended, and the digest stored for each code key,
its deadline aside.
-/

set_option autoImplicit false

namespace Gamely.AccountMoves
open Gamely.Calls Gamely.Stores Gamely.EmailJobs Gamely.ExpiringStore Gamely.Services
open Gamely.AuthService Gamely.Requests Gamely.Interleaving Gamely.AccountContract

structure View where
  drawn : List String
  users : List User
  identities : List OAuthIdentity
  flushed : List (ℕ × User)
  code : CodeKey → Option Digest

def digestAt (s : CodeStore) (key : CodeKey) : Option Digest :=
  (s.code key).map (fun e => e.value.digest)

def view (w : World) : View where
  drawn := w.drawn
  users := w.database.users
  identities := w.database.identities
  flushed := w.database.flushed
  code := digestAt w.codes

/-! ## Commits -/

/-- What a change writes to one row. -/
def onUser (u : User) : Change → User
  | .passwordHash user h => if u.id = user then { u with passwordHash := some h } else u
  | .emailVerifiedAt user t => if u.id = user then { u with emailVerifiedAt := some t } else u
  | .identity _ => u

def added : Change → Option OAuthIdentity
  | .identity row => some row
  | _ => none

theorem apply_change (db : Database) (change : Change) :
    (change.apply db).users = db.users.map (fun u => onUser u change) ∧
      (change.apply db).identities = db.identities ++ (added change).toList ∧
      (change.apply db).flushed = db.flushed := by
  cases change with
  | passwordHash user h => exact ⟨rfl, by simp [Change.apply, added], rfl⟩
  | emailVerifiedAt user t => exact ⟨rfl, by simp [Change.apply, added], rfl⟩
  | identity row => exact ⟨by simp [Change.apply, onUser], rfl, rfl⟩

theorem apply_changes (changes : List Change) (db : Database) :
    (changes.foldl Change.apply db).users = db.users.map (fun u => changes.foldl onUser u) ∧
      (changes.foldl Change.apply db).identities = db.identities ++ changes.filterMap added ∧
      (changes.foldl Change.apply db).flushed = db.flushed := by
  induction changes generalizing db with
  | nil => simp
  | cons change changes ih =>
    obtain ⟨hu, hi, hf⟩ := ih (change.apply db)
    obtain ⟨hu', hi', hf'⟩ := apply_change db change
    refine ⟨?_, ?_, hf.trans hf'⟩
    · rw [List.foldl_cons, hu, hu', List.map_map]
      rfl
    · rw [List.foldl_cons, hi, hi', List.append_assoc, List.filterMap_cons]
      cases added change <;> rfl

/-- A commit changes no id and no address, and takes no password away. -/
theorem onUser_kept (change : Change) (u : User) : (onUser u change).id = u.id ∧
    (onUser u change).email = u.email ∧
    (u.passwordHash ≠ none → (onUser u change).passwordHash ≠ none) := by
  cases change with
  | passwordHash user h =>
    simp only [onUser]
    split
    · exact ⟨rfl, rfl, fun _ => Option.some_ne_none h⟩
    · exact ⟨rfl, rfl, id⟩
  | emailVerifiedAt user t =>
    simp only [onUser]
    split <;> exact ⟨rfl, rfl, id⟩
  | identity row => exact ⟨rfl, rfl, id⟩

theorem changes_kept (changes : List Change) (u : User) : (changes.foldl onUser u).id = u.id ∧
    (changes.foldl onUser u).email = u.email ∧
    (u.passwordHash ≠ none → (changes.foldl onUser u).passwordHash ≠ none) := by
  induction changes generalizing u with
  | nil => exact ⟨rfl, rfl, id⟩
  | cons change changes ih =>
    obtain ⟨hid, hemail, hpassword⟩ := onUser_kept change u
    obtain ⟨hid', hemail', hpassword'⟩ := ih (onUser u change)
    exact ⟨hid'.trans hid, hemail'.trans hemail, fun h => hpassword' (hpassword h)⟩

/-- The rows of a session, which its commit makes visible. -/
def rowsOf (v : View) (i : ℕ) : List User := (v.flushed.filter (fun x => x.1 = i)).map Prod.snd

def View.committed (v : View) (i : ℕ) (changes : List Change) : View :=
  { v with
    users := (v.users ++ rowsOf v i).map (fun u => changes.foldl onUser u)
    identities := v.identities ++ changes.filterMap added
    flushed := v.flushed.filter (fun x => x.1 ≠ i) }

theorem view_committed (w : World) (i : ℕ) (changes : List Change) :
    view { w with database := committed w.database i changes } = (view w).committed i changes := by
  obtain ⟨hu, hi, hf⟩ := apply_changes changes { ended w.database i with
    users := w.database.users ++ (w.database.flushed.filter (fun x => x.1 = i)).map Prod.snd }
  simp only [view, View.committed, View.mk.injEq, true_and, and_true, rowsOf]
  exact ⟨hu, hi, hf⟩

/-! ## Moves -/

variable (lib : Libraries) (settings : Settings) (i : ℕ) (q : Request)

inductive Moves (v : View) (g : Hand) :
    (c : Command) → Except Failure (Reply c) → View → Hand → Prop where
  | draw (id : UserId) (new : id ∉ v.drawn) (first : g.id = none) :
      Moves v g .uuid4 (.ok id) { v with drawn := id :: v.drawn } { g with id := some id }
  | number (n : ℕ) : Moves v g (.randbelow 1000000) (.ok n) v { g with number := some n }
  | cool (key : CodeKey) (grounds : key.purpose = .reset →
        ∃ row, g.found = some row ∧ row.email = key.email ∧ row.passwordHash ≠ none) :
      Moves v g (.code (.setCooldown key 60)) (.ok true) v { g with sending := some key }
  | readCode (key : CodeKey) (payload : Option CodePayload)
      (seen : ∀ p, payload = some p → v.code key = some p.digest) :
      Moves v g (.code (.getCode key)) (.ok payload) v
        { g with payload := payload.map (fun p => (key, p)) }
  | writeCode (key : CodeKey) (payload : CodePayload) (ttl : ℕ)
      (grounds : (g.sending = some key ∧
          ∃ n, g.number = some n ∧ payload.digest = lib.sha256 (sixDigits n)) ∨
        ∃ p, g.payload = some (key, p) ∧ payload.digest = p.digest) :
      Moves v g (.code (.setCode key payload ttl)) (.ok ())
        { v with code := Function.update v.code key (some payload.digest) } g
  | dropCode (c : CodeCall) (reply : c.Reply) (key : CodeKey) :
      Moves v g (.code c) (.ok reply) { v with code := Function.update v.code key none } g
  | look (c : DatabaseCall) (reply : c.Reply) (asked : Option Email) (found : Option User)
      (row : ∀ u, found = some u → u ∈ v.users ∧ ∀ a, asked = some a → u.email = a) :
      Moves v g (.database c) (.ok reply) v { g with asked := asked, found := found }
  | create (row : User) (named : g.id = some row.id) (first : g.made = none)
      (vouched : row.emailVerifiedAt ≠ none → Vouched lib settings q g row.email)
      (free : ∀ u ∈ v.users, u.email ≠ row.email)
      (alone : ∀ x ∈ v.flushed, x.2.email = row.email → x.1 = i) :
      Moves v g (.database (.createUser i row)) (.ok ())
        { v with flushed := v.flushed ++ [(i, row)] } { g with made := some row }
  | commit (changes : List Change)
      (credential : ∀ row, g.made = some row → row.passwordHash = none →
        ∃ provider subject, .identity ⟨row.id, provider, subject⟩ ∈ changes)
      (justified : ∀ change ∈ changes, Justified lib settings q g change) :
      Moves v g (.database (.commit i changes)) (.ok ()) (v.committed i changes) g
  | close (c : DatabaseCall) (reply : Except Failure c.Reply) (flushed : List (ℕ × User))
      (fewer : flushed ⊆ v.flushed) :
      Moves v g (.database c) reply { v with flushed := flushed } g
  | check (jwksUrl clientId idToken : String) (claims : IdClaims) :
      Moves v g (.idToken jwksUrl clientId idToken) (.ok (some claims)) v
        { g with checked := some (q, ⟨jwksUrl, clientId, idToken, claims⟩) }
  | other (c : Command) (reply : Except Failure (Reply c)) (drawn : List String)
      (more : v.drawn ⊆ drawn) : Moves v g c reply { v with drawn := drawn } g

variable {lib settings i q} {g : Hand} {w w' : World}

theorem moves_stay (v : View) (c : Command) (reply : Except Failure (Reply c)) :
    Moves lib settings i q v g c reply v g :=
  .other c reply v.drawn (fun _ h => h)

theorem next_error (c : Command) (e : Failure) : next q g c (.error e) = g := by
  cases c with
  | code c => cases c <;> rfl
  | database c => cases c <;> rfl
  | _ => rfl

theorem digestAt_set (s : CodeStore) (key : CodeKey) (payload : CodePayload) (d : Option ℕ) :
    digestAt { s with code := ExpiringStore.set s.code key payload d } =
      Function.update (digestAt s) key (some payload.digest) := by
  funext k
  by_cases hk : k = key
  · subst hk
    simp [digestAt]
  · simp [digestAt, set_ne _ _ _ _ hk, Function.update_of_ne hk]

theorem digestAt_del (s : CodeStore) (key : CodeKey) (cooldown : Store CodeKey Unit) :
    digestAt ⟨del s.code key, cooldown⟩ = Function.update (digestAt s) key none := by
  funext k
  by_cases hk : k = key
  · subst hk
    simp [digestAt]
  · simp [digestAt, del_ne _ _ hk, Function.update_of_ne hk]

theorem moves_code (c : CodeCall) (w : World) (ha : allows lib settings i q g (.code c)) :
    Moves lib settings i q (view w) g (.code c) (.ok (c.perform w.now w.codes).1)
      (view { w with codes := (c.perform w.now w.codes).2 })
      (next q g (.code c) (.ok (c.perform w.now w.codes).1)) := by
  have dropped : ∀ key cooldown, view { w with codes := ⟨del w.codes.code key, cooldown⟩ } =
      { view w with code := Function.update (view w).code key none } := by
    intro key cooldown
    simp only [view, digestAt_del]
  cases c with
  | setCooldown key ttl =>
    obtain ⟨rfl, hgrounds⟩ := ha
    simp only [CodeCall.perform]
    split
    · exact .cool key hgrounds
    · exact moves_stay _ _ _
  | setCode key payload ttl =>
    have hv : view { w with
        codes := (CodeCall.perform w.now (.setCode key payload ttl) w.codes).2 } =
        { view w with code := Function.update (view w).code key (some payload.digest) } := by
      simp only [view, CodeCall.perform, digestAt_set]
    rw [hv]
    exact .writeCode key payload ttl ha
  | delCooldownAndCode key =>
    simp only [CodeCall.perform, dropped]
    exact .dropCode _ _ key
  | delCode key =>
    simp only [CodeCall.perform, dropped]
    exact .dropCode _ _ key
  | getCode key =>
    apply Moves.readCode
    intro p hp
    obtain ⟨e, he, -, hv⟩ := (get_eq_some _ _ _ _).mp hp
    simp [view, digestAt, he, hv]
  | ttlCode key => exact moves_stay _ _ _

theorem moves_database (c : DatabaseCall) (w : World) (reply : Except Failure c.Reply)
    (db : Database) (ha : allows lib settings i q g (.database c))
    (hp : c.perform w.database = some (reply, db)) :
    Moves lib settings i q (view w) g (.database c) reply (view { w with database := db })
      (next q g (.database c) reply) := by
  have ends : ∀ session reply', Moves lib settings i q (view w) g (.database c) reply'
      (view { w with database := ended w.database session }) g :=
    fun session reply' => .close c reply' _ (fun _ hx => List.mem_of_mem_filter hx)
  cases c with
  | byEmail email =>
    cases hp
    apply Moves.look
    intro u hu
    refine ⟨List.mem_of_find?_eq_some hu, ?_⟩
    rintro a ⟨⟩
    simpa using List.find?_some hu
  | byId user =>
    cases hp
    apply Moves.look
    intro u hu
    exact ⟨List.mem_of_find?_eq_some hu, fun a h => by cases h⟩
  | byIdentity provider subject =>
    cases hp
    exact moves_stay _ _ _
  | createUser session row =>
    obtain ⟨rfl, hid, hmade, hv⟩ := ha
    simp only [DatabaseCall.perform] at hp
    split at hp
    · cases hp
      rw [next_error]
      exact moves_stay _ _ _
    case isFalse hfree =>
      split at hp
      · cases hp
      case isFalse halone =>
        cases hp
        apply Moves.create row hid hmade hv
        · intro u hu he
          exact hfree (List.any_eq_true.mpr ⟨u, hu, by simpa using he⟩)
        · intro x hx he
          by_contra hne
          exact halone (List.any_eq_true.mpr ⟨x, hx, by simp [hne, he]⟩)
  | commit session changes =>
    obtain ⟨rfl, hcredential, hjustified⟩ := ha
    simp only [DatabaseCall.perform] at hp
    split at hp
    · cases hp
      exact ends session _
    · cases hp
      rw [view_committed]
      exact .commit changes hcredential hjustified
  | rollback session =>
    cases hp
    exact ends session _
  | emails =>
    cases hp
    exact moves_stay _ _ _

theorem moves_of_perform (c : Command) (x : Choice) (reply : Except Failure (Reply c))
    (ha : allows lib settings i q g c) (hp : perform lib c x w = some (reply, w')) :
    Moves lib settings i q (view w) g c reply (view w') (next q g c reply) := by
  rcases perform_cases hp with ⟨-, -, rfl, rfl⟩ | ⟨-, h⟩
  · rw [next_error]
    exact moves_stay _ _ _
  · cases c with
    | uuid4 =>
      simp only [answer] at h
      split at h
      case isTrue => cases h
      case isFalse hn =>
        cases h
        exact .draw x.name hn ha
    | tokenUrlsafe =>
      simp only [answer] at h
      split at h <;> cases h
      exact .other _ _ _ (List.subset_cons_self _ _)
    | randbelow bound =>
      obtain rfl := ha
      simp only [answer] at h
      split at h <;> cases h
      exact .number x.number
    | code c =>
      cases h
      exact moves_code c w ha
    | database c =>
      obtain ⟨⟨r, db⟩, hr, he⟩ := Option.map_eq_some_iff.mp h
      cases he
      exact moves_database c w r db ha hr
    | idToken jwksUrl clientId idToken =>
      cases h
      cases lib.decodeIdToken jwksUrl clientId idToken with
      | none => exact moves_stay _ _ _
      | some claims => exact .check jwksUrl clientId idToken claims
    | _ =>
      cases h
      exact moves_stay _ _ _

/-- What passes by itself takes codes away at most. -/
theorem view_passed (d : Passing) (w : World) : view (passed d w) = view w ∨
    ∃ key, view (passed d w) = { view w with code := Function.update (view w).code key none } := by
  cases d with
  | evictCode key =>
    right
    refine ⟨key, ?_⟩
    simp only [view, passed]
    rw [digestAt_del]
  | _ => exact Or.inl rfl

end Gamely.AccountMoves
