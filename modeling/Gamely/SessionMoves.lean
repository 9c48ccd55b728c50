import Gamely.SessionContract

/-!
# What one call does to the sessions

Every answered call of a request that keeps the contract is one of the moves
below. An invariant over the refresh sessions is checked once for each move.
-/

set_option autoImplicit false

namespace Gamely.SessionMoves
open Gamely.Calls Gamely.Stores Gamely.EmailJobs Gamely.Services Gamely.TokenService
open Gamely.Requests Gamely.Footprints Gamely.Interleaving Gamely.ExpiringStore
open Gamely.SessionContract

/-! ## Events of interest -/

def exchangeOf : (c : Command) → Except Failure (Reply c) → Option (Digest × Session)
  | .session (.rotate digest _), .ok (RotateReply.rotated session) => some (digest, session)
  | _, _ => none

def issueOf : (c : Command) → Except Failure (Reply c) → Option (Digest × Session)
  | .session (.issue digest session _), .ok _ => some (digest, session)
  | _, _ => none

/-- The digests a completed revocation deleted and the session it ended. -/
def revocationOf : (c : Command) → Except Failure (Reply c) → Option (List Digest × Session)
  | .session (.revoke digests session), .ok _ => some (digests, session)
  | _, _ => none

/-- The user whose password hash a commit replaced. -/
def replacementOf : (c : Command) → Except Failure (Reply c) → Option UserId
  | .database (.commit _ changes), .ok _ => replacedUser changes
  | _, _ => none

/-- The session a call is to issue a token into. -/
def issuing : Command → Option Session
  | .session (.issue _ session _) => some session
  | _ => none

/-- The digests a call is to delete and the session it is to end. -/
def revoking : Command → Option (List Digest × Session)
  | .session (.revoke digests session) => some (digests, session)
  | _ => none

/-- The user whose list of families a call is to read. -/
def listing : Command → Option UserId
  | .session (.userFamilies user) => some user
  | _ => none

/-- The user whose list of families a call is to delete. -/
def dropping : Command → Option UserId
  | .session (.dropSessions user) => some user
  | _ => none

/-- The call was answered and reads, writes or deletes a list of a session. -/
def onLists : (c : Command) → Except Failure (Reply c) → Bool
  | .session (.issue ..), .ok _ | .session (.familyMembers _), .ok _
  | .session (.userFamilies _), .ok _ | .session (.revoke ..), .ok _
  | .session (.dropSessions _), .ok _ => true
  | _, _ => false

/-- The tokens issued so far, with their sessions. -/
def issues (h : Past) : List (Digest × Session) :=
  h.filterMap (fun e => issueOf e.command e.reply)

theorem issueOf_eq_some {c : Command} {reply : Except Failure (Reply c)} {digest : Digest}
    {session : Session} (h : issueOf c reply = some (digest, session)) :
    (∃ ttl, c = .session (.issue digest session ttl)) ∧ ∃ r, reply = .ok r := by
  unfold issueOf at h
  split at h
  · cases h
    exact ⟨⟨_, rfl⟩, _, rfl⟩
  · cases h

theorem revocationOf_eq_some {c : Command} {reply : Except Failure (Reply c)}
    {digests : List Digest} {session : Session}
    (h : revocationOf c reply = some (digests, session)) :
    c = .session (.revoke digests session) ∧ ∃ r, reply = .ok r := by
  unfold revocationOf at h
  split at h
  · cases h
    exact ⟨rfl, _, rfl⟩
  · cases h

theorem answered_of_ok {lib : Libraries} {c : Command} {x : Choice} {w w' : World}
    {reply : Except Failure (Reply c)} (hl : c.isLocal = false) (hr : ∃ r, reply = .ok r)
    (h : perform lib c x w = some (reply, w')) : x.fail = false := by
  obtain ⟨r, rfl⟩ := hr
  by_contra hx
  have hf : x.fail = true := by simpa using hx
  simp [perform, hf, hl] at h

variable (lib : Libraries) (settings : Settings)

inductive Moves (w : World) (g : Hand) :
    (c : Command) → Except Failure (Reply c) → World → Hand → Prop where
  | draw (name : String) (new : name ∉ w.drawn) :
      Moves w g .tokenUrlsafe (.ok name) { w with drawn := name :: w.drawn }
        { g with fresh := name :: g.fresh }
  | begin (session : Session) (value : Token) (held : g.held = none)
      (fresh : g.fresh = [session.family, value]) :
      Moves w g (.session (.issue (lib.digest value) session (refreshTtl settings))) (.ok ())
        { w with sessions :=
            issued w.now w.sessions (lib.digest value) session (refreshTtl settings) }
        { g with fresh := [], held := none }
  | renew (session : Session) (value : Token) (held : g.held = some session)
      (fresh : g.fresh = [value]) :
      Moves w g (.session (.issue (lib.digest value) session (refreshTtl settings))) (.ok ())
        { w with sessions :=
            issued w.now w.sessions (lib.digest value) session (refreshTtl settings) }
        { g with fresh := [], held := none }
  | rotate (digest : Digest) (session : Session) (held : g.held = none)
      (usable : get w.now w.sessions.refresh digest = some session) :
      Moves w g (.session (.rotate digest (refreshTtl settings)))
        (.ok (RotateReply.rotated session))
        { w with sessions := { w.sessions with
            refresh := del w.sessions.refresh digest
            reuse := set w.sessions.reuse digest session (ex w.now (refreshTtl settings)) } }
        { g with held := some session }
  | reuse (digest : Digest) (session : Session)
      (used : get w.now w.sessions.reuse digest = some session) :
      Moves w g (.session (.rotate digest (refreshTtl settings)))
        (.ok (RotateReply.reused session))
        { w with sessions := { w.sessions with reuse := del w.sessions.reuse digest } }
        { g with caught := some session }
  | read (session : Session)
      (next : ∀ s, g.sweep = some s → s.1 = session.user ∧ ∃ rest, s.2 = session.family :: rest) :
      Moves w g (.session (.familyMembers session)) (.ok (members w.now w.sessions.family session))
        w { g with read := some (session, members w.now w.sessions.family session) }
  | revoke (session : Session) (digests : List Digest) (seen : g.read = some (session, digests))
      (next : ∀ s, g.sweep = some s → s.1 = session.user ∧ ∃ rest, s.2 = session.family :: rest) :
      Moves w g (.session (.revoke digests session)) (.ok ())
        { w with sessions := revoked w.now w.sessions digests session }
        { g with
          read := none
          detected := if g.caught = some session then session :: g.detected else g.detected
          sweep := g.sweep.map (fun s => (s.1, s.2.tail)) }
  | list (user : UserId) (unread : g.read = none) (own : ∀ u, g.replaced = some u → u = user) :
      Moves w g (.session (.userFamilies user)) (.ok (members w.now w.sessions.sessions user))
        w { g with sweep := some (user, members w.now w.sessions.sessions user) }
  | order (user : UserId) (listed families : List FamilyId) (sweep : g.sweep = some (user, listed))
      (perm : families.Perm listed) :
      Moves w g (.iterate listed) (.ok families) w { g with sweep := some (user, families) }
  | drop (user : UserId) (swept : g.sweep = some (user, [])) :
      Moves w g (.session (.dropSessions user)) (.ok ())
        { w with sessions := { w.sessions with sessions := del w.sessions.sessions user } } g
  | replace (session : ℕ) (changes : List Change) (user : UserId) (database : Database)
      (new : replacedUser changes = some user) (first : g.replaced = none)
      (unswept : g.sweep = none) :
      Moves w g (.database (.commit session changes)) (.ok ()) { w with database := database }
        { g with replaced := some user }
  | other (c : Command) (reply : Except Failure (Reply c)) (w' : World)
      (sessions : w'.sessions = w.sessions) (now : w'.now = w.now) (drawn : w.drawn ⊆ w'.drawn)
      (exchange : exchangeOf c reply = none) (issue : issueOf c reply = none)
      (replacement : replacementOf c reply = none) (lists : onLists c reply = false) :
      Moves w g c reply w' g

theorem moves_error (w : World) (g : Hand) (c : Command) (e : Failure) (w' : World)
    (sessions : w'.sessions = w.sessions) (now : w'.now = w.now) (drawn : w.drawn ⊆ w'.drawn) :
    Moves lib settings w g c (.error e) w' (next g c (.error e)) := by
  have hn : next g c (.error e) = g := by
    unfold next
    split <;> first | rfl | contradiction
  rw [hn]
  refine .other c _ w' sessions now drawn ?_ ?_ ?_ ?_
  · unfold exchangeOf
    split <;> first | rfl | contradiction
  · unfold issueOf
    split <;> first | rfl | contradiction
  · unfold replacementOf
    split <;> first | rfl | contradiction
  · unfold onLists
    split <;> first | rfl | contradiction

theorem moves_session (w : World) (g : Hand) (c : SessionCall)
    (ha : allows lib settings g (.session c)) :
    Moves lib settings w g (.session c) (.ok (c.perform w.now w.sessions).1)
      { w with sessions := (c.perform w.now w.sessions).2 }
      (next g (.session c) (.ok (c.perform w.now w.sessions).1)) := by
  cases c with
  | issue digest session ttl =>
    obtain ⟨rfl, value, rfl, ⟨hh, hf⟩ | ⟨hh, hf⟩⟩ := ha
    · exact .renew session value hh hf
    · exact .begin session value hh hf
  | rotate digest ttl =>
    obtain ⟨rfl, hh⟩ := ha
    rcases hr : get w.now w.sessions.refresh digest with _ | session
    · rcases hu : get w.now w.sessions.reuse digest with _ | session
      · simp only [SessionCall.perform, rotated, hr, hu]
        exact .other _ _ _ rfl rfl (fun _ h => h) rfl rfl rfl rfl
      · simp only [SessionCall.perform, rotated, hr, hu]
        exact .reuse digest session hu
    · simp only [SessionCall.perform, rotated, hr]
      exact .rotate digest session hh hr
  | getRefresh digest => exact .other _ _ _ rfl rfl (fun _ h => h) rfl rfl rfl rfl
  | familyMembers session => exact .read session ha
  | userFamilies user => exact .list user ha.1 ha.2
  | revoke digests session => exact .revoke session digests ha.1 ha.2
  | dropSessions user => exact .drop user ha

theorem moves_database (w : World) (g : Hand) (c : DatabaseCall)
    (reply : Except Failure c.Reply) (db : Database) (ha : allows lib settings g (.database c))
    (hp : c.perform w.database = some (reply, db)) :
    Moves lib settings w g (.database c) reply { w with database := db }
      (next g (.database c) reply) := by
  cases reply with
  | error e => exact moves_error lib settings w g _ e _ rfl rfl (fun _ h => h)
  | ok a =>
    cases c with
    | byId user =>
      have hg : next g (.database (.byId user)) (.ok a) = g := by
        cases a with
        | none => rfl
        | some row =>
          simp only [DatabaseCall.perform, Option.some.injEq, Prod.mk.injEq, Except.ok.injEq] at hp
          have hrow : row.id = user := by simpa using List.find?_some hp.1
          have hheld : g.held.map (fun s => (⟨row.id, s.family⟩ : Session)) = g.held := by
            rcases hh : g.held with _ | s
            · rfl
            · simp [hrow, ha s hh]
          simp only [next, hheld]
      rw [hg]
      exact .other _ _ _ rfl rfl (fun _ h => h) rfl rfl rfl rfl
    | commit session changes =>
      rcases hr : replacedUser changes with _ | user
      · have hg : next g (.database (.commit session changes)) (.ok a) = g := by
          simp [next, hr]
        rw [hg]
        exact .other _ _ _ rfl rfl (fun _ h => h) rfl rfl hr rfl
      · have hg : next g (.database (.commit session changes)) (.ok a) =
            { g with replaced := some user } := by
          simp [next, hr]
        rw [hg]
        obtain ⟨hfirst, hswept⟩ := ha (by simp [hr])
        exact .replace session changes user db hr hfirst hswept
    | _ => exact .other _ _ _ rfl rfl (fun _ h => h) rfl rfl rfl rfl

/-- An answered call that the contract allows is one of the moves. -/
theorem moves_of_perform (w w' : World) (g : Hand) (c : Command) (x : Choice)
    (reply : Except Failure (Reply c)) (ha : allows lib settings g c)
    (hp : perform lib c x w = some (reply, w')) :
    Moves lib settings w g c reply w' (next g c reply) := by
  unfold perform at hp
  split at hp
  · simp only [Option.some.injEq, Prod.mk.injEq] at hp
    obtain ⟨rfl, rfl⟩ := hp
    exact moves_error lib settings w g c _ w rfl rfl (fun _ h => h)
  · cases c with
    | tokenUrlsafe =>
      simp only [answer] at hp
      split at hp
      · cases hp
      · rename_i hn
        cases hp
        exact .draw x.name (fun h => hn (Or.inl h))
    | uuid4 =>
      simp only [answer] at hp
      split at hp
      · cases hp
      · cases hp
        exact .other _ _ _ rfl rfl (List.subset_cons_self _ _) rfl rfl rfl rfl
    | randbelow bound =>
      simp only [answer] at hp
      split at hp
      · cases hp
        exact .other _ _ _ rfl rfl (fun _ h => h) rfl rfl rfl rfl
      · cases hp
    | iterate xs =>
      obtain ⟨user, hs⟩ := ha
      simp only [answer, Option.some.injEq, Prod.mk.injEq] at hp
      obtain ⟨rfl, rfl⟩ := hp
      have hg : ∀ ys, next g (.iterate xs) (.ok ys) = { g with sweep := some (user, ys) } := by
        simp [next, hs]
      rw [hg]
      refine .order user xs _ hs ?_
      split
      · rename_i hperm
        exact List.isPerm_iff.mp hperm
      · exact List.Perm.refl xs
    | session c =>
      simp only [answer, Option.some.injEq, Prod.mk.injEq] at hp
      obtain ⟨rfl, rfl⟩ := hp
      exact moves_session lib settings w g c ha
    | database c =>
      simp only [answer, Option.map_eq_some_iff, Prod.mk.injEq] at hp
      obtain ⟨⟨r, db⟩, hr, rfl, rfl⟩ := hp
      exact moves_database lib settings w g c r db ha hr
    | _ =>
      simp only [answer, Option.some.injEq, Prod.mk.injEq] at hp
      obtain ⟨rfl, rfl⟩ := hp
      exact .other _ _ _ rfl rfl (fun _ h => h) rfl rfl rfl rfl

/-! ## Issued tokens -/

variable {lib settings} {w w' : World}

/-- Every stored token is in the history with the session it is stored for. -/
def Logged (w : World) (h : Past) : Prop :=
  ∀ d e, w.sessions.refresh d = some e → (d, e.value) ∈ issues h

theorem issues_append (h : Past) (e : Occurrence) :
    issues (h ++ [e]) = issues h ++ (issueOf e.command e.reply).toList := by
  rw [issues, List.filterMap_append]
  cases hi : issueOf e.command e.reply <;> simp [issues, hi]

theorem logged_of_move {g g' : Hand} {c : Command} {reply : Except Failure (Reply c)}
    {h : Past} {i : ℕ} {q : Request} (hl : Logged w h)
    (hm : Moves lib settings w g c reply w' g') : Logged w' (h ++ [⟨i, q, c, reply⟩]) := by
  have old : ∀ d e, w.sessions.refresh d = some e →
      (d, e.value) ∈ issues (h ++ [⟨i, q, c, reply⟩]) := by
    intro d e he
    rw [issues_append]
    exact List.mem_append_left _ (hl d e he)
  have new : ∀ digest (session : Session) (deadline : Option ℕ) d e,
      issueOf c reply = some (digest, session) →
      set w.sessions.refresh digest session deadline d = some e →
      (d, e.value) ∈ issues (h ++ [⟨i, q, c, reply⟩]) := by
    intro digest session deadline d e hi he
    rcases (set_eq_some _ _ _ _ _ _).mp he with ⟨rfl, rfl⟩ | ⟨-, he⟩
    · simp [issues_append, hi]
    · exact old d e he
  intro d e he
  cases hm with
  | begin session value held fresh => exact new _ _ _ d e rfl he
  | renew session value held fresh => exact new _ _ _ d e rfl he
  | rotate digest session held usable => exact old d e ((del_eq_some _ _ _ _).mp he).2
  | revoke session digests seen next => exact old d e ((delAll_eq_some _ _ _ _).mp he).2
  | other c reply w' sessions => exact old d e (by rwa [sessions] at he)
  | _ => exact old d e he

end Gamely.SessionMoves
