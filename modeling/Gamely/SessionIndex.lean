import Gamely.ReuseDetection
import Gamely.Sequential

/-!
# The session index

Signing a user out everywhere goes through the user's list of families and each
family's list of digests. A live token stays reachable through both as long as
every pipeline that deletes a list deletes the live tokens behind it too.
-/

set_option autoImplicit false

namespace Gamely.SessionIndex
open Gamely.Calls Gamely.Stores Gamely.EmailJobs Gamely.Services Gamely.TokenService
open Gamely.Requests Gamely.Interleaving Gamely.ExpiringStore Gamely.Sequential
open Gamely.SessionContract Gamely.SessionMoves Gamely.TokenFamilies Gamely.SessionLists
open Gamely.ReuseDetection

/-- Every live token is listed at both levels, with lists that outlive it. -/
def Complete (settings : Settings) (w : World) : Prop :=
  Indexed settings (fun _ => False) (fun _ => False) w

variable {lib : Libraries} {settings : Settings} {w w' : World}

/-! ## Runs -/

/-- A pipeline that deletes a family's list deletes every live token of it, and a
user's list is deleted only when no token of the user is live. -/
def Covering (s : Service) (_ : ℕ) (x : Choice) (_ : Request) (c : Command) : Prop :=
  x.fail = false →
    (∀ r ∈ revoking c, ∀ t ∈ issues s.history,
      get s.world.now s.world.sessions.refresh t.1 = some r.2 → t.1 ∈ r.1) ∧
    ∀ user ∈ dropping c, ∀ t ∈ issues s.history,
      (get s.world.now s.world.sessions.refresh t.1).map Session.user ≠ some user

instance (s : Service) (i : ℕ) (x : Choice) (q : Request) (c : Command) :
    Decidable (Covering s i x q c) :=
  inferInstanceAs (Decidable (_ → _ ∧ _))

/-- The user whose list of families a completed command deleted. -/
def dropOf : (c : Command) → Except Failure (Reply c) → Option UserId
  | .session (.dropSessions user), .ok _ => some user
  | _, _ => none

theorem complete_of_move {g g' : Hand} {c : Command} {reply : Except Failure (Reply c)}
    (h : Complete settings w) (hm : Moves lib settings w g c reply w' g')
    (revocation : ∀ digests session, revocationOf c reply = some (digests, session) →
      ∀ d, get w.now w.sessions.refresh d = some session → d ∈ digests)
    (drop : ∀ user, dropOf c reply = some user →
      ∀ d, (get w.now w.sessions.refresh d).map Session.user ≠ some user) :
    Complete settings w' := by
  cases hm with
  | begin session value held fresh => exact indexed_issued h _ session
  | renew session value held fresh => exact indexed_issued h _ session
  | rotate digest session held usable =>
    exact indexed_shrink h (Nat.le_refl _) (fun d e he => ((del_eq_some _ _ _ _).mp he).2) rfl
      (fun d e he hl _ => rfl)
  | revoke session digests seen next =>
    exact indexed_revoked h digests session
      (fun d hd => Or.inl (revocation digests session rfl d hd))
  | drop user swept =>
    refine indexed_shrink h (Nat.le_refl _) (fun d e he => he) rfl (fun d e he hl _ => ?_)
    refine del_ne _ _ (fun hu => drop user rfl d ?_)
    rw [(get_eq_some _ _ _ _).mpr ⟨e, he, hl, rfl⟩, Option.map_some, hu]
  | other c reply w' sessions now =>
    refine indexed_shrink h (by rw [now]) (fun d e he => ?_) ?_ (fun d e he hl _ => ?_)
    · rwa [sessions] at he
    · rw [sessions]
    · rw [sessions]
  | _ => exact indexed_shrink h (Nat.le_refl _) (fun d e he => he) rfl (fun d e he hl _ => rfl)

theorem dropOf_eq_some {c : Command} {reply : Except Failure (Reply c)} {user : UserId}
    (h : dropOf c reply = some user) :
    c = .session (.dropSessions user) ∧ ∃ r, reply = .ok r := by
  unfold dropOf at h
  split at h
  · cases h
    exact ⟨rfl, _, rfl⟩
  · cases h

theorem covering_preserved (lib : Libraries) (settings : Settings) :
    Preserved (service lib settings) (contract lib settings)
      (fun s l => OnCall Covering s l ∧ listsExpire l = true)
      (fun w h => Logged w h ∧ Complete settings w) where
  call := by
    rintro s i x q c reply w ⟨hl, hx⟩ hu ha hp ⟨hcond, -⟩
    have hm := moves_of_perform lib settings _ _ _ c x reply ha hp
    have hcall := onCall_run hu hcond
    refine ⟨logged_of_move hl hm, complete_of_move hx hm ?_ ?_⟩
    · intro digests session hr d hd
      obtain ⟨rfl, hok⟩ := revocationOf_eq_some hr
      obtain ⟨e, he, rfl⟩ := raw_of_get _ _ _ _ hd
      exact (hcall (answered_of_ok rfl hok hp)).1 _ rfl (d, e.value) (hl d e he) hd
    · intro user hr d hd
      obtain ⟨rfl, hok⟩ := dropOf_eq_some hr
      obtain ⟨session, hget, -⟩ := Option.map_eq_some_iff.mp hd
      obtain ⟨e, he, rfl⟩ := raw_of_get _ _ _ _ hget
      exact (hcall (answered_of_ok rfl hok hp)).2 _ rfl (d, e.value) (hl d e he) hd
  pass := by
    rintro s d ⟨hl, hx⟩ ⟨-, hk⟩
    exact ⟨fun k e he => hl k e ((passed_sessions d s.world).2.1 k e he), indexed_passed hx d hk⟩

/-! ## Signing out everywhere -/

def noFault (x : Choice) : Prop := x.fail = false

theorem alone_answer {c : Command} {r : Except Failure (Reply c)} {w' : World}
    {post : Except Failure (Reply c) → World → Prop}
    (hc : ∀ x, answer lib x w c = some (r, w')) (h : post r w') :
    Alone (perform lib) noFault (invoke c) w post := by
  refine alone_answered {} rfl (fun x hx => ?_) h
  have hx' : x.fail = false := hx
  simp only [perform, hx', Bool.false_eq_true, false_and, if_false, hc]

theorem alone_redis {c : SessionCall} {post : Except Failure c.Reply → World → Prop}
    (h : post (.ok (c.perform w.now w.sessions).1)
      { w with sessions := (c.perform w.now w.sessions).2 }) :
    Alone (perform lib) noFault (redis c) w post :=
  alone_answer (fun _ => rfl) h

theorem alone_revokeFamily {session : Session} {post : Except Failure Unit → World → Prop}
    (h : post (.ok ())
      { w with sessions :=
          revoked w.now w.sessions (members w.now w.sessions.family session) session }) :
    Alone (perform lib) noFault (revokeFamily session) w post :=
  alone_bind (alone_redis (alone_redis h))

theorem alone_iterate {xs : List String} {post : Except Failure (List String) → World → Prop}
    (h : ∀ ys : List String, ys.Perm xs → post (.ok ys) w) :
    Alone (perform lib) noFault (iterate xs) w post := by
  refine alone_invoke ⟨{}, _, rfl, rfl⟩ (fun x reply w' hx hp => ?_)
  simp only [perform, Command.isLocal, Bool.true_eq_false, and_false, if_false, answer,
    Option.some.injEq, Prod.mk.injEq] at hp
  obtain ⟨rfl, rfl⟩ := hp
  refine h _ ?_
  split
  · rename_i hperm
    exact List.isPerm_iff.mp hperm
  · exact List.Perm.refl xs

theorem members_of_complete (h : Complete settings w) (d : Digest) (session : Session)
    (hd : get w.now w.sessions.refresh d = some session) :
    d ∈ members w.now w.sessions.family session ∧
      session.family ∈ members w.now w.sessions.sessions session.user :=
  ⟨filed_of_indexed h d session hd id, listed_of_indexed h d session hd id⟩

/-- No token of the user is usable. -/
def signedOut (user : UserId) (w : World) : Prop :=
  ∀ d session, get w.now w.sessions.refresh d = some session → session.user ≠ user

theorem alone_revokeAll (h : Complete settings w) (user : UserId) :
    Alone (perform lib) noFault (revokeAll user) w
      (fun r w' => r = .ok () ∧ signedOut user w') := by
  refine alone_bind (alone_redis (alone_bind (alone_iterate (fun families hperm => ?_))))
  refine alone_bind (alone_mono ?_ (alone_forM _ (fun families w' => Complete settings w' ∧
    ∀ d session, get w'.now w'.sessions.refresh d = some session → session.user = user →
      session.family ∈ families) families w ⟨h, ?_⟩ ?_))
  · rintro r w' ⟨rfl, -, hnone⟩
    refine alone_redis ⟨rfl, fun d session hd hu => ?_⟩
    exact absurd (hnone d session hd hu) List.not_mem_nil
  · rintro d session hd rfl
    exact hperm.mem_iff.mpr (members_of_complete h d session hd).2
  · rintro family rest w' ⟨hx, hleft⟩
    refine alone_revokeFamily ⟨rfl, ?_, ?_⟩
    · exact indexed_revoked hx _ _ (fun d hd => Or.inl (members_of_complete hx d _ hd).1)
    · intro d session hd hu
      obtain ⟨hold, hnot⟩ := get_revoked _ _ _ _ _ _ hd
      rcases List.mem_cons.mp (hleft d session hold hu) with hf | hf
      · have hs : session = ⟨user, family⟩ := by
          rw [← hu, ← hf]
        exact absurd (members_of_complete hx d session hold).1 (hs ▸ hnot)
      · exact hf

/-- In every state of a run whose deletions are covering, every live token is
listed, and signing its user out everywhere leaves none. -/
theorem session_index_complete (lib : Libraries) (settings : Settings) (now : ℕ)
    (database : Database) (ls : List (Label Request Choice Passing))
    (hm : Meets (service lib settings) (fun s l => OnCall Covering s l ∧ listsExpire l = true) ls
      (initial (World.fresh now database))) (user : UserId) :
    let w := (run (service lib settings) ls (initial (World.fresh now database))).world
    (∀ d session, get w.now w.sessions.refresh d = some session →
      d ∈ members w.now w.sessions.family session ∧
      session.family ∈ members w.now w.sessions.sessions session.user) ∧
    Alone (perform lib) noFault (revokeAll user) w
      (fun r w' => r = .ok () ∧ signedOut user w') := by
  have h := invariant_run (obeys lib settings) (covering_preserved lib settings) ls _
    (following_initial _) ?_ hm
  · exact ⟨members_of_complete h.2, alone_revokeAll h.2 user⟩
  · exact ⟨by rintro d e ⟨⟩, indexed_fresh now database⟩

/-- Threads 0 and 1 log in, thread 2 refreshes the first session and thread 3
signs the second one out. -/
def twoSessions : List (Label Request Choice Passing) :=
  .spawn (.login "a@b" "long password") :: steps 0 ["", "", "t", "f", "", ""] ++
  .spawn (.login "a@b" "long password") :: steps 1 ["", "", "u", "g", "", ""] ++
  .spawn (.refresh "t") :: steps 2 ["", "", "", "v", "", ""] ++
  .spawn (.logout "u") :: steps 3 ["", "", "", ""]

theorem session_index_complete_two :
    let w := (run (service plainLibraries plainSettings) twoSessions
      (initial (World.fresh 0 oneAccount))).world
    (∀ d session, get w.now w.sessions.refresh d = some session →
      d ∈ members w.now w.sessions.family session ∧
      session.family ∈ members w.now w.sessions.sessions session.user) ∧
    Alone (perform plainLibraries) noFault (revokeAll "user") w
      (fun r w' => r = .ok () ∧ signedOut "user" w') :=
  session_index_complete plainLibraries plainSettings 0 oneAccount twoSessions
    (by decide +kernel) "user"

/-- Thread 0 logs in. Thread 1 signs its token out and reads the family's list;
thread 2 refreshes the token; thread 1 deletes what it read. -/
def logoutAcrossRefresh : List (Label Request Choice Passing) :=
  .spawn (.login "a@b" "long password") :: steps 0 ["", "", "t", "f", "", ""] ++
  .spawn (.logout "t") :: steps 1 ["", ""] ++
  .spawn (.refresh "t") :: steps 2 ["", "", "", "u", "", ""] ++
  steps 1 ["", ""]

theorem session_index_incomplete :
    ¬ ∀ (lib : Libraries) (settings : Settings) (now : ℕ) (database : Database)
      (ls : List (Label Request Choice Passing)),
      (∀ l ∈ ls, faultless l ∧ spawns onSessions l) →
      let s := run (service lib settings) ls (initial (World.fresh now database))
      (∀ t ∈ s.threads, finished t.rest) →
      ∀ user, Alone (perform lib) noFault (revokeAll user) s.world
        (fun _ w => signedOut user w) := by
  intro h
  have hall := h plainLibraries plainSettings 0 oneAccount logoutAcrossRefresh
    (by decide +kernel) (by decide +kernel) "user"
  have hplay : ∃ w, play (perform plainLibraries) [{}, {}, {}] (revokeAll "user")
      (run (service plainLibraries plainSettings) logoutAcrossRefresh
        (initial (World.fresh 0 oneAccount))).world = some (.ok (), w) ∧
      get w.now w.sessions.refresh "u" = some ⟨"user", "f"⟩ := ⟨_, rfl, by decide +kernel⟩
  obtain ⟨w, hw, hget⟩ := hplay
  exact post_of_play hall (by simp [noFault]) hw "u" ⟨"user", "f"⟩ hget rfl

end Gamely.SessionIndex
