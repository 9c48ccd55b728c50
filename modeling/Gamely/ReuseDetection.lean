import Gamely.SessionLists

/-!
# Reuse detection

Ending a family is a read followed by a pipeline, and a refresh is a rotation
followed by an issue. A family ended on reuse stays ended when no token is issued
into it between the read and the pipeline or after them, and none was in it that
an earlier revocation had left out of its list.
-/

set_option autoImplicit false

namespace Gamely.ReuseDetection
open Gamely.Calls Gamely.Stores Gamely.EmailJobs Gamely.Services Gamely.TokenService
open Gamely.Requests Gamely.Interleaving Gamely.ExpiringStore
open Gamely.SessionContract Gamely.SessionMoves Gamely.TokenFamilies Gamely.SessionLists

/-- Some request found a token of the family reused and completed its revocation. -/
def Ended (lib : Libraries) (settings : Settings) (h : Past) (session : Session) : Prop :=
  ∃ e ∈ h, session ∈ (ghost (contract lib settings) h e.thread).detected

def exchangedAt (h : Past) (n : ℕ) : Option (Digest × Session) :=
  h[n]?.bind (fun e => exchangeOf e.command e.reply)

/-- No token is issued into the family between the read and the pipeline of a
revocation on reuse, no earlier pipeline that a token had overtaken has left that
token out of the list it reads, and none is issued into a family that was ended
on reuse. -/
def Conclusive (lib : Libraries) (settings : Settings) (s : Service) (i : ℕ) (x : Choice)
    (_ : Request) (c : Command) : Prop :=
  x.fail = false →
    (∀ r ∈ revoking c, (ghost (contract lib settings) s.history i).caught = some r.2 →
      (listingOf s.history r.2).late i = false ∧ (listingOf s.history r.2).unfiled = false) ∧
    ∀ session ∈ issuing c, ¬ Ended lib settings s.history session

instance (lib : Libraries) (settings : Settings) (h : Past) (session : Session) :
    Decidable (Ended lib settings h session) :=
  inferInstanceAs (Decidable (∃ e ∈ h, _))

instance (lib : Libraries) (settings : Settings) (s : Service) (i : ℕ) (x : Choice)
    (q : Request) (c : Command) : Decidable (Conclusive lib settings s i x q c) :=
  inferInstanceAs (Decidable (_ → _ ∧ _))

variable {lib : Libraries} {settings : Settings}

def Dead (hand : ℕ → Hand) (session : Session) : Prop := ∃ i, session ∈ (hand i).detected

/-- A dead family has no live token. -/
def Closed (w : World) (hand : ℕ → Hand) : Prop :=
  ∀ session, Dead hand session → ∀ d, get w.now w.sessions.refresh d ≠ some session

section Step

variable {w w' : World} {hand : ℕ → Hand} {i : ℕ}

theorem dead_of_update {g : Hand} {session : Session} (h : Dead (Function.update hand i g) session)
    (hg : g.detected = (hand i).detected) : Dead hand session := by
  obtain ⟨j, hj⟩ := h
  by_cases hji : j = i
  · subst hji
    rw [Function.update_self, hg] at hj
    exact ⟨j, hj⟩
  · rw [Function.update_of_ne hji] at hj
    exact ⟨j, hj⟩

theorem ended_of_dead {h : Past} {session : Session}
    (hd : Dead (ghost (contract lib settings) h) session) : Ended lib settings h session := by
  obtain ⟨j, hj⟩ := hd
  by_cases hspawned : ∃ e ∈ h, e.thread = j
  · obtain ⟨e, he, rfl⟩ := hspawned
    exact ⟨e, he, hj⟩
  · rw [ghost_unspawned h j (fun e he hej => hspawned ⟨e, he, hej⟩)] at hj
    cases hj

theorem dead_of_ended {h : Past} {session : Session} (he : Ended lib settings h session) :
    Dead (ghost (contract lib settings) h) session := by
  obtain ⟨e, -, hs⟩ := he
  exact ⟨e.thread, hs⟩

theorem closed_carry {g : Hand} (h : Closed w hand) (hg : g.detected = (hand i).detected)
    (ht : ∀ d s, get w'.now w'.sessions.refresh d = some s →
      get w.now w.sessions.refresh d = some s ∨ ¬ Dead hand s) :
    Closed w' (Function.update hand i g) := by
  intro session hd d hget
  have hd' := dead_of_update hd hg
  rcases ht d session hget with h' | h'
  · exact h session hd' d h'
  · exact h' hd'

theorem closed_of_move {c : Command} {reply : Except Failure (Reply c)} {g : Hand}
    (h : Closed w hand) (hm : Moves lib settings w (hand i) c reply w' g)
    (revocation : ∀ digests session, revocationOf c reply = some (digests, session) →
      (hand i).read = some (session, digests) → (hand i).caught = some session →
      ∀ d, get w.now w.sessions.refresh d = some session → d ∈ digests)
    (issue : ∀ t, issueOf c reply = some t → ¬ Dead hand t.2) :
    Closed w' (Function.update hand i g) := by
  cases hm with
  | begin session value held fresh =>
    refine closed_carry h rfl (fun d s hs => ?_)
    rcases get_issued _ _ _ _ _ _ _ hs with hs | rfl
    · exact Or.inl hs
    · exact Or.inr (issue _ rfl)
  | renew session value held fresh =>
    refine closed_carry h rfl (fun d s hs => ?_)
    rcases get_issued _ _ _ _ _ _ _ hs with hs | rfl
    · exact Or.inl hs
    · exact Or.inr (issue _ rfl)
  | rotate digest session held usable =>
    exact closed_carry h rfl (fun d s hs => Or.inl (get_rotated _ _ _ _ _ hs))
  | revoke session digests seen next =>
    rintro t ⟨j, hj⟩ d hget
    obtain ⟨hold, hd⟩ := get_revoked _ _ _ _ _ _ hget
    by_cases hji : j = i
    · subst hji
      rw [Function.update_self] at hj
      dsimp only at hj
      split at hj
      · rename_i hc
        rcases List.mem_cons.mp hj with rfl | hj
        · exact hd (revocation digests t rfl seen hc d hold)
        · exact h t ⟨j, hj⟩ d hold
      · exact h t ⟨j, hj⟩ d hold
    · rw [Function.update_of_ne hji] at hj
      exact h t ⟨j, hj⟩ d hold
  | other c reply w' sessions now =>
    exact closed_carry h rfl (fun d s hs => Or.inl (by rwa [sessions, now] at hs))
  | _ => exact closed_carry h (by rfl) (fun d s hs => Or.inl hs)

end Step

/-! ## Runs -/

def Final (lib : Libraries) (settings : Settings) (h : Past) : Prop :=
  ∀ n d session, exchangedAt h n = some (d, session) → ¬ Ended lib settings (h.take n) session

theorem final_append (h : Past) (e : Occurrence)
    (hf : Final lib settings h)
    (he : ∀ d session, exchangeOf e.command e.reply = some (d, session) →
      ¬ Ended lib settings h session) : Final lib settings (h ++ [e]) := by
  intro n d session hn
  rcases Nat.lt_trichotomy n h.length with hlt | heq | hgt
  · have hold : exchangedAt h n = some (d, session) := by
      simpa [exchangedAt, List.getElem?_append_left hlt] using hn
    rw [List.take_append_of_le_length hlt.le]
    exact hf n d session hold
  · subst heq
    have hnew : exchangeOf e.command e.reply = some (d, session) := by
      simpa [exchangedAt] using hn
    rw [List.take_left]
    exact he d session hnew
  · have hnone : (h ++ [e])[n]? = none := by
      rw [List.getElem?_eq_none_iff, List.length_append, List.length_singleton]
      omega
    rw [exchangedAt, hnone] at hn
    cases hn

theorem usable_of_exchange {w w' : World} {g g' : Hand} {c : Command}
    {reply : Except Failure (Reply c)} (hm : Moves lib settings w g c reply w' g')
    (d : Digest) (session : Session) (he : exchangeOf c reply = some (d, session)) :
    get w.now w.sessions.refresh d = some session := by
  cases hm with
  | rotate digest session held usable =>
    cases he
    exact usable
  | other c reply w' sessions now drawn exchange =>
    rw [exchange] at he
    cases he
  | _ => cases he

theorem conclusive_preserved (lib : Libraries) (settings : Settings) :
    Preserved (service lib settings) (contract lib settings)
      (fun s l => OnCall (Conclusive lib settings) s l ∧ listsExpire l = true)
      (fun w h => Reliable lib settings w h ∧ Closed w (ghost (contract lib settings) h) ∧
        Final lib settings h) where
  call := by
    rintro s i x q c reply w ⟨hr, hc, hf⟩ hu ha hp ⟨hcond, hlists⟩
    have hm := moves_of_perform lib settings _ _ _ c x reply ha hp
    have hcall := onCall_run hu hcond
    refine ⟨(reliable_preserved lib settings).call s i x q c reply w hr hu ha hp hlists, ?_,
      final_append _ _ hf (fun d session he hended => ?_)⟩
    · rw [ghost_append]
      refine closed_of_move hc hm ?_ ?_
      · intro digests session hrev hread hcaught d hd
        obtain ⟨rfl, hok⟩ := revocationOf_eq_some hrev
        obtain ⟨hlate, hfiled⟩ := (hcall (answered_of_ok rfl hok hp)).1 _ rfl hcaught
        rcases hr.listed.read i session digests hread d hd with hm | hl | hu
        · exact hm
        · exact absurd (hlate.symm.trans hl) Bool.false_ne_true
        · exact absurd (hfiled.symm.trans hu) Bool.false_ne_true
      · rintro ⟨digest, session⟩ hi hdead
        obtain ⟨⟨ttl, rfl⟩, hok⟩ := issueOf_eq_some hi
        exact (hcall (answered_of_ok rfl hok hp)).2 _ rfl (ended_of_dead hdead)
    · exact hc session (dead_of_ended hended) d (usable_of_exchange hm d session he)
  pass := by
    rintro s d ⟨hr, hc, hf⟩ ⟨-, hlists⟩
    exact ⟨(reliable_preserved lib settings).pass s d hr hlists,
      fun session hd k hk => hc session hd k (get_passed d _ k _ hk), hf⟩

/-- In a run whose revocations on reuse are not overtaken and leave nothing to
issue, no token of a family is exchanged once the family was ended on reuse. -/
theorem reuse_detection_final (lib : Libraries) (settings : Settings) (now : ℕ)
    (database : Database) (ls : List (Label Request Choice Passing))
    (hm : Meets (service lib settings)
      (fun s l => OnCall (Conclusive lib settings) s l ∧ listsExpire l = true) ls
      (initial (World.fresh now database))) :
    let h := (run (service lib settings) ls (initial (World.fresh now database))).history
    ∀ n d session, exchangedAt h n = some (d, session) →
      ¬ Ended lib settings (h.take n) session := by
  have h := invariant_run (obeys lib settings) (conclusive_preserved lib settings) ls _
    (following_initial _) ?_ hm
  · exact h.2.2
  · refine ⟨reliable_fresh lib settings now database, fun session hd => ?_,
      fun n d session hn => ?_⟩
    · obtain ⟨i, hi⟩ := hd
      cases hi
    · cases hn

/-- Thread 0 logs in. Thread 1 refreshes its first token. Thread 2 replays that
token, ends the family and returns; thread 3 refreshes the second token. -/
def replayAfterRefresh : List (Label Request Choice Passing) :=
  .spawn (.login "a@b" "long password") :: steps 0 ["", "", "t", "f", "", ""] ++
  .spawn (.refresh "t") :: steps 1 ["", "", "", "u", "", ""] ++
  .spawn (.refresh "t") :: steps 2 ["", "", "", ""] ++
  .spawn (.refresh "u") :: steps 3 ["", ""]

theorem reuse_detection_final_replay :
    Ended plainLibraries plainSettings
      (run (service plainLibraries plainSettings) replayAfterRefresh
        (initial (World.fresh 0 oneAccount))).history ⟨"user", "f"⟩ ∧
    let h := (run (service plainLibraries plainSettings) replayAfterRefresh
      (initial (World.fresh 0 oneAccount))).history
    ∀ n d session, exchangedAt h n = some (d, session) →
      ¬ Ended plainLibraries plainSettings (h.take n) session :=
  ⟨by decide +kernel,
    reuse_detection_final plainLibraries plainSettings 0 oneAccount replayAfterRefresh
      (by decide +kernel)⟩

def onSessions : Request → Bool
  | .login .. | .refresh _ | .logout _ | .logoutAll _ => true
  | _ => false

/-- Thread 0 logs in. Thread 1 rotates its token; thread 2 replays the token, ends
the family and returns; thread 1 issues; thread 3 exchanges what it issued. -/
def replayWithinRefresh : List (Label Request Choice Passing) :=
  .spawn (.login "a@b" "long password") :: steps 0 ["", "", "t", "f", "", ""] ++
  .spawn (.refresh "t") :: steps 1 ["", "", ""] ++
  .spawn (.refresh "t") :: steps 2 ["", "", "", ""] ++
  steps 1 ["u", "", ""] ++
  .spawn (.refresh "u") :: steps 3 [""]

theorem reuse_detection_not_final :
    ¬ ∀ (lib : Libraries) (settings : Settings) (now : ℕ) (database : Database)
      (ls : List (Label Request Choice Passing)),
      (∀ l ∈ ls, faultless l ∧ spawns onSessions l) →
      let h := (run (service lib settings) ls (initial (World.fresh now database))).history
      ∀ n d session, exchangedAt h n = some (d, session) →
        ¬ Ended lib settings (h.take n) session := by
  intro h
  refine h plainLibraries plainSettings 0 oneAccount replayWithinRefresh ?_ 16 "u"
    ⟨"user", "f"⟩ ?_ ?_
  · decide +kernel
  · decide +kernel
  · decide +kernel

end Gamely.ReuseDetection
