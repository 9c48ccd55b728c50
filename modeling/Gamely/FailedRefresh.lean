import Gamely.SessionRefinement

/-!
# Refreshes that fail half-way

A refresh is run alone with some call failing, and then again. Only a failure of
the rotation itself leaves the token as it was.
-/

set_option autoImplicit false

namespace Gamely.FailedRefresh
open Gamely.Calls Gamely.Sequential Gamely.ExpiringStore Gamely.Stores Gamely.EmailJobs
open Gamely.Services Gamely.TokenService Gamely.EmailFilter Gamely.AuthService Gamely.Footprints
open Gamely.SessionIndex Gamely.SessionRefinement

variable (lib : Libraries) (settings : Settings)

/-- A call made some time after the one before. -/
def timed (c : Command) (x : ℕ × Choice) (w : World) :
    Option (Except Failure (Reply c) × World) :=
  perform lib c x.2 (passed (.elapse x.1) w)

/-- Presenting the token yields a new one in its family, whatever is drawn. -/
def Exchanges (value : Token) (session : Session) (w : World) : Prop :=
  Alone (perform lib) noFault (refresh lib settings value) w (fun r w' => ∃ g, r = .ok g ∧
    g.user.id = session.user ∧ g.refresh ∉ w.drawn ∧
    get w'.now w'.sessions.refresh (lib.digest g.refresh) = some session)

variable {lib settings} {w w' : World} {value : Token} {session : Session}
  {schedule : ℕ → ℕ × Choice} {n m wait : ℕ}

/-! ## What calls leave alone -/

theorem now_le_of_timed {c : Command} {x : ℕ × Choice} {r : Except Failure (Reply c)}
    (h : timed lib c x w = some (r, w')) : w.now ≤ w'.now := by
  have hle : w.now ≤ (passed (.elapse x.1) w).now := Nat.le_add_right _ _
  rcases perform_cases h with ⟨-, -, -, rfl⟩ | h
  · exact hle
  · rw [answer_now h.2]
    exact hle

theorem now_le_of_run {A : Type} {p : Act A} {r : Except Failure A}
    (h : runOn (timed lib) schedule n p w = some (r, w', m)) : w.now ≤ w'.now := by
  refine runOn_preserves (I := fun w₁ => w.now ≤ w₁.now) ?_ (only_any p) le_rfl h
  exact fun c x w₁ r w₂ _ hle hp => le_trans hle (now_le_of_timed hp)

theorem sessions_of_run {A : Type} {p : Act A} {parts : List Part} (hp : Within parts p)
    (hparts : .session ∉ parts) {r : Except Failure A}
    (h : runOn (timed lib) schedule n p w = some (r, w', m)) : w'.sessions = w.sessions := by
  refine runOn_preserves (I := fun w₁ => w₁.sessions = w.sessions) ?_ hp rfl h
  intro c x w₁ r w₂ hc hs hp
  rcases perform_cases hp with ⟨-, -, -, rfl⟩ | ⟨-, ha⟩
  · exact hs
  · rcases answer_sessions ha with ⟨c, rfl⟩ | hsame
    · exact absurd hc hparts
    · rw [hsame]
      exact hs

theorem session_of_run {c : SessionCall} {r : Except Failure c.Reply}
    (h : runOn (timed lib) schedule n (redis c) w = some (r, w', m)) :
    ((schedule n).2.fail = true ∧ r = .error .external ∧
      w' = passed (.elapse (schedule n).1) w) ∨
    ((schedule n).2.fail = false ∧
      r = .ok (c.perform (w.now+(schedule n).1) w.sessions).1 ∧
      w' = { passed (.elapse (schedule n).1) w with
        sessions := (c.perform (w.now+(schedule n).1) w.sessions).2 }) := by
  obtain ⟨hp, -⟩ := runOn_invoke_some h
  rcases perform_cases hp with ⟨-, hf, hr, hw⟩ | ⟨hn, ha⟩
  · exact Or.inl ⟨hf, hr, hw⟩
  · right
    have hf : (schedule n).2.fail = false := by
      cases hf : (schedule n).2.fail with
      | false => rfl
      | true => exact absurd ⟨hf, rfl⟩ hn
    cases ha
    exact ⟨hf, rfl, rfl⟩

/-! ## The failed refresh -/

theorem rotated_of_live (now : ℕ) (s : SessionStore) (digest : Digest) (ttl : ℕ)
    (h : get now s.refresh digest = some session) :
    rotated now s digest ttl = (.rotated session,
      { s with
        refresh := del s.refresh digest
        reuse := set s.reuse digest session (ex now ttl) }) := by
  simp only [rotated, h]

theorem get_antitone {K V : Type} {s : Store K V} {k : K} {v : V} {now later : ℕ}
    (hle : now ≤ later) (h : get later s k = some v) : get now s k = some v := by
  obtain ⟨e, he, hl, hv⟩ := (get_eq_some later s k v).mp h
  exact (get_eq_some now s k v).mpr ⟨e, he, live_antitone e hle hl, hv⟩

/-- The rest of a refresh that ends in an error has issued nothing. -/
theorem sessions_of_rest
    (h : runOn (timed lib) schedule n (do
      let user ← requireUser session.user
      grant lib settings user (some session.family)) w = some (.error .external, w', m)) :
    w'.sessions = w.sessions := by
  have hdraw : Within [.name] tokenUrlsafe := only_invoke _ (by decide)
  rcases runOn_bind_some h with ⟨e, -, h⟩ | ⟨user, w₁, k, hu, h⟩
  · exact sessions_of_run (requireUser_within _) (by decide) h
  · have hs := sessions_of_run (requireUser_within _) (by decide) hu
    rcases runOn_bind_some h with ⟨e, -, h⟩ | ⟨access, w₂, k, ha, h⟩
    · rw [sessions_of_run (issueAccess_within ..) (by decide) h, hs]
    · rw [← hs, ← sessions_of_run (issueAccess_within ..) (by decide) ha]
      rcases runOn_bind_some h with ⟨e, -, h⟩ | ⟨value, w₃, k, -, h⟩
      · rcases runOn_bind_some h with ⟨e, -, h⟩ | ⟨name, w₃, k, hn, h⟩
        · exact sessions_of_run hdraw (by decide) h
        · rw [← sessions_of_run hdraw (by decide) hn]
          rcases runOn_bind_some h with ⟨e, -, h⟩ | ⟨family, w₄, k, hfam, h⟩
          · cases h
          · cases hfam
            rcases runOn_bind_some h with ⟨e, -, h⟩ | ⟨u, w₅, k, -, h⟩
            · rcases session_of_run h with ⟨-, -, rfl⟩ | ⟨-, hr, -⟩
              · rfl
              · cases hr
            · cases h
      · cases h

theorem rotateRefresh_run {later : ℕ} {r : Except Failure Session}
    (h : runOn (timed lib) schedule n (rotateRefresh lib settings value) w = some (r, w', m))
    (hle : w'.now ≤ later)
    (hl : get later w.sessions.refresh (lib.digest value) = some session) :
    ((schedule n).2.fail = true ∧ r = .error .external ∧
      w' = passed (.elapse (schedule n).1) w) ∨
    ((schedule n).2.fail = false ∧ r = .ok session ∧
      w'.sessions.refresh (lib.digest value) = none) := by
  rcases runOn_bind_some h with ⟨e, rfl, hr⟩ | ⟨reply, w₁, k, hr, hrest⟩
  · rcases session_of_run hr with ⟨hf, he, hw⟩ | ⟨-, he, -⟩
    · cases he
      exact Or.inl ⟨hf, rfl, hw⟩
    · cases he
  · rcases session_of_run hr with ⟨-, he, -⟩ | ⟨hf, he, rfl⟩
    · cases he
    · have hnow : w.now+(schedule n).1 ≤ later := le_trans (now_le_of_run hrest) hle
      have hrot := rotated_of_live (w.now+(schedule n).1) w.sessions (lib.digest value)
        (refreshTtl settings) (get_antitone hnow hl)
      simp only [SessionCall.perform, hrot, Except.ok.injEq] at he hrest
      subst he
      cases hrest
      exact Or.inr ⟨hf, rfl, del_self _ _⟩

theorem refresh_run
    (h : runOn (timed lib) schedule 0 (refresh lib settings value) w =
      some (.error .external, w', n))
    (hl : get (w'.now+wait) w.sessions.refresh (lib.digest value) = some session) :
    ((schedule 0).2.fail = true ∧ w' = passed (.elapse (schedule 0).1) w) ∨
      ((schedule 0).2.fail = false ∧ w'.sessions.refresh (lib.digest value) = none) := by
  rcases runOn_bind_some h with ⟨e, he, hr⟩ | ⟨rotated', w₁, k, hr, hrest⟩
  · rcases rotateRefresh_run hr (Nat.le_add_right _ wait) hl with ⟨hf, -, hw⟩ | ⟨-, hr, -⟩
    · exact Or.inl ⟨hf, hw⟩
    · cases hr
  · have hnow : w₁.now ≤ w'.now+wait := le_trans (now_le_of_run hrest) (Nat.le_add_right _ _)
    rcases rotateRefresh_run hr hnow hl with ⟨-, hr, -⟩ | ⟨hf, hr, hnone⟩
    · cases hr
    · cases hr
      rw [sessions_of_rest hrest]
      exact Or.inr ⟨hf, hnone⟩

/-! ## Presenting the token again -/

/-- A run in which no call fails. -/
def smooth : ℕ → Choice := fun _ => {}

theorem runOn_redis (c : SessionCall) :
    runOn (perform lib) smooth n (redis c) w = some (.ok (c.perform w.now w.sessions).1,
      { w with sessions := (c.perform w.now w.sessions).2 }, n+1) := by
  rw [redis, runOn_invoke]
  rfl

theorem noFault_smooth (k : ℕ) : noFault (smooth k) := rfl

/-- A spent token is answered as reuse, or as invalid once that is forgotten. -/
theorem spent_fails (h : w.sessions.refresh (lib.digest value) = none) :
    ¬Exchanges lib settings value session w := by
  intro hx
  have hnone : ExpiringStore.get w.now w.sessions.refresh (lib.digest value) = none := by
    simp only [ExpiringStore.get, peek, h, Option.filter_none, Option.map_none]
  have fails : ∃ message w' m, runOn (perform lib) smooth 0 (refresh lib settings value) w =
      some (.error (.unauthorized message), w', m) := by
    unfold refresh rotateRefresh
    rw [runOn_bind, runOn_bind, runOn_redis]
    cases hr : ExpiringStore.get w.now w.sessions.reuse (lib.digest value) with
    | none =>
      simp only [SessionCall.perform, rotated, hnone, hr]
      exact ⟨_, _, _, rfl⟩
    | some s =>
      simp only [SessionCall.perform, rotated, hnone, hr]
      exact ⟨_, _, _, rfl⟩
  obtain ⟨message, w', m, hr⟩ := fails
  obtain ⟨g, he, -⟩ := post_of_runOn hx noFault_smooth hr
  cases he

theorem runOn_stranger (n : ℕ)
    (hfind : w.database.users.find? (fun u => u.id = session.user) = none) :
    runOn (perform lib) smooth n (do
      let user ← requireUser session.user
      grant lib settings user (some session.family)) w =
      some (.error (.unauthorized "Authentication is required to access this resource."), w,
        n+1) := by
  have hread : runOn (perform lib) smooth n (database (.byId session.user)) w =
      some (.ok (w.database.users.find? (fun u => u.id = session.user)), w, n+1) := rfl
  rw [runOn_bind, requireUser, runOn_bind, hread, hfind]
  rfl

theorem stranger_fails
    (hl : ExpiringStore.get w.now w.sessions.refresh (lib.digest value) = some session)
    (hu : ∀ u ∈ w.database.users, u.id ≠ session.user) :
    ¬Exchanges lib settings value session w := by
  intro hx
  have hfind : w.database.users.find? (fun u => u.id = session.user) = none := by
    simpa [List.find?_eq_none] using hu
  have fails : ∃ message w' m, runOn (perform lib) smooth 0 (refresh lib settings value) w =
      some (.error (.unauthorized message), w', m) := by
    unfold refresh rotateRefresh
    rw [runOn_bind, runOn_bind, runOn_redis]
    simp only [SessionCall.perform, rotated, hl]
    refine ⟨_, _, _, runOn_stranger 1 ?_⟩
    exact hfind
  obtain ⟨message, w', m, hr⟩ := fails
  obtain ⟨g, he, -⟩ := post_of_runOn hx noFault_smooth hr
  cases he

theorem live_exchanges
    (hl : ExpiringStore.get w.now w.sessions.refresh (lib.digest value) = some session)
    (hu : ∃ u ∈ w.database.users, u.id = session.user) :
    Exchanges lib settings value session w := by
  obtain ⟨u, hu, hid⟩ := hu
  have hfind : (w.database.users.find? (fun u => u.id = session.user)).isSome = true := by
    rw [List.find?_isSome]
    exact ⟨u, hu, by simp [hid]⟩
  have hrot := rotated_of_live w.now w.sessions (lib.digest value) (refreshTtl settings) hl
  unfold Exchanges refresh rotateRefresh
  apply alone_bind
  apply alone_bind
  apply alone_redis
  simp only [SessionCall.perform, hrot]
  apply alone_pure
  apply alone_bind
  refine alone_requireUser ?_ (fun row hrow => ?_)
  · exact hfind
  apply alone_bind
  apply alone_bind
  apply alone_utcnow
  apply alone_pure
  apply alone_bind
  apply alone_bind
  apply alone_tokenUrlsafe
  intro name hname
  apply alone_bind
  apply alone_pure
  apply alone_bind
  apply alone_redis
  apply alone_pure
  apply alone_pure
  refine ⟨_, rfl, hrow, hname, ?_⟩
  have hs : session = ⟨row.id, session.family⟩ := by rw [hrow]
  have hpos : w.now < w.now+1000*refreshTtl settings := by
    have := settings.authRefreshTokenDays_pos
    simp only [refreshTtl]
    omega
  rw [get_eq_some]
  refine ⟨⟨⟨row.id, session.family⟩, ex w.now (refreshTtl settings)⟩, set_self _ _ _ _, ?_, hs.symm⟩
  exact decide_eq_true hpos

/-- A refresh that raises because a call failed costs the session unless the call was
the rotation itself. -/
theorem failed_refresh_keeps_session_iff
    (h : runOn (timed lib) schedule 0 (refresh lib settings value) w =
      some (.error .external, w', n))
    (hl : ExpiringStore.get (w'.now+wait) w.sessions.refresh (lib.digest value) = some session) :
    Exchanges lib settings value session (passed (.elapse wait) w') ↔
      (schedule 0).2.fail = true ∧ ∃ u ∈ w.database.users, u.id = session.user := by
  rcases refresh_run h hl with ⟨hf, rfl⟩ | ⟨hf, hspent⟩
  · have hlive : ExpiringStore.get (passed (.elapse wait) (passed (.elapse (schedule 0).1) w)).now
        (passed (.elapse wait) (passed (.elapse (schedule 0).1) w)).sessions.refresh
        (lib.digest value) = some session := hl
    constructor
    · intro hx
      refine ⟨hf, ?_⟩
      by_contra hu
      exact stranger_fails hlive (fun u hm hid => hu ⟨u, hm, hid⟩) hx
    · exact fun hu => live_exchanges hlive hu.2
  · constructor
    · exact fun hx => absurd hx (spent_fails hspent)
    · intro hu
      rw [hf] at hu
      cases hu.1

/-! ## A refresh that fails at its last call -/

/-- The account of `oneAccount` with a live token. -/
def signedIn : World :=
  { World.fresh 0 Requests.oneAccount with
    sessions := issued 0 (World.fresh 0 Requests.oneAccount).sessions "t" ⟨"user", "f"⟩ 2592000 }

def failsAt (k n : ℕ) : ℕ × Choice := (0, { name := toString n, fail := n = k })

def refreshFailing (k : ℕ) : Option (Except Failure Grant × World × ℕ) :=
  runOn (timed Requests.plainLibraries) (failsAt k) 0
    (refresh Requests.plainLibraries Requests.plainSettings "t") signedIn

theorem rotation_failure_is_free : ∃ w' n, refreshFailing 0 = some (.error .external, w', n) ∧
    Exchanges Requests.plainLibraries Requests.plainSettings "t" ⟨"user", "f"⟩
      (passed (.elapse 1000) w') := by
  have h : refreshFailing 0 = some (.error .external, signedIn, 1) := rfl
  have hl : ExpiringStore.get (signedIn.now+1000) signedIn.sessions.refresh
      (Requests.plainLibraries.digest "t") = some ⟨"user", "f"⟩ := by
    decide +kernel
  have hu : ∃ u ∈ signedIn.database.users, u.id = "user" := by decide +kernel
  exact ⟨signedIn, 1, h, (failed_refresh_keeps_session_iff h hl).mpr ⟨rfl, hu⟩⟩

/-- A failed issue leaves the token spent. -/
theorem issue_failure_costs_session : ∃ w' n, refreshFailing 4 = some (.error .external, w', n) ∧
    ¬Exchanges Requests.plainLibraries Requests.plainSettings "t" ⟨"user", "f"⟩ w' := by
  refine ⟨_, _, rfl, ?_⟩
  exact spent_fails rfl

end Gamely.FailedRefresh
