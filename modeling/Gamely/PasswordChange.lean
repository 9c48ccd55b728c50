import Gamely.ReuseDetection

/-!
# Password changes

A change commits the new hash, reads the user's list of families and ends them
one by one. An old session is one begun before the commit, or by a login that
read the account before it. The change is complete when no token is issued into
an old session between a read and the step that relies on it, or behind the sweep.
-/

set_option autoImplicit false

namespace Gamely.PasswordChange
open Gamely.Calls Gamely.Stores Gamely.EmailJobs Gamely.Services Gamely.TokenService
open Gamely.Requests Gamely.Interleaving Gamely.ExpiringStore
open Gamely.SessionContract Gamely.SessionMoves Gamely.TokenFamilies Gamely.SessionLists
open Gamely.ReuseDetection

def replaces (k : ℕ) (user : UserId) (e : Occurrence) : Bool :=
  e.thread = k && replacementOf e.command e.reply = some user

def issuesIn (session : Session) (e : Occurrence) : Bool :=
  (issueOf e.command e.reply).map Prod.snd = some session

def isLogin : Request → Bool
  | .login .. => true
  | _ => false

/-- The read of the account a login checks its password against. -/
def readsAccount (i : ℕ) (e : Occurrence) : Bool :=
  e.thread = i && match e.command with
    | .database (.byEmail _) => true
    | _ => false

/-- The session existed before thread `k` committed its new hash, or descends from
a login that read the account before that. -/
def Old (h : Past) (k : ℕ) (session : Session) : Prop :=
  precedes (issuesIn session) (replaces k session.user) h = true ∨
  ∃ e ∈ h, isLogin e.request = true ∧ issuesIn session e = true ∧
    precedes (readsAccount e.thread) (replaces k session.user) h = true

instance (h : Past) (k : ℕ) (session : Session) : Decidable (Old h k session) :=
  inferInstanceAs (Decidable (_ ∨ ∃ e ∈ h, _))

/-- Thread `k` has replaced the hash of the user and read the list of families;
these it has still to end. -/
def sweeping (lib : Libraries) (settings : Settings) (h : Past) (k : ℕ) (user : UserId) :
    Option (List FamilyId) :=
  if (ghost (contract lib settings) h k).replaced = some user then
    (ghost (contract lib settings) h k).sweep.map Prod.snd
  else none

/-- The list of families a change reads and the lists of digests its sweep reads
have lost no old session to an earlier pipeline that a token had overtaken, no
token is issued into an old session between the read and the pipeline that ends
it, and no token of an old session is issued behind the sweep. -/
def Sweeping (lib : Libraries) (settings : Settings) (s : Service) (i : ℕ) (x : Choice)
    (q : Request) (c : Command) : Prop :=
  x.fail = false →
    (∀ user ∈ listing c, (ghost (contract lib settings) s.history i).replaced = some user →
      ∀ t ∈ issues s.history, Old s.history i t.2 → t.2.user = user →
        (listingOf s.history t.2).unlisted = false) ∧
    (∀ r ∈ revoking c, (ghost (contract lib settings) s.history i).replaced = some r.2.user →
      Old s.history i r.2 →
      (listingOf s.history r.2).late i = false ∧ (listingOf s.history r.2).unfiled = false) ∧
    ∀ session ∈ issuing c, ∀ e ∈ s.history,
      ∀ left ∈ sweeping lib settings s.history e.thread session.user, session.family ∉ left →
        ¬ Old s.history e.thread session ∧
        (isLogin q = true →
          precedes (readsAccount i) (replaces e.thread session.user) s.history = false)

instance (lib : Libraries) (settings : Settings) (s : Service) (i : ℕ) (x : Choice)
    (q : Request) (c : Command) : Decidable (Sweeping lib settings s i x q c) :=
  inferInstanceAs (Decidable (_ → _ ∧ _ ∧ _))

/-! ## Old sessions along a run -/

theorem old_append {h : Past} {e : Occurrence} {k : ℕ} {session : Session}
    (ho : Old (h ++ [e]) k session) :
    Old h k session ∨ replaces k session.user e = true ∨
      (isLogin e.request = true ∧ issuesIn session e = true ∧
        precedes (readsAccount e.thread) (replaces k session.user) h = true) := by
  by_cases hr : replaces k session.user e = true
  · exact Or.inr (Or.inl hr)
  · have hlast : ∀ p, precedes p (replaces k session.user) (h ++ [e]) =
        precedes p (replaces k session.user) h := by
      intro p
      rw [precedes_append, Bool.eq_false_iff.mpr hr, Bool.and_false, Bool.or_false]
    rcases ho with ho | ⟨e', he', hlogin, hi, ho⟩
    · exact Or.inl (Or.inl (by rwa [hlast] at ho))
    · rw [hlast] at ho
      rcases List.mem_append.mp he' with he' | he'
      · exact Or.inl (Or.inr ⟨e', he', hlogin, hi, ho⟩)
      · rw [List.mem_singleton.mp he'] at hlogin hi ho
        exact Or.inr (Or.inr ⟨hlogin, hi, ho⟩)

theorem old_of_quiet {h : Past} {i k : ℕ} {q : Request} {c : Command}
    {reply : Except Failure (Reply c)} {session : Session}
    (hr : replacementOf c reply = none) (hi : ∀ t, issueOf c reply = some t → t.2 ≠ session)
    (ho : Old (h ++ [⟨i, q, c, reply⟩]) k session) : Old h k session := by
  rcases old_append ho with ho | ho | ⟨-, ho, -⟩
  · exact ho
  · simp [replaces, hr] at ho
  · obtain ⟨t, ht, hs⟩ := Option.map_eq_some_iff.mp (of_decide_eq_true ho)
    exact absurd hs (hi t ht)

theorem old_of_silent {h : Past} {i k : ℕ} {q : Request} {c : Command}
    {reply : Except Failure (Reply c)} {session : Session}
    (hr : replacementOf c reply = none) (hi : issueOf c reply = none)
    (ho : Old (h ++ [⟨i, q, c, reply⟩]) k session) : Old h k session := by
  refine old_of_quiet hr ?_ ho
  intro t ht
  rw [hi] at ht
  cases ht

/-- The user whose list of families was read. -/
def listOf : (c : Command) → Except Failure (Reply c) → Option UserId
  | .session (.userFamilies user), .ok _ => some user
  | _, _ => none

theorem listOf_eq_some {c : Command} {reply : Except Failure (Reply c)} {user : UserId}
    (h : listOf c reply = some user) :
    c = .session (.userFamilies user) ∧ ∃ r, reply = .ok r := by
  unfold listOf at h
  split at h
  · cases h
    exact ⟨rfl, _, rfl⟩
  · cases h

/-- What a sweep in progress still has to end covers every live old token. -/
structure Swept (w : World) (hand : ℕ → Hand) (h : Past) : Prop where
  replaced : ∀ k u, h.any (replaces k u) = true → (hand k).replaced = some u
  own : ∀ k u s, (hand k).replaced = some u → (hand k).sweep = some s → s.1 = u
  left : ∀ k u fs, (hand k).replaced = some u → (hand k).sweep = some (u, fs) →
    ∀ session : Session, session.user = u → Old h k session →
    ∀ d, get w.now w.sessions.refresh d = some session → session.family ∈ fs

variable {lib : Libraries} {settings : Settings} {w w' : World} {hand : ℕ → Hand} {i : ℕ}
variable {h : Past}

theorem any_replaces {k : ℕ} {u : UserId} {q : Request} {c : Command}
    {reply : Except Failure (Reply c)} (hr : replacementOf c reply = none)
    (ha : (h ++ [(⟨i, q, c, reply⟩ : Occurrence)]).any (replaces k u) = true) :
    h.any (replaces k u) = true := by
  rw [List.any_append, Bool.or_eq_true_iff] at ha
  rcases ha with ha | ha
  · exact ha
  · simp [replaces, hr] at ha

theorem swept_carry {g : Hand} {q : Request} {c : Command} {reply : Except Failure (Reply c)}
    (hs : Swept w hand h) (replacement : replacementOf c reply = none)
    (hr : g.replaced = (hand i).replaced) (hg : g.sweep = (hand i).sweep)
    (ht : ∀ k fs session d, (hand k).replaced = some session.user →
      (hand k).sweep = some (session.user, fs) → Old (h ++ [⟨i, q, c, reply⟩]) k session →
      get w'.now w'.sessions.refresh d = some session →
      session.family ∈ fs ∨ (Old h k session ∧ get w.now w.sessions.refresh d = some session)) :
    Swept w' (Function.update hand i g) (h ++ [⟨i, q, c, reply⟩]) := by
  have replaced : ∀ k, (Function.update hand i g k).replaced = (hand k).replaced := by
    intro k
    by_cases hk : k = i
    · subst hk
      simpa using hr
    · rw [Function.update_of_ne hk]
  have sweep : ∀ k, (Function.update hand i g k).sweep = (hand k).sweep := by
    intro k
    by_cases hk : k = i
    · subst hk
      simpa using hg
    · rw [Function.update_of_ne hk]
  constructor
  · intro k u ha
    rw [replaced]
    exact hs.replaced k u (any_replaces replacement ha)
  · intro k u s hu hs'
    rw [replaced] at hu
    rw [sweep] at hs'
    exact hs.own k u s hu hs'
  · rintro k u fs hu hfs session rfl ho d hd
    rw [replaced] at hu
    rw [sweep] at hfs
    rcases ht k fs session d hu hfs ho hd with hm | ⟨ho, hd⟩
    · exact hm
    · exact hs.left k _ fs hu hfs session rfl ho d hd

/-- The command starts no session and moves no sweep. -/
theorem swept_keep {g : Hand} {q : Request} {c : Command} {reply : Except Failure (Reply c)}
    (hs : Swept w hand h) (replacement : replacementOf c reply = none)
    (issue : issueOf c reply = none)
    (hr : g.replaced = (hand i).replaced) (hg : g.sweep = (hand i).sweep)
    (ht : ∀ d t, get w'.now w'.sessions.refresh d = some t →
      get w.now w.sessions.refresh d = some t) :
    Swept w' (Function.update hand i g) (h ++ [⟨i, q, c, reply⟩]) := by
  refine swept_carry hs replacement hr hg ?_
  intro k fs session d _ _ ho hd
  exact Or.inr ⟨old_of_silent replacement issue ho, ht d session hd⟩

theorem swept_advance {g : Hand} {q : Request} {c : Command} {reply : Except Failure (Reply c)}
    (hs : Swept w hand h) (replacement : replacementOf c reply = none)
    (issue : issueOf c reply = none) (hr : g.replaced = (hand i).replaced)
    (ht : ∀ d t, get w'.now w'.sessions.refresh d = some t →
      get w.now w.sessions.refresh d = some t)
    (own : ∀ u s, g.replaced = some u → g.sweep = some s → s.1 = u)
    (left : ∀ fs session d, g.replaced = some session.user →
      g.sweep = some (session.user, fs) → Old h i session →
      get w'.now w'.sessions.refresh d = some session → session.family ∈ fs) :
    Swept w' (Function.update hand i g) (h ++ [⟨i, q, c, reply⟩]) := by
  have quiet : ∀ k session, Old (h ++ [⟨i, q, c, reply⟩]) k session → Old h k session :=
    fun k session => old_of_silent replacement issue
  constructor
  · intro k u ha
    have hold := hs.replaced k u (any_replaces replacement ha)
    by_cases hk : k = i
    · subst hk
      rw [Function.update_self]
      exact hr.trans hold
    · rwa [Function.update_of_ne hk]
  · intro k u s hu hs'
    by_cases hk : k = i
    · subst hk
      rw [Function.update_self] at hu hs'
      exact own u s hu hs'
    · rw [Function.update_of_ne hk] at hu hs'
      exact hs.own k u s hu hs'
  · rintro k u fs hu hfs session rfl ho d hd
    by_cases hk : k = i
    · subst hk
      rw [Function.update_self] at hu hfs
      exact left fs session d hu hfs (quiet k session ho) hd
    · rw [Function.update_of_ne hk] at hu hfs
      exact hs.left k _ fs hu hfs session rfl (quiet k session ho) d (ht d session hd)

theorem swept_issue {g : Hand} {q : Request} {c : Command} {reply : Except Failure (Reply c)}
    {digest : Digest} {session : Session} {ttl : ℕ} (hs : Swept w hand h)
    (hr : g.replaced = (hand i).replaced) (hg : g.sweep = (hand i).sweep)
    (issue : issueOf c reply = some (digest, session)) (replacement : replacementOf c reply = none)
    (behind : ∀ k fs, (hand k).replaced = some session.user →
      (hand k).sweep = some (session.user, fs) → session.family ∉ fs →
      ¬ Old h k session ∧ (isLogin q = true →
        precedes (readsAccount i) (replaces k session.user) h = false)) :
    Swept { w with sessions := issued w.now w.sessions digest session ttl }
      (Function.update hand i g) (h ++ [⟨i, q, c, reply⟩]) := by
  refine swept_carry hs replacement hr hg (fun k fs t d hu hfs ho hd => ?_)
  by_cases ht : t = session
  · subst ht
    by_cases hm : t.family ∈ fs
    · exact Or.inl hm
    · obtain ⟨hold, hlogin⟩ := behind k fs hu hfs hm
      rcases old_append ho with ho | ho | ⟨hq, -, ho⟩
      · exact absurd ho hold
      · simp [replaces, replacement] at ho
      · rw [hlogin hq] at ho
        cases ho
  · refine Or.inr ⟨old_of_quiet replacement ?_ ho, ?_⟩
    · intro t' ht'
      rw [issue] at ht'
      cases ht'
      exact fun h => ht h.symm
    · rcases get_issued _ _ _ _ _ _ _ hd with hd | h
      · exact hd
      · exact absurd h ht

theorem swept_revoke {g : Hand} {q : Request} {session : Session} {digests : List Digest}
    (hs : Swept w hand h) (seen : (hand i).read = some (session, digests))
    (next : ∀ s, (hand i).sweep = some s →
      s.1 = session.user ∧ ∃ rest, s.2 = session.family :: rest)
    (hr : g.replaced = (hand i).replaced)
    (hg : g.sweep = (hand i).sweep.map (fun s => (s.1, s.2.tail)))
    (revocation : (hand i).read = some (session, digests) →
      (hand i).replaced = some session.user → Old h i session →
      ∀ d, get w.now w.sessions.refresh d = some session → d ∈ digests) :
    Swept { w with sessions := revoked w.now w.sessions digests session }
      (Function.update hand i g)
      (h ++ [⟨i, q, .session (.revoke digests session), .ok ()⟩]) := by
  refine swept_advance hs rfl rfl hr (fun d t hd => (get_revoked _ _ _ _ _ _ hd).1) ?_ ?_
  · intro u s hu hs'
    rw [hr] at hu
    rw [hg] at hs'
    obtain ⟨s0, h0, rfl⟩ := Option.map_eq_some_iff.mp hs'
    exact hs.own i u s0 hu h0
  · intro fs t d hu hfs ho hd
    rw [hr] at hu
    rw [hg] at hfs
    obtain ⟨⟨u0, left⟩, h0, heq⟩ := Option.map_eq_some_iff.mp hfs
    obtain ⟨hu0, rest, rfl⟩ := next _ h0
    simp only [Prod.mk.injEq, List.tail_cons] at heq hu0
    obtain ⟨rfl, rfl⟩ := heq
    obtain ⟨hold, hnot⟩ := get_revoked _ _ _ _ _ _ hd
    rcases List.mem_cons.mp (hs.left i _ _ hu h0 t rfl ho d hold) with hf | hf
    · have ht : t = session := by
        cases t
        cases session
        simp_all
      subst ht
      exact absurd (revocation seen hu ho d hold) hnot
    · exact hf

/-- The commit of the hash: the thread has swept nothing so far. -/
theorem swept_replace {g : Hand} {q : Request} {id : ℕ} {changes : List Change} {user : UserId}
    {database : Database} (hs : Swept w hand h) (new : replacedUser changes = some user)
    (first : (hand i).replaced = none) (unswept : g.sweep = none)
    (replaced : g.replaced = some user) :
    Swept { w with database := database } (Function.update hand i g)
      (h ++ [⟨i, q, .database (.commit id changes), .ok ()⟩]) := by
  have other : ∀ k, k ≠ i → ∀ t,
      Old (h ++ [⟨i, q, .database (.commit id changes), .ok ()⟩]) k t → Old h k t := by
    intro k hk t ho
    rcases old_append ho with ho | ho | ⟨-, ho, -⟩
    · exact ho
    · simp [replaces, Ne.symm hk] at ho
    · cases ho
  constructor
  · intro k u ha
    rw [List.any_append, Bool.or_eq_true_iff] at ha
    rcases ha with ha | ha
    · have hold := hs.replaced k u ha
      have hk : k ≠ i := by
        rintro rfl
        rw [first] at hold
        cases hold
      rwa [Function.update_of_ne hk]
    · simp only [List.any_cons, List.any_nil, Bool.or_false, replaces, Bool.and_eq_true,
        decide_eq_true_eq] at ha
      obtain ⟨rfl, hu⟩ := ha
      rw [Function.update_self, replaced]
      exact new.symm.trans hu
  · intro k u s hu hs'
    by_cases hk : k = i
    · subst hk
      rw [Function.update_self, unswept] at hs'
      cases hs'
    · rw [Function.update_of_ne hk] at hu hs'
      exact hs.own k u s hu hs'
  · rintro k u fs hu hfs t rfl ho d hd
    by_cases hk : k = i
    · subst hk
      rw [Function.update_self, unswept] at hfs
      cases hfs
    · rw [Function.update_of_ne hk] at hu hfs
      exact hs.left k _ fs hu hfs t rfl (other k hk t ho) d hd

theorem swept_of_move {g : Hand} {q : Request} {c : Command} {reply : Except Failure (Reply c)}
    (hs : Swept w hand h) (hm : Moves lib settings w (hand i) c reply w' g)
    (list : ∀ user, listOf c reply = some user → (hand i).replaced = some user →
      ∀ session, Old h i session → session.user = user →
      ∀ d, get w.now w.sessions.refresh d = some session →
        session.family ∈ members w.now w.sessions.sessions user)
    (revocation : ∀ digests session, revocationOf c reply = some (digests, session) →
      (hand i).read = some (session, digests) → (hand i).replaced = some session.user →
      Old h i session →
      ∀ d, get w.now w.sessions.refresh d = some session → d ∈ digests)
    (issue : ∀ digest session, issueOf c reply = some (digest, session) →
      ∀ k fs, (hand k).replaced = some session.user →
        (hand k).sweep = some (session.user, fs) → session.family ∉ fs →
        ¬ Old h k session ∧ (isLogin q = true →
          precedes (readsAccount i) (replaces k session.user) h = false)) :
    Swept w' (Function.update hand i g) (h ++ [⟨i, q, c, reply⟩]) := by
  cases hm with
  | draw name new => exact swept_keep hs rfl rfl rfl rfl (fun d t hd => hd)
  | begin session value held fresh =>
    exact swept_issue hs rfl rfl rfl rfl (issue _ session rfl)
  | renew session value held fresh =>
    exact swept_issue hs rfl rfl rfl rfl (issue _ session rfl)
  | rotate digest session held usable =>
    exact swept_keep hs rfl rfl rfl rfl (fun d t hd => get_rotated _ _ _ _ _ hd)
  | reuse digest session used => exact swept_keep hs rfl rfl rfl rfl (fun d t hd => hd)
  | read session next => exact swept_keep hs rfl rfl rfl rfl (fun d t hd => hd)
  | revoke session digests seen next =>
    exact swept_revoke hs seen next rfl rfl (revocation digests session rfl)
  | list user unread own =>
    refine swept_advance hs rfl rfl rfl (fun d t hd => hd) ?_ ?_
    · rintro u s hu hs'
      cases hs'
      exact (own u hu).symm
    · intro fs t d hu hfs ho hd
      simp only [Option.some.injEq, Prod.mk.injEq] at hfs
      obtain ⟨rfl, rfl⟩ := hfs
      exact list _ rfl hu t ho rfl d hd
  | order user listed families sweep perm =>
    refine swept_advance hs rfl rfl rfl (fun d t hd => hd) ?_ ?_
    · rintro u s hu hs'
      cases hs'
      exact hs.own i u (user, listed) hu sweep
    · intro fs t d hu hfs ho hd
      simp only [Option.some.injEq, Prod.mk.injEq] at hfs
      obtain ⟨rfl, rfl⟩ := hfs
      exact perm.mem_iff.mpr (hs.left i _ _ hu sweep t rfl ho d hd)
  | drop user swept => exact swept_keep hs rfl rfl rfl rfl (fun d t hd => hd)
  | replace session changes user database new first unswept =>
    exact swept_replace hs new first unswept rfl
  | other c reply w' sessions now drawn exchange issued replacement =>
    refine swept_keep hs replacement issued rfl rfl ?_
    intro d t hd
    rwa [sessions, now] at hd

theorem ghost_eventless {h : Past} {k : ℕ} (hk : ∀ e ∈ h, e.thread ≠ k) :
    (ghost (contract lib settings) h k).replaced = none := by
  rw [ghost_unspawned h k hk]
  rfl

theorem sweeping_preserved (lib : Libraries) (settings : Settings) :
    Preserved (service lib settings) (contract lib settings)
      (fun s l => OnCall (Sweeping lib settings) s l ∧ listsExpire l = true)
      (fun w h => Reliable lib settings w h ∧ Logged w h ∧
        Swept w (ghost (contract lib settings) h) h) where
  call := by
    rintro s i x q c reply w ⟨hr, hl, hs⟩ hu ha hp ⟨hcond, hlists⟩
    have hm := moves_of_perform lib settings _ _ _ c x reply ha hp
    have hcall := onCall_run hu hcond
    refine ⟨(reliable_preserved lib settings).call s i x q c reply w hr hu ha hp hlists,
      logged_of_move hl hm, ?_⟩
    rw [ghost_append]
    refine swept_of_move hs hm ?_ ?_ ?_
    · rintro user hlist hrep session ho rfl d hd
      obtain ⟨rfl, hok⟩ := listOf_eq_some hlist
      obtain ⟨e, he, rfl⟩ := raw_of_get _ _ _ _ hd
      have hlisted :=
        (hcall (answered_of_ok rfl hok hp)).1 _ rfl hrep (d, e.value) (hl d e he) ho rfl
      exact listed_of_indexed hr.listed.index d _ hd (Bool.eq_false_iff.mp hlisted)
    · intro digests session hrev hread hrep ho d hd
      obtain ⟨rfl, hok⟩ := revocationOf_eq_some hrev
      obtain ⟨hlate, hfiled⟩ := (hcall (answered_of_ok rfl hok hp)).2.1 _ rfl hrep ho
      rcases hr.listed.read i session digests hread d hd with hm | hl | hu
      · exact hm
      · exact absurd (hlate.symm.trans hl) Bool.false_ne_true
      · exact absurd (hfiled.symm.trans hu) Bool.false_ne_true
    · intro digest session hi k fs hrep hsw hnot
      obtain ⟨⟨ttl, rfl⟩, hok⟩ := issueOf_eq_some hi
      have hspawned : ∃ e ∈ s.history, e.thread = k := by
        by_contra hn
        rw [ghost_eventless (fun e he hk => hn ⟨e, he, hk⟩)] at hrep
        cases hrep
      obtain ⟨e, he, rfl⟩ := hspawned
      refine (hcall (answered_of_ok rfl hok hp)).2.2 _ rfl e he fs ?_ hnot
      simp [sweeping, hrep, hsw]
  pass := by
    rintro s d ⟨hr, hl, hs⟩ ⟨-, hlists⟩
    refine ⟨(reliable_preserved lib settings).pass s d hr hlists,
      fun k e he => hl k e ((passed_sessions d s.world).2.1 k e he), hs.replaced, hs.own, ?_⟩
    exact fun k u fs hrep hf session hu ho t ht =>
      hs.left k u fs hrep hf session hu ho t (get_passed d _ t session ht)

/-! ## After the change has returned -/

theorem any_of_precedes {T : Type} {p r : T → Bool} {l : List T} (hp : precedes p r l = true) :
    l.any r = true := by
  induction l with
  | nil => cases hp
  | cons x l ih =>
    simp only [precedes, Bool.or_eq_true_iff, Bool.and_eq_true] at hp
    rw [List.any_cons, Bool.or_eq_true_iff]
    rcases hp with ⟨-, hp⟩ | hp
    · exact Or.inr hp
    · exact Or.inr (ih hp)

theorem replaced_of_old {k : ℕ} {session : Session} (ho : Old h k session) :
    h.any (replaces k session.user) = true := by
  rcases ho with ho | ⟨e, -, -, -, ho⟩
  · exact any_of_precedes ho
  · exact any_of_precedes ho

/-- Thread `k` has swept, and no old session was exchanged from position `n` on. -/
structure CutOff (lib : Libraries) (settings : Settings) (k n : ℕ) (h : Past) : Prop where
  spawned : ∃ e ∈ h, e.thread = k
  swept : ∃ user, (ghost (contract lib settings) h k).replaced = some user ∧
    (ghost (contract lib settings) h k).sweep = some (user, [])
  length : n ≤ h.length
  cut : ∀ m, n ≤ m → ∀ d session, exchangedAt h m = some (d, session) → ¬ Old h k session

theorem cutOff_step {k n : ℕ} {s : Service} {x : Choice} {q : Request} {c : Command}
    {reply : Except Failure (Reply c)} {w' : World} (hk : i ≠ k)
    (hs : Swept s.world (ghost (contract lib settings) s.history) s.history)
    (hc : CutOff lib settings k n s.history)
    (hm : Moves lib settings s.world (ghost (contract lib settings) s.history i) c reply w'
      (next (ghost (contract lib settings) s.history i) c reply))
    (hp : perform lib c x s.world = some (reply, w'))
    (hcall : Sweeping lib settings s i x q c) :
    CutOff lib settings k n (s.history ++ [⟨i, q, c, reply⟩]) := by
  obtain ⟨user, hr, hsw⟩ := hc.swept
  have stays : ∀ session, Old (s.history ++ [⟨i, q, c, reply⟩]) k session →
      Old s.history k session := by
    intro session ho
    rcases old_append ho with ho | ho | ⟨hq, hi, ho⟩
    · exact ho
    · simp [replaces, hk] at ho
    · obtain ⟨⟨digest, t⟩, ht, hsession⟩ := Option.map_eq_some_iff.mp (of_decide_eq_true hi)
      obtain rfl : t = session := hsession
      obtain ⟨⟨ttl, rfl⟩, hok⟩ := issueOf_eq_some ht
      have huser : user = t.user :=
        Option.some.inj (hr.symm.trans (hs.replaced k _ (any_of_precedes ho)))
      obtain ⟨e, he, rfl⟩ := hc.spawned
      have hlast := ((hcall (answered_of_ok rfl hok hp)).2.2 _ rfl e he []
        (by simp [sweeping, hr, hsw, huser]) List.not_mem_nil).2 hq
      rw [hlast] at ho
      cases ho
  constructor
  · obtain ⟨e, he, h⟩ := hc.spawned
    exact ⟨e, List.mem_append_left _ he, h⟩
  · refine ⟨user, ?_⟩
    rw [ghost_append]
    rw [Function.update_of_ne (Ne.symm hk)]
    exact ⟨hr, hsw⟩
  · have := hc.length
    simp only [List.length_append, List.length_singleton]
    omega
  · intro m hmn d session he ho
    have hold := stays session ho
    have huser : user = session.user :=
      Option.some.inj (hr.symm.trans (hs.replaced k _ (replaced_of_old hold)))
    rcases Nat.lt_trichotomy m s.history.length with hlt | heq | hgt
    · refine hc.cut m hmn d session ?_ hold
      simpa [exchangedAt, List.getElem?_append_left hlt] using he
    · subst heq
      have hnew : exchangeOf c reply = some (d, session) := by
        simpa [exchangedAt] using he
      have hlive := usable_of_exchange hm d session hnew
      exact absurd (hs.left k user [] hr hsw session huser.symm hold d hlive) List.not_mem_nil
    · have hnone : (s.history ++ [(⟨i, q, c, reply⟩ : Occurrence)])[m]? = none := by
        rw [List.getElem?_eq_none_iff, List.length_append, List.length_singleton]
        omega
      rw [exchangedAt, hnone] at he
      cases he

theorem cutOff_preserved (lib : Libraries) (settings : Settings) (k n : ℕ) (q₀ : Request)
    (a : Answer) :
    Preserved (service lib settings) (contract lib settings)
      (fun s l => (OnCall (Sweeping lib settings) s l ∧ listsExpire l = true) ∧
        returned s k = some (q₀, a))
      (fun w h => (Reliable lib settings w h ∧ Logged w h ∧
        Swept w (ghost (contract lib settings) h) h) ∧ CutOff lib settings k n h) where
  call := by
    rintro s i x q c reply w ⟨hi, hc⟩ hu ha hp ⟨hcond, hret⟩
    have hm := moves_of_perform lib settings _ _ _ c x reply ha hp
    exact ⟨(sweeping_preserved lib settings).call s i x q c reply w hi hu ha hp hcond,
      cutOff_step (ne_of_returned hret hu) hi.2.2 hc hm hp (onCall_run hu hcond.1)⟩
  pass := by
    rintro s d ⟨hi, hc⟩ ⟨hcond, -⟩
    exact ⟨(sweeping_preserved lib settings).pass s d hi hcond, hc⟩

def changesPassword : Request → Bool
  | .changePassword .. | .resetPassword .. => true
  | _ => false

/-- Thread 0 logs in with the old password and thread 1 replaces it; thread 2
logs in with the new one and thread 3 refreshes that session. -/
def loginThenChange : List (Label Request Choice Passing) :=
  .spawn (.login "a@b" "long password") :: steps 0 ["", "", "t", "f", "", ""] ++
  .spawn (.changePassword "user" "long password" "longer password") ::
    steps 1 ["", "", "", "", "", "", "", "", ""]

def loginAfterChange : List (Label Request Choice Passing) :=
  .spawn (.login "a@b" "longer password") :: steps 2 ["", "", "u", "g", "", ""] ++
  .spawn (.refresh "t") :: steps 3 ["", ""] ++
  .spawn (.refresh "u") :: steps 4 ["", "", "", "v", "", ""]

def onPasswords : Request → Bool
  | .login .. | .refresh _ | .changePassword .. | .resetPassword .. => true
  | _ => false

/-- Thread 0 reads the account and checks the old password; thread 1 replaces the
password and returns. -/
def changeWithinLogin : List (Label Request Choice Passing) :=
  .spawn (.login "a@b" "long password") :: steps 0 ["", ""] ++
  .spawn (.changePassword "user" "long password" "longer password") ::
    steps 1 ["", "", "", "", "", "", ""]

/-- Thread 0 issues its token and thread 2 exchanges it. -/
def loginResumed : List (Label Request Choice Passing) :=
  steps 0 ["t", "f", "", ""] ++ .spawn (.refresh "t") :: steps 2 [""]

end Gamely.PasswordChange
