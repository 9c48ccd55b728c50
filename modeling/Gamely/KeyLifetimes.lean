import Gamely.RebuildExclusion
import Gamely.RedisSpelling

/-!
# How long keys live

Everything the service writes beside the filter has a deadline, which is never further away
than the lifetime of its kind: a key that is written again is given its whole lifetime once
more, and nothing is added to it.
-/

set_option autoImplicit false

namespace Gamely.KeyLifetimes
open Gamely.Stores Gamely.EmailJobs Gamely.Services Gamely.ExpiringStore Gamely.TokenService
open Gamely.EmailFilter Gamely.Requests Gamely.Interleaving Gamely.RedisSpelling

/-! ## Stores of which every entry expires -/

section
variable {K V M : Type} [DecidableEq K] [DecidableEq M] {now seconds : ℕ} {s : Store K V}

def Fleeting (now seconds : ℕ) (s : Store K V) : Prop :=
  ∀ k e, s k = some e → ∃ t, e.deadline = some t ∧ t ≤ now+1000*seconds

omit [DecidableEq K] in
theorem fleeting_later {later : ℕ} (h : Fleeting now seconds s) (hl : now ≤ later) :
    Fleeting later seconds s := by
  intro k e he
  obtain ⟨t, ht, hle⟩ := h k e he
  exact ⟨t, ht, by omega⟩

theorem fleeting_set (h : Fleeting now seconds s) (k : K) (v : V) {ttl : ℕ} (ht : ttl ≤ seconds) :
    Fleeting now seconds (set s k v (ex now ttl)) := by
  intro j e he
  rcases (set_eq_some s k j v _ e).mp he with ⟨-, rfl⟩ | ⟨-, hj⟩
  · refine ⟨now+1000*ttl, rfl, ?_⟩
    omega
  · exact h j e hj

theorem fleeting_del (h : Fleeting now seconds s) (k : K) : Fleeting now seconds (del s k) :=
  fun j e he => h j e ((del_eq_some s k j e).mp he).2

theorem fleeting_delAll (h : Fleeting now seconds s) (ks : List K) :
    Fleeting now seconds (delAll s ks) :=
  fun j e he => h j e ((delAll_eq_some s ks j e).mp he).2

theorem fleeting_expire_sadd {s : Store K (List M)} (h : Fleeting now seconds s) (k : K) (x : M)
    {ttl : ℕ} (ht : ttl ≤ seconds) :
    Fleeting now seconds (expire now (sadd now s k x) k (now+1000*ttl)) := by
  rw [expire_sadd]
  exact fleeting_set h k _ ht

theorem fleeting_srem {s : Store K (List M)} (h : Fleeting now seconds s) (k : K) (x : M) :
    Fleeting now seconds (srem now s k x) := by
  intro j e he
  obtain ⟨e', he', hdeadline, -⟩ := srem_subset now s k j x e he
  rw [hdeadline]
  exact h j e' he'

omit [DecidableEq K] in
/-- The rest of a lifetime, rounded, is no more than all of it. -/
theorem fleeting_ttl (h : Fleeting now seconds s) (k : K) :
    ttl now s k ≤ seconds := by
  unfold ttl
  rcases hp : peek now s k with _ | ⟨v, _ | t⟩
  · dsimp only
    omega
  · dsimp only
    omega
  · obtain ⟨t', ht, hle⟩ := h k ⟨v, some t⟩ ((peek_eq_some now s k _).mp hp).1
    cases ht
    dsimp only
    have hround : (t-now+500)/1000 ≤ seconds := by omega
    exact_mod_cast hround

end

/-! ## The stores of the service -/

variable {lib : Libraries} {settings : Settings}

structure Expiring (settings : Settings) (w : World) : Prop where
  refresh : Fleeting w.now (refreshTtl settings) w.sessions.refresh
  reuse : Fleeting w.now (refreshTtl settings) w.sessions.reuse
  family : Fleeting w.now (refreshTtl settings) w.sessions.family
  sessions : Fleeting w.now (refreshTtl settings) w.sessions.sessions
  code : Fleeting w.now (60*settings.authCodeMinutes) w.codes.code
  cooldown : Fleeting w.now 60 w.codes.cooldown
  nonces : Fleeting w.now 300 w.nonces
  throttles : Fleeting w.now settings.authThrottleWindowSeconds w.throttles

theorem expiring_fresh (now : ℕ) (database : Database) :
    Expiring settings (World.fresh now database) where
  refresh := fun _ _ h => nomatch h
  reuse := fun _ _ h => nomatch h
  family := fun _ _ h => nomatch h
  sessions := fun _ _ h => nomatch h
  code := fun _ _ h => nomatch h
  cooldown := fun _ _ h => nomatch h
  nonces := fun _ _ h => nomatch h
  throttles := fun _ _ h => nomatch h

theorem expiring_session {now ttl : ℕ} {s : SessionStore} (hr : Fleeting now ttl s.refresh)
    (hu : Fleeting now ttl s.reuse) (hf : Fleeting now ttl s.family)
    (hs : Fleeting now ttl s.sessions) {c : SessionCall}
    (hissue : ∀ digest session seconds, c = .issue digest session seconds → seconds ≤ ttl)
    (hrotate : ∀ digest seconds, c = .rotate digest seconds → seconds ≤ ttl) :
    Fleeting now ttl (c.perform now s).2.refresh ∧ Fleeting now ttl (c.perform now s).2.reuse ∧
      Fleeting now ttl (c.perform now s).2.family ∧
      Fleeting now ttl (c.perform now s).2.sessions := by
  cases c with
  | issue digest session seconds =>
    have hle := hissue digest session seconds rfl
    exact ⟨fleeting_set hr digest session hle, hu, fleeting_expire_sadd hf session digest hle,
      fleeting_expire_sadd hs session.user session.family hle⟩
  | rotate digest seconds =>
    have hle := hrotate digest seconds rfl
    simp only [SessionCall.perform, rotated]
    split
    case h_1 session _ =>
      exact ⟨fleeting_del hr digest, fleeting_set hu digest session hle, hf, hs⟩
    case h_2 =>
      split
      · exact ⟨hr, fleeting_del hu digest, hf, hs⟩
      · exact ⟨hr, hu, hf, hs⟩
  | revoke digests session =>
    exact ⟨fleeting_delAll hr digests, fleeting_delAll hu digests, fleeting_del hf session,
      fleeting_srem hs session.user session.family⟩
  | dropSessions user => exact ⟨hr, hu, hf, fleeting_del hs user⟩
  | getRefresh | familyMembers | userFamilies => exact ⟨hr, hu, hf, hs⟩

theorem expiring_code {now life : ℕ} {s : CodeStore} (hc : Fleeting now life s.code)
    (hd : Fleeting now 60 s.cooldown) {c : CodeCall}
    (hcool : ∀ key seconds, c = .setCooldown key seconds → seconds = 60)
    (hset : ∀ key payload seconds, c = .setCode key payload seconds → seconds ≤ life) :
    Fleeting now life (c.perform now s).2.code ∧ Fleeting now 60 (c.perform now s).2.cooldown := by
  cases c with
  | setCooldown key seconds =>
    simp only [CodeCall.perform]
    split
    · exact ⟨hc, fleeting_set hd key () (hcool key seconds rfl).le⟩
    · exact ⟨hc, hd⟩
  | setCode key payload seconds =>
    exact ⟨fleeting_set hc key payload (hset key payload seconds rfl), hd⟩
  | delCooldownAndCode key => exact ⟨fleeting_del hc key, fleeting_del hd key⟩
  | delCode key => exact ⟨fleeting_del hc key, hd⟩
  | getCode | ttlCode => exact ⟨hc, hd⟩

/-- INCR keeps the deadline it finds; the first hit of a window sets one. -/
theorem fleeting_window {now window : ℕ} {s : Store (String × String) ℕ}
    (h : Fleeting now window s) (k : String × String) :
    Fleeting now window (windowCount now s k window).2 := by
  unfold windowCount
  split
  case h_1 e he =>
    intro j e' hj
    rcases (set_eq_some s k j _ _ e').mp hj with ⟨-, rfl⟩ | ⟨-, hj⟩
    · exact h k e ((peek_eq_some now s k e).mp he).1
    · exact h j e' hj
  case h_2 => exact fleeting_set h k 1 (le_refl _)

theorem expiring_answer {w w' : World} {c : Command} {x : Choice} {r : Except Failure (Reply c)}
    (hw : Expiring settings w) (hc : Timely settings c) (hp : answer lib x w c = some (r, w')) :
    Expiring settings w' := by
  obtain ⟨hr, hu, hf, hs, hcode, hcool, hnonces, hthrottles⟩ := hw
  cases c with
  | tokenUrlsafe | uuid4 | randbelow =>
    simp only [answer] at hp
    split at hp <;> cases hp
    exact ⟨hr, hu, hf, hs, hcode, hcool, hnonces, hthrottles⟩
  | session c =>
    cases hp
    obtain ⟨hr', hu', hf', hs'⟩ := expiring_session hr hu hf hs (c := c)
      (fun _ _ _ he => by subst he; exact le_of_eq hc)
      (fun _ _ he => by subst he; exact le_of_eq hc)
    exact ⟨hr', hu', hf', hs', hcode, hcool, hnonces, hthrottles⟩
  | code c =>
    cases hp
    obtain ⟨hcode', hcool'⟩ := expiring_code hcode hcool (c := c)
      (fun _ _ he => by subst he; exact hc) (fun _ _ _ he => by subst he; exact hc)
    exact ⟨hr, hu, hf, hs, hcode', hcool', hnonces, hthrottles⟩
  | setNonce provider nonce ttl =>
    cases hp
    exact ⟨hr, hu, hf, hs, hcode, hcool, fleeting_set hnonces _ () (le_of_eq hc), hthrottles⟩
  | delNonce provider nonce =>
    cases hp
    exact ⟨hr, hu, hf, hs, hcode, hcool, fleeting_del hnonces _, hthrottles⟩
  | fixedWindow scope client window =>
    cases hp
    have hwindow : window = settings.authThrottleWindowSeconds := hc
    subst hwindow
    exact ⟨hr, hu, hf, hs, hcode, hcool, hnonces, fleeting_window hthrottles _⟩
  | filter c =>
    cases hp
    exact ⟨hr, hu, hf, hs, hcode, hcool, hnonces, hthrottles⟩
  | database c =>
    obtain ⟨r', -, he⟩ := Option.map_eq_some_iff.mp hp
    cases he
    exact ⟨hr, hu, hf, hs, hcode, hcool, hnonces, hthrottles⟩
  | utcnow | hash | iterate | publish | idToken =>
    cases hp
    exact ⟨hr, hu, hf, hs, hcode, hcool, hnonces, hthrottles⟩

theorem expiring_passed {w : World} (hw : Expiring settings w) (d : Passing) :
    Expiring settings (passed d w) := by
  obtain ⟨hr, hu, hf, hs, hcode, hcool, hnonces, hthrottles⟩ := hw
  cases d with
  | elapse ms =>
    have hl : w.now ≤ w.now+ms := Nat.le_add_right _ _
    exact ⟨fleeting_later hr hl, fleeting_later hu hl, fleeting_later hf hl, fleeting_later hs hl,
      fleeting_later hcode hl, fleeting_later hcool hl, fleeting_later hnonces hl,
      fleeting_later hthrottles hl⟩
  | evictRefresh d =>
    exact ⟨fleeting_del hr d, hu, hf, hs, hcode, hcool, hnonces, hthrottles⟩
  | evictReuse d =>
    exact ⟨hr, fleeting_del hu d, hf, hs, hcode, hcool, hnonces, hthrottles⟩
  | evictFamily k =>
    exact ⟨hr, hu, fleeting_del hf k, hs, hcode, hcool, hnonces, hthrottles⟩
  | evictSessions user =>
    exact ⟨hr, hu, hf, fleeting_del hs user, hcode, hcool, hnonces, hthrottles⟩
  | evictCode key =>
    exact ⟨hr, hu, hf, hs, fleeting_del hcode key, hcool, hnonces, hthrottles⟩
  | evictLock => exact ⟨hr, hu, hf, hs, hcode, hcool, hnonces, hthrottles⟩

/-! ## The lock of a rebuild -/

/-- The lock expires within the lease of one of the warmers. -/
def Lent (leases : ℕ → Prop) (v : RebuildExclusion.View) : Prop :=
  ∀ e, v.lock = some e → ∃ seconds t, leases seconds ∧ e.deadline = some t ∧
    t ≤ v.now+1000*seconds

def Leases (leases : ℕ → Prop) : Request → Prop
  | .warm f => leases f.lockSeconds
  | _ => True

variable {leases : ℕ → Prop}

theorem lent_move {v v' : RebuildExclusion.View} {q : Request} {g g' : RebuildContract.Hand}
    {c : Command} {reply : Except Failure (Reply c)} (h : Lent leases v)
    (hm : RebuildExclusion.Moves q v g c reply v' g') (hq : Leases leases q) :
    Lent leases v' := by
  cases hm with
  | draw => exact h
  | take f token warms drawn free =>
    subst warms
    intro e he
    cases he
    exact ⟨f.lockSeconds, _, hq, rfl, Nat.le_refl _⟩
  | release token reply lock mine kept =>
    rcases kept with rfl | ⟨rfl, -⟩
    · exact h
    · rintro e ⟨⟩
  | other => exact h

theorem lent_passed {w : World} (h : Lent leases (RebuildExclusion.view w)) (d : Passing) :
    Lent leases (RebuildExclusion.view (passed d w)) := by
  cases d with
  | elapse ms =>
    intro e he
    obtain ⟨seconds, t, hlease, hdeadline, hle⟩ := h e he
    exact ⟨seconds, t, hlease, hdeadline,
      Nat.le_trans hle (by simp [RebuildExclusion.view, passed])⟩
  | evictLock =>
    intro e he
    cases (del_self w.filter.lock ()).symm.trans he
  | _ => exact h

theorem lent_preserved (lib : Libraries) (settings : Settings) (leases : ℕ → Prop) :
    Preserved (service lib settings) RebuildContract.contract
      (fun s _ => ∀ t ∈ s.threads, Leases leases t.request)
      (fun w _ => Lent leases (RebuildExclusion.view w)) where
  call := by
    intro s i x q c reply w h hu ha hp hrequests
    obtain ⟨t, ht, rfl⟩ := request_of_upcoming hu
    exact lent_move h (RebuildExclusion.moves_of_perform c x reply ha hp) (hrequests t ht)
  pass := fun s d h _ => lent_passed h d

theorem lent_run (lib : Libraries) (settings : Settings) (now : ℕ) (database : Database)
    (ls : List (Label Request Choice Passing)) (hl : ∀ q, .spawn q ∈ ls → Leases leases q) :
    Lent leases (RebuildExclusion.view
      (run (service lib settings) ls (initial (World.fresh now database))).world) :=
  invariant_run (RebuildContract.obeys lib settings) (lent_preserved lib settings leases) ls _
    (following_initial _) (fun _ h => by cases h)
    (meets_requests ls _ hl (fun _ h => by cases h))

end Gamely.KeyLifetimes
