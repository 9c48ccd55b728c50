import Gamely.AccountMoves
import Gamely.KeyLifetimes
import Gamely.Simulation

/-!
# One Redis for all stores

The service over one Redis, with its spelled keys, its texts and its scripts, runs as the
service over the record of stores does: the same threads make the same calls and get the
same replies, and what is in Redis is what is in the stores. Whatever is proved of the runs
of the stores is therefore true of the runs over Redis.
-/

set_option autoImplicit false

namespace Gamely.RedisRefinement
open Gamely.Calls Gamely.Interleaving Gamely.Relying Gamely.Trusting Gamely.Simulation
open Gamely.Stores Gamely.EmailJobs Gamely.Services Gamely.ExpiringStore Gamely.Requests
open Gamely.RedisCommands Gamely.RedisClient Gamely.RedisStores Gamely.RedisCalls
open Gamely.RedisSpelling Gamely.KeyLifetimes Gamely.TokenService

variable {lib : Libraries} {settings : Settings} {transform : List Char → List Char}

/-! ## What the stores hold -/

structure Tidy (w : World) : Prop where
  sessions : SessionsTidy w.sessions
  codes : CodesTidy w.codes
  throttles : ThrottlesTidy w.throttles
  users : ∀ u ∈ w.database.users, UserName u.id
  flushed : ∀ x ∈ w.database.flushed, UserName x.2.id

theorem tidy_fresh {now : ℕ} {database : Database} (hu : ∀ u ∈ database.users, UserName u.id)
    (hf : ∀ x ∈ database.flushed, UserName x.2.id) : Tidy (World.fresh now database) where
  sessions := ⟨fun _ _ h => (nomatch h), fun _ _ h => (nomatch h)⟩
  codes := fun _ _ h => nomatch h
  throttles := fun _ _ h => nomatch h
  users := hu
  flushed := hf

theorem tidy_set {K V : Type} [DecidableEq K] {s : Store K V} {P : V → Prop}
    (h : ∀ k e, s k = some e → P e.value) (k : K) {v : V} (hv : P v) (d : Option ℕ) :
    ∀ j e, set s k v d j = some e → P e.value := by
  intro j e he
  rcases (set_eq_some s k j v d e).mp he with ⟨-, rfl⟩ | ⟨-, hj⟩
  · exact hv
  · exact h j e hj

theorem tidy_del {K V : Type} [DecidableEq K] {s : Store K V} {P : V → Prop}
    (h : ∀ k e, s k = some e → P e.value) (k : K) : ∀ j e, del s k j = some e → P e.value :=
  fun j e he => h j e ((del_eq_some s k j e).mp he).2

theorem tidy_delAll {K V : Type} [DecidableEq K] {s : Store K V} {P : V → Prop}
    (h : ∀ k e, s k = some e → P e.value) (ks : List K) :
    ∀ j e, delAll s ks j = some e → P e.value :=
  fun j e he => h j e ((delAll_eq_some s ks j e).mp he).2

theorem tidy_session {s : SessionStore} (hs : SessionsTidy s) (now : ℕ) {c : SessionCall}
    (hc : SessionSpelled c) : SessionsTidy (c.perform now s).2 := by
  obtain ⟨hrefresh, hreuse⟩ := hs
  cases c with
  | issue digest session ttl => exact ⟨tidy_set hrefresh digest hc.1 _, hreuse⟩
  | rotate digest ttl =>
    simp only [SessionCall.perform, rotated]
    rcases hr : get now s.refresh digest with _ | session
    · rcases hu : get now s.reuse digest with _ | session
      · exact ⟨hrefresh, hreuse⟩
      · exact ⟨hrefresh, tidy_del hreuse digest⟩
    · exact ⟨tidy_del hrefresh digest, tidy_set hreuse digest (name_of_get hrefresh hr) _⟩
  | revoke digests session => exact ⟨tidy_delAll hrefresh digests, tidy_delAll hreuse digests⟩
  | getRefresh | familyMembers | userFamilies | dropSessions => exact ⟨hrefresh, hreuse⟩

theorem tidy_code {s : CodeStore} (hs : CodesTidy s) (now : ℕ) {c : CodeCall}
    (hc : CodeSpelled c) : CodesTidy (c.perform now s).2 := by
  have hs' : ∀ k e, s.code k = some e → ':' ∉ e.value.digest.toList := hs
  cases c with
  | setCooldown key ttl =>
    simp only [CodeCall.perform]
    split
    · exact hs
    · exact hs
  | setCode key payload ttl =>
    exact tidy_set (P := fun p : CodePayload => ':' ∉ p.digest.toList) hs' key hc.1 _
  | delCooldownAndCode key =>
    exact tidy_del (P := fun p : CodePayload => ':' ∉ p.digest.toList) hs' key
  | delCode key => exact tidy_del (P := fun p : CodePayload => ':' ∉ p.digest.toList) hs' key
  | getCode | ttlCode => exact hs

theorem tidy_window {s : Store (String × String) ℕ} (hs : ThrottlesTidy s) (now : ℕ)
    (k : String × String) (window : ℕ) : ThrottlesTidy (windowCount now s k window).2 := by
  have hs' : ∀ k e, s k = some e → 0 < e.value := hs
  unfold windowCount
  split
  · exact tidy_set (P := fun n => 0 < n) hs' k (Nat.succ_pos _) _
  · exact tidy_set (P := fun n => 0 < n) hs' k Nat.one_pos _

theorem tidy_database {db db' : Database} {c : DatabaseCall} {r : Except Failure c.Reply}
    (hu : ∀ u ∈ db.users, UserName u.id) (hf : ∀ x ∈ db.flushed, UserName x.2.id)
    (hc : Spelled (.database c)) (hp : c.perform db = some (r, db')) :
    (∀ u ∈ db'.users, UserName u.id) ∧ ∀ x ∈ db'.flushed, UserName x.2.id := by
  have hended : ∀ session, ∀ x ∈ (ended db session).flushed, UserName x.2.id :=
    fun session x hx => hf x (List.mem_of_mem_filter hx)
  cases c with
  | createUser session row =>
    simp only [DatabaseCall.perform] at hp
    split at hp
    · cases hp
      exact ⟨hu, hf⟩
    · split at hp <;> cases hp
      refine ⟨hu, fun x hx => ?_⟩
      rcases List.mem_append.mp hx with hx | hx
      · exact hf x hx
      · rw [List.mem_singleton.mp hx]
        exact hc
  | commit session changes =>
    simp only [DatabaseCall.perform] at hp
    split at hp
    · cases hp
      exact ⟨hu, hended session⟩
    · cases hp
      obtain ⟨husers, -, hflushed⟩ := AccountMoves.apply_changes changes { ended db session with
        users := db.users ++ (db.flushed.filter (fun x => x.1 = session)).map Prod.snd }
      refine ⟨fun u hm => ?_, fun x hx => ?_⟩
      · rw [committed, husers] at hm
        obtain ⟨u', hu', rfl⟩ := List.mem_map.mp hm
        rw [(AccountMoves.changes_kept changes u').1]
        rcases List.mem_append.mp hu' with hu' | hu'
        · exact hu u' hu'
        · obtain ⟨x, hx, rfl⟩ := List.mem_map.mp hu'
          exact hf x (List.mem_of_mem_filter hx)
      · rw [committed, hflushed] at hx
        exact hended session x hx
  | rollback session =>
    cases hp
    exact ⟨hu, hended session⟩
  | byEmail | byId | byIdentity | emails =>
    cases hp
    exact ⟨hu, hf⟩

/-! ## One call -/

/-- What is drawn by the call: an identifier spelled as a UUID, and a name that is not
empty. -/
def Draws (x : Choice) : Command → Prop
  | .uuid4 => UserName x.name
  | .tokenUrlsafe => x.name ≠ ""
  | _ => True

theorem expected_error (c : Command) (e : Failure) : expected settings c (.error e) := by
  cases c with
  | session c => cases c <;> trivial
  | code c => cases c <;> trivial
  | database c => cases c <;> trivial
  | _ => trivial

theorem tidy_answer {w w' : World} {c : Command} {x : Choice} {r : Except Failure (Reply c)}
    (hw : Tidy w) (he : Expiring settings w) (hc : Spelled c) (hx : Draws x c)
    (hp : Services.answer lib x w c = some (r, w')) : expected settings c r ∧ Tidy w' := by
  obtain ⟨hsessions, hcodes, hthrottles, husers, hflushed⟩ := hw
  cases c with
  | tokenUrlsafe =>
    simp only [Services.answer] at hp
    split at hp <;> cases hp
    exact ⟨hx, hsessions, hcodes, hthrottles, husers, hflushed⟩
  | uuid4 =>
    simp only [Services.answer] at hp
    split at hp <;> cases hp
    exact ⟨hx, hsessions, hcodes, hthrottles, husers, hflushed⟩
  | randbelow bound =>
    simp only [Services.answer] at hp
    split at hp <;> cases hp
    exact ⟨trivial, hsessions, hcodes, hthrottles, husers, hflushed⟩
  | session c =>
    cases hp
    refine ⟨?_, tidy_session hsessions w.now hc, hcodes, hthrottles, husers, hflushed⟩
    cases c with
    | rotate digest ttl =>
      simp only [SessionCall.perform, rotated]
      rcases hr : get w.now w.sessions.refresh digest with _ | s
      · rcases hu : get w.now w.sessions.reuse digest with _ | s
        · trivial
        · exact name_of_get hsessions.reuse hu
      · exact name_of_get hsessions.refresh hr
    | getRefresh digest => exact fun s hs => name_of_get hsessions.refresh hs
    | issue | familyMembers | userFamilies | revoke | dropSessions => trivial
  | code c =>
    cases hp
    refine ⟨?_, hsessions, tidy_code hcodes w.now hc, hthrottles, husers, hflushed⟩
    cases c with
    | getCode key =>
      intro p hp
      obtain ⟨e, he, rfl⟩ := raw_of_get w.now w.codes.code key p hp
      exact hcodes key e he
    | ttlCode key => exact_mod_cast fleeting_ttl he.code key
    | setCooldown | setCode | delCooldownAndCode | delCode => trivial
  | fixedWindow scope client window =>
    cases hp
    exact ⟨trivial, hsessions, hcodes, tidy_window hthrottles w.now _ window, husers, hflushed⟩
  | database c =>
    obtain ⟨⟨r', db⟩, hr, he⟩ := Option.map_eq_some_iff.mp hp
    cases he
    obtain ⟨husers', hflushed'⟩ := tidy_database husers hflushed hc hr
    refine ⟨?_, hsessions, hcodes, hthrottles, husers', hflushed'⟩
    cases c with
    | byEmail email =>
      cases hr
      exact fun row hrow => husers row (List.mem_of_find?_eq_some hrow)
    | byId user =>
      cases hr
      exact fun row hrow => husers row (List.mem_of_find?_eq_some hrow)
    | byIdentity | createUser | commit | rollback | emails => trivial
  | utcnow | hash | iterate | setNonce | delNonce | filter | publish | idToken =>
    cases hp
    exact ⟨trivial, hsessions, hcodes, hthrottles, husers, hflushed⟩

theorem tidy_passed {w : World} (hw : Tidy w) (d : Passing) : Tidy (Services.passed d w) := by
  obtain ⟨hsessions, hcodes, hthrottles, husers, hflushed⟩ := hw
  cases d with
  | evictRefresh digest =>
    exact ⟨⟨tidy_del hsessions.refresh digest, hsessions.reuse⟩, hcodes, hthrottles, husers,
      hflushed⟩
  | evictReuse digest =>
    exact ⟨⟨hsessions.refresh, tidy_del hsessions.reuse digest⟩, hcodes, hthrottles, husers,
      hflushed⟩
  | evictFamily | evictSessions =>
    exact ⟨⟨hsessions.refresh, hsessions.reuse⟩, hcodes, hthrottles, husers, hflushed⟩
  | evictCode key =>
    exact ⟨hsessions, tidy_del (P := fun p : CodePayload => ':' ∉ p.digest.toList) hcodes key,
      hthrottles, husers, hflushed⟩
  | elapse | evictLock => exact ⟨hsessions, hcodes, hthrottles, husers, hflushed⟩

theorem answer_answered {v : Deployment} {w : World} (hv : Represents v w) (hw : Tidy w)
    {c : Command} (hc : Spelled c) (x : Choice) :
    Answered Represents (RedisClient.answer transform lib c x v) (Services.answer lib x w c) := by
  obtain ⟨now, drawn, redis, database, published⟩ := v
  obtain ⟨hnow, hdrawn, hdatabase, hpublished, hredis⟩ := hv
  dsimp only at hnow hdrawn hdatabase hpublished hredis
  subst hnow hdrawn hdatabase hpublished
  have settled : ∀ {r : Except Failure (Reply c)} {w' : World}
      {f : Store String Value → Except Failure (Reply c) × Store String Value}, Serves f w w' r →
      w'.now = w.now → w'.drawn = w.drawn → w'.database = w.database →
      w'.published = w.published →
      Answered Represents (c := c) (some ((f redis).1, ⟨w.now, w.drawn, (f redis).2, w.database,
        w.published⟩)) (some (r, w')) := by
    intro r w' f hserves h₁ h₂ h₃ h₄
    obtain ⟨redis', hf, hafter⟩ := hserves redis hredis
    rw [hf]
    exact .some ⟨rfl, h₁.symm, h₂.symm, h₃.symm, h₄.symm, hafter⟩
  have hout : (Deployment.outside ⟨w.now, w.drawn, redis, w.database, w.published⟩).drawn =
      w.drawn := rfl
  cases c with
  | session c => exact settled (serves_onSession hw.sessions c hc) rfl rfl rfl rfl
  | code c => exact settled (serves_onCode hw.codes c hc) rfl rfl rfl rfl
  | setNonce provider nonce ttl =>
    exact settled (serves_setNonce provider nonce hc) rfl rfl rfl rfl
  | delNonce provider nonce => exact settled (serves_delNonce provider nonce) rfl rfl rfl rfl
  | fixedWindow scope client window =>
    exact settled (serves_fixedWindow hw.throttles hc.1 client hc.2) rfl rfl rfl rfl
  | filter c => exact settled (serves_onFilter c hc) rfl rfl rfl rfl
  | tokenUrlsafe =>
    simp only [RedisClient.answer, onRedis, Services.answer]
    rw [hout]
    by_cases hx : x.name ∈ w.drawn ∨ urlSafe x.name = false
    · rw [if_pos hx, if_pos hx]
      exact .none
    · rw [if_neg hx, if_neg hx]
      exact .some ⟨rfl, rfl, rfl, rfl, rfl, hredis⟩
  | uuid4 =>
    simp only [RedisClient.answer, onRedis, Services.answer]
    rw [hout]
    by_cases hx : x.name ∈ w.drawn
    · rw [if_pos hx, if_pos hx]
      exact .none
    · rw [if_neg hx, if_neg hx]
      exact .some ⟨rfl, rfl, rfl, rfl, rfl, hredis⟩
  | randbelow bound =>
    simp only [RedisClient.answer, onRedis, Services.answer]
    split
    · exact .some ⟨rfl, rfl, rfl, rfl, rfl, hredis⟩
    · exact .none
  | database c =>
    simp only [RedisClient.answer, onRedis, Services.answer, Option.map_map]
    have hworld : (Deployment.outside ⟨w.now, w.drawn, redis, w.database, w.published⟩).database =
        w.database := rfl
    rw [hworld]
    rcases c.perform w.database with _ | ⟨r, db⟩
    · exact .none
    · exact .some ⟨rfl, rfl, rfl, rfl, rfl, hredis⟩
  | utcnow | hash | iterate | publish | idToken =>
    exact .some ⟨rfl, rfl, rfl, rfl, rfl, hredis⟩

theorem perform_answered {v : Deployment} {w : World} (hv : Represents v w) (hw : Tidy w)
    {c : Command} (hc : Spelled c) (x : Choice) :
    Answered Represents (RedisClient.perform transform lib c x v) (Services.perform lib c x w) := by
  unfold RedisClient.perform Services.perform
  split
  · exact .some ⟨rfl, hv⟩
  · exact answer_answered hv hw hc x

/-! ## Runs -/

/-- A family key that goes away is spelled with a user that has no colon. -/
def Passes : Passing → Prop
  | .evictFamily s => ':' ∉ s.user.toList
  | _ => True

theorem passed_represents {v : Deployment} {w : World} (hv : Represents v w) {d : Passing}
    (hd : Passes d) : Represents (RedisClient.passed d v) (Services.passed d w) := by
  obtain ⟨hnow, hdrawn, hdatabase, hpublished, hredis⟩ := hv
  have evict : ∀ {K V : Type} (P : Part K V) (k : K), (P.slot k).Proper →
      Named Slot.text Slot.Proper (flatten (P.write w k none)) (del v.redis (P.slot k).text) := by
    intro K V P k hk
    rw [P.writes]
    exact named_update text_apart hk hredis none
  cases d with
  | elapse ms => exact ⟨congrArg (· + ms) hnow, hdrawn, hdatabase, hpublished, hredis⟩
  | evictRefresh digest =>
    exact ⟨hnow, hdrawn, hdatabase, hpublished, evict refreshPart digest trivial⟩
  | evictReuse digest =>
    exact ⟨hnow, hdrawn, hdatabase, hpublished, evict reusePart digest trivial⟩
  | evictFamily s => exact ⟨hnow, hdrawn, hdatabase, hpublished, evict familyPart s hd⟩
  | evictSessions user =>
    exact ⟨hnow, hdrawn, hdatabase, hpublished, evict sessionsPart user trivial⟩
  | evictCode key => exact ⟨hnow, hdrawn, hdatabase, hpublished, evict codePart key trivial⟩
  | evictLock => exact ⟨hnow, hdrawn, hdatabase, hpublished, evict lockPart () trivial⟩

/-- A request that is proper makes calls that are spelled well. -/
def spelling (settings : Settings) : Contract Command Reply Failure Answer Request Unit where
  start := ()
  protocol := fun _ q => kind (fun c => Proper q → Spelled c ∧ Timely settings c)
  post := fun _ _ _ => True

/-- Requests are proper, draws are what they are meant to be, and so is what passes. -/
def Plain {W : Type} (s : State Command Reply Failure Answer W Request)
    (l : Label Request Choice Passing) : Prop :=
  (∀ t ∈ s.threads, Proper t.request) ∧ OnCall (fun _ _ x _ c => Draws x c) s l ∧
    ∀ d, l = .pass d → Passes d

/-- The service with the replies it relies on. -/
abbrev spelled (settings : Settings) :
    Contract Command Reply Failure Answer Request (Unit × Prop) :=
  reliance (spelling settings) (fun _ _ _ => expected settings)

theorem obeys_spelling (hsha : HexDigests lib) (hwindow : 0 < settings.authThrottleWindowSeconds) :
    Obeys (service lib settings) (spelled settings) := by
  have weaken : ∀ {q : Request} {p : Act Answer},
      (Proper q → Spells settings p (fun _ => True)) →
      Relies ((spelling settings).protocol 0 q) (fun _ => expected settings) p ()
        ((spelling settings).post q) := by
    intro q p hp
    by_cases hq : Proper q
    · exact relies_weaken (fun c hc _ => hc) (fun _ _ _ => trivial) (hp hq)
    · exact relies_of_keeps p () (keeps_of_only p (only_any p) () _
        (fun c _ => ⟨fun h => absurd h hq, fun _ => rfl⟩) (fun _ => trivial))
  apply obeys_reliance
  · intro i q
    exact weaken (fun hq => spells_serve hsha hwindow i hq)
  · intro i q p hp g
    cases q with
    | warm f =>
      cases hp
      trivial
    | _ => cases hp

theorem sustained_tidy : Sustained (service lib settings) (spelling settings)
    (fun _ _ _ => expected settings) Plain (fun w _ => Tidy w ∧ Expiring settings w) where
  call := by
    rintro s i x q c reply w hand ⟨htidy, hexpiring⟩ hu ha hp ⟨hrequests, hdraws, -⟩
    obtain ⟨t, ht, rfl⟩ := request_of_upcoming hu
    obtain ⟨hspelled, htimely⟩ : Spelled c ∧ Timely settings c := ha (hrequests t ht)
    rcases perform_cases hp with ⟨-, -, rfl, rfl⟩ | ⟨-, hanswer⟩
    · exact ⟨expected_error c _, htidy, hexpiring⟩
    · obtain ⟨hexpected, htidy'⟩ :=
        tidy_answer htidy hexpiring hspelled (onCall_run hu hdraws) hanswer
      exact ⟨hexpected, htidy', expiring_answer hexpiring htimely hanswer⟩
  pass := fun s d hand ⟨htidy, hexpiring⟩ _ => ⟨tidy_passed htidy d, expiring_passed hexpiring d⟩

/-- Every reply so far was one the service relies on, and the stores are in order. -/
def Sound (settings : Settings) (w : World) (past : Past) :
    Prop :=
  (∀ i, (ghost (spelled settings) past i).2) ∧ Tidy w ∧ Expiring settings w

theorem matched_stores : Matched (deployed transform lib settings) (service lib settings)
    (spelled settings) Represents (Sound settings) Plain Plain where
  program := rfl
  cancelled := rfl
  carried := by
    rintro t s l halike ⟨hrequests, hdraws, hpasses⟩
    refine ⟨fun th hth => hrequests th (by rwa [halike.threads]), ?_, hpasses⟩
    cases l with
    | run i x =>
      simp only [OnCall, alike_upcoming halike] at hdraws ⊢
      exact hdraws
    | spawn | cancel | pass => trivial
  call := by
    rintro t s i x q c hworld ⟨hkept, htidy, -⟩ hu ha ⟨hrequests, -, -⟩
    obtain ⟨th, hth, rfl⟩ := request_of_upcoming hu
    exact perform_answered hworld htidy (ha (hkept i) (hrequests th hth)).1 x
  pass := fun t s d hworld _ hplain => passed_represents hworld (hplain.2.2 d rfl)

theorem represents_fresh (now : ℕ) (database : Database) :
    Represents (Deployment.fresh now database) (World.fresh now database) where
  now := rfl
  drawn := rfl
  database := rfl
  published := rfl
  redis := by
    refine ⟨fun k _ => ?_, fun _ _ => rfl⟩
    cases k <;> rfl

/-- A run over one Redis, in terms of its labels and of what is drawn in it. -/
structure Ordinary (lib : Libraries) (settings : Settings) (transform : List Char → List Char)
    (now : ℕ) (database : Database) (ls : List (Label Request Choice Passing)) : Prop where
  users : ∀ u ∈ database.users, UserName u.id
  flushed : ∀ x ∈ database.flushed, UserName x.2.id
  requests : ∀ q, .spawn q ∈ ls → Proper q
  passes : ∀ d, .pass d ∈ ls → Passes d
  draws : Meets (deployed transform lib settings) (OnCall (fun _ _ x _ c => Draws x c)) ls
    (initial (Deployment.fresh now database))

/-- The states of one run over Redis and over the stores. -/
abbrev overRedis (lib : Libraries) (settings : Settings) (transform : List Char → List Char)
    (now : ℕ) (database : Database) (ls : List (Label Request Choice Passing)) :
    State Command Reply Failure Answer Deployment Request :=
  run (deployed transform lib settings) ls (initial (Deployment.fresh now database))

abbrev overStores (lib : Libraries) (settings : Settings) (now : ℕ) (database : Database)
    (ls : List (Label Request Choice Passing)) : Service :=
  run (service lib settings) ls (initial (World.fresh now database))

theorem ordinary_run (hsha : HexDigests lib) (hwindow : 0 < settings.authThrottleWindowSeconds)
    {now : ℕ} {database : Database} {ls : List (Label Request Choice Passing)}
    (h : Ordinary lib settings transform now database ls) :
    Alike Represents (overRedis lib settings transform now database ls)
      (overStores lib settings now database ls) ∧
    Expiring settings (overStores lib settings now database ls).world := by
  have hrequests := meets_requests (S := deployed transform lib settings) ls
    (initial (Deployment.fresh now database)) h.requests (fun t ht => nomatch ht)
  have hlabels := meets_of_forall (S := deployed transform lib settings)
    (P := fun l => ∀ d, l = .pass d → Passes d) ls (initial (Deployment.fresh now database))
    (fun l hl d hd => h.passes d (hd ▸ hl))
  have hplain := meets_and ls _ hrequests (meets_and ls _ h.draws hlabels)
  have hobeys : Obeys (service lib settings) (spelled settings) := obeys_spelling hsha hwindow
  have hsound : Sound settings (World.fresh now database) [] :=
    ⟨fun _ => trivial, tidy_fresh h.users h.flushed, expiring_fresh now database⟩
  obtain ⟨halike, hplain'⟩ := alike_run matched_stores hobeys
    (sustained_preserved sustained_tidy) ls
    ⟨represents_fresh now database, rfl, rfl⟩ (following_initial _) hsound hplain
  exact ⟨halike, (invariant_run hobeys (sustained_preserved sustained_tidy) ls _
    (following_initial _) hsound hplain').2.2⟩

/-- Over one Redis, with spelled keys and values as texts, the service does what it does over
its stores: in every run the threads and the calls with their replies are the same, and Redis
holds under its keys what the stores hold and under no other key anything. -/
theorem redis_refines_stores (hsha : HexDigests lib)
    (hwindow : 0 < settings.authThrottleWindowSeconds) (now : ℕ) (database : Database)
    (ls : List (Label Request Choice Passing))
    (h : Ordinary lib settings transform now database ls) :
    (overRedis lib settings transform now database ls).threads =
      (overStores lib settings now database ls).threads ∧
    (overRedis lib settings transform now database ls).history =
      (overStores lib settings now database ls).history ∧
    Represents (overRedis lib settings transform now database ls).world
      (overStores lib settings now database ls).world := by
  obtain ⟨⟨hworld, hthreads, hhistory⟩, -⟩ := ordinary_run hsha hwindow h
  exact ⟨hthreads, hhistory, hworld⟩

def leaseOf : Label Request Choice Passing → Option ℕ
  | .spawn (.warm f) => some f.lockSeconds
  | _ => none

/-- How many seconds a key of a kind may be given to live in a run; the filter and its
marker stay. -/
def lifetimes (settings : Settings) (ls : List (Label Request Choice Passing)) : Slot → List ℕ
  | .refresh _ | .reuse _ | .family .. | .sessions _ => [refreshTtl settings]
  | .code .. => [60*settings.authCodeMinutes]
  | .cooldown .. => [60]
  | .oauthNonce _ => [300]
  | .throttle .. => [settings.authThrottleWindowSeconds]
  | .emailFilterLock => ls.filterMap leaseOf
  | .emailFilter | .emailFilterMeta => []

/-- The key goes away within a lifetime of its kind. -/
def Expires (settings : Settings) (ls : List (Label Request Choice Passing)) (now : ℕ) (k : Slot)
    (e : Entry Value) : Prop :=
  ∃ seconds ∈ lifetimes settings ls k, ∃ t, e.deadline = some t ∧ t ≤ now+1000*seconds

theorem leases_of_spawned (ls : List (Label Request Choice Passing)) :
    ∀ q, .spawn q ∈ ls → Leases (· ∈ ls.filterMap leaseOf) q := by
  intro q hq
  cases q with
  | warm f => exact List.mem_filterMap.mpr ⟨_, hq, rfl⟩
  | _ => trivial

theorem expires_of_flatten {w : World} {ls : List (Label Request Choice Passing)}
    (hw : Expiring settings w)
    (hl : Lent (· ∈ ls.filterMap leaseOf) (RebuildExclusion.view w)) {k : Slot} {e : Entry Value}
    (he : flatten w k = some e) :
    k = .emailFilter ∨ k = .emailFilterMeta ∨ Expires settings ls w.now k e := by
  have fleeting : ∀ {K V : Type} {s : Store K V} {seconds : ℕ} {j : K} {f : V → Value},
      Fleeting w.now seconds s → seconds ∈ lifetimes settings ls k →
      (s j).map (Entry.map f) = some e → Expires settings ls w.now k e := by
    intro K V s seconds j f hs hlife hj
    obtain ⟨e', he', rfl⟩ := Option.map_eq_some_iff.mp hj
    obtain ⟨t, ht, hle⟩ := hs j e' he'
    exact ⟨seconds, hlife, t, ht, hle⟩
  have one : ∀ n : ℕ, n ∈ [n] := fun n => List.mem_singleton.mpr rfl
  cases k with
  | emailFilter => exact Or.inl rfl
  | emailFilterMeta => exact Or.inr (Or.inl rfl)
  | emailFilterLock =>
    obtain ⟨e', he', rfl⟩ := Option.map_eq_some_iff.mp he
    obtain ⟨seconds, t, hlease, hdeadline, hle⟩ := hl e' he'
    exact Or.inr (Or.inr ⟨seconds, hlease, t, hdeadline, hle⟩)
  | refresh digest => exact Or.inr (Or.inr (fleeting hw.refresh (one _) he))
  | reuse digest => exact Or.inr (Or.inr (fleeting hw.reuse (one _) he))
  | family user familyId => exact Or.inr (Or.inr (fleeting hw.family (one _) he))
  | sessions user => exact Or.inr (Or.inr (fleeting hw.sessions (one _) he))
  | code purpose email => exact Or.inr (Or.inr (fleeting hw.code (one _) he))
  | cooldown purpose email => exact Or.inr (Or.inr (fleeting hw.cooldown (one _) he))
  | oauthNonce name => exact Or.inr (Or.inr (fleeting hw.nonces (one _) he))
  | throttle scope digest => exact Or.inr (Or.inr (fleeting hw.throttles (one _) he))

/-- Nothing that the service writes to Redis beside the filter is there to stay: at every
moment a key is one the service spells, and it expires within the lifetime of its kind, the
lock of a rebuild within the lease of a warmer of the run. -/
theorem keys_expire (hsha : HexDigests lib) (hwindow : 0 < settings.authThrottleWindowSeconds)
    (now : ℕ) (database : Database) (ls : List (Label Request Choice Passing))
    (h : Ordinary lib settings transform now database ls) (key : String) (e : Entry Value)
    (he : (overRedis lib settings transform now database ls).world.redis key = some e) :
    ∃ k : Slot, k.Proper ∧ k.text = key ∧ (k = .emailFilter ∨ k = .emailFilterMeta ∨
      Expires settings ls (overRedis lib settings transform now database ls).world.now k e) := by
  obtain ⟨⟨hworld, -, -⟩, hexpiring⟩ := ordinary_run hsha hwindow h
  by_cases hspelled : ∃ k : Slot, k.Proper ∧ k.text = key
  · obtain ⟨k, hk, rfl⟩ := hspelled
    rw [hworld.redis.reads k hk] at he
    refine ⟨k, hk, rfl, ?_⟩
    rw [hworld.now]
    exact expires_of_flatten hexpiring
      (lent_run lib settings now database ls (leases_of_spawned ls)) he
  · have hnone := hworld.redis.others key (fun k hk hkey => hspelled ⟨k, hk, hkey⟩)
    rw [hnone] at he
    cases he

def hexLibraries : Libraries :=
  { plainLibraries with sha256 := fun s => String.ofList (s.toList.filter (· ≠ ':')) }

def named (n : ℕ) : UserId := RedisKeys.userText ⟨BitVec.ofNat 128 n⟩

theorem draws_named (n : ℕ) (c : Command) : Draws { name := named n } c := by
  have hne : named n ≠ "" := by
    intro h
    have hlist : (UUIDs.UUID.str ⟨BitVec.ofNat 128 n⟩) = [] := by
      rw [named, RedisKeys.userText] at h
      exact String.ofList_inj.mp (h.trans String.ofList_nil.symm)
    have hsome := UUIDs.parse_str id ⟨BitVec.ofNat 128 n⟩
    rw [hlist] at hsome
    cases hsome
  cases c with
  | uuid4 => exact ⟨⟨BitVec.ofNat 128 n⟩, rfl⟩
  | tokenUrlsafe => exact hne
  | _ => trivial

/-- A login and the use of its refresh token. -/
def entering : List (Label Request Choice Passing) :=
  .spawn (.login "a@b" "some long password") :: steps 0 (List.map named [1, 2, 3, 4, 5, 6]) ++
    .spawn (.refresh (named 3)) :: steps 1 (List.map named [7, 8, 9, 10, 11, 12])

def oneNamed : Database := ⟨[⟨named 0, "a@b", some "some long password", none⟩], [], []⟩

theorem ordinary_entering : Ordinary hexLibraries plainSettings id 0 oneNamed entering where
  users := by
    have hnamed : UserName (named 0) := ⟨⟨BitVec.ofNat 128 0⟩, rfl⟩
    simpa [oneNamed] using hnamed
  flushed := by simp [oneNamed]
  requests := by
    intro q hq
    simp [entering, steps] at hq
    rcases hq with rfl | rfl
    · trivial
    · trivial
  passes := by
    intro d hd
    simp [entering, steps] at hd
  draws := by
    apply meets_everywhere
    intro s l hl
    cases l with
    | run i x =>
      have hx : ∃ n, x = { name := named n } := by
        simp [entering, steps] at hl
        grind
      obtain ⟨n, rfl⟩ := hx
      simp only [OnCall]
      cases upcoming s i with
      | none => trivial
      | some r => exact draws_named n r.2
    | spawn | cancel | pass => trivial

theorem hexDigests_plain : HexDigests hexLibraries := by
  intro s
  simp [hexLibraries]

theorem redis_refines_stores_refresh :
    (overRedis hexLibraries plainSettings id 0 oneNamed entering).threads =
      (overStores hexLibraries plainSettings 0 oneNamed entering).threads ∧
    (overRedis hexLibraries plainSettings id 0 oneNamed entering).history =
      (overStores hexLibraries plainSettings 0 oneNamed entering).history ∧
    Represents (overRedis hexLibraries plainSettings id 0 oneNamed entering).world
      (overStores hexLibraries plainSettings 0 oneNamed entering).world :=
  redis_refines_stores hexDigests_plain (by decide) 0 oneNamed entering ordinary_entering

theorem keys_expire_refresh : ∃ e, (overRedis hexLibraries plainSettings id 0 oneNamed
      entering).world.redis ("auth:refresh:" ++ named 10) = some e ∧
    ∃ k : Slot, k.Proper ∧ k.text = "auth:refresh:" ++ named 10 ∧
      (k = .emailFilter ∨ k = .emailFilterMeta ∨ Expires plainSettings entering
        (overRedis hexLibraries plainSettings id 0 oneNamed entering).world.now k e) := by
  have hlive : ((overRedis hexLibraries plainSettings id 0 oneNamed entering).world.redis
      ("auth:refresh:" ++ named 10)).isSome = true := by decide +kernel
  obtain ⟨e, he⟩ := Option.isSome_iff_exists.mp hlive
  exact ⟨e, he, keys_expire hexDigests_plain (by decide) 0 oneNamed entering ordinary_entering
    ("auth:refresh:" ++ named 10) e he⟩

end Gamely.RedisRefinement
