import Gamely.RebuildContract
import Gamely.SessionMoves

/-!
# One rebuild at a time

The lock is a lease. A task whose timer runs out before the lease it took does
still owns the lock at its last call, so no other task can have taken it, and a
release that finds its own token in the lock deletes a lock it wrote itself.
-/

set_option autoImplicit false

namespace Gamely.RebuildExclusion
open Gamely.Calls Gamely.Stores Gamely.EmailJobs Gamely.ExpiringStore Gamely.Services
open Gamely.EmailFilter Gamely.Requests Gamely.Interleaving Gamely.SessionMoves
open Gamely.RebuildContract

/-! ## What is to be shown -/

/-- Whether a rebuild is under way after one more call of its task: from the answered
drop to the published marker, to the first call that raises or to the release. -/
def rebuilt (b : Bool) (c : Command) : Except Failure (Reply c) → Bool
  | .error _ => false
  | .ok _ => match c with
    | .filter .drop => true
    | .filter (.setMarker _) => false
    | .filter (.releaseLock _) => false
    | _ => b

def rebuilding (h : Past) (i : ℕ) : Bool :=
  h.foldl (fun b e => if e.thread = i then rebuilt b e.command e.reply else b) false

/-- The rebuild of a task that has neither ended nor been cancelled nor timed out. -/
def InRebuild (ends : ℕ → ℕ) (s : Service) (i : ℕ) : Prop :=
  rebuilding s.history i = true ∧ (upcoming s i).isSome = true ∧ s.world.now ≤ ends i

/-- The calls a rebuild makes on the filter. -/
def rebuilds : Request → Command → Bool
  | .warm _, .filter (.insert ..) => true
  | _, .filter (.reserve _) => true
  | _, .filter (.setMarker _) => true
  | _, .filter .drop => true
  | _, _ => false

def Exclusive (ends : ℕ → ℕ) (s : Service) (j : ℕ) (_ : Choice) (q : Request) (c : Command) :
    Prop :=
  rebuilds q c = true → ∀ i, InRebuild ends s i → i = j

def took : (c : Command) → Except Failure (Reply c) → Bool
  | .filter (.setLock ..), .ok taken => taken
  | _, _ => false

/-- The task that last took the lock. -/
def lockWriter (h : Past) : Option ℕ :=
  h.foldl (fun j e => if took e.command e.reply then some e.thread else j) none

/-- The script of the release deletes the lock in this state. -/
def deletes (w : World) : Command → Bool
  | .filter (.releaseLock token) => get w.now w.filter.lock () = some token
  | _ => false

def OwnRelease (s : Service) (j : ℕ) (_ : Choice) (_ : Request) (c : Command) : Prop :=
  deletes s.world c = true → lockWriter s.history = some j

/-! ## What is assumed of the tasks -/

/-- The timer of `asyncio.wait_for` was started before any call of the task and ends it
at `ends i`. -/
def InTime (ends : ℕ → ℕ) (s : Service) (i : ℕ) (_ : Choice) (q : Request) (_ : Command) : Prop :=
  match q with
  | .warm f => s.world.now ≤ ends i ∧ ends i ≤ s.world.now+1000*f.rebuildTimeoutSeconds
  | _ => True

instance (ends : ℕ → ℕ) (s : Service) (i : ℕ) (x : Choice) (q : Request) (c : Command) :
    Decidable (InTime ends s i x q c) := by
  unfold InTime
  split <;> infer_instance

/-- The lock outlives the timer. -/
def Leased : Request → Prop
  | .warm f => f.rebuildTimeoutSeconds < f.lockSeconds
  | _ => True

/-- Tasks end in time and the lock goes away by its TTL or its release only. -/
def Timely (ends : ℕ → ℕ) (s : Service) (l : Label Request Choice Passing) : Prop :=
  OnCall (InTime ends) s l ∧ match l with
    | .pass d => d ≠ .evictLock
    | _ => True

instance (ends : ℕ → ℕ) (s : Service) (l : Label Request Choice Passing) :
    Decidable (Timely ends s l) := by
  unfold Timely
  cases l <;> infer_instance

/-! ## Moves -/

structure View where
  now : ℕ
  drawn : List String
  lock : Option (Entry String)

def view (w : World) : View := ⟨w.now, w.drawn, w.filter.lock ()⟩

inductive Moves (q : Request) (v : View) (g : Hand) :
    (c : Command) → Except Failure (Reply c) → View → Hand → Prop where
  | draw (name : String) (new : name ∉ v.drawn) (unlocked : g.locked = none) :
      Moves q v g .tokenUrlsafe (.ok name) { v with drawn := name :: v.drawn }
        { g with token := some name }
  | take (f : FilterSettings) (token : String) (warms : q = .warm f) (drawn : g.token = some token)
      (free : ∀ e, v.lock = some e → e.live v.now = false) :
      Moves q v g (.filter (.setLock token f.lockSeconds)) (.ok true)
        { v with lock := some ⟨token, ex v.now f.lockSeconds⟩ } { g with locked := some token }
  | release (token : String) (reply : Except Failure Unit) (lock : Option (Entry String))
      (mine : g.locked = some token)
      (kept : lock = v.lock ∨ lock = none ∧ ∃ e, v.lock = some e ∧ e.value = token) :
      Moves q v g (.filter (.releaseLock token)) reply { v with lock := lock }
        { g with locked := none }
  | other (c : Command) (reply : Except Failure (Reply c)) (drawn : List String)
      (more : v.drawn ⊆ drawn) (leaves : took c reply = false) :
      Moves q v g c reply { v with drawn := drawn } g

variable {lib : Libraries} {settings : Settings} {q : Request} {g : Hand} {w w' : World}

theorem moves_failed (c : Command) (e : Failure) (v : View) (ha : allows q g c) :
    Moves q v g c (.error e) v (next g c (.error e)) := by
  have stays : ∀ c, took c (.error e) = false → Moves q v g c (.error e) v g :=
    fun c h => .other c _ v.drawn (fun _ h => h) h
  cases c with
  | filter c =>
    cases c with
    | releaseLock token => exact .release token _ v.lock ha (Or.inl rfl)
    | _ => exact stays _ rfl
  | _ => exact stays _ rfl

theorem moves_filter (c : FilterCall) (x : Choice) (w : World) (ha : allows q g (.filter c)) :
    Moves q (view w) g (.filter c)
      (.ok (c.perform lib.filterDefaults w.now x.hit x.refused w.filter).1)
      (view { w with filter := (c.perform lib.filterDefaults w.now x.hit x.refused w.filter).2 })
      (next g (.filter c)
        (.ok (c.perform lib.filterDefaults w.now x.hit x.refused w.filter).1)) := by
  have stays : ∀ c reply, took (.filter c) reply = false →
      Moves q (view w) g (.filter c) reply (view w) g :=
    fun c reply h => .other _ _ w.drawn (fun _ h => h) h
  cases c with
  | setLock token ttl =>
    obtain ⟨f, hq, rfl, htoken, -⟩ := ha
    simp only [FilterCall.perform]
    split
    case h_1 hget =>
      have hv : view { w with filter := { w.filter with
          lock := ExpiringStore.set w.filter.lock () token (ex w.now f.lockSeconds) } } =
          { view w with lock := some ⟨token, ex w.now f.lockSeconds⟩ } := by
        simp [view]
      rw [hv]
      apply Moves.take f token hq htoken
      intro e he
      by_contra hl
      have : get w.now w.filter.lock () = some e.value :=
        (get_eq_some _ _ _ _).mpr ⟨e, he, Bool.eq_true_of_not_eq_false hl, rfl⟩
      rw [this] at hget
      cases hget
    case h_2 => exact stays _ _ rfl
  | releaseLock token =>
    simp only [FilterCall.perform]
    split
    case isTrue hget =>
      obtain ⟨e, he, -, hv⟩ := (get_eq_some _ _ _ _).mp hget
      exact .release token _ _ ha (Or.inr ⟨by simp [del], e, he, hv⟩)
    case isFalse => exact .release token _ _ ha (Or.inl rfl)
  | reserve params =>
    have hv : view { w with filter := (FilterCall.perform lib.filterDefaults w.now x.hit x.refused
        (.reserve params) w.filter).2 } = view w := by
      simp only [FilterCall.perform]
      split <;> rfl
    rw [hv]
    exact stays _ _ rfl
  | _ => exact stays _ _ rfl

theorem moves_of_perform (c : Command) (x : Choice) (reply : Except Failure (Reply c))
    (ha : allows q g c) (hp : perform lib c x w = some (reply, w')) :
    Moves q (view w) g c reply (view w') (next g c reply) := by
  rcases perform_cases hp with ⟨-, -, rfl, rfl⟩ | ⟨-, h⟩
  · exact moves_failed c _ _ ha
  · cases c with
    | tokenUrlsafe =>
      simp only [answer] at h
      split at h
      case isTrue => cases h
      case isFalse hn =>
        cases h
        exact .draw x.name (fun hin => hn (Or.inl hin)) ha
    | uuid4 =>
      simp only [answer] at h
      split at h <;> cases h
      exact .other _ _ _ (List.subset_cons_self _ _) rfl
    | randbelow bound =>
      simp only [answer] at h
      split at h <;> cases h
      exact .other _ _ _ (fun _ h => h) rfl
    | filter c =>
      cases h
      exact moves_filter c x w ha
    | database c =>
      obtain ⟨r₁, -, he⟩ := Option.map_eq_some_iff.mp h
      cases he
      exact .other _ _ _ (fun _ h => h) rfl
    | _ =>
      cases h
      exact .other _ _ _ (fun _ h => h) rfl

/-! ## The lease -/

/-- What the stored lock says of the hands of the tasks. `writer` is the task that last
took the lock. -/
structure Held (ends : ℕ → ℕ) (v : View) (hands : ℕ → Hand) (writer : Option ℕ) : Prop where
  drawn : ∀ i t, (hands i).token = some t → t ∈ v.drawn
  apart : ∀ i j t, (hands i).token = some t → (hands j).token = some t → i = j
  own : ∀ i t, (hands i).locked = some t → (hands i).token = some t
  stored : ∀ e, v.lock = some e → e.value ∈ v.drawn
  writer : ∀ e i, v.lock = some e → (hands i).token = some e.value → writer = some i
  lease : ∀ i t, (hands i).locked = some t → v.now ≤ ends i →
    ∃ d, v.lock = some ⟨t, some d⟩ ∧ ends i < d

variable {ends : ℕ → ℕ} {v v' : View} {hands : ℕ → Hand} {writer : Option ℕ} {i : ℕ}

theorem held_draw (h : Held ends v hands writer) (name : String) (new : name ∉ v.drawn)
    (unlocked : (hands i).locked = none) :
    Held ends { v with drawn := name :: v.drawn }
      (Function.update hands i { hands i with token := some name }) writer := by
  have token : ∀ j t,
      (Function.update hands i { hands i with token := some name } j).token = some t →
      (j = i ∧ t = name) ∨ (hands j).token = some t := by
    intro j t ht
    by_cases hj : j = i
    · subst hj
      left
      simpa [eq_comm] using ht
    · right
      rwa [Function.update_of_ne hj] at ht
  have locked : ∀ j t,
      (Function.update hands i { hands i with token := some name } j).locked = some t →
      j ≠ i ∧ (hands j).locked = some t := by
    intro j t ht
    by_cases hj : j = i
    · subst hj
      rw [Function.update_self] at ht
      cases unlocked.symm.trans ht
    · exact ⟨hj, by rwa [Function.update_of_ne hj] at ht⟩
  have old : ∀ j, (hands j).token ≠ some name := fun j hj => new (h.drawn j name hj)
  constructor
  · intro j t ht
    rcases token j t ht with ⟨-, rfl⟩ | ht
    · exact List.mem_cons_self
    · exact List.mem_cons_of_mem _ (h.drawn j t ht)
  · intro j k t hj hk
    rcases token j t hj with ⟨rfl, rfl⟩ | hj'
    · rcases token k t hk with ⟨rfl, -⟩ | hk'
      · rfl
      · exact absurd hk' (old k)
    · rcases token k t hk with ⟨-, rfl⟩ | hk'
      · exact absurd hj' (old j)
      · exact h.apart j k t hj' hk'
  · intro j t ht
    obtain ⟨hj, ht⟩ := locked j t ht
    rw [Function.update_of_ne hj]
    exact h.own j t ht
  · intro e he
    exact List.mem_cons_of_mem _ (h.stored e he)
  · intro e j he ht
    rcases token j e.value ht with ⟨-, hv⟩ | ht
    · exact absurd (hv ▸ h.stored e he) new
    · exact h.writer e j he ht
  · intro j t ht hnow
    exact h.lease j t (locked j t ht).2 hnow

/-- A lease still running keeps every other task from taking the lock. -/
theorem held_take (h : Held ends v hands writer) (token : String) (ttl : ℕ)
    (drawn : (hands i).token = some token)
    (free : ∀ e, v.lock = some e → e.live v.now = false) (lasts : ends i < v.now+1000*ttl) :
    Held ends { v with lock := some ⟨token, ex v.now ttl⟩ }
      (Function.update hands i { hands i with locked := some token }) (some i) := by
  have same : ∀ j, (Function.update hands i { hands i with locked := some token } j).token =
      (hands j).token := by
    intro j
    by_cases hj : j = i
    · subst hj
      rw [Function.update_self]
    · rw [Function.update_of_ne hj]
  have taken : ∀ j t, (Function.update hands i { hands i with locked := some token } j).locked =
      some t → (j = i ∧ t = token) ∨ (hands j).locked = some t := by
    intro j t ht
    by_cases hj : j = i
    · subst hj
      left
      simpa [eq_comm] using ht
    · right
      rwa [Function.update_of_ne hj] at ht
  constructor
  · intro j t ht
    exact h.drawn j t (same j ▸ ht)
  · intro j k t hj hk
    exact h.apart j k t (same j ▸ hj) (same k ▸ hk)
  · intro j t ht
    rw [same]
    rcases taken j t ht with ⟨rfl, rfl⟩ | ht
    · exact drawn
    · exact h.own j t ht
  · rintro e ⟨⟩
    exact h.drawn i token drawn
  · rintro e j ⟨⟩ ht
    rw [same] at ht
    rw [h.apart i j token drawn ht]
  · intro j t ht hnow
    rcases taken j t ht with ⟨rfl, rfl⟩ | ht
    · exact ⟨_, rfl, lasts⟩
    · obtain ⟨d, hd, hlt⟩ := h.lease j t ht hnow
      have hdead := free _ hd
      simp only [Entry.live, decide_eq_false_iff_not] at hdead
      have : v.now ≤ ends j := hnow
      omega

theorem held_release (h : Held ends v hands writer) (token : String) (lock : Option (Entry String))
    (mine : (hands i).locked = some token)
    (kept : lock = v.lock ∨ lock = none ∧ ∃ e, v.lock = some e ∧ e.value = token) :
    Held ends { v with lock := lock } (Function.update hands i { hands i with locked := none })
      writer := by
  have same : ∀ j, (Function.update hands i { hands i with locked := none } j).token =
      (hands j).token := by
    intro j
    by_cases hj : j = i
    · subst hj
      rw [Function.update_self]
    · rw [Function.update_of_ne hj]
  have others : ∀ j t, (Function.update hands i { hands i with locked := none } j).locked =
      some t → j ≠ i ∧ (hands j).locked = some t := by
    intro j t ht
    by_cases hj : j = i
    · subst hj
      simp at ht
    · exact ⟨hj, by rwa [Function.update_of_ne hj] at ht⟩
  have before : ∀ e, lock = some e → v.lock = some e := by
    intro e he
    rcases kept with rfl | ⟨rfl, -⟩
    · exact he
    · cases he
  constructor
  · intro j t ht
    exact h.drawn j t (same j ▸ ht)
  · intro j k t hj hk
    exact h.apart j k t (same j ▸ hj) (same k ▸ hk)
  · intro j t ht
    rw [same]
    exact h.own j t (others j t ht).2
  · intro e he
    exact h.stored e (before e he)
  · intro e j he ht
    exact h.writer e j (before e he) (same j ▸ ht)
  · intro j t ht hnow
    obtain ⟨hj, ht⟩ := others j t ht
    obtain ⟨d, hd, hlt⟩ := h.lease j t ht hnow
    rcases kept with rfl | ⟨-, e, he, hv⟩
    · exact ⟨d, hd, hlt⟩
    · -- the lock deleted would be the one task `j` took
      rw [hd] at he
      cases he
      obtain rfl : t = token := hv
      exact absurd (h.apart j i t (h.own j t ht) (h.own i t mine)) hj

theorem held_other (h : Held ends v hands writer) (drawn : List String) (more : v.drawn ⊆ drawn) :
    Held ends { v with drawn := drawn } hands writer where
  drawn := fun i t ht => more (h.drawn i t ht)
  apart := h.apart
  own := h.own
  stored := fun e he => more (h.stored e he)
  writer := h.writer
  lease := h.lease

theorem held_later (h : Held ends v hands writer) (later : ℕ) (hle : v.now ≤ later) :
    Held ends { v with now := later } hands writer where
  drawn := h.drawn
  apart := h.apart
  own := h.own
  stored := h.stored
  writer := h.writer
  lease := fun i t ht hnow => h.lease i t ht (hle.trans hnow)

theorem held_move {c : Command} {reply : Except Failure (Reply c)} {g' : Hand}
    (h : Held ends v hands writer) (hm : Moves q v (hands i) c reply v' g')
    (ht : ∀ f, q = .warm f → ends i < v.now+1000*f.lockSeconds) :
    Held ends v' (Function.update hands i g') (if took c reply then some i else writer) := by
  cases hm with
  | draw name new unlocked => exact held_draw h name new unlocked
  | take f token warms drawn free => exact held_take h token f.lockSeconds drawn free (ht f warms)
  | release token reply lock mine kept => exact held_release h token lock mine kept
  | other c reply drawn more leaves =>
    rw [leaves, Function.update_eq_self]
    exact held_other h drawn more

/-! ## Runs -/

theorem rebuilding_append (h : Past) (e : Occurrence) (i : ℕ) :
    rebuilding (h ++ [e]) i = if e.thread = i then rebuilt (rebuilding h i) e.command e.reply
      else rebuilding h i := List.foldl_concat ..

theorem lockWriter_append (h : Past) (e : Occurrence) :
    lockWriter (h ++ [e]) = if took e.command e.reply then some e.thread else lockWriter h :=
  List.foldl_concat ..

theorem locked_of_rebuilt {b : Bool} {c : Command} {reply : Except Failure (Reply c)}
    (ha : allows q g c) (hb : b = true → g.locked ≠ none) (h : rebuilt b c reply = true) :
    (next g c reply).locked ≠ none := by
  cases reply with
  | error e => cases h
  | ok r =>
    cases c with
    | filter c =>
      cases c with
      | drop => exact ha.2
      | setMarker | releaseLock => cases h
      | setLock token ttl =>
        cases r with
        | true => exact fun hn => by cases hn
        | false => exact hb h
      | _ => exact hb h
    | _ => exact hb h

structure Invariant (ends : ℕ → ℕ) (w : World) (h : Past) : Prop where
  held : Held ends (view w) (ghost contract h) (lockWriter h)
  locked : ∀ i, rebuilding h i = true → (ghost contract h i).locked ≠ none

def Cond (ends : ℕ → ℕ) (s : Service) (l : Label Request Choice Passing) : Prop :=
  Timely ends s l ∧ ∀ t ∈ s.threads, Leased t.request

theorem preserved (lib : Libraries) (settings : Settings) (ends : ℕ → ℕ) :
    Preserved (service lib settings) contract (Cond ends) (Invariant ends) where
  call := by
    intro s i x q c reply w hi hu ha hp hc
    constructor
    · rw [ghost_append, lockWriter_append]
      apply held_move hi.held (moves_of_perform c x reply ha hp)
      rintro f rfl
      obtain ⟨-, hends⟩ := onCall_run hu hc.1.1
      obtain ⟨t, ht, hq⟩ := request_of_upcoming hu
      have hlease := hc.2 t ht
      rw [hq] at hlease
      simp only [Leased] at hlease
      simp only [view]
      omega
    · intro j
      rw [rebuilding_append, ghost_append]
      by_cases hj : i = j
      · subst hj
        rw [if_pos rfl, Function.update_self]
        exact locked_of_rebuilt ha (hi.locked i)
      · rw [if_neg hj, Function.update_of_ne (Ne.symm hj)]
        exact hi.locked j
  pass := by
    intro s d hi hc
    refine ⟨?_, hi.locked⟩
    cases d with
    | elapse ms => exact held_later hi.held _ (Nat.le_add_right _ _)
    | evictLock => exact absurd rfl hc.1.2
    | _ => exact hi.held

theorem invariant_fresh (ends : ℕ → ℕ) (now : ℕ) (db : Database) :
    Invariant ends (World.fresh now db) [] where
  held := {
    drawn := fun _ _ h => by cases h
    apart := fun _ _ _ h => by cases h
    own := fun _ _ h => by cases h
    stored := fun _ h => by cases h
    writer := fun _ _ h => by cases h
    lease := fun _ _ h => by cases h }
  locked := fun _ h => by cases h

theorem lock_of_locked {s : Service} {j : ℕ} {t : String}
    (hi : Invariant ends s.world s.history) (hj : (ghost contract s.history j).locked = some t)
    (hnow : s.world.now ≤ ends j) : ∃ d, s.world.filter.lock () = some ⟨t, d⟩ := by
  obtain ⟨d, hd, -⟩ := hi.held.lease j t hj hnow
  exact ⟨some d, hd⟩

theorem exclusive_of_invariant {s : Service} {j : ℕ} {x : Choice} {c : Command}
    (hi : Invariant ends s.world s.history) (ha : allows q (ghost contract s.history j) c)
    (ht : InTime ends s j x q c) : Exclusive ends s j x q c := by
  rintro hr i ⟨hbuilds, -, hnow⟩
  have hlocked : isWarm q = true ∧ (ghost contract s.history j).locked ≠ none := by
    unfold rebuilds at hr
    split at hr
    case h_1 => exact ⟨rfl, ha rfl⟩
    case h_2 | h_3 | h_4 => exact ha
    case h_5 => cases hr
  have hin : s.world.now ≤ ends j := by
    cases q with
    | warm f => exact ht.1
    | _ => cases hlocked.1
  obtain ⟨t, hj⟩ := Option.ne_none_iff_exists'.mp hlocked.2
  obtain ⟨u, hu⟩ := Option.ne_none_iff_exists'.mp (hi.locked i hbuilds)
  obtain ⟨d, hd⟩ := lock_of_locked hi hj hin
  obtain ⟨d', hd'⟩ := lock_of_locked hi hu hnow
  rw [hd] at hd'
  cases hd'
  exact hi.held.apart i j t (hi.held.own i t hu) (hi.held.own j t hj)

theorem ownRelease_of_invariant {s : Service} {j : ℕ} {c : Command} (x : Choice)
    (hi : Invariant ends s.world s.history) (ha : allows q (ghost contract s.history j) c) :
    OwnRelease s j x q c := by
  intro hr
  unfold deletes at hr
  split at hr
  case h_1 token =>
    obtain ⟨e, he, -, rfl⟩ := (get_eq_some _ _ _ _).mp (of_decide_eq_true hr)
    exact hi.held.writer e j he (hi.held.own j _ ha)
  case h_2 => cases hr

/-- If the lock outlives the timer of every rebuild, no call of a rebuild falls into the
rebuild of another task, and no task deletes a lock it did not write. -/
theorem rebuilds_exclusive (lib : Libraries) (settings : Settings) (ends : ℕ → ℕ) (now : ℕ)
    (db : Database) (ls : List (Label Request Choice Passing))
    (hleased : ∀ q, .spawn q ∈ ls → Leased q)
    (htimely : Meets (service lib settings) (Timely ends) ls (initial (World.fresh now db))) :
    Meets (service lib settings)
      (fun s l => OnCall (Exclusive ends) s l ∧ OnCall OwnRelease s l)
      ls (initial (World.fresh now db)) := by
  have hcond : Meets (service lib settings) (Cond ends) ls (initial (World.fresh now db)) :=
    meets_and _ _ htimely (meets_requests ls _ hleased (by simp [initial]))
  apply meets_of_invariant (obeys lib settings) (preserved lib settings ends) _ ls _
    (following_initial _) (invariant_fresh ends now db) hcond
  intro s l hs hi hc
  cases l with
  | run i x =>
    simp only [OnCall]
    rcases hu : upcoming s i with _ | ⟨q, c⟩
    · exact ⟨trivial, trivial⟩
    · have ha := allowed_of_upcoming hs hu
      exact ⟨exclusive_of_invariant hi ha (onCall_run hu hc.1.1), ownRelease_of_invariant x hi ha⟩
  | _ => exact ⟨trivial, trivial⟩

/-- The first task times out in its rebuild; once its lock has expired a second one takes
the lock, fails to publish the marker and releases the lock. -/
def timedOut : List (Label Request Choice Passing) :=
  .spawn (.warm withFilter) :: steps 0 ["k", "", "", ""] ++
  [.pass (.elapse 30000), .cancel 0, .pass (.elapse 570000), .spawn (.warm withFilter)] ++
  steps 1 ["l", "", "", "", "", ""] ++ [.run 1 { fail := true }, .run 1 {}]

theorem rebuilds_exclusive_timedOut :
    Meets (service plainLibraries plainSettings)
      (fun s l => OnCall (Exclusive (fun i => 30000+600000*i)) s l ∧ OnCall OwnRelease s l)
      timedOut (initial (World.fresh 0 oneAccount)) :=
  rebuilds_exclusive plainLibraries plainSettings (fun i => 30000+600000*i) 0 oneAccount timedOut
    (by simp [timedOut, steps, Leased, withFilter, withoutFilter]) (by decide +kernel)

end Gamely.RebuildExclusion
