import Gamely.FailedRefresh
import Gamely.Interrupted

/-!
# Rebuilds that do not finish

A warmer is run alone; any of its calls may fail, time passes between them, and its
timer may cancel it at any await. A rebuild that raises gives its lock back. One that
is cancelled does not: the handler of the release catches no cancellation.
-/

set_option autoImplicit false

namespace Gamely.RebuildFailures
open Gamely.Calls Gamely.Interrupted Gamely.ExpiringStore Gamely.Stores Gamely.EmailJobs
open Gamely.Services Gamely.TokenService Gamely.EmailFilter Gamely.Footprints Gamely.Requests
open Gamely.FailedRefresh (timed)

abbrev Log := List (Made Command Reply Failure World)

/-- The lock a call has taken: its token, and when its lease ends. -/
def takes (now : ℕ) : (c : Command) → Except Failure (Reply c) → Option (String × ℕ)
  | .filter (.setLock token ttl), .ok true => some (token, now+1000*ttl)
  | _, _ => none

def locks (log : Log) : List (String × ℕ) :=
  log.filterMap (fun m => takes m.world.now m.call m.reply)

def marks : (c : Command) → Except Failure (Reply c) → Bool
  | .filter (.setMarker _), .ok _ => true
  | _, _ => false

def failsRelease : (c : Command) → Except Failure (Reply c) → Bool
  | .filter (.releaseLock _), .error _ => true
  | _, _ => false

def dropped (log : Log) : Bool := log.any (fun m => drops m.call m.reply)

def marked (log : Log) : Bool := log.any (fun m => marks m.call m.reply)

def releaseFailed (log : Log) : Bool := log.any (fun m => failsRelease m.call m.reply)

/-! ## The rebuild under the lock -/

/-- The lock is held, and a filter that was dropped has no marker until it is given one. -/
structure Held (token : String) (deadline : ℕ) (w : World) (log : Log) : Prop where
  lock : w.filter.lock () = some ⟨token, some deadline⟩
  taken : locks log = [(token, deadline)]
  unmarked : dropped log = true → marked log = false → w.filter.marker = none

variable {lib : Libraries} {f : FilterSettings} {token : String} {deadline : ℕ} {w w' : World}
  {log : Log}

theorem takes_error (now : ℕ) (c : Command) (e : Failure) : takes now c (.error e) = none := by
  cases c with
  | filter c => cases c <;> rfl
  | _ => rfl

theorem drops_error (c : Command) (e : Failure) : drops c (.error e) = false := by
  cases c with
  | filter c => cases c <;> rfl
  | _ => rfl

theorem held_append {w' : World} {c : Command} {reply : Except Failure (Reply c)}
    (h : Held token deadline w log) (htakes : takes w'.now c reply = none)
    (hlock : w'.filter.lock = w.filter.lock)
    (hmarker : w'.filter.marker = none ∨ marks c reply = true ∨
      w'.filter.marker = w.filter.marker ∧ drops c reply = false) :
    Held token deadline w' (log ++ [⟨w', c, reply⟩]) := by
  constructor
  · rw [hlock, h.lock]
  · simp [locks, htakes, ← h.taken]
  · intro hd hm
    rw [marked, List.any_append, Bool.or_eq_false_iff] at hm
    rcases hmarker with hmarker | hmarks | ⟨hmarker, hdrops⟩
    · exact hmarker
    · simp [hmarks] at hm
    · rw [hmarker]
      apply h.unmarked _ hm.1
      simpa [dropped, hdrops] using hd

/-- A call of a rebuild leaves the lock, and sets no marker but its last. -/
theorem held_call {c : Command} {x : ℕ × Choice} {reply : Except Failure (Reply c)} {w' : World}
    (hc : part c ∈ [Part.filter, .rebuild, .snapshot]) (h : Held token deadline w log)
    (hp : timed lib c x w = some (reply, w')) :
    Held token deadline w' (log ++ [⟨w', c, reply⟩]) := by
  rcases perform_cases hp with ⟨-, -, rfl, rfl⟩ | ⟨-, ha⟩
  · exact held_append h (takes_error _ _ _) rfl (Or.inr (Or.inr ⟨rfl, drops_error _ _⟩))
  · cases c with
    | filter c =>
      cases ha
      cases c with
      | getMarker | «exists» | insert =>
        exact held_append h rfl rfl (Or.inr (Or.inr ⟨rfl, rfl⟩))
      | delMarker | drop => exact held_append h rfl rfl (Or.inl rfl)
      | setMarker => exact held_append h rfl rfl (Or.inr (Or.inl rfl))
      | reserve params =>
        have hsame : ∀ s : FilterStore, (FilterCall.perform lib.filterDefaults
            (passed (.elapse x.1) w).now x.2.hit x.2.refused (.reserve params) s).2.lock = s.lock ∧
            (FilterCall.perform lib.filterDefaults (passed (.elapse x.1) w).now x.2.hit
              x.2.refused (.reserve params) s).2.marker = s.marker := by
          intro s
          simp only [FilterCall.perform]
          split <;> exact ⟨rfl, rfl⟩
        obtain ⟨hlock, hmarker⟩ := hsame (passed (.elapse x.1) w).filter
        exact held_append h rfl hlock (Or.inr (Or.inr ⟨hmarker, rfl⟩))
      | setLock | releaseLock => simp [part] at hc
    | database c =>
      obtain ⟨r₁, -, he⟩ := Option.map_eq_some_iff.mp ha
      cases he
      exact held_append h rfl rfl (Or.inr (Or.inr ⟨rfl, rfl⟩))
    | _ => simp [part] at hc

/-- What a rebuild leaves: only without an error has it set the marker. -/
def Left (token : String) (deadline : ℕ) (r : Option (Except Failure Unit)) (w : World)
    (log : Log) : Prop :=
  Held token deadline w log ∧ (r = some (.ok ()) → marked log = true)

theorem ends_step {A : Type} {p : Act A} {next : A → Act Unit}
    (hp : Within [.filter, .rebuild, .snapshot] p) (h : Held token deadline w log)
    (hnext : ∀ a w log, Held token deadline w log →
      Ends (timed lib) (next a) w log (Left token deadline)) :
    Ends (timed lib) (p >>= next) w log (Left token deadline) := by
  apply ends_bind
  apply ends_mono _
    (ends_of_only (fun c x w log reply w' hc hi hcall => held_call hc hi hcall) hp h)
  intro r w' log' h'
  cases r with
  | none => exact ⟨h', fun h => by cases h⟩
  | some r => cases r with
    | ok a => exact hnext a w' log' h'
    | error e => exact ⟨h', fun h => by cases h⟩

theorem ends_rebuild (h : Held token deadline w log) :
    Ends (timed lib) (rebuild lib f) w log (Left token deadline) := by
  apply ends_step (only_invoke _ (by decide)) h
  intro _ w log h
  apply ends_step (only_invoke _ (by simp [part])) h
  intro _ w log h
  apply ends_step (only_invoke _ (by decide)) h
  intro emails w log h
  have hbatches : Within [.filter, .rebuild, .snapshot]
      (forM (batches f.batchSize emails) (addBatch lib f)) := by
    apply only_forM
    intro batch
    unfold addBatch
    split
    · exact only_bind _ _ (within_mono (by simp) (addMany_within f _)) (fun _ => only_pure _)
    · exact only_throw _
  apply ends_step hbatches h
  intro _ w log h
  apply ends_invoke
  · exact ⟨h, fun h => by cases h⟩
  · intro x reply w' hcall
    refine ⟨held_call (by simp [part]) h hcall, ?_⟩
    rintro ⟨⟩
    simp [marked, marks]

/-! ## The warmer -/

/-- A warmer that has taken the lock and set no marker: the filter is not trusted, and the
lock is free from then on, unless the warmer was cancelled. -/
structure Sound (r : Option (Except Failure Unit)) (w : World) (log : Log) (token : String)
    (deadline : ℕ) : Prop where
  unmarked : dropped log = true → w.filter.marker = none
  cancelled : r = none → w.filter.lock () = some ⟨token, some deadline⟩
  free : r ≠ none → releaseFailed log = false →
    ∀ later, w.now ≤ later → get later w.filter.lock () ≠ some token

def Warmed (r : Option (Except Failure Unit)) (w : World) (log : Log) : Prop :=
  (∀ e, r ≠ some (.error e)) ∧ ∀ token deadline, (token, deadline) ∈ locks log →
    marked log = false → Sound r w log token deadline

theorem released (w : World) (token : String) (later : ℕ) (hlater : w.now ≤ later)
    (defaults : FilterParams) (hit : Bool) (refused : List ℕ) :
    get later (FilterCall.perform defaults w.now hit refused (.releaseLock token) w.filter).2.lock
      () ≠ some token := by
  simp only [FilterCall.perform]
  split
  case isTrue => simp [ExpiringStore.get, peek]
  case isFalse hget =>
    intro hlocked
    apply hget
    rw [get_eq_some] at hlocked ⊢
    obtain ⟨e, he, hlive, hvalue⟩ := hlocked
    exact ⟨e, he, live_antitone e hlater hlive, hvalue⟩

/-- The warmer returns where an error reaches it. -/
def caught : Option (Except Failure Unit) → Option (Except Failure Unit)
  | some (.error _) => some (.ok ())
  | r => r

theorem caught_returns (r : Option (Except Failure Unit)) (e : Failure) :
    caught r ≠ some (.error e) := by
  cases r with
  | none => simp [caught]
  | some r => cases r <;> simp [caught]

theorem warmed_unlocked {r : Option (Except Failure Unit)} (hr : ∀ e, r ≠ some (.error e))
    (h : locks log = []) : Warmed r w log := by
  apply And.intro hr
  intro token deadline hmem
  rw [h] at hmem
  cases hmem

theorem warmed_held {r : Option (Except Failure Unit)} (hr : ∀ e, r ≠ some (.error e))
    (htaken : locks log = [(token, deadline)])
    (h : marked log = false → Sound r w log token deadline) : Warmed r w log := by
  apply And.intro hr
  intro token' deadline' hmem hmark
  rw [htaken, List.mem_singleton] at hmem
  cases hmem
  exact h hmark

theorem warmed_cancelled (h : Held token deadline w log) : Warmed none w log := by
  apply warmed_held (caught_returns none) h.taken
  intro hmark
  exact ⟨fun hd => h.unmarked hd hmark, fun _ => h.lock, fun hr => absurd rfl hr⟩

theorem warmed_marked (h : Held token deadline w log) (hmark : marked log = true) :
    Warmed (some (.ok ())) w log := by
  apply warmed_held (caught_returns (some (.ok ()))) h.taken
  intro hfalse
  rw [hmark] at hfalse
  cases hfalse

theorem ends_release (e : Failure) (h : Held token deadline w log) :
    Ends (timed lib) (cuckoo (.releaseLock token) >>= fun _ => throw e) w log
      (fun r w' log' => Warmed (caught r) w' log') := by
  apply ends_bind
  apply ends_invoke
  · exact warmed_cancelled h
  · intro x reply w' hcall
    have htaken : locks (log ++ [⟨w', .filter (.releaseLock token), reply⟩]) =
        [(token, deadline)] := by
      simp [locks, takes, ← h.taken]
    have hmarks : ∀ reply, marks (.filter (.releaseLock token)) reply = false := fun _ => rfl
    have hdrops : ∀ reply, drops (.filter (.releaseLock token)) reply = false := fun _ => rfl
    have sound : w'.filter.marker = w.filter.marker →
        (releaseFailed (log ++ [⟨w', .filter (.releaseLock token), reply⟩]) = false →
          ∀ later, w'.now ≤ later → get later w'.filter.lock () ≠ some token) →
        Warmed (some (.ok ())) w' (log ++ [⟨w', .filter (.releaseLock token), reply⟩]) := by
      intro hmarker hfree
      apply warmed_held (caught_returns (some (.ok ()))) htaken
      intro hmark
      refine ⟨?_, (fun hr => by cases hr), fun _ => hfree⟩
      intro hd
      rw [hmarker]
      apply h.unmarked
      · simpa [dropped, hdrops] using hd
      · simpa [marked, hmarks] using hmark
    rcases perform_cases hcall with ⟨-, -, rfl, rfl⟩ | ⟨-, ha⟩
    · apply sound rfl
      intro hfails
      simp [releaseFailed, failsRelease] at hfails
    · cases ha
      apply sound
      · simp only [FilterCall.perform]
        split <;> rfl
      · intro _ later hlater
        exact released (passed (.elapse x.1) w) token later hlater _ _ _

theorem ends_locked (h : Held token deadline w log) :
    Ends (timed lib) (tryCatchThe Failure (rebuild lib f) (fun e => do
      cuckoo (.releaseLock token)
      throw e)) w log (fun r w' log' => Warmed (caught r) w' log') := by
  apply ends_tryCatch
  apply ends_mono _ (ends_rebuild h)
  intro r w' log' hleft
  cases r with
  | none => exact warmed_cancelled hleft.1
  | some r => cases r with
    | ok a => exact warmed_marked hleft.1 (hleft.2 rfl)
    | error e => exact ends_release e hleft.1

theorem ends_lockedRebuild (token : String) (h : locks log = []) (hd : dropped log = false) :
    Ends (timed lib) (lockedRebuild lib f token) w log
      (fun r w' log' => Warmed (caught r) w' log') := by
  apply ends_bind
  apply ends_invoke
  · exact warmed_unlocked (caught_returns none) h
  · intro x reply w' hcall
    rcases perform_cases hcall with ⟨-, -, rfl, rfl⟩ | ⟨-, ha⟩
    · apply warmed_unlocked (caught_returns _)
      simp [locks, takes, ← h]
    · cases hlock : get (passed (.elapse x.1) w).now (passed (.elapse x.1) w).filter.lock () with
      | some other =>
        simp only [answer, FilterCall.perform, hlock] at ha
        cases ha
        apply warmed_unlocked (caught_returns (some (.ok ())))
        simp [locks, takes, ← h]
      | none =>
        simp only [answer, FilterCall.perform, hlock] at ha
        cases ha
        have held : ∀ w₁ : World, w₁.now = (passed (.elapse x.1) w).now →
            w₁.filter.lock = ExpiringStore.set w.filter.lock () token
              (ex (passed (.elapse x.1) w).now f.lockSeconds) →
            Held token ((passed (.elapse x.1) w).now+1000*f.lockSeconds) w₁
              (log ++ [⟨w₁, .filter (.setLock token f.lockSeconds), .ok true⟩]) := by
          intro w₁ hnow hset
          constructor
          · rw [hset, set_self, ex]
          · rw [locks, List.filterMap_append, ← locks, h, ← hnow]
            rfl
          · intro hdrop
            simp [dropped, drops] at hd hdrop
            obtain ⟨m, hm, hdm⟩ := hdrop
            rw [hd m hm] at hdm
            cases hdm
        exact ends_locked (held _ rfl rfl)

theorem ends_warm : Ends (timed lib) (warm lib f) w [] Warmed := by
  unfold warm
  split
  · exact warmed_unlocked (caught_returns (some (.ok ()))) rfl
  · apply ends_tryCatch
    apply ends_bind
    apply ends_invoke
    · exact warmed_unlocked (caught_returns none) rfl
    · intro x reply w' hcall
      cases reply with
      | error e => exact warmed_unlocked (caught_returns (some (.ok ()))) rfl
      | ok token =>
        apply ends_mono _ (ends_lockedRebuild token rfl rfl)
        intro r w' log' h
        cases r with
        | none => exact h
        | some r => cases r with
          | ok a => exact h
          | error e => exact h

/-- A warmer that took the lock and has set no marker never raises and leaves a filter it
dropped untrusted; at its return the lock is free of its token exactly when it was not
cancelled, or its lease was over. -/
theorem unfinished_rebuild_iff {schedule : ℕ → ℕ × Choice} {cut : Option ℕ}
    {r : Option (Except Failure Unit)}
    (hrun : runUntil (timed lib) schedule cut 0 (warm lib f) w [] = some (r, w', log))
    (htaken : (token, deadline) ∈ locks log) (hmark : marked log = false)
    (hrelease : releaseFailed log = false) (later : ℕ) (hlater : w'.now ≤ later) :
    (∀ e, r ≠ some (.error e)) ∧ (dropped log = true → w'.filter.marker = none) ∧
      (get later w'.filter.lock () ≠ some token ↔ r ≠ none ∨ deadline ≤ later) := by
  have h : Warmed r w' log := post_of_run ends_warm hrun
  have hs := h.2 token deadline htaken hmark
  refine ⟨h.1, hs.unmarked, ?_⟩
  by_cases hr : r = none
  · have hlock : get later w'.filter.lock () = some token ↔ later < deadline := by
      rw [get_eq_some]
      simp [hs.cancelled hr, Entry.live]
    rw [ne_eq, hlock, not_lt]
    simp [hr]
  · exact iff_of_true (hs.free hr hrelease later hlater) (Or.inl hr)

def drawing (n : ℕ) : ℕ × Choice := (0, { name := s!"t{n}" })

/-- Five calls: the token, the lock, the drop, the new filter and the addresses. -/
def afterTimeout : Option (Stop Command Reply Failure Unit World) :=
  runUntil (timed plainLibraries) drawing (some 5) 0 (warm plainLibraries withFilter)
    (World.fresh 1000 oneAccount) []

structure Summary where
  cut : Bool
  locks : List (String × ℕ)
  dropped : Bool
  marked : Bool
  releaseFailed : Bool
  now : ℕ
  holder : Option String
  deriving DecidableEq

/-- What a run did, and the token in the lock half a minute after it began. -/
def summary (stop : Stop Command Reply Failure Unit World) : Summary :=
  ⟨stop.1.isNone, locks stop.2.2, dropped stop.2.2, marked stop.2.2, releaseFailed stop.2.2,
    stop.2.1.now, get 31000 stop.2.1.filter.lock ()⟩

/-- A rebuild that times out while it inserts keeps the lock. -/
theorem timeout_keeps_lock : ∃ stop, afterTimeout = some stop ∧ stop.1 = none ∧
    ("t0", 601000) ∈ locks stop.2.2 ∧ marked stop.2.2 = false ∧ releaseFailed stop.2.2 = false ∧
    dropped stop.2.2 = true ∧ stop.2.1.now ≤ 31000 ∧
    get 31000 stop.2.1.filter.lock () = some "t0" := by
  have h : afterTimeout.map summary =
      some ⟨true, [("t0", 601000)], true, false, false, 1000, some "t0"⟩ := by decide +kernel
  obtain ⟨stop, hstop, he⟩ := Option.map_eq_some_iff.mp h
  simp only [summary, Summary.mk.injEq, Option.isNone_iff_eq_none] at he
  obtain ⟨hnone, hlocks, hdropped, hmarked, hreleased, hnow, hlock⟩ := he
  have hmem : ("t0", 601000) ∈ locks stop.2.2 := by
    rw [hlocks]
    exact List.mem_singleton_self _
  exact ⟨stop, hstop, hnone, hmem, hmarked, hreleased, hdropped, by omega, hlock⟩

/-- The call of the new filter fails. -/
def afterError : Option (Stop Command Reply Failure Unit World) :=
  runUntil (timed plainLibraries) (fun n => (0, { name := s!"t{n}", fail := n = 3 })) none 0
    (warm plainLibraries withFilter) (World.fresh 1000 oneAccount) []

theorem unfinished_rebuild_sample : ∃ r w' log, afterError = some (r, w', log) ∧
    w'.filter.marker = none ∧ get 1000 w'.filter.lock () ≠ some "t0" := by
  have h : afterError.map summary =
      some ⟨false, [("t0", 601000)], true, false, false, 1000, none⟩ := by decide +kernel
  obtain ⟨⟨r, w', log⟩, hstop, he⟩ := Option.map_eq_some_iff.mp h
  simp only [summary, Summary.mk.injEq] at he
  obtain ⟨hcut, hlocks, hdropped, hmarked, hreleased, hnow, -⟩ := he
  have hmem : ("t0", 601000) ∈ locks log := by
    rw [hlocks]
    exact List.mem_singleton_self _
  obtain ⟨-, hmarker, hfree⟩ :=
    unfinished_rebuild_iff hstop hmem hmarked hreleased 1000 (le_of_eq hnow)
  have hr : r ≠ none := by
    rintro rfl
    cases hcut
  exact ⟨r, w', log, hstop, hmarker hdropped, hfree.mpr (Or.inl hr)⟩

end Gamely.RebuildFailures
