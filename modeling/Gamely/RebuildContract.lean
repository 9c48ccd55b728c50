import Gamely.Footprints

/-!
# The lock of a rebuild

A warmer draws a token, takes the lock with it and only then touches the filter.
It deletes the lock only through the script that compares the token, and only
after a rebuild that raised.
-/

set_option autoImplicit false

namespace Gamely.RebuildContract
open Gamely.Calls Gamely.Stores Gamely.EmailJobs Gamely.Services Gamely.TokenService
open Gamely.EmailFilter Gamely.AuthService Gamely.OAuthService Gamely.Requests
open Gamely.Footprints Gamely.Interleaving

/-- The name drawn last, and the token the request took the lock with until it gives
the lock back. -/
structure Hand where
  token : Option String
  locked : Option String
  deriving DecidableEq, Repr

def Hand.empty : Hand := ⟨none, none⟩

def next (g : Hand) : (c : Command) → Except Failure (Reply c) → Hand
  | .tokenUrlsafe, .ok name => { g with token := some name }
  | .filter (.setLock token _), .ok true => { g with locked := some token }
  | .filter (.releaseLock _), _ => { g with locked := none }
  | _, _ => g

def isWarm : Request → Bool
  | .warm _ => true
  | _ => false

variable (q : Request)

def allows (g : Hand) : Command → Prop
  | .tokenUrlsafe => g.locked = none
  | .filter (.insert ..) => isWarm q = true → g.locked ≠ none
  | .filter (.reserve _) => isWarm q = true ∧ g.locked ≠ none
  | .filter (.setMarker _) => isWarm q = true ∧ g.locked ≠ none
  | .filter .drop => isWarm q = true ∧ g.locked ≠ none
  | .filter (.setLock token ttl) => ∃ f, q = .warm f ∧ ttl = f.lockSeconds ∧
      g.token = some token ∧ g.locked = none
  | .filter (.releaseLock token) => g.locked = some token
  | _ => True

def protocol : Protocol Command Reply Failure Hand := ⟨allows q, next⟩

def contract : Contract Command Reply Failure Answer Request Hand where
  start := Hand.empty
  protocol := fun _ q => protocol q
  post := fun _ _ _ => True

/-! ## The code keeps the contract -/

/-- Every part but the locked rebuild. -/
def otherParts : List Part := [.name, .random, .clock, .order, .session, .code, .nonce, .throttle,
  .filter, .database, .account, .snapshot, .transaction, .password, .broker, .provider]

variable {q}

theorem other_unlocked (hq : isWarm q = false) (c : Command) (hc : part c ∈ otherParts) (g : Hand)
    (hg : g.locked = none) : allows q g c ∧ ∀ reply, (next g c reply).locked = none := by
  cases c with
  | tokenUrlsafe =>
    apply And.intro hg
    intro reply
    cases reply with
    | ok name => exact hg
    | error e => exact hg
  | filter c =>
    cases c with
    | insert items capacity => exact ⟨fun h => absurd h (Bool.eq_false_iff.mp hq), fun _ => hg⟩
    | getMarker | «exists» | delMarker => exact ⟨trivial, fun _ => hg⟩
    | _ => simp [part, otherParts] at hc
  | _ => exact ⟨trivial, fun _ => hg⟩

variable {lib : Libraries} {f : FilterSettings}

/-- However a rebuild ends, its request still has the lock it took. -/
theorem keeps_rebuild (hq : isWarm q = true) (g : Hand) (hg : g.locked ≠ none) :
    Keeps (protocol q) (rebuild lib f) g (fun g' _ => g' = g) := by
  apply keeps_of_only _ (rebuild_within lib f)
  · intro c hc
    cases c with
    | filter c =>
      cases c with
      | getMarker | «exists» | delMarker => exact ⟨trivial, fun _ => rfl⟩
      | insert items capacity => exact ⟨fun _ => hg, fun _ => rfl⟩
      | reserve | setMarker | drop => exact ⟨⟨hq, hg⟩, fun _ => rfl⟩
      | _ => simp [part] at hc
    | database c => exact ⟨trivial, fun _ => rfl⟩
    | _ => simp [part] at hc
  · exact fun _ => rfl

theorem ensures_warm (f : FilterSettings) :
    Ensures (protocol (.warm f)) (warm lib f) Hand.empty (fun _ _ => True) := by
  unfold warm
  split
  · exact ensures_pure _ _ trivial
  · apply ensures_tryCatch _ (fun _ _ => ensures_pure _ _ trivial)
    apply ensures_bind
    apply ensures_invoke rfl
    intro token
    apply ensures_bind
    apply ensures_invoke
    · exact ⟨f, rfl, rfl, rfl, rfl⟩
    · intro locked
      cases locked with
      | false => exact ensures_pure _ _ trivial
      | true =>
        apply (keeps_tryCatch _ _ _ _).mpr
        apply keeps_mono _ _ _ (keeps_rebuild rfl _ (by simp [protocol, next]))
        rintro _ r rfl
        cases r with
        | ok a => exact fun _ _ => trivial
        | error e =>
          apply ensures_bind
          exact ensures_invoke rfl (fun _ => ensures_throw _ _)

theorem ensures_serve (settings : Settings) (session : ℕ) (q : Request) :
    Ensures (protocol q) (serve lib settings session q) Hand.empty (fun _ _ => True) := by
  cases hq : isWarm q with
  | false =>
    apply ensures_of_kept (fun g => g.locked = none)
      (within_mono _ (serve_within lib settings session q)) rfl
      (fun c hc g hg => other_unlocked hq c hc g hg) (fun _ _ _ => trivial)
    cases q with
    | warm f => cases hq
    | _ =>
      simp only [footprint]
      decide
  | true =>
    cases q with
    | warm f =>
      have ends : ∀ g, Ensures (protocol (.warm f)) (rollback session) g (fun _ _ => True) :=
        fun g => ensures_invoke trivial (fun _ => trivial)
      apply ensures_bind
      apply ensures_tryCatch
      · apply ensures_bind
        apply ensures_mono _ (ensures_warm f)
        intro g _ _
        apply ensures_pure
        apply ensures_bind
        exact ensures_mono (fun _ _ _ => ensures_pure _ _ trivial) (ends g)
      · intro e g
        apply ensures_bind
        exact ensures_mono (fun _ _ _ => ensures_throw _ _) (ends g)
    | _ => cases hq

theorem obeys (lib : Libraries) (settings : Settings) :
    Obeys (service lib settings) contract where
  program := fun i q => keeps_mono _ _ (fun _ _ _ => trivial) (ensures_serve settings i q)
  cancelled := by
    intro i q p hp g
    cases q with
    | warm f =>
      cases hp
      trivial
    | _ => cases hp

end Gamely.RebuildContract
