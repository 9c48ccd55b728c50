import Gamely.CodeContract
import Gamely.SessionMoves

/-!
# What one call does to the stored codes

Every answered call of a request that keeps the contract is one of the moves
below. Writing the raised count and deleting the key both act on whatever the
key holds by then.
-/

set_option autoImplicit false

namespace Gamely.CodeMoves
open Gamely.Calls Gamely.Stores Gamely.EmailJobs Gamely.Services Gamely.TokenService
open Gamely.Requests Gamely.Interleaving Gamely.ExpiringStore
open Gamely.CodeContract

def writeOf : (c : Command) → Except Failure (Reply c) → Option (CodeKey × CodePayload)
  | .code (.setCode key payload _), .ok _ => some (key, payload)
  | _, _ => none

def readOf (lib : Libraries) (q : Request) :
    (c : Command) → Except Failure (Reply c) → Option Comparison
  | .code (.getCode key), .ok found =>
    found.map (fun payload => ⟨key, payload, verdict lib q payload⟩)
  | _, _ => none

/-- The key `_consume_code` deleted. -/
def spentOf : (c : Command) → Except Failure (Reply c) → Option CodeKey
  | .code (.delCode key), .ok _ => some key
  | _, _ => none

theorem readOf_eq_some {lib : Libraries} {q : Request} {c : Command}
    {reply : Except Failure (Reply c)} {seen : Comparison}
    (h : readOf lib q c reply = some seen) :
    c = .code (.getCode seen.key) ∧ ∃ r, reply = .ok r := by
  unfold readOf at h
  split at h
  · obtain ⟨payload, rfl, rfl⟩ := Option.map_eq_some_iff.mp h
    exact ⟨rfl, _, rfl⟩
  · cases h

theorem spentOf_eq_some {c : Command} {reply : Except Failure (Reply c)} {key : CodeKey}
    (h : spentOf c reply = some key) : c = .code (.delCode key) ∧ ∃ r, reply = .ok r := by
  unfold spentOf at h
  split at h
  · cases h
    exact ⟨rfl, _, rfl⟩
  · cases h

variable (lib : Libraries) (q : Request)

inductive Moves (now : ℕ) (s : Store CodeKey CodePayload) (g : Option Comparison) :
    (c : Command) → Except Failure (Reply c) → Store CodeKey CodePayload →
      Option Comparison → Prop where
  | compare (key : CodeKey) (payload : CodePayload) (idle : g = none)
      (stored : get now s key = some payload) :
      Moves now s g (.code (.getCode key)) (.ok (some payload)) s
        (some ⟨key, payload, verdict lib q payload⟩)
  | send (key : CodeKey) (digest : Digest) (ttl : ℕ) (idle : g = none) :
      Moves now s g (.code (.setCode key ⟨digest, 0⟩ ttl)) (.ok ())
        (set s key ⟨digest, 0⟩ (ex now ttl)) none
  | wait (key : CodeKey) (seen : CodePayload) (ttl : ℤ) (wrong : g = some ⟨key, seen, .wrong⟩) :
      Moves now s g (.code (.ttlCode key)) (.ok ttl) s g
  | count (key : CodeKey) (seen : CodePayload) (ttl : ℕ) (wrong : g = some ⟨key, seen, .wrong⟩)
      (free : seen.attempts < 4) :
      Moves now s g (.code (.setCode key ⟨seen.digest, seen.attempts+1⟩ ttl)) (.ok ())
        (set s key ⟨seen.digest, seen.attempts+1⟩ (ex now ttl)) none
  | spend (key : CodeKey) (seen : CodePayload) (v : Verdict) (held : g = some ⟨key, seen, v⟩)
      (spendable : v ≠ .wrong) :
      Moves now s g (.code (.delCode key)) (.ok ()) (del s key) none
  | fail (c : Command) (e : Failure) (seen : Comparison) (held : g = some seen)
      (acts : allows q (some seen) c) : Moves now s g c (.error e) s none
  | discard (key : CodeKey) (idle : g = none) :
      Moves now s g (.code (.delCooldownAndCode key)) (.ok ()) (del s key) none
  | other (c : Command) (reply : Except Failure (Reply c)) (idle : g = none)
      (write : writeOf c reply = none) (read : readOf lib q c reply = none)
      (spent : spentOf c reply = none) : Moves now s g c reply s none

theorem moves_error (now : ℕ) (s : Store CodeKey CodePayload) (g : Option Comparison)
    (c : Command) (e : Failure) (ha : allows q g c) :
    Moves lib q now s g c (.error e) s (next lib q g c (.error e)) := by
  cases g with
  | none =>
    have hn : next lib q none c (.error e) = none := by
      unfold next
      split <;> first | rfl | contradiction
    rw [hn]
    apply Moves.other _ _ rfl
    · unfold writeOf
      split <;> first | rfl | contradiction
    · unfold readOf
      split <;> first | rfl | contradiction
    · unfold spentOf
      split <;> first | rfl | contradiction
  | some seen =>
    have hn : next lib q (some seen) c (.error e) = none := by
      cases c with
      | code c => cases c <;> rfl
      | _ => exact absurd ha id
    rw [hn]
    exact .fail c e seen rfl ha

theorem moves_code (now : ℕ) (s : CodeStore) (g : Option Comparison) (c : CodeCall)
    (ha : allows q g (.code c)) :
    Moves lib q now s.code g (.code c) (.ok (c.perform now s).1) (c.perform now s).2.code
      (next lib q g (.code c) (.ok (c.perform now s).1)) := by
  cases c with
  | setCooldown key ttl =>
    have hs : (CodeCall.perform now (.setCooldown key ttl) s).2.code = s.code := by
      simp only [CodeCall.perform]
      split <;> rfl
    rw [hs]
    cases g with
    | none => exact .other _ _ rfl rfl rfl rfl
    | some seen => exact absurd ha id
  | setCode key payload ttl =>
    cases g with
    | none =>
      obtain ⟨digest, attempts⟩ := payload
      obtain ⟨-, rfl⟩ := ha
      exact .send key digest ttl rfl
    | some seen =>
      obtain ⟨k, payload', v⟩ := seen
      obtain ⟨rfl, rfl, hlt, rfl⟩ := ha
      exact .count _ payload' ttl rfl hlt
  | delCooldownAndCode key =>
    cases g with
    | none => exact .discard key rfl
    | some seen => exact absurd ha id
  | getCode key =>
    cases g with
    | none =>
      rcases hp : get now s.code key with _ | payload
      · simp only [CodeCall.perform, hp]
        exact .other _ _ rfl rfl rfl rfl
      · simp only [CodeCall.perform, hp]
        exact .compare key payload rfl hp
    | some seen => exact absurd ha id
  | ttlCode key =>
    cases g with
    | none => exact .other _ _ rfl rfl rfl rfl
    | some seen =>
      obtain ⟨k, payload, v⟩ := seen
      obtain ⟨rfl, rfl⟩ := ha
      exact .wait _ payload _ rfl
  | delCode key =>
    cases g with
    | none => exact absurd ha id
    | some seen =>
      obtain ⟨k, payload, v⟩ := seen
      obtain ⟨rfl, hv⟩ := ha
      exact .spend _ payload v rfl hv

theorem moves_idle {now : ℕ} {s : Store CodeKey CodePayload} {g : Option Comparison} {c : Command}
    {reply : Except Failure (Reply c)} (ha : allows q g c)
    (hn : next lib q g c reply = g) (hc : ∀ d, c ≠ .code d) :
    Moves lib q now s g c reply s (next lib q g c reply) := by
  cases g with
  | none =>
    rw [hn]
    cases c with
    | code c => exact absurd rfl (hc c)
    | _ => exact .other _ _ rfl rfl rfl rfl
  | some seen =>
    cases c with
    | code c => exact absurd rfl (hc c)
    | _ => exact absurd ha id

theorem moves_of_perform (w w' : World) (g : Option Comparison) (c : Command) (x : Choice)
    (reply : Except Failure (Reply c)) (ha : allows q g c)
    (hp : perform lib c x w = some (reply, w')) :
    Moves lib q w.now w.codes.code g c reply w'.codes.code (next lib q g c reply) ∧
      w'.now = w.now := by
  unfold perform at hp
  split at hp
  · simp only [Option.some.injEq, Prod.mk.injEq] at hp
    obtain ⟨rfl, rfl⟩ := hp
    exact ⟨moves_error lib q _ _ g c _ ha, rfl⟩
  · cases c with
    | tokenUrlsafe | uuid4 =>
      simp only [answer] at hp
      split at hp
      · cases hp
      · cases hp
        exact ⟨moves_idle lib q ha rfl (by rintro _ ⟨⟩), rfl⟩
    | randbelow bound =>
      simp only [answer] at hp
      split at hp
      · cases hp
        exact ⟨moves_idle lib q ha rfl (by rintro _ ⟨⟩), rfl⟩
      · cases hp
    | code c =>
      simp only [answer, Option.some.injEq, Prod.mk.injEq] at hp
      obtain ⟨rfl, rfl⟩ := hp
      exact ⟨moves_code lib q w.now w.codes g c ha, rfl⟩
    | database c =>
      simp only [answer, Option.map_eq_some_iff, Prod.mk.injEq] at hp
      obtain ⟨⟨r, db⟩, -, rfl, rfl⟩ := hp
      exact ⟨moves_idle lib q ha rfl (by rintro _ ⟨⟩), rfl⟩
    | _ =>
      simp only [answer, Option.some.injEq, Prod.mk.injEq] at hp
      obtain ⟨rfl, rfl⟩ := hp
      exact ⟨moves_idle lib q ha rfl (by rintro _ ⟨⟩), rfl⟩

/-! ## Requests that have ended -/

/-- The request of the thread presented a code and has ended. -/
def concluded (s : Service) (j : ℕ) : Bool :=
  match s.threads[j]? with
  | some t => (presented t.request).isSome && finished t.rest
  | none => false

theorem none_of_concluded {s : Service} (hs : Following (contract lib) s) {j : ℕ}
    (h : concluded s j = true) : ghost (contract lib) s.history j = none := by
  unfold concluded at h
  split at h
  case h_1 t ht =>
    obtain ⟨hpresented, hfinished⟩ := Bool.and_eq_true_iff.mp h
    have hkeeps := hs.follows j t ht
    have hq := Option.isSome_iff_ne_none.mp hpresented
    obtain ⟨q, p⟩ := t
    cases p with
    | done a => exact hkeeps hq
    | raised e => exact hkeeps hq
    | call c next => cases hfinished
  case h_2 => cases h

/-- What passes by itself at most removes a stored code. -/
theorem passed_codes (d : Passing) (w : World) (key : CodeKey) (e : Entry CodePayload)
    (h : (passed d w).codes.code key = some e) : w.codes.code key = some e := by
  cases d with
  | evictCode k => exact ((del_eq_some _ _ _ _).mp h).2
  | _ => exact h

end Gamely.CodeMoves
