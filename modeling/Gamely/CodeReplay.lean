import Gamely.CodeGuessing
import Gamely.Replays

/-!
# A code is accepted once

A stored code stands from the command that stores it until it is accepted,
locked by the fourth wrong guess or replaced. A code that is accepted was
standing, provided nothing ends it while another request is still acting on
what it read.
-/

set_option autoImplicit false

namespace Gamely.CodeReplay
open Gamely.Calls Gamely.Stores Gamely.EmailJobs Gamely.Services Gamely.TokenService
open Gamely.AuthService Gamely.Requests Gamely.Interleaving Gamely.Pasts Gamely.Replays
open Gamely.ExpiringStore Gamely.SessionMoves Gamely.CodeContract Gamely.CodeMoves
open Gamely.CodeGuessing

variable (lib : Libraries) (settings : Settings) (key : CodeKey)

/-- With this entry `_consume_code` has returned True to its thread. -/
def Accepted (h : Past) (n : ℕ) (digest : Digest) : Prop := ∃ e code es,
  h[n]? = some e ∧ es <:+ calls (h.take (n+1)) e.thread ∧
    Returns (consumeCode lib key.email key.purpose code) (es.map Step.of) (.ok true) ∧
    lib.sha256 code = digest

/-- A newly sent code, or the fourth wrong guess. -/
def overwrites (c : Command) (reply : Except Failure (Reply c)) : Bool :=
  match writeOf c reply with
  | some (k, payload) => k = key && (payload.attempts = 0 || 4 ≤ payload.attempts)
  | none => false

def sentAt (h : Past) (n : ℕ) : Option Digest :=
  match h[n]? with
  | some e => match writeOf e.command e.reply with
    | some (k, payload) => if k = key ∧ payload.attempts = 0 then some payload.digest else none
    | none => none
  | none => none

/-- What ends a code: it is accepted, locked or replaced. -/
def EndedAt (h : Past) (n : ℕ) : Prop :=
  (h[n]?.any fun e => overwrites key e.command e.reply) = true ∨
    ∃ digest, Accepted lib key h n digest

/-- `_send_code` stored the code and nothing has ended it since. -/
def Standing (h : Past) (digest : Digest) : Prop :=
  ∃ n < h.length, sentAt key h n = some digest ∧
    ∀ m < h.length, n < m → ¬EndedAt lib key h m

/-- The request has read a usable code and its outcome is still to be written. -/
def inside (g : Option Comparison) : Bool :=
  g.any fun seen => seen.key = key && seen.verdict ≠ .locked

/-- No other request is between its read of a usable code and its end. -/
def Alone (s : Service) (i : ℕ) : Prop :=
  ∀ e ∈ s.history, e.thread ≠ i →
    inside key (ghost (contract lib) s.history e.thread) = true → concluded s e.thread = true

instance (s : Service) (i : ℕ) : Decidable (Alone lib key s i) :=
  inferInstanceAs (Decidable (∀ e ∈ s.history, _ → _ → _))

/-- The command replaces, locks or takes the code. -/
def ending (g : Option Comparison) : Command → Bool
  | .code (.setCode k payload _) =>
    k = key && (payload.attempts = 0 || 4 ≤ payload.attempts)
  | .code (.delCode k) => k = key && inside key g
  | _ => false

/-- A code ends only while no other request is acting on what it read. -/
def Undisturbed (s : Service) (i : ℕ) (x : Choice) (_q : Request) (c : Command) : Prop :=
  x.fail = false → ending key (ghost (contract lib) s.history i) c = true → Alone lib key s i

instance (s : Service) (i : ℕ) (x : Choice) (q : Request) (c : Command) :
    Decidable (Undisturbed lib key s i x q c) :=
  inferInstanceAs (Decidable (_ → _ → _))

/-! ## Accepted codes -/

variable {lib settings key} {h : Past} {e : Occurrence} {digest : Digest}

theorem returns_consumeCode {code : String} {es : List (Step Command Reply Failure)}
    (hr : Returns (consumeCode lib key.email key.purpose code) es (.ok true)) :
    ∃ attempts < 4, es = [⟨.code (.getCode key), .ok (some ⟨lib.sha256 code, attempts⟩)⟩,
      ⟨.code (.delCode key), .ok ()⟩] := by
  obtain ⟨found, rest, rfl, hr⟩ := hr
  rcases found with e | _ | ⟨digest, attempts⟩
  · cases hr.2
  · cases hr.2
  · dsimp only [ofResult, Calls.bind] at hr
    split at hr
    case isTrue =>
      obtain ⟨reply, rest, rfl, hr⟩ := hr
      cases reply <;> cases hr.2
    case isFalse hfree =>
      split at hr
      case isTrue =>
        obtain ⟨ttl, rest, rfl, hr⟩ := hr
        cases ttl with
        | error e => cases hr.2
        | ok ttl =>
          obtain ⟨reply, rest, rfl, hr⟩ := hr
          cases reply <;> cases hr.2
      case isFalse heq =>
        obtain rfl : digest = lib.sha256 code := not_not.mp heq
        obtain ⟨reply, rest, rfl, hr⟩ := hr
        cases reply with
        | error e => cases hr.2
        | ok u =>
          obtain ⟨rfl, -⟩ := hr
          exact ⟨attempts, Nat.lt_of_not_le hfree, rfl⟩

/-- A code is accepted by deleting it after its comparison. -/
theorem spend_of_accepted (ha : allows e.request (ghost (contract lib) h e.thread) e.command)
    (hd : Accepted lib key (h ++ [e]) h.length digest) :
    spentOf e.command e.reply = some key ∧ ∃ attempts,
      ghost (contract lib) h e.thread = some ⟨key, ⟨digest, attempts⟩, .right⟩ := by
  obtain ⟨e', code, es, he, hes, hr, rfl⟩ := hd
  rw [List.getElem?_concat_length, Option.some.injEq] at he
  subst he
  rw [List.take_of_length_le (by simp), calls_append, if_pos rfl] at hes
  obtain ⟨attempts, hlt, hcalls⟩ := returns_consumeCode hr
  obtain ⟨read, rest, rfl, hread, hrest⟩ := List.map_eq_cons_iff.mp hcalls
  obtain ⟨last, rest, rfl, hlast, hrest⟩ := List.map_eq_cons_iff.mp hrest
  obtain rfl := List.map_eq_nil_iff.mp hrest
  obtain ⟨before, hes⟩ := hes
  have hsplit : (before ++ [read]) ++ [last] = calls h e.thread ++ [e] := by simpa using hes
  obtain ⟨hbefore, hsame⟩ := List.append_inj' hsplit rfl
  obtain rfl : last = e := by simpa using hsame
  obtain ⟨g, hg⟩ := @ghost_last _ _ _ _ _ _ (contract lib) _ _ _ _ hbefore.symm
  obtain ⟨i, q, c, reply⟩ := read
  cases hread
  have hg : ghost (contract lib) h last.thread =
      some ⟨key, ⟨lib.sha256 code, attempts⟩, verdict lib q ⟨lib.sha256 code, attempts⟩⟩ := hg
  obtain ⟨j, q', c, reply⟩ := last
  cases hlast
  rw [hg] at ha ⊢
  obtain ⟨-, hv⟩ := ha
  refine ⟨rfl, attempts, ?_⟩
  have hright : verdict lib q ⟨lib.sha256 code, attempts⟩ = .right := by
    unfold verdict at hv ⊢
    rw [if_neg (Nat.not_le_of_lt hlt)] at hv ⊢
    split
    case isTrue => rfl
    case isFalse hne => exact absurd (if_neg hne) hv
  rw [hright]

theorem accepted_append {n : ℕ} (hn : n < h.length) :
    Accepted lib key (h ++ [e]) n digest ↔ Accepted lib key h n digest := by
  unfold Accepted
  rw [List.getElem?_append_left hn, List.take_append_of_le_length hn]

/-! ## Standing codes along a run -/

theorem sentAt_append {n : ℕ} (hn : n < h.length) : sentAt key (h ++ [e]) n = sentAt key h n := by
  simp only [sentAt, List.getElem?_append_left hn]

theorem endedAt_append {n : ℕ} (hn : n < h.length) :
    EndedAt lib key (h ++ [e]) n ↔ EndedAt lib key h n := by
  simp only [EndedAt, List.getElem?_append_left hn, accepted_append hn]

theorem standing_carry (hs : Standing lib key h digest)
    (he : ¬EndedAt lib key (h ++ [e]) h.length) : Standing lib key (h ++ [e]) digest := by
  obtain ⟨n, hn, hsent, hrest⟩ := hs
  refine ⟨n, by simp; omega, by rwa [sentAt_append hn], ?_⟩
  intro m hm hnm
  simp only [List.length_append, List.length_singleton] at hm
  by_cases hml : m < h.length
  · rw [endedAt_append hml]
    exact hrest m hml hnm
  · obtain rfl : m = h.length := by omega
    exact he

theorem standing_sent {payload : CodePayload} (hw : writeOf e.command e.reply = some (key, payload))
    (ha : payload.attempts = 0) : Standing lib key (h ++ [e]) payload.digest := by
  refine ⟨h.length, by simp, by simp [sentAt, hw, ha], ?_⟩
  intro m hm hlt
  simp only [List.length_append, List.length_singleton] at hm
  omega

/-- What the key holds and what requests act on stands. -/
structure Sound (lib : Libraries) (key : CodeKey) (s : Store CodeKey CodePayload)
    (hand : ℕ → Option Comparison) (h : Past) : Prop where
  stored : ∀ e, s key = some e → e.value.attempts < 4 → Standing lib key h e.value.digest
  held : ∀ j seen v, hand j = some ⟨key, seen, v⟩ → v ≠ .locked →
    Standing lib key h seen.digest
  accepted : ∀ n d, Accepted lib key h n d → Standing lib key (h.take n) d

variable {s s' : Store CodeKey CodePayload} {hand : ℕ → Option Comparison} {i now : ℕ}
variable {q : Request} {c : Command} {reply : Except Failure (Reply c)} {g : Option Comparison}

theorem sound_initial : Sound lib key ExpiringStore.empty (fun _ => none) [] where
  stored := fun e he => by cases he
  held := fun j seen v hj => by cases hj
  accepted := by
    rintro n d ⟨e, _, _, he, -⟩
    simp at he

theorem accepted_standing (hs : Sound lib key s hand h)
    (hnew : ∀ d, Accepted lib key (h ++ [e]) h.length d → Standing lib key h d) (n : ℕ)
    (d : Digest) (hd : Accepted lib key (h ++ [e]) n d) :
    Standing lib key ((h ++ [e]).take n) d := by
  rcases Nat.lt_trichotomy n h.length with hlt | heq | hgt
  · rw [accepted_append hlt] at hd
    rw [List.take_append_of_le_length (Nat.le_of_lt hlt)]
    exact hs.accepted n d hd
  · subst heq
    rw [List.take_left]
    exact hnew d hd
  · have hnone : (h ++ [e])[n]? = none := by
      rw [List.getElem?_eq_none_iff, List.length_append, List.length_singleton]
      omega
    obtain ⟨e', _, _, he, -⟩ := hd
    rw [hnone] at he
    cases he

/-- Nothing ends; what is stored and held stood before. -/
theorem sound_carry (hs : Sound lib key s (ghost (contract lib) h) h)
    (he : ¬EndedAt lib key (h ++ [⟨i, q, c, reply⟩]) h.length)
    (stored : ∀ e, s' key = some e → e.value.attempts < 4 → Standing lib key h e.value.digest)
    (held : ∀ seen v, g = some ⟨key, seen, v⟩ → v ≠ .locked → Standing lib key h seen.digest) :
    Sound lib key s' (Function.update (ghost (contract lib) h) i g)
      (h ++ [⟨i, q, c, reply⟩]) := by
  have carry : ∀ d, Standing lib key h d →
      Standing lib key (h ++ [(⟨i, q, c, reply⟩ : Occurrence)]) d :=
    fun d hd => standing_carry hd he
  constructor
  · exact fun e hst hlt => carry _ (stored e hst hlt)
  · intro j seen v hj hv
    apply carry
    by_cases hji : j = i
    · subst hji
      rw [Function.update_self] at hj
      exact held seen v hj hv
    · rw [Function.update_of_ne hji] at hj
      exact hs.held j seen v hj hv
  · exact accepted_standing hs (fun d hd => absurd (Or.inr ⟨d, hd⟩) he)

/-- The code ends while no other request acts on it. -/
theorem sound_end (hs : Sound lib key s (ghost (contract lib) h) h)
    (alone : ∀ j, j ≠ i → inside key (ghost (contract lib) h j) = false)
    (stored : ∀ e, s' key = some e → e.value.attempts < 4 →
      Standing lib key (h ++ [⟨i, q, c, reply⟩]) e.value.digest)
    (accepted : ∀ d, Accepted lib key (h ++ [⟨i, q, c, reply⟩]) h.length d →
      Standing lib key h d) :
    Sound lib key s' (Function.update (ghost (contract lib) h) i none)
      (h ++ [⟨i, q, c, reply⟩]) := by
  constructor
  · exact stored
  · intro j seen v hj hv
    by_cases hji : j = i
    · subst hji
      rw [Function.update_self] at hj
      cases hj
    · rw [Function.update_of_ne hji] at hj
      have hin := alone j hji
      simp [inside, hj, hv] at hin
  · exact accepted_standing hs accepted

theorem not_ended (ho : overwrites key c reply = false)
    (ha : ∀ d, ¬Accepted lib key (h ++ [⟨i, q, c, reply⟩]) h.length d) :
    ¬EndedAt lib key (h ++ [⟨i, q, c, reply⟩]) h.length := by
  rintro (h | ⟨d, hd⟩)
  · simp [ho] at h
  · exact ha d hd

theorem overwrites_quiet (hw : writeOf c reply = none) : overwrites key c reply = false := by
  rw [overwrites, hw]

theorem sound_sent {k : CodeKey} {digest : Digest} {ttl : ℕ}
    (hs : Sound lib key s (ghost (contract lib) h) h)
    (keeps : ∀ d, ¬Accepted lib key
      (h ++ [⟨i, q, .code (.setCode k ⟨digest, 0⟩ ttl), .ok ()⟩]) h.length d)
    (alone : k = key → ∀ j, j ≠ i → inside key (ghost (contract lib) h j) = false) :
    Sound lib key (set s k ⟨digest, 0⟩ (ex now ttl))
      (Function.update (ghost (contract lib) h) i none)
      (h ++ [⟨i, q, .code (.setCode k ⟨digest, 0⟩ ttl), .ok ()⟩]) := by
  by_cases hk : k = key
  · subst hk
    apply sound_end hs (alone rfl)
    · intro e he _
      rw [set_self, Option.some.injEq] at he
      subst he
      have hsent : Standing lib k (h ++ [⟨i, q, .code (.setCode k ⟨digest, 0⟩ ttl), .ok ()⟩])
          (⟨digest, 0⟩ : CodePayload).digest := standing_sent rfl rfl
      exact hsent
    · exact fun d hd => absurd hd (keeps d)
  · apply sound_carry hs
    · exact not_ended (by simp [overwrites, writeOf, hk]) keeps
    · exact fun e he => hs.stored e (by rwa [set_ne s k _ _ (Ne.symm hk)] at he)
    · exact fun seen v hg => by cases hg

/-- The last wrong guess ends the code; an earlier one leaves the code it was compared with. -/
theorem sound_counted {k : CodeKey} {seen : CodePayload} {ttl : ℕ}
    (hs : Sound lib key s (ghost (contract lib) h) h)
    (wrong : ghost (contract lib) h i = some ⟨k, seen, .wrong⟩)
    (keeps : ∀ d, ¬Accepted lib key
      (h ++ [⟨i, q, .code (.setCode k ⟨seen.digest, seen.attempts+1⟩ ttl), .ok ()⟩])
        h.length d)
    (alone : k = key → 4 ≤ seen.attempts+1 →
      ∀ j, j ≠ i → inside key (ghost (contract lib) h j) = false) :
    Sound lib key (set s k ⟨seen.digest, seen.attempts+1⟩ (ex now ttl))
      (Function.update (ghost (contract lib) h) i none)
      (h ++ [⟨i, q, .code (.setCode k ⟨seen.digest, seen.attempts+1⟩ ttl), .ok ()⟩]) := by
  by_cases hk : k = key
  · subst hk
    by_cases hlast : 4 ≤ seen.attempts+1
    · apply sound_end hs (alone rfl hlast)
      · intro e he hlt
        rw [set_self, Option.some.injEq] at he
        subst he
        exact absurd hlt (Nat.not_lt.mpr hlast)
      · exact fun d hd => absurd hd (keeps d)
    · apply sound_carry hs
      · exact not_ended (by simp [overwrites, writeOf, hlast]) keeps
      · intro e he _
        rw [set_self, Option.some.injEq] at he
        subst he
        exact hs.held i seen .wrong wrong (by simp)
      · exact fun seen v hg => by cases hg
  · apply sound_carry hs
    · exact not_ended (by simp [overwrites, writeOf, hk]) keeps
    · exact fun e he => hs.stored e (by rwa [set_ne s k _ _ (Ne.symm hk)] at he)
    · exact fun seen v hg => by cases hg

/-- Only the deletion after a right guess accepts the code. -/
theorem sound_spent {k : CodeKey} {seen : CodePayload} {v : Verdict}
    (hs : Sound lib key s (ghost (contract lib) h) h)
    (hi : ghost (contract lib) h i = some ⟨k, seen, v⟩)
    (spends : ∀ d, Accepted lib key
        (h ++ [⟨i, q, .code (.delCode k), .ok ()⟩]) h.length d →
      ∃ attempts, (⟨k, seen, v⟩ : Comparison) = ⟨key, ⟨d, attempts⟩, .right⟩)
    (alone : v = .right → k = key →
      ∀ j, j ≠ i → inside key (ghost (contract lib) h j) = false) :
    Sound lib key (del s k) (Function.update (ghost (contract lib) h) i none)
      (h ++ [⟨i, q, .code (.delCode k), .ok ()⟩]) := by
  by_cases hright : v = .right ∧ k = key
  · obtain ⟨rfl, rfl⟩ := hright
    apply sound_end hs (alone rfl rfl)
    · exact fun e he => absurd he (by simp)
    · intro d hd
      obtain ⟨attempts, heq⟩ := spends d hd
      rw [Comparison.mk.injEq] at heq
      obtain ⟨-, rfl, -⟩ := heq
      exact hs.held i _ .right hi (by simp)
  · apply sound_carry hs
    · apply not_ended rfl
      intro d hd
      obtain ⟨attempts, heq⟩ := spends d hd
      rw [Comparison.mk.injEq] at heq
      exact hright ⟨heq.2.2, heq.1⟩
    · exact fun e he => hs.stored e ((del_eq_some _ _ _ _).mp he).2
    · exact fun seen v hg => by cases hg

theorem sound_of_move (hs : Sound lib key s (ghost (contract lib) h) h)
    (ha : allows q (ghost (contract lib) h i) c)
    (hm : Moves lib q now s (ghost (contract lib) h i) c reply s' g)
    (alone : (∃ r, reply = .ok r) → ending key (ghost (contract lib) h i) c = true →
      ∀ j, j ≠ i → inside key (ghost (contract lib) h j) = false) :
    Sound lib key s' (Function.update (ghost (contract lib) h) i g)
      (h ++ [⟨i, q, c, reply⟩]) := by
  have spends : ∀ d, Accepted lib key (h ++ [⟨i, q, c, reply⟩]) h.length d →
      spentOf c reply = some key ∧ ∃ attempts,
        ghost (contract lib) h i = some ⟨key, ⟨d, attempts⟩, .right⟩ :=
    fun d hd => spend_of_accepted ha hd
  have keeps : spentOf c reply = none →
      ∀ d, ¬Accepted lib key (h ++ [⟨i, q, c, reply⟩]) h.length d := by
    intro hnone d hd
    rw [(spends d hd).1] at hnone
    cases hnone
  generalize hi : ghost (contract lib) h i = held at hm alone spends
  cases hm with
  | compare k payload idle stored =>
    apply sound_carry hs (not_ended rfl (keeps rfl)) hs.stored
    intro seen v hg hv
    rw [Option.some.injEq, Comparison.mk.injEq] at hg
    obtain ⟨rfl, rfl, rfl⟩ := hg
    obtain ⟨e, he, rfl⟩ := raw_of_get now s k payload stored
    apply hs.stored e he
    by_contra hlt
    exact hv (if_pos (by omega))
  | send k digest ttl idle =>
    apply sound_sent hs (keeps rfl)
    exact fun hk => alone ⟨(), rfl⟩ (by simp [ending, hk])
  | wait k seen ttl wrong =>
    apply sound_carry hs (not_ended rfl (keeps rfl)) hs.stored
    intro seen' v hg
    exact hs.held i seen' v (hi.trans hg)
  | count k seen ttl wrong free =>
    apply sound_counted hs (hi.trans wrong) (keeps rfl)
    exact fun hk hlast => alone ⟨(), rfl⟩ (by simp [ending, hk, hlast])
  | spend k seen v held spendable =>
    subst held
    apply sound_spent hs hi
    · exact fun d hd => (spends d hd).2.imp (fun _ h => Option.some.inj h)
    · rintro rfl rfl
      exact alone ⟨(), rfl⟩ (by simp [ending, inside])
  | fail c e seen held acts =>
    have hw : writeOf c (.error e) = none := by
      unfold writeOf
      split <;> first | rfl | contradiction
    have hsp : spentOf c (.error e) = none := by
      unfold spentOf
      split <;> first | rfl | contradiction
    apply sound_carry hs (not_ended (overwrites_quiet hw) (keeps hsp)) hs.stored
    exact fun seen v hg => by cases hg
  | discard k idle =>
    apply sound_carry hs (not_ended rfl (keeps rfl))
    · exact fun e he => hs.stored e ((del_eq_some _ _ _ _).mp he).2
    · exact fun seen v hg => by cases hg
  | other c reply idle write read spent =>
    apply sound_carry hs (not_ended (overwrites_quiet write) (keeps spent)) hs.stored
    exact fun seen v hg => by cases hg

theorem alone_hands {s : Service} (hf : Following (contract lib) s) (ha : Alone lib key s i)
    (j : ℕ) (hj : j ≠ i) : inside key (ghost (contract lib) s.history j) = false := by
  rw [Bool.eq_false_iff]
  intro hin
  by_cases hev : ∃ e ∈ s.history, e.thread = j
  · obtain ⟨e, he, rfl⟩ := hev
    rw [none_of_concluded lib hf (ha e he hj hin)] at hin
    cases hin
  · rw [ghost_unspawned s.history j (fun e he hej => hev ⟨e, he, hej⟩)] at hin
    cases hin

def Orderly (lib : Libraries) (key : CodeKey) (s : Service)
    (l : Label Request Choice Passing) : Prop :=
  OnCall (Undisturbed lib key) s l ∧ Following (contract lib) s

theorem sound_preserved (lib : Libraries) (settings : Settings) (key : CodeKey) :
    Preserved (service lib settings) (contract lib) (Orderly lib key)
      (fun w h => Sound lib key w.codes.code (ghost (contract lib) h) h) where
  call := by
    rintro s i x q c reply w hs hu ha hp ⟨hcond, hfollow⟩
    obtain ⟨hm, -⟩ := moves_of_perform lib q _ _ _ c x reply ha hp
    rw [ghost_append]
    apply sound_of_move hs ha hm
    intro hok hends
    have hcode : c.isLocal = false := by
      cases c with
      | code c => rfl
      | _ => cases hends
    exact alone_hands hfollow (onCall_run hu hcond (answered_of_ok hcode hok hp) hends)
  pass := by
    intro s d hs _
    exact ⟨fun e he => hs.stored e (passed_codes d _ _ _ he), hs.held, hs.accepted⟩

/-- In a run in which codes end undisturbed, an accepted code was standing: it had
been sent and not been accepted, locked or replaced since. -/
theorem code_accepted_once (lib : Libraries) (settings : Settings) (key : CodeKey) (now : ℕ)
    (database : Database) (ls : List (Label Request Choice Passing))
    (hm : Meets (service lib settings) (OnCall (Undisturbed lib key)) ls
      (initial (World.fresh now database))) :
    let h := (run (service lib settings) ls (initial (World.fresh now database))).history
    ∀ n digest, Accepted lib key h n digest → Standing lib key (h.take n) digest := by
  intro h
  exact (invariant_run (obeys lib settings) (sound_preserved lib settings key) ls _
    (following_initial _) sound_initial
    (meets_and ls _ hm (meets_following (obeys lib settings) ls _ (following_initial _)))).accepted

/-! ## Presented twice -/

variable (lib key) in
/-- The digest of a code whose thread read it and then deletes the key. -/
def takenAt (h : Past) (n : ℕ) : Option Digest := do
  let e ← h[n]?
  let read ← (calls (h.take n) e.thread).getLast?
  let seen ← readOf lib read.request read.command read.reply
  if seen.key = key ∧ seen.payload.attempts < 4 ∧ spentOf e.command e.reply = some key then
    some seen.payload.digest
  else none

theorem accepted_of_taken {n : ℕ} {code : String}
    (ht : takenAt lib key h n = some (lib.sha256 code)) :
    Accepted lib key h n (lib.sha256 code) := by
  obtain ⟨⟨i, q, c, reply⟩, he, hthread⟩ := Option.bind_eq_some_iff.mp ht
  obtain ⟨⟨j, q', c', reply'⟩, hread, hcode⟩ := Option.bind_eq_some_iff.mp hthread
  obtain ⟨⟨k, payload, v⟩, hseen, htaken⟩ := Option.bind_eq_some_iff.mp hcode
  clear ht hthread hcode
  split at htaken
  case isFalse => cases htaken
  case isTrue hc =>
    obtain ⟨rfl, hlt, hspent⟩ := hc
    obtain ⟨before, hbefore⟩ := List.getLast?_eq_some_iff.mp hread
    obtain ⟨hget, -⟩ := readOf_eq_some hseen
    obtain ⟨hdel, -⟩ := spentOf_eq_some hspent
    subst hget hdel
    rcases reply with e | u
    · cases hspent
    rcases reply' with e | found
    · cases hseen
    obtain ⟨p, rfl, hp⟩ := Option.map_eq_some_iff.mp hseen
    rw [Comparison.mk.injEq] at hp
    obtain ⟨-, rfl, -⟩ := hp
    obtain ⟨digest, attempts⟩ := p
    obtain rfl : digest = lib.sha256 code := Option.some.inj htaken
    have hlast : calls (h.take (n+1)) i = before ++ [⟨j, q', .code (.getCode k),
        .ok (some ⟨lib.sha256 code, attempts⟩)⟩, ⟨i, q, .code (.delCode k), .ok ()⟩] := by
      rw [List.take_add_one, he, Option.toList_some, calls_append, if_pos rfl, hbefore]
      simp
    refine ⟨_, code, _, he, ⟨before, hlast.symm⟩, ⟨_, _, rfl, ?_⟩, rfl⟩
    dsimp only [ofResult, Calls.bind]
    rw [if_neg (Nat.not_le_of_lt hlt), if_neg (not_not.mpr rfl)]
    exact ⟨_, _, rfl, rfl, rfl⟩

/-- Two requests present the code one after the other; the second finds it gone. -/
def presentedInTurn : List (Label Request Choice Passing) :=
  codeSent ++ [1, 2].flatMap (fun i =>
    .spawn (.resetPassword "a@b" "000000" "longer password") ::
      steps i ["", "", "", "", "", "", "", "", ""])

theorem code_accepted_once_in_turn :
    let h := (run (service plainLibraries plainSettings) presentedInTurn
      (initial (World.fresh 0 oneAccount))).history
    ∀ n digest, Accepted plainLibraries resetKey h n digest →
      Standing plainLibraries resetKey (h.take n) digest :=
  code_accepted_once plainLibraries plainSettings resetKey 0 oneAccount presentedInTurn
    (by decide +kernel)

/-- Both requests read the code before either deletes it. -/
def presentedAtOnce : List (Label Request Choice Passing) :=
  codeSent ++ List.replicate 2 (.spawn (.resetPassword "a@b" "000000" "longer password")) ++
    [1, 2].flatMap (fun i => steps i ["", ""]) ++ [1, 2].flatMap (fun i => steps i [""])

theorem code_accepted_twice :
    ¬ ∀ (lib : Libraries) (settings : Settings) (key : CodeKey) (now : ℕ) (database : Database)
      (ls : List (Label Request Choice Passing)),
      (∀ l ∈ ls, faultless l ∧ spawns onCodes l) →
      let h := (run (service lib settings) ls (initial (World.fresh now database))).history
      ∀ n digest, Accepted lib key h n digest → Standing lib key (h.take n) digest := by
  intro hall
  have hserved : ∀ l ∈ presentedAtOnce, faultless l ∧ spawns onCodes l := by decide +kernel
  have htwice := hall plainLibraries plainSettings resetKey 0 oneAccount presentedAtOnce hserved
  generalize hh : (run (service plainLibraries plainSettings) presentedAtOnce
    (initial (World.fresh 0 oneAccount))).history = h at htwice
  have taken : takenAt plainLibraries resetKey (h.take 13) 12 = some "000000" ∧
      takenAt plainLibraries resetKey h 13 = some "000000" := by
    rw [← hh]
    decide +kernel
  have hlength : (h.take 13).length = 13 := by
    rw [← hh]
    decide +kernel
  have hsent : ∀ n < 13, sentAt resetKey (h.take 13) n ≠ none → n < 12 := by
    rw [← hh]
    decide +kernel
  have hfirst : Accepted plainLibraries resetKey (h.take 13) 12 (plainLibraries.sha256 "000000") :=
    accepted_of_taken taken.1
  have hsecond : Accepted plainLibraries resetKey h 13 (plainLibraries.sha256 "000000") :=
    accepted_of_taken taken.2
  obtain ⟨n, hn, hs, hrest⟩ := htwice 13 "000000" hsecond
  rw [hlength] at hn hrest
  apply hrest 12 (by decide) (hsent n hn (by rw [hs]; exact Option.some_ne_none _))
  exact Or.inr ⟨"000000", hfirst⟩

end Gamely.CodeReplay
