import Gamely.CodeMoves

/-!
# Guesses against one code

The attempt counter is read by one command and written by a later one. As long
as no wrong guess reads it while another is still to be written, the counter
bounds the wrong guesses and the fourth one locks the code.
-/

set_option autoImplicit false

namespace Gamely.CodeGuessing
open Gamely.Calls Gamely.Stores Gamely.EmailJobs Gamely.Services Gamely.TokenService
open Gamely.Requests Gamely.Interleaving Gamely.ExpiringStore
open Gamely.SessionMoves Gamely.CodeContract Gamely.CodeMoves

/-- The guesses at one code since `_send_code` last stored it. `wrong` is how many
were compared with its digest without a match. `reading` are the threads that read
it to compare it with another code and have made no call since, `counting` those
whose wrong guess is still to be written, and `lost` tells that one never will be. -/
structure Tally where
  wrong : ℕ
  reading : List ℕ
  counting : List ℕ
  lost : Bool
  deriving DecidableEq, Repr

/-- A thread goes on from its read: unless it deletes the key, it has compared. -/
def Tally.moved (t : Tally) (thread : ℕ) (turnedAway : Bool) : Tally :=
  if thread ∈ t.reading then
    { t with
      wrong := if turnedAway then t.wrong else t.wrong+1
      reading := t.reading.filter (· ≠ thread) }
  else t

def Tally.sent (t : Tally) : Tally := { t with wrong := 0, reading := [], lost := false }

def Tally.counted (t : Tally) (thread : ℕ) : Tally :=
  { t with counting := t.counting.filter (· ≠ thread) }

/-- A guess that is not written is not missed when the code was sent anew since. -/
def Tally.failed (t : Tally) (thread : ℕ) : Tally :=
  if thread ∈ t.counting then
    { t with counting := t.counting.filter (· ≠ thread), lost := t.lost || t.wrong ≠ 0 }
  else t

def Tally.guessed (t : Tally) (thread : ℕ) (free : Bool) : Tally :=
  { t with
    reading := thread :: t.reading
    counting := if free then thread :: t.counting else t.counting }

def deletes (key : CodeKey) : Command → Bool
  | .code (.delCode k) => k = key
  | _ => false

variable (lib : Libraries) (settings : Settings) (key : CodeKey) (digest : Digest)

/-- The read of a request that presents another code. -/
def guess (q : Request) (seen : Comparison) : Bool :=
  seen.key = key && seen.payload.digest = digest && (presented q).map lib.sha256 ≠ some digest

def tally (t : Tally) (e : Occurrence) : Tally :=
  let t := t.moved e.thread (deletes key e.command)
  match writeOf e.command e.reply, readOf lib e.request e.command e.reply, e.reply with
  | some (k, payload), _, _ =>
    if k = key then (if payload = ⟨digest, 0⟩ then t.sent else t.counted e.thread) else t
  | none, some seen, _ =>
    if guess lib key digest e.request seen then t.guessed e.thread (seen.payload.attempts < 4)
    else t
  | none, none, .error _ => t.failed e.thread
  | none, none, .ok _ => t

def tallied (h : Past) : Tally := h.foldl (tally lib key digest) ⟨0, [], [], false⟩

/-- The call reads the code for a wrong guess that will be counted. -/
def guesses (w : World) (q : Request) : Command → Bool
  | .code (.getCode k) => k = key && ((get w.now w.codes.code key).any
      fun payload => payload.digest = digest && verdict lib q payload = .wrong)
  | _ => false

/-- A wrong guess reads the counter only when the request of no wrong guess before it
is still under way and none of them went without being written. -/
def Counted (s : Service) (_i : ℕ) (x : Choice) (q : Request) (c : Command) : Prop :=
  x.fail = false → guesses lib key digest s.world q c = true →
    (tallied lib key digest s.history).lost = false ∧
      ∀ j ∈ (tallied lib key digest s.history).counting, concluded s j = true

instance (s : Service) (i : ℕ) (x : Choice) (q : Request) (c : Command) :
    Decidable (Counted lib key digest s i x q c) :=
  inferInstanceAs (Decidable (_ → _ → _ ∧ ∀ j ∈ _, _))

/-! ## The counter bounds the wrong guesses -/

structure Bounded (s : Store CodeKey CodePayload) (hand : ℕ → Option Comparison) (t : Tally) :
    Prop where
  four : t.wrong ≤ 4
  stored : ∀ e, s key = some e → e.value.digest = digest → t.counting = [] → t.lost = false →
    t.wrong ≤ e.value.attempts
  reading : ∀ j ∈ t.reading, ∃ seen v, hand j = some ⟨key, seen, v⟩ ∧ seen.digest = digest ∧
    v ≠ .right
  counting : ∀ j ∈ t.counting, ∃ seen, hand j = some ⟨key, seen, .wrong⟩ ∧
    seen.digest = digest ∧ seen.attempts < 4 ∧ t.wrong ≤ seen.attempts+1 ∧
    (j ∈ t.reading → t.wrong ≤ seen.attempts)
  pending : ∀ j seen, hand j = some ⟨key, seen, .wrong⟩ → seen.digest = digest → j ∈ t.counting
  single : ∀ j ∈ t.counting, ∀ k ∈ t.counting, j = k

variable {lib settings key digest} {s s' : Store CodeKey CodePayload}
variable {hand : ℕ → Option Comparison} {t : Tally} {i now : ℕ} {g : Option Comparison}

theorem wrong_iff {q : Request} {payload : CodePayload} : verdict lib q payload = .wrong ↔
    payload.attempts < 4 ∧ (presented q).map lib.sha256 ≠ some payload.digest := by
  unfold verdict
  split
  case isTrue h => simp [Nat.not_lt.mpr h]
  case isFalse h =>
    have hlt : payload.attempts < 4 := Nat.lt_of_not_le h
    split
    case isTrue heq => simp [heq]
    case isFalse hne => simp [hlt, hne]

theorem presented_of_right {q : Request} {payload : CodePayload}
    (h : verdict lib q payload = .right) :
    (presented q).map lib.sha256 = some payload.digest := by
  unfold verdict at h
  split at h
  · cases h
  · split at h
    · assumption
    · cases h

theorem bounded_initial :
    Bounded key digest ExpiringStore.empty (fun _ => none) ⟨0, [], [], false⟩ where
  four := by decide
  stored := fun e he => by cases he
  reading := fun j hj => by cases hj
  counting := fun j hj => by cases hj
  pending := fun j seen hj => by cases hj
  single := fun j hj => by cases hj

/-- The thread acts on no read of the code. -/
def Free (t : Tally) (i : ℕ) : Prop := i ∉ t.reading ∧ i ∉ t.counting

theorem free_of_hand (hb : Bounded key digest s hand t)
    (hi : ∀ seen v, hand i = some ⟨key, seen, v⟩ → seen.digest = digest → v = .right) :
    Free t i := by
  constructor
  · intro h
    obtain ⟨seen, v, hg, hd, hv⟩ := hb.reading i h
    exact hv (hi seen v hg hd)
  · intro h
    obtain ⟨seen, hg, hd, -⟩ := hb.counting i h
    cases hi seen .wrong hg hd

theorem free_of_idle (hb : Bounded key digest s hand t) (hi : hand i = none) : Free t i :=
  free_of_hand hb (fun seen v hg => by rw [hi] at hg; cases hg)

theorem free_of_held {k : CodeKey} {seen : CodePayload} {v : Verdict}
    (hb : Bounded key digest s hand t) (hi : hand i = some ⟨k, seen, v⟩)
    (h : k = key → seen.digest = digest → v = .right) : Free t i := by
  apply free_of_hand hb
  intro seen' v' hg hd
  rw [hi, Option.some.injEq, Comparison.mk.injEq] at hg
  obtain ⟨rfl, rfl, rfl⟩ := hg
  exact h rfl hd

theorem moved_of_free (hf : Free t i) (turnedAway : Bool) : t.moved i turnedAway = t :=
  if_neg hf.1

theorem failed_of_free (hf : Free t i) : t.failed i = t := if_neg hf.2

theorem counted_of_free (hf : Free t i) : t.counted i = t := by
  have he : t.counting.filter (· ≠ i) = t.counting := by
    apply List.filter_eq_self.mpr
    intro j hj
    simp only [ne_eq, decide_eq_true_eq]
    rintro rfl
    exact hf.2 hj
  rw [Tally.counted, he]

/-- A step of a thread that acts on no read of the code and begins none. -/
theorem bounded_frame (hb : Bounded key digest s hand t) (hf : Free t i)
    (hs : ∀ e, s' key = some e → e.value.digest = digest → s key = some e)
    (hg : ∀ seen, g = some ⟨key, seen, .wrong⟩ → seen.digest ≠ digest) :
    Bounded key digest s' (Function.update hand i g) t where
  four := hb.four
  stored := fun e he hd => hb.stored e (hs e he hd) hd
  reading := by
    intro j hj
    rw [Function.update_of_ne (ne_of_mem_of_not_mem hj hf.1)]
    exact hb.reading j hj
  counting := by
    intro j hj
    rw [Function.update_of_ne (ne_of_mem_of_not_mem hj hf.2)]
    exact hb.counting j hj
  pending := by
    intro j seen hj hd
    by_cases hji : j = i
    · subst hji
      rw [Function.update_self] at hj
      exact absurd hd (hg seen hj)
    · rw [Function.update_of_ne hji] at hj
      exact hb.pending j seen hj hd
  single := hb.single

theorem mem_filter_ne {l : List ℕ} {i j : ℕ} : j ∈ l.filter (· ≠ i) ↔ j ∈ l ∧ j ≠ i := by
  simp [List.mem_filter]

theorem bounded_turned (hb : Bounded key digest s hand t) (hi : i ∉ t.counting)
    (hs : ∀ e, s' key = some e → s key = some e) :
    Bounded key digest s' (Function.update hand i none) (t.moved i true) := by
  by_cases hread : i ∈ t.reading
  · rw [Tally.moved, if_pos hread]
    constructor
    · exact hb.four
    · exact fun e he => hb.stored e (hs e he)
    · intro j hj
      obtain ⟨hj, hji⟩ := mem_filter_ne.mp hj
      rw [Function.update_of_ne hji]
      exact hb.reading j hj
    · intro j hj
      have hji : j ≠ i := ne_of_mem_of_not_mem hj hi
      rw [Function.update_of_ne hji]
      obtain ⟨seen, hg, hd, hlt, hle, hr⟩ := hb.counting j hj
      exact ⟨seen, hg, hd, hlt, hle, fun h => hr (mem_filter_ne.mp h).1⟩
    · intro j seen hj hd
      by_cases hji : j = i
      · subst hji
        rw [Function.update_self] at hj
        cases hj
      · rw [Function.update_of_ne hji] at hj
        exact hb.pending j seen hj hd
    · exact hb.single
  · rw [moved_of_free ⟨hread, hi⟩]
    apply bounded_frame hb ⟨hread, hi⟩ (fun e he _ => hs e he)
    exact fun seen h => by cases h

theorem bounded_compared (hb : Bounded key digest s hand t) (hi : i ∈ t.counting) :
    Bounded key digest s hand (t.moved i false) := by
  by_cases hread : i ∈ t.reading
  · rw [Tally.moved, if_pos hread]
    obtain ⟨seen, hg, hd, hlt, -, hle⟩ := hb.counting i hi
    have hw := hle hread
    constructor
    · show t.wrong+1 ≤ 4
      omega
    · intro e he hde hnil
      have hnil : t.counting = [] := hnil
      rw [hnil] at hi
      cases hi
    · exact fun j hj => hb.reading j (mem_filter_ne.mp hj).1
    · intro j hj
      obtain rfl := hb.single j hj i hi
      refine ⟨seen, hg, hd, hlt, ?_, fun h => absurd rfl (mem_filter_ne.mp h).2⟩
      show t.wrong+1 ≤ seen.attempts+1
      omega
    · exact hb.pending
    · exact hb.single
  · rwa [Tally.moved, if_neg hread]

theorem bounded_written {lost : Bool} (hb : Bounded key digest s hand t) (hi : i ∈ t.counting)
    (hread : i ∉ t.reading)
    (stored : ∀ e, s' key = some e → e.value.digest = digest → lost = false →
      t.wrong ≤ e.value.attempts) :
    Bounded key digest s' (Function.update hand i none)
      { t with counting := t.counting.filter (· ≠ i), lost := lost } where
  four := hb.four
  stored := fun e he hd _ hl => stored e he hd hl
  reading := by
    intro j hj
    rw [Function.update_of_ne (ne_of_mem_of_not_mem hj hread)]
    exact hb.reading j hj
  counting := by
    intro j hj
    obtain ⟨hj, hji⟩ := mem_filter_ne.mp hj
    exact absurd (hb.single j hj i hi) hji
  pending := by
    intro j seen hj hd
    by_cases hji : j = i
    · subst hji
      rw [Function.update_self] at hj
      cases hj
    · rw [Function.update_of_ne hji] at hj
      exact mem_filter_ne.mpr ⟨hb.pending j seen hj hd, hji⟩
  single := fun j hj k hk =>
    hb.single j (mem_filter_ne.mp hj).1 k (mem_filter_ne.mp hk).1

theorem moved_reading (t : Tally) (i : ℕ) (turnedAway : Bool) :
    i ∉ (t.moved i turnedAway).reading := by
  unfold Tally.moved
  split
  case isTrue => exact fun h => (mem_filter_ne.mp h).2 rfl
  case isFalse h => exact h

@[simp] theorem moved_counting (t : Tally) (i : ℕ) (turnedAway : Bool) :
    (t.moved i turnedAway).counting = t.counting := by
  unfold Tally.moved
  split <;> rfl

theorem bounded_guessed {payload : CodePayload} {v : Verdict} (hb : Bounded key digest s hand t)
    (hf : Free t i) (hstored : get now s key = some payload) (hd : payload.digest = digest)
    (hv : v ≠ .right) (hfree : v = .wrong ↔ payload.attempts < 4)
    (counted : v = .wrong → t.counting = [] ∧ t.lost = false) :
    Bounded key digest s (Function.update hand i (some ⟨key, payload, v⟩))
      (t.guessed i (payload.attempts < 4)) := by
  obtain ⟨e, he, rfl⟩ := raw_of_get now s key payload hstored
  have reading : ∀ j ∈ i :: t.reading, ∃ seen v',
      Function.update hand i (some ⟨key, e.value, v⟩) j = some ⟨key, seen, v'⟩ ∧
        seen.digest = digest ∧ v' ≠ .right := by
    intro j hj
    rcases List.mem_cons.mp hj with rfl | hj
    · exact ⟨e.value, v, Function.update_self .., hd, hv⟩
    · rw [Function.update_of_ne (ne_of_mem_of_not_mem hj hf.1)]
      exact hb.reading j hj
  by_cases hw : v = .wrong
  · obtain ⟨hnone, hlost⟩ := counted hw
    have hlt := hfree.mp hw
    have hle := hb.stored e he hd hnone hlost
    rw [Tally.guessed, if_pos (decide_eq_true hlt), hnone]
    constructor
    · exact hb.four
    · exact fun e' _ _ hnil => by cases hnil
    · exact reading
    · intro j hj
      obtain rfl := List.mem_singleton.mp hj
      refine ⟨e.value, ?_, hd, hlt, Nat.le_succ_of_le hle, fun _ => hle⟩
      rw [Function.update_self, hw]
    · intro j seen hj hds
      by_cases hji : j = i
      · exact List.mem_singleton.mpr hji
      · rw [Function.update_of_ne hji] at hj
        have hmem := hb.pending j seen hj hds
        rw [hnone] at hmem
        cases hmem
    · intro j hj k hk
      rw [List.mem_singleton.mp hj, List.mem_singleton.mp hk]
  · have hge : ¬e.value.attempts < 4 := fun h => hw (hfree.mpr h)
    rw [Tally.guessed, if_neg (by simpa using hge)]
    constructor
    · exact hb.four
    · exact hb.stored
    · exact reading
    · intro j hj
      have hji : j ≠ i := ne_of_mem_of_not_mem hj hf.2
      rw [Function.update_of_ne hji]
      obtain ⟨seen, hg, hds, hlt, hle, hr⟩ := hb.counting j hj
      exact ⟨seen, hg, hds, hlt, hle, fun h => hr ((List.mem_cons.mp h).resolve_left hji)⟩
    · intro j seen hj hds
      by_cases hji : j = i
      · subst hji
        rw [Function.update_self, Option.some.injEq, Comparison.mk.injEq] at hj
        exact absurd hj.2.2 hw
      · rw [Function.update_of_ne hji] at hj
        exact hb.pending j seen hj hds
    · exact hb.single

theorem stored_of_set {k : CodeKey} {payload : CodePayload} {deadline : Option ℕ}
    (hother : k = key → payload.digest ≠ digest) (e : Entry CodePayload)
    (he : set s k payload deadline key = some e) (hd : e.value.digest = digest) :
    s key = some e := by
  by_cases hk : k = key
  · subst hk
    rw [set_self, Option.some.injEq] at he
    subst he
    exact absurd hd (hother rfl)
  · rwa [set_ne s k _ _ (Ne.symm hk)] at he

theorem bounded_sent {deadline : Option ℕ} (hb : Bounded key digest s hand t)
    (hi : hand i = none) :
    Bounded key digest (set s key ⟨digest, 0⟩ deadline) (Function.update hand i none) t.sent := by
  rw [show Function.update hand i none = hand by rw [← hi, Function.update_eq_self]]
  constructor
  · exact Nat.zero_le 4
  · exact fun e _ _ _ _ => Nat.zero_le _
  · exact fun j hj => by cases hj
  · intro j hj
    obtain ⟨seen, hg, hd, hlt, -⟩ := hb.counting j hj
    exact ⟨seen, hg, hd, hlt, Nat.zero_le _, fun h => by cases h⟩
  · exact hb.pending
  · exact hb.single

/-! ## Along a run -/

theorem tally_quiet {q : Request} {c : Command} {reply : Reply c}
    (hw : writeOf c (.ok reply) = none) (hr : readOf lib q c (.ok reply) = none) :
    tally lib key digest t ⟨i, q, c, .ok reply⟩ = t.moved i (deletes key c) := by
  simp only [tally, hw, hr]

theorem tally_error {q : Request} {c : Command} {e : Failure} :
    tally lib key digest t ⟨i, q, c, .error e⟩ = (t.moved i (deletes key c)).failed i := by
  have hw : writeOf c (.error e) = none := by
    unfold writeOf
    split <;> first | rfl | contradiction
  have hr : readOf lib q c (.error e) = none := by
    unfold readOf
    split <;> first | rfl | contradiction
  simp only [tally, hw, hr]

theorem bounded_failed {q : Request} {c : Command} {seen : Comparison}
    (hb : Bounded key digest s hand t) (hi : hand i = some seen) (acts : allows q (some seen) c) :
    Bounded key digest s (Function.update hand i none)
      ((t.moved i (deletes key c)).failed i) := by
  by_cases hc : i ∈ t.counting
  · obtain ⟨payload, hg, hd, -⟩ := hb.counting i hc
    rw [hi, Option.some.injEq] at hg
    subst hg
    have hdel : deletes key c = false := by
      cases c with
      | code c =>
        cases c with
        | delCode k => exact absurd rfl acts.2
        | _ => rfl
      | _ => rfl
    have hcounting : i ∈ (t.moved i false).counting := by rwa [moved_counting]
    rw [hdel, Tally.failed, if_pos hcounting]
    apply bounded_written (bounded_compared hb hc) hcounting (moved_reading t i false)
    intro e he hde hlost
    simp only [Bool.or_eq_false_iff, decide_eq_false_iff_not, ne_eq, not_not] at hlost
    rw [hlost.2]
    exact Nat.zero_le _
  · have hright : (t.moved i (deletes key c)).failed i = t.moved i (deletes key c) :=
      if_neg (by rwa [moved_counting])
    rw [hright]
    by_cases hread : i ∈ t.reading
    · obtain ⟨payload, v, hg, hd, hv⟩ := hb.reading i hread
      rw [hi, Option.some.injEq] at hg
      subst hg
      have hw : v ≠ .wrong := by
        rintro rfl
        exact hc (hb.pending i payload hi hd)
      have hdel : deletes key c = true := by
        cases c with
        | code c =>
          cases c with
          | delCode k => exact decide_eq_true acts.1
          | ttlCode k => exact absurd acts.2 hw
          | setCode k payload ttl => exact absurd acts.2.1 hw
          | _ => exact absurd acts id
        | _ => exact absurd acts id
      rw [hdel]
      exact bounded_turned hb hc (fun _ he => he)
    · rw [moved_of_free ⟨hread, hc⟩]
      exact bounded_frame hb ⟨hread, hc⟩ (fun _ he _ => he) (fun _ h => by cases h)

theorem bounded_read {q : Request} {k : CodeKey} {payload : CodePayload}
    (hb : Bounded key digest s hand t) (hf : Free t i) (stored : get now s k = some payload)
    (counted : k = key → payload.digest = digest → verdict lib q payload = .wrong →
      t.counting = [] ∧ t.lost = false) :
    Bounded key digest s (Function.update hand i (some ⟨k, payload, verdict lib q payload⟩))
      (if guess lib key digest q ⟨k, payload, verdict lib q payload⟩ then
        t.guessed i (payload.attempts < 4) else t) := by
  by_cases hguess : guess lib key digest q ⟨k, payload, verdict lib q payload⟩ = true
  · rw [if_pos hguess]
    simp only [guess, Bool.and_eq_true, decide_eq_true_eq] at hguess
    obtain ⟨⟨rfl, hd⟩, hother⟩ := hguess
    rw [← hd] at hother
    apply bounded_guessed hb hf stored hd
    · exact fun hv => hother (presented_of_right hv)
    · exact ⟨fun h => (wrong_iff.mp h).1, fun h => wrong_iff.mpr ⟨h, hother⟩⟩
    · exact counted rfl hd
  · rw [if_neg hguess]
    apply bounded_frame hb hf (fun _ he _ => he)
    intro seen hg hd
    rw [Option.some.injEq, Comparison.mk.injEq] at hg
    obtain ⟨rfl, rfl, hv⟩ := hg
    apply hguess
    simp only [guess, Bool.and_eq_true, decide_eq_true_eq]
    refine ⟨⟨trivial, hd⟩, ?_⟩
    rw [← hd]
    exact (wrong_iff.mp hv).2

theorem bounded_stored {k : CodeKey} {digest' : Digest} {deadline : Option ℕ}
    (hb : Bounded key digest s hand t) (hi : hand i = none) :
    Bounded key digest (set s k ⟨digest', 0⟩ deadline) (Function.update hand i none)
      (if k = key then (if (⟨digest', 0⟩ : CodePayload) = ⟨digest, 0⟩ then t.sent
        else t.counted i) else t) := by
  have hf := free_of_idle hb hi
  rw [counted_of_free hf]
  by_cases hsent : k = key ∧ digest' = digest
  · obtain ⟨rfl, rfl⟩ := hsent
    rw [if_pos rfl, if_pos rfl]
    exact bounded_sent hb hi
  · have hsame : (if k = key then (if (⟨digest', 0⟩ : CodePayload) = ⟨digest, 0⟩ then t.sent
        else t) else t) = t := by
      by_cases hk : k = key
      · rw [if_pos hk, if_neg (by simpa using fun hd => hsent ⟨hk, hd⟩)]
      · rw [if_neg hk]
    rw [hsame]
    apply bounded_frame hb hf
    · exact stored_of_set (fun hk hd => hsent ⟨hk, hd⟩)
    · exact fun _ h => by cases h

theorem bounded_counted {k : CodeKey} {seen : CodePayload} {deadline : Option ℕ}
    (hb : Bounded key digest s hand t) (hi : hand i = some ⟨k, seen, .wrong⟩) :
    Bounded key digest (set s k ⟨seen.digest, seen.attempts+1⟩ deadline)
      (Function.update hand i none)
      (if k = key then (t.moved i false).counted i else t.moved i false) := by
  by_cases hc : i ∈ t.counting
  · have hcounting : i ∈ (t.moved i false).counting := by rwa [moved_counting]
    have hcompared := bounded_compared hb hc
    obtain ⟨seen', hg, -, -, hle, -⟩ := hcompared.counting i hcounting
    rw [hi, Option.some.injEq, Comparison.mk.injEq] at hg
    obtain ⟨rfl, rfl, -⟩ := hg
    rw [if_pos rfl]
    apply bounded_written hcompared hcounting (moved_reading t i false)
    intro e he _ _
    rw [set_self, Option.some.injEq] at he
    subst he
    exact hle
  · have hother : k = key → seen.digest ≠ digest := by
      rintro rfl hd
      exact hc (hb.pending i seen hi hd)
    have hf := free_of_held hb hi (fun hk hd => absurd hd (hother hk))
    rw [moved_of_free hf, counted_of_free hf, ite_self]
    apply bounded_frame hb hf
    · exact stored_of_set hother
    · exact fun _ h => by cases h

theorem bounded_spent {k : CodeKey} {seen : CodePayload} {v : Verdict}
    (hb : Bounded key digest s hand t) (hi : hand i = some ⟨k, seen, v⟩) (hv : v ≠ .wrong) :
    Bounded key digest (del s k) (Function.update hand i none)
      (t.moved i (deletes key (.code (.delCode k)))) := by
  have hgone : ∀ e, del s k key = some e → s key = some e :=
    fun e he => ((del_eq_some _ _ _ _).mp he).2
  have hc : i ∉ t.counting := by
    intro hc
    obtain ⟨payload, hg, -⟩ := hb.counting i hc
    rw [hi, Option.some.injEq, Comparison.mk.injEq] at hg
    exact hv hg.2.2
  by_cases hk : k = key
  · rw [show deletes key (.code (.delCode k)) = true from decide_eq_true hk]
    exact bounded_turned hb hc hgone
  · have hf := free_of_held hb hi (fun h => absurd h hk)
    rw [moved_of_free hf]
    exact bounded_frame hb hf (fun e he _ => hgone e he) (fun _ h => by cases h)

theorem bounded_of_move {q : Request} {c : Command} {reply : Except Failure (Reply c)}
    (hb : Bounded key digest s hand t) (hm : Moves lib q now s (hand i) c reply s' g)
    (counted : ∀ payload, readOf lib q c reply = some ⟨key, payload, .wrong⟩ →
      payload.digest = digest → t.counting = [] ∧ t.lost = false) :
    Bounded key digest s' (Function.update hand i g) (tally lib key digest t ⟨i, q, c, reply⟩) := by
  generalize hi : hand i = held at hm
  cases hm with
  | compare k payload idle stored =>
    subst idle
    have hf := free_of_idle hb hi
    show Bounded key digest s _ (if guess lib key digest q ⟨k, payload, verdict lib q payload⟩ then
      (t.moved i false).guessed i (payload.attempts < 4) else t.moved i false)
    rw [moved_of_free hf]
    apply bounded_read hb hf stored
    rintro rfl hd hv
    exact counted payload (by rw [← hv]; rfl) hd
  | send k digest' ttl idle =>
    subst idle
    show Bounded key digest _ _ (if k = key then (if (⟨digest', 0⟩ : CodePayload) = ⟨digest, 0⟩
      then (t.moved i false).sent else (t.moved i false).counted i) else t.moved i false)
    rw [moved_of_free (free_of_idle hb hi)]
    exact bounded_stored hb hi
  | wait k seen ttl wrong =>
    subst wrong
    rw [tally_quiet rfl rfl, ← hi, Function.update_eq_self]
    show Bounded key digest s hand (t.moved i false)
    by_cases hc : i ∈ t.counting
    · exact bounded_compared hb hc
    · have hf := free_of_held hb hi (fun hk hd => absurd (hb.pending i seen (hk ▸ hi) hd) hc)
      rwa [moved_of_free hf]
  | count k seen ttl wrong free =>
    subst wrong
    have hne : (⟨seen.digest, seen.attempts+1⟩ : CodePayload) ≠ ⟨digest, 0⟩ := by simp
    show Bounded key digest _ _ (if k = key then
      (if (⟨seen.digest, seen.attempts+1⟩ : CodePayload) = ⟨digest, 0⟩ then (t.moved i false).sent
        else (t.moved i false).counted i) else t.moved i false)
    rw [if_neg hne]
    exact bounded_counted hb hi
  | spend k seen v held spendable =>
    subst held
    rw [tally_quiet rfl rfl]
    exact bounded_spent hb hi spendable
  | fail c e seen held acts =>
    subst held
    rw [tally_error]
    exact bounded_failed hb hi acts
  | discard k idle =>
    subst idle
    have hf := free_of_idle hb hi
    rw [tally_quiet rfl rfl, moved_of_free hf]
    apply bounded_frame hb hf
    · exact fun e he _ => ((del_eq_some _ _ _ _).mp he).2
    · exact fun _ h => by cases h
  | other c reply idle write read spent =>
    subst idle
    have hf := free_of_idle hb hi
    have ht : tally lib key digest t ⟨i, q, c, reply⟩ = t := by
      cases reply with
      | error e => rw [tally_error, moved_of_free hf, failed_of_free hf]
      | ok a => rw [tally_quiet write read, moved_of_free hf]
    rw [ht]
    exact bounded_frame hb hf (fun _ he _ => he) (fun _ h => by cases h)

theorem get_of_readOf {q : Request} {c : Command} {x : Choice} {w w' : World}
    {reply : Except Failure (Reply c)} {key : CodeKey} {payload : CodePayload} {v : Verdict}
    (hr : readOf lib q c reply = some ⟨key, payload, v⟩)
    (hp : perform lib c x w = some (reply, w')) :
    c = .code (.getCode key) ∧ x.fail = false ∧ get w.now w.codes.code key = some payload ∧
      verdict lib q payload = v := by
  obtain ⟨rfl, hok⟩ := readOf_eq_some hr
  have hf := answered_of_ok rfl hok hp
  simp only [perform, hf, Bool.false_eq_true, false_and, if_false, answer, Option.some.injEq,
    Prod.mk.injEq] at hp
  obtain ⟨rfl, -⟩ := hp
  have hget : (get w.now w.codes.code key).map (fun p => (⟨key, p, verdict lib q p⟩ : Comparison)) =
      some ⟨key, payload, v⟩ := hr
  obtain ⟨p, hp, heq⟩ := Option.map_eq_some_iff.mp hget
  rw [Comparison.mk.injEq] at heq
  obtain ⟨-, rfl, hv⟩ := heq
  exact ⟨rfl, hf, hp, hv⟩

/-- The condition on a call, taken in a state of a run. -/
def Orderly (lib : Libraries) (key : CodeKey) (digest : Digest) (s : Service)
    (l : Label Request Choice Passing) : Prop :=
  OnCall (Counted lib key digest) s l ∧ Following (contract lib) s

theorem bounded_preserved (lib : Libraries) (settings : Settings) (key : CodeKey)
    (digest : Digest) :
    Preserved (service lib settings) (contract lib) (Orderly lib key digest)
      (fun w h => Bounded key digest w.codes.code (ghost (contract lib) h)
        (tallied lib key digest h)) where
  call := by
    rintro s i x q c reply w hb hu ha hp ⟨hcond, hfollow⟩
    obtain ⟨hm, -⟩ := moves_of_perform lib q _ _ _ c x reply ha hp
    have ht : tallied lib key digest (s.history ++ [(⟨i, q, c, reply⟩ : Occurrence)]) =
        tally lib key digest (tallied lib key digest s.history) ⟨i, q, c, reply⟩ :=
      List.foldl_concat ..
    rw [ht, ghost_append]
    apply bounded_of_move hb hm
    intro payload hr hd
    obtain ⟨rfl, hf, hget, hv⟩ := get_of_readOf hr hp
    have hguesses : guesses lib key digest s.world q (.code (.getCode key)) = true := by
      simp [guesses, hget, hd, hv]
    obtain ⟨hlost, hover⟩ := onCall_run hu hcond hf hguesses
    refine ⟨?_, hlost⟩
    rw [List.eq_nil_iff_forall_not_mem]
    intro j hj
    obtain ⟨seen, hg, -⟩ := hb.counting j hj
    rw [none_of_concluded lib hfollow (hover j hj)] at hg
    cases hg
  pass := by
    intro s d hb _
    exact ⟨hb.four, fun e he => hb.stored e (passed_codes d _ _ _ he), hb.reading, hb.counting,
      hb.pending, hb.single⟩

/-- In a run in which no wrong guess reads the counter while another is under way or
was never written, at most four wrong guesses are ever compared with one issued code. -/
theorem wrong_guesses_bounded (lib : Libraries) (settings : Settings) (key : CodeKey)
    (digest : Digest) (now : ℕ) (database : Database) (ls : List (Label Request Choice Passing))
    (hm : Meets (service lib settings) (OnCall (Counted lib key digest)) ls
      (initial (World.fresh now database))) :
    (tallied lib key digest (run (service lib settings) ls
      (initial (World.fresh now database))).history).wrong ≤ 4 := by
  apply Bounded.four
  exact invariant_run (obeys lib settings) (bounded_preserved lib settings key digest) ls _
    (following_initial _) bounded_initial
    (meets_and ls _ hm (meets_following (obeys lib settings) ls _ (following_initial _)))

/-! ## Overlapping guesses -/

def resetKey : CodeKey := ⟨"a@b", .reset⟩

/-- Thread 0 sends a reset code to the account. -/
def codeSent : List (Label Request Choice Passing) :=
  .spawn (.forgotPassword "a@b" "1.2.3.4") :: steps 0 ["", "", "", "", "", "", "", ""]

/-- Wrong guesses one after the other: four are compared, the fifth finds the code
locked. -/
def guessedInTurn : List (Label Request Choice Passing) :=
  codeSent ++ [1, 2, 3, 4, 5].flatMap (fun i =>
    .spawn (.resetPassword "a@b" "111111" "longer password") :: steps i ["", "", "", "", "", ""])

theorem wrong_guesses_bounded_in_turn :
    (tallied plainLibraries resetKey "000000" (run (service plainLibraries plainSettings)
      guessedInTurn (initial (World.fresh 0 oneAccount))).history).wrong ≤ 4 :=
  wrong_guesses_bounded plainLibraries plainSettings resetKey "000000" 0 oneAccount guessedInTurn
    (by decide +kernel)

/-- Five wrong guesses that all read the counter before one of them writes it. -/
def guessedAtOnce : List (Label Request Choice Passing) :=
  codeSent ++ List.replicate 5 (.spawn (.resetPassword "a@b" "111111" "longer password")) ++
    [1, 2, 3, 4, 5].flatMap (fun i => steps i ["", ""]) ++
    [1, 2, 3, 4, 5].flatMap (fun i => steps i ["", ""])

def onCodes : Request → Bool
  | .verifyEmail .. | .resetPassword .. | .resendVerification _ | .forgotPassword .. => true
  | _ => false

/-- A code still usable after five wrong guesses. -/
theorem wrong_guesses_unbounded :
    ¬ ∀ (lib : Libraries) (settings : Settings) (key : CodeKey) (now : ℕ) (database : Database)
      (ls : List (Label Request Choice Passing)),
      (∀ l ∈ ls, faultless l ∧ spawns onCodes l) →
      let s := run (service lib settings) ls (initial (World.fresh now database))
      ∀ payload, get s.world.now s.world.codes.code key = some payload → payload.attempts < 4 →
        (tallied lib key payload.digest s.history).wrong ≤ 4 := by
  intro h
  have hfive := h plainLibraries plainSettings resetKey 0 oneAccount guessedAtOnce
    (by decide +kernel) ⟨"000000", 1⟩ (by decide +kernel) (by decide)
  revert hfive
  decide +kernel

end Gamely.CodeGuessing
