import Gamely.MailContract

/-!
# What one call does to the mails

Every answered call of a task that keeps the contract is one of the moves below.
-/

set_option autoImplicit false

namespace Gamely.MailMoves
open Gamely.Calls Gamely.Broker Gamely.Json Gamely.EmailJobs Gamely.JobCodec
open Gamely.MailWorker Gamely.MailContract Gamely.Interleaving

/-! ## Routes -/

theorem copies_send (now : ℕ) (m : Mail) :
    copies topology now "send" m = [⟨primaryQueue, m, now⟩] := by
  have h : routes topology "send" = [primaryQueue] := by decide +kernel
  rw [copies, h]
  rfl

theorem copies_dead (now : ℕ) (m : Mail) :
    copies topology now "dead" m = [⟨deadQueue, m, now⟩] := by
  have h : routes topology "dead" = [deadQueue] := by decide +kernel
  rw [copies, h]
  rfl

theorem copies_retry {delay : ℕ} (hd : delay ∈ retryDelays) (now : ℕ) (m : Mail) :
    copies topology now s!"retry.{delay}" m = [⟨retryQueue delay, m, now⟩] := by
  have h : ∀ d ∈ retryDelays, routes topology s!"retry.{d}" = [retryQueue d] := by decide +kernel
  rw [copies, h delay hd]
  rfl

theorem retry_key_ne {delay : ℕ} (hd : delay ∈ retryDelays) : s!"retry.{delay}" ≠ "dead" := by
  revert delay
  decide +kernel

/-! ## Moves -/

def queue (w : World) (key : String) (m : Mail) : World :=
  { w with broker := { w.broker with
      queued := w.broker.queued ++ copies topology w.millis key m } }

def tried (w : World) (i : ℕ) (m : Mail) : World :=
  { w with attempts := w.attempts ++ [⟨i, m.origin⟩] }

variable {F : Type} (py : Interpreter F)

/-- The published job with the id it was written with. -/
structure Stamped (job : EmailJob) (id : String) (body : Bytes) : Prop where
  named : id ≠ ""
  kept : job.fields.id ≠ "" → id = job.fields.id
  written : Job.toBytes py (fieldsJob F (stamped job id)) = .ok body

inductive Moves (i : ℕ) (w : World) : Hand → World → Hand → Prop where
  | rest (g : Hand) : Moves i w g w g
  | born (job : EmailJob) (id : String) (body : Bytes) (stamp : Stamped py job id body)
      (free : heldBy w.broker i = none) :
      Moves i w .idle (queue w "send" ⟨i, 0, body⟩) (.published job body)
  | took (s : Stored Mail) (b : Messages Mail) (primary : s.queue.name = "auth.email.primary")
      (moved : w.broker.queued.Perm (s :: b.queued))
      (held : b.unacked = ⟨i, s⟩ :: w.broker.unacked) (free : heldBy w.broker i = none)
      (living : i ∉ w.lost) :
      Moves i w .idle { w with broker := b } (.holding s.message)
  | read (m : Mail) : Moves i w (.holding m) w (judged py m w.now)
  | sent (m : Mail) (u : Unacked Mail) (held : heldBy w.broker i = some u)
      (same : u.entry.message = m) :
      Moves i w (.due m) { tried w i m with sent := w.sent ++ [m.origin] } (.sent m)
  | unsent (m : Mail) (u : Unacked Mail) (held : heldBy w.broker i = some u)
      (same : u.entry.message = m) (g : Hand) (how : g = .refused m ∨ g = .failed m) :
      Moves i w (.due m) (tried w i m) g
  | hop (m : Mail) (u : Unacked Mail) (held : heldBy w.broker i = some u)
      (same : u.entry.message = m) (job : Job F) (key : String) (body : Bytes)
      (decoded : fromBytes py m.body = .ok job)
      (hop : Hop py job m.body key body) :
      Moves i w (.failed m)
        (queue w key ⟨m.origin, if key = "dead" then m.retry else m.retry+1, body⟩) (.moved m)
  | stuck (m : Mail) : Moves i w (.failed m) w (.stuck m)
  | acked (g : Hand) (m : Mail) (u : Unacked Mail) (held : heldBy w.broker i = some u)
      (same : u.entry.message = m) (how : g = .stale m ∨ g = .sent m ∨ g = .moved m) :
      Moves i w g { w with
        broker := Broker.ack i w.broker
        dropped := if w.attempts.any (fun a => a.task = i) then w.dropped
          else w.dropped ++ [(m.origin, (w.now : ℤ))] } .settled
  | rejected (g : Hand) (m : Mail) (u : Unacked Mail) (held : heldBy w.broker i = some u)
      (same : u.entry.message = m)
      (how : (g = .holding m ∧ ∃ e, fromBytes py m.body = .error e) ∨ g = .refused m ∨
        g = .failed m ∨ g = .stuck m) :
      Moves i w g { w with broker := reject topology w.millis u w.broker } .settled

variable {py} {i : ℕ} {q : Request} {g : Hand} {w w' : World} {x : Choice}

theorem perform_cases {c : Command F} {reply : Except Failure (Reply c)}
    (h : perform c x w = some (reply, w')) : (∀ task ∈ c.task?, task ∉ w.lost) ∧
      ((∃ r, answer x w c = some (r, w') ∧ reply = .ok r) ∨
        ∃ e, failed w c = some w' ∧ reply = .error e) := by
  unfold perform at h
  split at h
  case isTrue => cases h
  case isFalse hl =>
    constructor
    · exact fun task ht hlost => hl ⟨task, ht, hlost⟩
    · split at h
      · obtain ⟨r, hr, he⟩ := Option.map_eq_some_iff.mp h
        cases he
        exact Or.inl ⟨_, hr, rfl⟩
      · obtain ⟨w'', hw, he⟩ := Option.map_eq_some_iff.mp h
        cases he
        exact Or.inr ⟨_, hw, rfl⟩

/-- What a task that lives holds is what its hand says. -/
def Matches (w : World) (i : ℕ) (g : Hand) : Prop :=
  i ∉ w.lost → (heldBy w.broker i).map (fun u => u.entry.message) = g.mail?

theorem Matches.held {m : Mail} (hm : Matches w i g) (hl : i ∉ w.lost) (hg : g.mail? = some m) :
    ∃ u, heldBy w.broker i = some u ∧ u.entry.message = m := by
  have h := hm hl
  rw [hg] at h
  exact Option.map_eq_some_iff.mp h

theorem Matches.unheld (hm : Matches w i g) (hl : i ∉ w.lost) (hg : g.mail? = none) :
    heldBy w.broker i = none := by
  have h := hm hl
  rw [hg] at h
  exact Option.map_eq_none_iff.mp h

theorem moves_answer {c : Command F} {r : Reply c} (hm : Matches w i g) (hg : g ≠ .broken)
    (hl : ∀ task ∈ c.task?, task ∉ w.lost) (ha : allows py i q g c)
    (h : answer x w c = some (r, w')) : Moves py i w g w' (next py q g c (.ok r)) := by
  cases c with
  | utcnow =>
    cases h
    cases g with
    | holding m => exact .read m
    | _ => exact .rest _
  | uuid4 =>
    cases h
    rw [next_uuid4]
    exact .rest g
  | channel task | declareTopology task | close task =>
    cases h
    cases g <;> exact .rest _
  | publish task key body =>
    obtain ⟨rfl, hcase⟩ := ha
    have hlive : task ∉ w.lost := hl task rfl
    simp only [answer, publish] at h
    split at h
    · cases h
    · cases h
      rcases hcase with ⟨rfl, rfl, connected, job, id, rfl, hne, hkept, hw⟩ |
        ⟨rfl, m, job, rfl, hj, hop⟩
      · have hmail : mailOf w.broker task "send" body = ⟨task, 0, body⟩ := by
          simp only [mailOf, hm.unheld hlive rfl]
        show Moves py task w .idle (queue w "send" (mailOf w.broker task "send" body)) _
        rw [hmail]
        exact .born job id body ⟨hne, hkept, hw⟩ (hm.unheld hlive rfl)
      · obtain ⟨u, hu, rfl⟩ := hm.held hlive rfl
        have hmail : mailOf w.broker task key body = ⟨u.entry.message.origin,
            if key = "dead" then u.entry.message.retry else u.entry.message.retry+1, body⟩ := by
          simp only [mailOf, hu]
        show Moves py task w _ (queue w key (mailOf w.broker task key body)) _
        rw [hmail]
        exact .hop _ u hu rfl job key body hj hop
  | consume task =>
    obtain ⟨rfl, rfl, rfl⟩ := ha
    obtain ⟨⟨m, b⟩, ht, he⟩ := Option.map_eq_some_iff.mp h
    cases he
    obtain ⟨s, rfl, hname, hperm, hu⟩ := mem_take ht
    exact .took s b hname hperm hu (hm.unheld (hl task rfl) rfl) (hl task rfl)
  | send task job =>
    obtain ⟨rfl, rfl, m, rfl, hj⟩ := ha
    obtain ⟨u, hu, rfl⟩ := hm.held (hl task rfl) rfl
    simp only [answer, hu, Option.map_some, Option.some.injEq] at h
    cases h
    exact .sent _ u hu rfl
  | ack task =>
    obtain ⟨rfl, rfl, hbroken | ⟨m, how⟩⟩ := ha
    · exact absurd hbroken hg
    · have hgm : g.mail? = some m := by
        rcases how with rfl | rfl | rfl <;> rfl
      obtain ⟨u, hu, rfl⟩ := hm.held (hl task rfl) hgm
      simp only [answer, hu, Option.map_some, Option.some.injEq] at h
      cases h
      rw [next_ack]
      exact .acked g _ u hu rfl how
  | reject task =>
    obtain ⟨rfl, rfl, hbroken | ⟨m, how⟩⟩ := ha
    · exact absurd hbroken hg
    · have hgm : g.mail? = some m := by
        rcases how with ⟨rfl, -⟩ | rfl | rfl | rfl <;> rfl
      obtain ⟨u, hu, rfl⟩ := hm.held (hl task rfl) hgm
      simp only [answer, hu, Option.map_some, Option.some.injEq] at h
      cases h
      rw [next_reject]
      exact .rejected g _ u hu rfl how

theorem moves_failed {c : Command F} {e : Failure} (hm : Matches w i g)
    (hl : ∀ task ∈ c.task?, task ∉ w.lost) (ha : allows py i q g c) (h : failed w c = some w') :
    Moves py i w g w' (next py q g c (.error e)) := by
  cases c with
  | channel task | declareTopology task | close task =>
    cases h
    cases g <;> exact .rest _
  | publish task key body =>
    cases h
    cases g with
    | failed m => exact .stuck m
    | _ => exact .rest _
  | send task job =>
    obtain ⟨rfl, rfl, m, rfl, hj⟩ := ha
    obtain ⟨u, hu, rfl⟩ := hm.held (hl task rfl) rfl
    simp only [failed, hu, Option.map_some, Option.some.injEq] at h
    cases h
    cases e with
    | recipientRefused => exact .unsent _ u hu rfl _ (Or.inl rfl)
    | _ => exact .unsent _ u hu rfl _ (Or.inr rfl)
  | utcnow | uuid4 | consume | ack | reject => cases h

theorem moves_of_perform {c : Command F} {reply : Except Failure (Reply c)}
    (hm : Matches w i g) (hg : g ≠ .broken) (ha : allows py i q g c)
    (hp : perform c x w = some (reply, w')) : Moves py i w g w' (next py q g c reply) := by
  obtain ⟨hl, ⟨r, hr, rfl⟩ | ⟨e, he, rfl⟩⟩ := perform_cases hp
  · exact moves_answer hm hg hl ha hr
  · exact moves_failed hm hl ha he

end Gamely.MailMoves
