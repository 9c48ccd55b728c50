import Gamely.MailWorker

/-!
# What a task does with its message

A publisher publishes once. A handler settles its delivery once: it acknowledges
what is expired, sent or republished, and rejects what it cannot read, what the
server refuses and what it could not republish.
-/

set_option autoImplicit false

namespace Gamely.MailContract
open Gamely.Calls Gamely.Json Gamely.EmailJobs Gamely.JobCodec Gamely.MailWorker
open Gamely.Interleaving

variable {F : Type} (py : Interpreter F)

/-- Where a task stands. `broken` follows the failure of a call that never fails. -/
inductive Hand where
  | idle
  | published (job : EmailJob) (body : Bytes)
  | holding (m : Mail)
  | stale (m : Mail)
  | due (m : Mail)
  | sent (m : Mail)
  | refused (m : Mail)
  | failed (m : Mail)
  | moved (m : Mail)
  | stuck (m : Mail)
  | settled
  | broken
  deriving DecidableEq

/-- The delivery a task has not settled. -/
def Hand.mail? : Hand → Option Mail
  | .holding m => some m
  | .stale m => some m
  | .due m => some m
  | .sent m => some m
  | .refused m => some m
  | .failed m => some m
  | .moved m => some m
  | .stuck m => some m
  | _ => none

/-- The task has asked SMTP to send. -/
def Hand.begun : Hand → Bool
  | .sent _ => true
  | .refused _ => true
  | .failed _ => true
  | .moved _ => true
  | .stuck _ => true
  | _ => false

/-- Calls that are always answered without an error. -/
def isSure : Command F → Bool
  | .utcnow => true
  | .uuid4 => true
  | .consume _ => true
  | .ack _ => true
  | .reject _ => true
  | _ => false

def judged (m : Mail) (now : ℤ) : Hand :=
  match fromBytes py m.body with
  | .ok job => if job.expiresAt.instant ≤ now then .stale m else .due m
  | .error _ => .holding m

def next (q : Request) : Hand → (c : Command F) → Except Failure (Reply c) → Hand
  | .idle, .consume _, .ok m => .holding m
  | .idle, .publish _ _ body, .ok _ => match q with
    | .publish _ job => .published job body
    | .work => .idle
  | .holding m, .utcnow, .ok now => judged py m now
  | .due m, .send .., .ok _ => .sent m
  | .due m, .send .., .error .recipientRefused => .refused m
  | .due m, .send .., .error _ => .failed m
  | .failed m, .publish .., .ok _ => .moved m
  | .failed m, .publish .., .error _ => .stuck m
  | _, .ack _, .ok _ => .settled
  | _, .reject _, .ok _ => .settled
  | g, c, .error _ => if isSure c then .broken else g
  | g, _, .ok _ => g

/-- The job as it is first written. -/
def stamped (job : EmailJob) (id : String) : JobFields := { job.fields with id := id }

/-- The id a job is written with. -/
def Stamp (job : Job F) (id : Value F) : Prop :=
  (id = job.id ∧ truthy py job.id = true) ∨
    (truthy py job.id = false ∧ ∃ u : Uuid, id = .str (text u.val))

theorem truthy_id (j : JobFields) : truthy py (fieldsJob F j).id = decide (j.id ≠ "") := by
  have h : text j.id = [] ↔ j.id = "" := text_inj j.id ""
  simp only [fieldsJob, truthy, ne_eq, h]

/-- The next copy of a job whose send failed, and where it goes. -/
inductive Hop (job : Job F) (body : Bytes) : String → Bytes → Prop where
  | dead (spent : atLeast py retryDelays.length job.attempts = .ok true) :
      Hop job body "dead" body
  | retry (again : atLeast py retryDelays.length job.attempts = .ok false) (attempts id : Value F)
      (delay : ℕ) (copy : Bytes) (more : increment py job.attempts = .ok attempts)
      (stamp : Stamp py job id)
      (written : Job.toBytes py { job with attempts := attempts, id := id } = .ok copy)
      (delayed : item retryDelays job.attempts = .ok delay) :
      Hop job body s!"retry.{delay}" copy

def allows (i : ℕ) (q : Request) (g : Hand) : Command F → Prop
  | .consume task => task = i ∧ q = .work ∧ g = .idle
  | .publish task key body => task = i ∧
      ((g = .idle ∧ key = "send" ∧ ∃ connected job id, q = .publish connected job ∧ id ≠ "" ∧
        (job.fields.id ≠ "" → id = job.fields.id) ∧
        Job.toBytes py (fieldsJob F (stamped job id)) = .ok body) ∨
      (q = .work ∧ ∃ m job, g = .failed m ∧ fromBytes py m.body = .ok job ∧
        Hop py job m.body key body))
  | .send task job => task = i ∧ q = .work ∧ ∃ m, g = .due m ∧ fromBytes py m.body = .ok job
  | .ack task => task = i ∧ q = .work ∧
      (g = .broken ∨ ∃ m, g = .stale m ∨ g = .sent m ∨ g = .moved m)
  | .reject task => task = i ∧ q = .work ∧ (g = .broken ∨ ∃ m,
      (g = .holding m ∧ ∃ e, fromBytes py m.body = .error e) ∨ g = .refused m ∨
      g = .failed m ∨ g = .stuck m)
  | .channel task => task = i ∧ g.mail? = none
  | .declareTopology task => task = i ∧ g.mail? = none
  | .close task => task = i ∧ g.mail? = none
  | .utcnow => q = .work
  | .uuid4 => q = .work ∨ g.mail? = none

def protocol (i : ℕ) (q : Request) : Protocol (Command F) Reply Failure Hand :=
  ⟨allows py i q, next py q⟩

/-- A task ends with nothing to settle, unless decoding raised an error that the
handler does not expect. -/
def post (g : Hand) (r : Except Failure Unit) : Prop :=
  g.mail? = none ∨ ∃ m e, r = .error e ∧ g = .holding m ∧ fromBytes py m.body = .error e

def contract : Contract (Command F) Reply Failure Unit Request Hand where
  start := .idle
  protocol := protocol py
  post := fun _ => post py

/-! ## The code keeps the contract -/

section
variable {py} {i : ℕ} {q : Request} {g : Hand}

theorem next_ack (task : ℕ) (u : Reply (.ack task : Command F)) :
    next py q g (.ack task : Command F) (.ok u) = .settled := by
  cases g <;> rfl

theorem next_reject (task : ℕ) (u : Reply (.reject task : Command F)) :
    next py q g (.reject task : Command F) (.ok u) = .settled := by
  cases g <;> rfl

theorem next_broken (c : Command F) (h : isSure c = true) (e : Failure) :
    next py q g c (.error e) = .broken := by
  cases c with
  | utcnow | uuid4 | consume | ack | reject => cases g <;> rfl
  | channel | declareTopology | close | publish | send => cases h

theorem next_uuid4 (u : Reply (.uuid4 : Command F)) :
    next py q g (.uuid4 : Command F) (.ok u) = g := by
  cases g <;> rfl

theorem post_settled (r : Except Failure Unit) : post py .settled r := Or.inl rfl

theorem post_broken (r : Except Failure Unit) : post py .broken r := Or.inl rfl

theorem keeps_ack (h : allows py i q g (.ack i)) :
    Keeps (protocol py i q) (invoke (Command.ack (F := F) i)) g (post py) := by
  rw [keeps_invoke]
  constructor
  · exact h
  · intro reply
    cases reply with
    | ok u =>
      show post py (next py q g (.ack i) (.ok u)) _
      rw [next_ack]
      exact post_settled _
    | error e =>
      show post py (next py q g (.ack i) (.error e)) _
      rw [next_broken _ rfl]
      exact post_broken _

theorem keeps_reject (h : allows py i q g (.reject i)) :
    Keeps (protocol py i q) (invoke (Command.reject (F := F) i)) g (post py) := by
  rw [keeps_invoke]
  constructor
  · exact h
  · intro reply
    cases reply with
    | ok u =>
      show post py (next py q g (.reject i) (.ok u)) _
      rw [next_reject]
      exact post_settled _
    | error e =>
      show post py (next py q g (.reject i) (.error e)) _
      rw [next_broken _ rfl]
      exact post_broken _

theorem keeps_encodeJob (job : Job F) (hg : q = .work ∨ g.mail? = none)
    {after : Hand → Except Failure Bytes → Prop}
    (hb : ∀ e, after .broken (.error e)) (he : ∀ e, after g (.error e))
    (h : ∀ id body, Stamp py job id →
      Job.toBytes py { job with id := id } = .ok body → after g (.ok body)) :
    Keeps (protocol py i q) (encodeJob py job) g after := by
  have written : ∀ id, Stamp py job id → after g (Job.toBytes py { job with id := id }) := by
    intro id hid
    cases hw : Job.toBytes py { job with id := id } with
    | ok body => exact h id body hid hw
    | error e => exact he e
  unfold encodeJob
  by_cases ht : truthy py job.id = true
  · rw [if_pos ht, keeps_bind, keeps_pure]
    show Keeps _ (ofResult _) g after
    rw [keeps_ofResult]
    exact written _ (Or.inl ⟨rfl, ht⟩)
  · rw [if_neg ht, keeps_bind, keeps_map, keeps_invoke]
    constructor
    · exact hg
    · intro reply
      cases reply with
      | ok u =>
        show Keeps _ (ofResult _) (next py q g .uuid4 (.ok u)) _
        rw [next_uuid4, keeps_ofResult]
        exact written _ (Or.inr ⟨by simpa using ht, u, rfl⟩)
      | error e =>
        show after (next py q g .uuid4 (.error e)) _
        rw [next_broken _ rfl]
        exact hb e

theorem keeps_attempt (p : Act F Unit) {after : Hand → Except Failure (Option Failure) → Prop}
    (h : Keeps (protocol py i q) p g (fun g' r => match r with
      | .ok _ => after g' (.ok none)
      | .error e => after g' (.ok (some e)))) :
    Keeps (protocol py i q) (attempt p) g after := by
  rw [attempt, keeps_tryCatch, keeps_bind]
  exact keeps_mono _ _ (fun g' r hr => by cases r <;> exact hr) h

end

/-- After republishing the delivery is settled, or it can still be rejected. -/
def Republished (i : ℕ) (g : Hand) : Except Failure Unit → Prop
  | .ok _ => post py g (.ok ())
  | .error _ => allows py i .work g (.reject i : Command F)

theorem keeps_hop {i : ℕ} {m : Mail} {job : Job F}
    (hj : fromBytes py m.body = .ok job) {key : String} {body : Bytes}
    (hop : Hop py job m.body key body) :
    Keeps (protocol py i .work) (do
      invoke (Command.publish (F := F) i key body)
      invoke (Command.ack (F := F) i)) (.failed m) (Republished py i) := by
  rw [keeps_bind, keeps_invoke]
  constructor
  · exact ⟨rfl, Or.inr ⟨rfl, m, job, rfl, hj, hop⟩⟩
  · intro reply
    cases reply with
    | error e => exact ⟨rfl, rfl, Or.inr ⟨m, Or.inr (Or.inr (Or.inr rfl))⟩⟩
    | ok u =>
      dsimp only
      rw [keeps_invoke]
      constructor
      · exact ⟨rfl, rfl, Or.inr ⟨m, Or.inr (Or.inr rfl)⟩⟩
      · intro reply
        cases reply with
        | ok u => exact post_settled _
        | error e => exact ⟨rfl, rfl, Or.inl rfl⟩

theorem keeps_republish (i : ℕ) (m : Mail) (job : Job F)
    (hj : fromBytes py m.body = .ok job) :
    Keeps (protocol py i .work) (republish py i m.body job) (.failed m) (Republished py i) := by
  have rejectable : allows py i .work (.failed m) (.reject i : Command F) :=
    ⟨rfl, rfl, Or.inr ⟨m, Or.inr (Or.inr (Or.inl rfl))⟩⟩
  have broken : allows py i .work .broken (.reject i : Command F) := ⟨rfl, rfl, Or.inl rfl⟩
  unfold republish
  rw [keeps_bind, keeps_ofResult]
  cases hspent : atLeast py retryDelays.length job.attempts with
  | error e => exact rejectable
  | ok spent =>
    cases spent with
    | true => exact keeps_hop py hj (.dead hspent)
    | false =>
      simp only [Bool.false_eq_true, if_false]
      rw [keeps_bind, keeps_ofResult]
      cases hmore : increment py job.attempts with
      | error e => exact rejectable
      | ok attempts =>
        dsimp only
        rw [keeps_bind, keeps_ofResult]
        cases hmake : Job.make py { job with attempts := attempts } with
        | error e => exact rejectable
        | ok retry =>
          have hretry : retry = { job with attempts := attempts } := by
            obtain ⟨-, -, h⟩ := bind_ok hmake
            cases h
            rfl
          subst hretry
          dsimp only
          rw [keeps_bind]
          apply keeps_encodeJob _ (Or.inl rfl)
          · exact fun _ => broken
          · exact fun _ => rejectable
          · intro id body hid hwritten
            dsimp only
            rw [keeps_bind, keeps_ofResult]
            cases hdelay : item retryDelays job.attempts with
            | error e => exact rejectable
            | ok delay =>
              have hop : Hop py job m.body s!"retry.{delay}" body :=
                .retry hspent attempts id delay body hmore hid hwritten hdelay
              exact keeps_hop py hj hop

theorem keeps_handleMessage (i : ℕ) (m : Mail) :
    Keeps (protocol py i .work) (handleMessage py i m.body) (.holding m) (post py) := by
  unfold handleMessage
  cases hj : fromBytes py m.body with
  | error e =>
    dsimp only
    split
    · exact keeps_reject ⟨rfl, rfl, Or.inr ⟨m, Or.inl ⟨rfl, e, hj⟩⟩⟩
    · rw [keeps_throw]
      exact Or.inr ⟨m, e, rfl, rfl, hj⟩
  | ok job =>
    dsimp only
    rw [keeps_bind, keeps_invoke]
    constructor
    · exact rfl
    · intro reply
      cases reply with
      | error e => exact post_broken _
      | ok now =>
        have hnext : judged py m now =
            if job.expiresAt.instant ≤ now then .stale m else .due m := by
          simp only [judged, hj]
        show Keeps _ _ (judged py m now) _
        rw [hnext]
        split
        · exact keeps_ack ⟨rfl, rfl, Or.inr ⟨m, Or.inl rfl⟩⟩
        · rw [keeps_bind]
          apply keeps_attempt
          rw [keeps_invoke]
          constructor
          · exact ⟨rfl, rfl, m, rfl, hj⟩
          · intro reply
            cases reply with
            | ok u => exact keeps_ack ⟨rfl, rfl, Or.inr ⟨m, Or.inr (Or.inl rfl)⟩⟩
            | error e =>
              have other : Keeps (protocol py i .work)
                  (tryCatchThe Failure (republish py i m.body job)
                    (fun _ => invoke (Command.reject (F := F) i)))
                  (.failed m) (post py) := by
                rw [keeps_tryCatch]
                apply keeps_mono _ _ _ (keeps_republish py i m job hj)
                intro g r hr
                cases r with
                | ok u => exact hr
                | error e => exact keeps_reject hr
              cases e with
              | recipientRefused =>
                exact keeps_reject ⟨rfl, rfl, Or.inr ⟨m, Or.inr (Or.inl rfl)⟩⟩
              | _ => exact other

theorem next_close (i : ℕ) (q : Request) (g : Hand) (r : Except Failure Unit) :
    next py q g (.close i) r = g := by
  cases r <;> cases g <;> rfl

theorem keeps_publishJob (i : ℕ) (connected : Bool) (job : EmailJob) :
    Keeps (protocol py i (.publish connected job)) (publishJob py i connected job) .idle
      (post py) := by
  have closes : ∀ (g : Hand) (rest : Act F Unit), (rest = pure () ∨ ∃ e, rest = throw e) →
      g.mail? = none → Keeps (protocol py i (.publish connected job)) (do
        invoke (Command.close (F := F) i)
        rest) g (post py) := by
    intro g rest hrest hg
    rw [keeps_bind, keeps_invoke]
    constructor
    · exact ⟨rfl, hg⟩
    · intro reply
      have hn : (protocol py i (.publish connected job)).next g (.close i) reply = g :=
        next_close py i (.publish connected job) g reply
      rw [hn]
      cases reply with
      | error e => exact Or.inl hg
      | ok u =>
        rcases hrest with rfl | ⟨e, rfl⟩
        · exact Or.inl hg
        · exact Or.inl hg
  unfold publishJob
  split
  · exact Or.inl rfl
  · rw [keeps_bind, keeps_invoke]
    constructor
    · exact ⟨rfl, rfl⟩
    · intro reply
      cases reply with
      | error e => exact Or.inl rfl
      | ok u =>
        dsimp only
        rw [keeps_bind]
        apply keeps_attempt
        rw [keeps_bind, keeps_invoke]
        constructor
        · exact ⟨rfl, rfl⟩
        · intro reply
          cases reply with
          | error e => exact closes _ _ (Or.inr ⟨e, rfl⟩) rfl
          | ok u =>
            dsimp only
            rw [keeps_bind]
            apply keeps_encodeJob _ (Or.inr rfl)
            · exact fun e => closes _ _ (Or.inr ⟨e, rfl⟩) rfl
            · exact fun e => closes _ _ (Or.inr ⟨e, rfl⟩) rfl
            · intro id body hid hwritten
              dsimp only
              rw [keeps_invoke]
              constructor
              · have hw : ∃ id', id' ≠ "" ∧ (job.fields.id ≠ "" → id' = job.fields.id) ∧
                    id = .str (text id') := by
                  rcases hid with ⟨rfl, hid⟩ | ⟨hempty, u, rfl⟩
                  · have hne : job.fields.id ≠ "" := by
                      intro h
                      rw [truthy_id, h] at hid
                      exact absurd rfl (of_decide_eq_true hid)
                    exact ⟨_, hne, fun _ => rfl, rfl⟩
                  · refine ⟨u.val, u.property, ?_, rfl⟩
                    rw [truthy_id] at hempty
                    exact fun h => absurd h (of_decide_eq_false hempty)
                obtain ⟨id', hne, hkept, rfl⟩ := hw
                exact ⟨rfl, Or.inl ⟨rfl, rfl, connected, job, id', rfl, hne, hkept, hwritten⟩⟩
              · intro reply
                cases reply with
                | ok u => exact closes _ _ (Or.inl rfl) rfl
                | error e => exact closes _ _ (Or.inr ⟨e, rfl⟩) rfl

theorem obeys : Obeys (system py) (contract py) where
  program := by
    intro i q
    cases q with
    | publish connected job => exact keeps_publishJob py i connected job
    | work =>
      show Keeps _ (program py i .work) _ _
      rw [program, keeps_bind, keeps_invoke]
      constructor
      · exact ⟨rfl, rfl, rfl⟩
      · intro reply
        cases reply with
        | ok m => exact keeps_handleMessage py i m
        | error e => exact post_broken _
  cancelled := by
    rintro i q p ⟨⟩

theorem publisher_free {i : ℕ} {connected : Bool} {job : EmailJob} {g : Hand} {c : Command F}
    (h : allows py i (.publish connected job) g c) : g.mail? = none := by
  cases c with
  | utcnow => cases h
  | uuid4 =>
    rcases h with h | h
    · cases h
    · exact h
  | channel task => exact h.2
  | declareTopology task => exact h.2
  | close task => exact h.2
  | publish task key body =>
    rcases h.2 with ⟨rfl, -⟩ | ⟨h, -⟩
    · rfl
    · cases h
  | consume task => cases h.2.1
  | send task job => cases h.2.1
  | ack task => cases h.2.1
  | reject task => cases h.2.1

end Gamely.MailContract
