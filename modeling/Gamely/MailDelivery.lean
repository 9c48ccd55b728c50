import Gamely.CodeMails
import Gamely.MailCopies
import Gamely.Translations

/-!
# From a request to a mailbox

The API and the workers run together: a request publishes through the publisher's own calls to
the broker, and a worker hands the mail server what it has been delivered. Each side has its own
clock, and any connection can be lost.
-/

set_option autoImplicit false

namespace Gamely.MailDelivery
open Gamely.Calls Gamely.Broker Gamely.Json Gamely.EmailJobs Gamely.JobCodec Gamely.Translations
open Gamely.Stores Gamely.Services Gamely.AuthService Gamely.EmailFilter
open Gamely.Interleaving Gamely.Pasts Gamely.CodeMails
open Gamely.MailContract (Hand Hop stamped)
open Gamely.MailMoves (Stamped)
open Gamely.MailCopies (again received)

variable {F : Type}

/-! ## The system -/

abbrev Command (F : Type) := Services.Command ⊕ MailWorker.Command F

abbrev Reply : Command F → Type
  | .inl c => Services.Reply c
  | .inr c => MailWorker.Reply c

abbrev Act (F : Type) := Program (Command F) Reply Failure

structure World where
  service : Services.World
  mail : MailWorker.World

structure Choice where
  service : Services.Choice
  mail : MailWorker.Choice

/-- A request of the API, which has a connection to the broker or none, or a task of a worker. -/
inductive Request where
  | api (connected : Bool) (q : Requests.Request)
  | work

inductive Passing where
  | service (d : Services.Passing)
  | mail (d : MailWorker.Passing)

def perform (lib : Libraries) : (c : Command F) → Choice → World →
    Option (Except Failure (Reply c) × World)
  | .inl c, x, w => (Services.perform lib c x.service w.service).map
      (fun r => (r.1, { w with service := r.2 }))
  | .inr c, x, w => (MailWorker.perform c x.mail w.mail).map
      (fun r => (r.1, { w with mail := r.2 }))

def mailed (c : MailWorker.Command F) : Act F (MailWorker.Reply c) :=
  invoke (Sum.inr c)

/-- The calls of the service; a job is published with the publisher's. -/
def made (py : Interpreter F) (i : ℕ) (connected : Bool) :
    (c : Services.Command) → Act F (Services.Reply c)
  | .publish job => translated mailed (MailWorker.publishJob py i connected job)
  | c => invoke (Sum.inl c)

variable (py : Interpreter F) (lib : Libraries) (settings : Settings)

def program (i : ℕ) : Request → Act F (Option Requests.Answer)
  | .api connected q => some <$> translated (made py i connected) (Requests.serve lib settings i q)
  | .work => (fun _ => none) <$> translated mailed (MailWorker.program py i .work)

/-- Only a rebuild is ever cancelled, and the warmer then returns. -/
def cancelled : Request → Option (Act F (Option Requests.Answer))
  | .api _ (.warm _) => some (pure (some .empty))
  | _ => none

def passed : Passing → World → World
  | .service d, w => { w with service := Services.passed d w.service }
  | .mail d, w => { w with mail := MailWorker.passed d w.mail }

def system : System (Command F) Reply Failure (Option Requests.Answer) World Choice Request
    Passing where
  perform := perform lib
  program := program py lib settings
  cancelled := cancelled
  pass := passed

/-! ## What a task does -/

abbrev Before (F : Type) := List (Step (Command F) Reply Failure)

def served : Step (Command F) Reply Failure → Option (Step Services.Command Services.Reply Failure)
  | ⟨.inl c, reply⟩ => some ⟨c, reply⟩
  | ⟨.inr _, _⟩ => none

/-- The API publishes codes it has stored, and a worker sends and republishes what it has
consumed. -/
def allows (i : ℕ) : Request → Before F → Command F → Prop
  | .api _ q, before, .inr (.publish task key body) => task = i ∧ key = "send" ∧
      ∃ code job id, Stamped py job id body ∧ Asked lib (before.filterMap served) code q ∧
        Coded lib settings (before.filterMap served) code job
  | .work, before, .inr (.publish _ key body) => ∃ m job,
      ⟨.inr (.consume i), .ok m⟩ ∈ before ∧ fromBytes py m.body = .ok job ∧
        Hop py job m.body key body
  | .api .., _, .inr (.send ..) => False
  | .work, before, .inr (.send _ job) => ∃ m : MailWorker.Mail,
      ⟨.inr (.consume i), .ok m⟩ ∈ before ∧ fromBytes py m.body = .ok job
  | .api .., _, .inr (.consume _) => False
  | .work, _, .inr (.consume task) => task = i
  | _, _, _ => True

abbrev protocol (i : ℕ) (q : Request) : Protocol (Command F) Reply Failure (Before F) :=
  remembering some (allows py lib settings i q)

def contract : Contract (Command F) Reply Failure (Option Requests.Answer) Request (Before F) :=
  memory some (fun i q => allows py lib settings i q) (fun _ _ _ => True)

variable {py lib settings} {i : ℕ}

theorem filterMap_snoc (before : Before F) (step : Step (Command F) Reply Failure) :
    (before ++ [step]).filterMap served = before.filterMap served ++ (served step).toList := by
  rw [List.filterMap_append]
  rcases hs : served step with _ | own <;> simp [hs]

theorem recalls_snoc {before : SessionOrigins.Before} {after : Before F}
    (h : Recalls before (after.filterMap served)) (step : Step (Command F) Reply Failure) :
    Recalls before ((after ++ [step]).filterMap served) := by
  intro own hown hm
  rw [filterMap_snoc]
  exact List.mem_append_left _ (h own hown hm)

theorem keeps_publishJob {connected : Bool} {q : Requests.Request} {job : EmailJob}
    {code : CodeKey} {before : SessionOrigins.Before} {after : Before F}
    (ha : Asked lib before code q) (hc : Coded lib settings before code job)
    (hafter : Recalls before (after.filterMap served)) :
    Keeps (protocol py lib settings i (.api connected q))
      (translated mailed (MailWorker.publishJob py i connected job)) after
      (fun last _ => Recalls before (last.filterMap served)) := by
  have hkeeps := (MailContract.obeys py).program i (.publish connected job)
  refine keeps_mono _ _ ?_ (keeps_translated (fun last _ => Recalls before (last.filterMap served))
    ?_ hkeeps hafter)
  · rintro last r ⟨g, hlast, -⟩
    exact hlast
  · intro c g last hlast hallowed
    refine (keeps_invoke _ _ _).mpr ⟨?_, fun reply => ?_⟩
    · cases c with
      | publish task key body =>
        obtain ⟨rfl, ⟨-, rfl, connected', job', id, hq, hid, hkept, hwritten⟩ | ⟨hq, -⟩⟩ := hallowed
        · cases hq
          exact ⟨rfl, rfl, code, job, id, ⟨hid, hkept, hwritten⟩, asked_mono hlast ha,
            coded_mono hlast hc⟩
        · cases hq
      | send task sent => cases hallowed.2.1
      | consume task => cases hallowed.2.1
      | _ => trivial
    · exact recalls_snoc hlast _

theorem keeps_api (connected : Bool) (q : Requests.Request) :
    Keeps (protocol py lib settings i (.api connected q))
      (translated (made py i connected) (Requests.serve lib settings i q)) []
      (fun _ _ => True) := by
  refine keeps_mono _ _ (fun _ _ _ => trivial) (keeps_translated
    (fun (after : Before F) before => Recalls before (after.filterMap served)) ?_
    (ensures_serve i q) (fun _ h => by cases h))
  intro c before after hafter hallowed
  have answered : ∀ reply : Except Failure (Services.Reply c),
      Recalls (before ++ [⟨c, reply⟩])
        ((after ++ [⟨Sum.inl c, reply⟩] : Before F).filterMap served) := by
    intro reply step hstep hm
    rcases List.mem_append.mp hstep with hold | hnew
    · exact recalls_snoc hafter _ step hold hm
    · rw [filterMap_snoc]
      exact List.mem_append_right _ hnew
  cases c with
  | publish job =>
    obtain ⟨code, ha, hc⟩ := hallowed
    refine keeps_mono _ _ (fun last r hlast => ?_) (keeps_publishJob ha hc hafter)
    intro step hstep hm
    rcases List.mem_append.mp hstep with hold | hnew
    · exact hlast step hold hm
    · cases List.mem_singleton.mp hnew
      exact absurd hm id
  | _ => exact (keeps_invoke _ _ _).mpr ⟨trivial, answered⟩

theorem mail_next {q : MailWorker.Request} {g : Hand} {c : MailWorker.Command F}
    {reply : Except Failure (MailWorker.Reply c)} {m : MailWorker.Mail}
    (h : (MailContract.next py q g c reply).mail? = some m) : g.mail? = some m ∨
      ∃ task, (⟨c, reply⟩ : Step (MailWorker.Command F) MailWorker.Reply Failure) =
        ⟨.consume task, .ok m⟩ := by
  unfold MailContract.next at h
  split at h
  case h_1 =>
    cases h
    exact Or.inr ⟨_, rfl⟩
  case h_2 => split at h <;> cases h
  case h_3 m' now =>
    rw [MailCopies.judged_mail] at h
    exact Or.inl h
  case h_9 => cases h
  case h_10 => cases h
  case h_11 =>
    split at h
    · cases h
    · exact Or.inl h
  all_goals exact Or.inl h

theorem keeps_work : Keeps (protocol py lib settings i .work)
    (translated mailed (MailWorker.program py i .work)) [] (fun _ _ => True) := by
  have hkeeps := (MailContract.obeys py).program i .work
  refine keeps_mono _ _ (fun _ _ _ => trivial) (keeps_translated
    (fun (after : Before F) (g : Hand) => ∀ m, g.mail? = some m →
      (⟨Sum.inr (.consume i), .ok m⟩ : Step (Command F) Reply Failure) ∈ after) ?_ hkeeps
    (fun m h => by cases h))
  intro c g after hafter hallowed
  refine (keeps_invoke _ _ _).mpr ⟨?_, fun reply m hm => ?_⟩
  · cases c with
    | publish task key body =>
      obtain ⟨-, ⟨-, -, connected, job, id, hq, -⟩ | ⟨-, m, job, rfl, hjob, hhop⟩⟩ := hallowed
      · cases hq
      · exact ⟨m, job, hafter m rfl, hjob, hhop⟩
    | send task sent =>
      obtain ⟨-, -, m, rfl, hsent⟩ := hallowed
      exact ⟨m, hafter m rfl, hsent⟩
    | consume task => exact hallowed.1
    | _ => trivial
  · have hnext : (MailContract.next py .work g c reply).mail? = some m := hm
    rcases mail_next hnext with hold | ⟨task, hconsumed⟩
    · exact List.mem_append_left _ (hafter m hold)
    · cases hconsumed
      obtain rfl := hallowed.1
      exact mem_last _ _

theorem obeys (py : Interpreter F) (lib : Libraries) (settings : Settings) :
    Obeys (system py lib settings) (contract py lib settings) where
  program := by
    intro i q
    cases q with
    | api connected q =>
      refine (keeps_map _ _ _ _).mpr (keeps_mono _ _ (fun _ r _ => ?_) (keeps_api connected q))
      cases r <;> trivial
    | work =>
      refine (keeps_map _ _ _ _).mpr (keeps_mono _ _ (fun _ r _ => ?_) keeps_work)
      cases r <;> trivial
  cancelled := by
    intro i q p hp before
    cases q with
    | api connected q =>
      cases q with
      | warm f =>
        cases hp
        trivial
      | _ => cases hp
    | work => cases hp

/-! ## What the broker holds -/

section Mail

variable {x : MailWorker.Choice} {w w' : MailWorker.World} {m : MailWorker.Mail}

theorem body_mailOf (b : Messages MailWorker.Mail) (task : ℕ) (key : String) (body : Bytes) :
    (MailWorker.mailOf b task key body).body = body := by
  unfold MailWorker.mailOf
  split <;> rfl

theorem contents_perform {c : MailWorker.Command F} {reply : Except Failure (MailWorker.Reply c)}
    (hp : MailWorker.perform c x w = some (reply, w')) (hm : m ∈ contents w'.broker) :
    m ∈ contents w.broker ∨ ∃ task key,
      (⟨c, reply⟩ : Step (MailWorker.Command F) MailWorker.Reply Failure) =
        ⟨.publish task key m.body, .ok ()⟩ := by
  obtain ⟨-, ⟨r, hr, rfl⟩ | ⟨e, he, rfl⟩⟩ := MailMoves.perform_cases hp
  · cases c with
    | publish task key body =>
      obtain ⟨b, hb, hw⟩ := Option.map_eq_some_iff.mp hr
      cases hw
      rcases List.mem_cons.mp (contents_publish hb hm) with rfl | hold
      · exact Or.inr ⟨task, key, by rw [body_mailOf]⟩
      · exact Or.inl hold
    | consume task =>
      obtain ⟨⟨taken, b⟩, hb, hw⟩ := Option.map_eq_some_iff.mp hr
      cases hw
      exact Or.inl ((contents_take hb).2 hm)
    | send task job =>
      obtain ⟨u, -, hw⟩ := Option.map_eq_some_iff.mp hr
      cases hw
      exact Or.inl hm
    | ack task =>
      obtain ⟨u, -, hw⟩ := Option.map_eq_some_iff.mp hr
      cases hw
      exact Or.inl (contents_ack task _ hm)
    | reject task =>
      obtain ⟨u, hu, hw⟩ := Option.map_eq_some_iff.mp hr
      cases hw
      exact Or.inl (contents_reject hu hm)
    | _ =>
      cases hr
      exact Or.inl hm
  · cases c with
    | send task job =>
      obtain ⟨u, -, hw⟩ := Option.map_eq_some_iff.mp he
      cases hw
      exact Or.inl hm
    | channel | declareTopology | close | publish =>
      cases he
      exact Or.inl hm
    | _ => cases he

theorem consumed_perform {task : ℕ}
    (hp : MailWorker.perform (.consume task : MailWorker.Command F) x w = some (.ok m, w')) :
    m ∈ contents w.broker := by
  obtain ⟨-, ⟨r, hr, he⟩ | ⟨e, -, he⟩⟩ := MailMoves.perform_cases hp
  · cases he
    obtain ⟨⟨taken, b⟩, hb, hw⟩ := Option.map_eq_some_iff.mp hr
    cases hw
    exact (contents_take hb).1
  · cases he

theorem contents_passed (d : MailWorker.Passing) :
    contents (MailWorker.passed d w).broker ⊆ contents w.broker := by
  cases d with
  | elapse micros => exact fun _ hm => hm
  | expire n => exact contents_expire _ n _
  | crash tasks => exact contents_lose tasks _

end Mail

/-! ## Mails of codes -/

abbrev History (F : Type) := List (Event (Command F) Reply Failure Request)

variable (py lib settings) in
/-- Entry `n` is the broker's taking of the mail of a code its request has stored. -/
def Ordered (h : History F) (n : ℕ) (q : Requests.Request) (code : CodeKey) (job : EmailJob)
    (id : String) : Prop :=
  ∃ i connected body,
    h[n]? = some ⟨i, .api connected q, Sum.inr (.publish i "send" body), .ok ()⟩ ∧
      Stamped py job id body ∧ Asked lib (past served (h.take n) i) code q ∧
      Coded lib settings (past served (h.take n) i) code job

variable (py lib settings) in
/-- The bytes are those of an ordered mail, put off any number of times. -/
def Genuine (h : History F) (body : Bytes) : Prop := ∃ n q code job id k,
  Ordered py lib settings h n q code job id ∧
    fromBytes py body = .ok (fieldsJob F (received job id k))

theorem past_served (h : History F) (i : ℕ) :
    (past some h i).filterMap served = past served h i := by
  unfold past
  rw [List.filterMap_filterMap]
  congr 1
  funext e
  by_cases hi : e.thread = i <;> simp [hi]

theorem later_read {now minutes : ℕ} {t : DateTimes.DateTime}
    (h : later now minutes = .ok t) : t.read = t := by
  unfold later at h
  split at h
  case h_1 t' hmake =>
    cases h
    exact DateTimes.read_make hmake rfl
  case h_2 => cases h

/-- The expiry of a code is in UTC, so that a handler reads the job as it was written. -/
theorem received_coded {h : History F} {n : ℕ} {q : Requests.Request} {code : CodeKey}
    {job : EmailJob} {id : String} (ho : Ordered py lib settings h n q code job id) (k : ℕ) :
    received job id k = again job id k := by
  obtain ⟨_, _, _, -, -, -, _, _, t, -, -, -, hlater, -, hfields⟩ := ho
  have hutc : t.read = t := later_read hlater
  simp [received, again, fieldsRead, stamped, hfields, fieldsOf, hutc]

theorem ordered_append {h : History F} {n : ℕ} {q : Requests.Request} {code : CodeKey}
    {job : EmailJob} {id : String} (ho : Ordered py lib settings h n q code job id)
    (more : History F) : Ordered py lib settings (h ++ more) n q code job id := by
  obtain ⟨i, connected, body, hn, hstamp, ha, hc⟩ := ho
  have hlt : n < h.length := (List.getElem?_eq_some_iff.mp hn).1
  refine ⟨i, connected, body, ?_, hstamp, ?_, ?_⟩
  · rw [List.getElem?_append_left hlt]
    exact hn
  · rw [List.take_append_of_le_length (Nat.le_of_lt hlt)]
    exact ha
  · rw [List.take_append_of_le_length (Nat.le_of_lt hlt)]
    exact hc

theorem genuine_append {h : History F} {body : Bytes} (hg : Genuine py lib settings h body)
    (more : History F) : Genuine py lib settings (h ++ more) body := by
  obtain ⟨n, q, code, job, id, k, ho, hbody⟩ := hg
  exact ⟨n, q, code, job, id, k, ordered_append ho more, hbody⟩

variable (py lib settings) in
/-- Messages are mails of codes, also those that were consumed, and the service has found what
its database says. -/
structure Delivering (w : World) (h : History F) : Prop where
  held : ∀ m ∈ contents w.mail.broker, Genuine py lib settings h m.body
  consumed : ∀ n i q task m,
    h[n]? = some ⟨i, q, Sum.inr (.consume task), .ok m⟩ → Genuine py lib settings (h.take n) m.body
  found : ∀ e ∈ h, ∀ own, served (Step.of e) = some own →
    AccountWrites.Holds lib w.service.database own.command own.reply

theorem genuine_consumed {w : World} {h : History F} (hd : Delivering py lib settings w h) {n i : ℕ}
    {task : ℕ} {m : MailWorker.Mail}
    (hm : ⟨Sum.inr (.consume task), .ok m⟩ ∈ past some (h.take n) i) :
    ∃ k < n, Genuine py lib settings (h.take k) m.body := by
  obtain ⟨k, hk, ⟨j, q, c, reply⟩, he, -, hstep⟩ := mem_past hm
  cases hstep
  exact ⟨k, hk, hd.consumed k j q task m he⟩

theorem genuine_published {w : World} {h : History F} (hd : Delivering py lib settings w h)
    {q : Request} {task : ℕ} {key : String} {body : Bytes}
    (ha : allows py lib settings i q (past some h i) (Sum.inr (.publish task key body))) :
    Genuine py lib settings (h ++ [⟨i, q, Sum.inr (.publish task key body), .ok ()⟩]) body := by
  cases q with
  | api connected q =>
    obtain ⟨rfl, rfl, code, job, id, hstamp, hasked, hcoded⟩ := ha
    rw [past_served] at hasked hcoded
    refine ⟨h.length, q, code, job, id, 0, ⟨task, connected, body, ?_, hstamp, ?_, ?_⟩, ?_⟩
    · rw [List.getElem?_concat_length]
    · rw [List.take_left]
      exact hasked
    · rw [List.take_left]
      exact hcoded
    · exact MailCopies.decodes_stamped hstamp
  | work =>
    obtain ⟨m, sent, hm, hsent, hhop⟩ := ha
    have hwhole : h.take h.length = h := List.take_length
    rw [← hwhole] at hm
    obtain ⟨k, hk, n, q, code, job, id, retry, hordered, hbody⟩ := genuine_consumed hd hm
    have hlater := ordered_append hordered (h.drop k)
    rw [List.take_append_drop] at hlater
    replace hlater := ordered_append hlater
      [⟨i, .work, Sum.inr (.publish task key body), .ok ()⟩]
    rw [hbody] at hsent
    cases hsent
    obtain ⟨_, _, _, _, hstamp, _⟩ := hordered
    rcases MailCopies.hop_again hstamp.named hhop with ⟨-, rfl⟩ | ⟨-, -, -, -, hcopy⟩
    · exact ⟨n, q, code, job, id, retry, hlater, hbody⟩
    · exact ⟨n, q, code, job, id, retry+1, hlater, hcopy⟩

theorem consumed_append {w : World} {h : History F} (hd : Delivering py lib settings w h)
    (e : Event (Command F) Reply Failure Request)
    (he : ∀ task m, (Step.of e) = ⟨Sum.inr (.consume task), .ok m⟩ →
      Genuine py lib settings h m.body) (n i : ℕ) (q : Request) (task : ℕ) (m : MailWorker.Mail)
    (hn : (h ++ [e])[n]? = some ⟨i, q, Sum.inr (.consume task), .ok m⟩) :
    Genuine py lib settings ((h ++ [e]).take n) m.body := by
  rcases entry_append hn with ⟨hlt, hold⟩ | ⟨rfl, hnew⟩
  · rw [List.take_append_of_le_length (Nat.le_of_lt hlt)]
    exact hd.consumed n i q task m hold
  · rw [List.take_left]
    exact he task m (by rw [← hnew]; rfl)

section Call

variable {s : State (Command F) Reply Failure (Option Requests.Answer) World Request}
  {x : Choice} {q : Request} {w : World}

theorem delivering_own {c : Services.Command} {reply : Except Failure (Services.Reply c)}
    (hd : Delivering py lib settings s.world s.history)
    (hp : perform lib (Sum.inl c : Command F) x s.world = some (reply, w)) :
    Delivering py lib settings w (s.history ++ [⟨i, q, Sum.inl c, reply⟩]) := by
  obtain ⟨⟨r, w'⟩, hr, he⟩ := Option.map_eq_some_iff.mp hp
  cases he
  refine ⟨fun m hm => genuine_append (hd.held m hm) _, consumed_append hd _ ?_, ?_⟩
  · rintro task m ⟨⟩
  · intro e hmem own hown
    rcases List.mem_append.mp hmem with hold | hnew
    · exact AccountWrites.holds_mono (AccountWrites.persists_perform hr) (hd.found e hold own hown)
    · cases List.mem_singleton.mp hnew
      cases hown
      exact AccountWrites.holds_perform hr

theorem delivering_mail {c : MailWorker.Command F} {reply : Except Failure (MailWorker.Reply c)}
    (hd : Delivering py lib settings s.world s.history)
    (ha : allows py lib settings i q (past some s.history i) (Sum.inr c))
    (hp : perform lib (Sum.inr c) x s.world = some (reply, w)) :
    Delivering py lib settings w (s.history ++ [⟨i, q, Sum.inr c, reply⟩]) := by
  obtain ⟨⟨r, w'⟩, hr, he⟩ := Option.map_eq_some_iff.mp hp
  cases he
  refine ⟨fun m hm => ?_, consumed_append hd _ ?_, ?_⟩
  · rcases contents_perform hr hm with hold | ⟨task, key, hpublished⟩
    · exact genuine_append (hd.held m hold) _
    · cases hpublished
      exact genuine_published hd ha
  · intro task m hstep
    cases hstep
    exact hd.held m (consumed_perform hr)
  · intro e hmem own hown
    rcases List.mem_append.mp hmem with hold | hnew
    · exact hd.found e hold own hown
    · cases List.mem_singleton.mp hnew
      cases hown

end Call

theorem delivering_passed {w : World} {h : History F} (hd : Delivering py lib settings w h)
    (d : Passing) : Delivering py lib settings (passed d w) h := by
  cases d with
  | service d =>
    have hsame : (Services.passed d w.service).database = w.service.database := by
      cases d <;> rfl
    refine ⟨hd.held, hd.consumed, fun e he own hown => ?_⟩
    show AccountWrites.Holds lib (Services.passed d w.service).database own.command own.reply
    rw [hsame]
    exact hd.found e he own hown
  | mail d => exact ⟨fun m hm => hd.held m (contents_passed d hm), hd.consumed, hd.found⟩

theorem delivering_preserved (py : Interpreter F) (lib : Libraries) (settings : Settings) :
    Preserved (system py lib settings) (contract py lib settings) (fun _ _ => True)
      (Delivering py lib settings) where
  call := by
    rintro s i x q c reply w hd - ha hp -
    rw [contract, ghost_memory] at ha
    cases c with
    | inl c => exact delivering_own hd hp
    | inr c => exact delivering_mail hd ha hp
  pass := fun _ d hd _ => delivering_passed hd d

theorem delivering_fresh (now now' : ℕ) (database : Database) :
    Delivering py lib settings ⟨Services.World.fresh now database, MailWorker.World.fresh now'⟩
      [] where
  held := fun _ h => by cases h
  consumed := fun _ _ _ _ _ h => by cases h
  found := fun _ h => by cases h

theorem delivering_run (py : Interpreter F) (lib : Libraries) (settings : Settings) (now now' : ℕ)
    (database : Database) (ls : List (Label Request Choice Passing)) :
    let s := run (system py lib settings) ls
      (initial ⟨Services.World.fresh now database, MailWorker.World.fresh now'⟩)
    Delivering py lib settings s.world s.history :=
  invariant_run (obeys py lib settings) (delivering_preserved py lib settings) ls _
    (following_initial _) (delivering_fresh now now' database) (meets_trivial ls _)

/-! ## Every run -/

/-- The address a request for a code names. -/
def addressOf : Requests.Request → Option String
  | .signup _ email _ _ => some email
  | .resendVerification email => some email
  | .forgotPassword email _ => some email
  | _ => none

theorem found_past {w : World} {h : History F} (hd : Delivering py lib settings w h) {n : ℕ}
    {own : Step Services.Command Services.Reply Failure}
    (hs : own ∈ past served (h.take n) i) :
    AccountWrites.Holds lib w.service.database own.command own.reply := by
  obtain ⟨k, -, e, he, -, hown⟩ := mem_past hs
  exact hd.found e (List.mem_of_getElem? he) own hown

theorem address_of_asked {w : World} {h : History F} (hd : Delivering py lib settings w h) {n : ℕ}
    {q : Requests.Request} {code : CodeKey} (ha : Asked lib (past served (h.take n) i) code q) :
    (addressOf q).map (normalizeEmail lib) = some (.ok code.email) := by
  cases q with
  | signup f email password client => exact congrArg some ha.2.1
  | resendVerification email | forgotPassword email =>
    obtain ⟨-, address, row, hn, he, hrow, -⟩ := ha
    obtain ⟨haddress, -⟩ := found_past hd hrow
    rw [← he, haddress]
    exact congrArg some hn
  | _ => exact absurd ha id

/-- Whatever the mail server is handed is the mail of a code: a request that named the address
had stored the digest of the code for it before the broker took the mail, and since then only
the attempts have changed. -/
theorem mails_are_of_codes (py : Interpreter F) (lib : Libraries) (settings : Settings)
    (now now' : ℕ) (database : Database) (ls : List (Label Request Choice Passing)) :
    let s := run (system py lib settings) ls
      (initial ⟨Services.World.fresh now database, MailWorker.World.fresh now'⟩)
    ∀ n e task sent, s.history[n]? = some e → e.command = Sum.inr (.send task sent) →
      ∃ m < n, ∃ q code job id k, Ordered py lib settings s.history m q code job id ∧
        (addressOf q).map (normalizeEmail lib) = some (.ok code.email) ∧
        sent = fieldsJob F (again job id k) := by
  intro s n e task sent hn hsend
  have hd : Delivering py lib settings s.world s.history :=
    delivering_run py lib settings now now' database ls
  have hallowed : Allowed some (fun i q => allows py lib settings i q) s.history :=
    allowed_run (obeys py lib settings) ls _
  have hs := hallowed n e hn
  rw [hsend] at hs
  rcases hq : e.request with ⟨connected, q⟩ | -
  · rw [hq] at hs
    exact absurd hs id
  · rw [hq] at hs
    obtain ⟨m, hm, hsent⟩ := hs
    obtain ⟨l, hl, k, q, code, job, id, retry, hordered, hbody⟩ := genuine_consumed hd hm
    rw [hbody] at hsent
    cases hsent
    have hlater := ordered_append hordered (s.history.drop l)
    rw [List.take_append_drop] at hlater
    rw [received_coded hlater retry]
    obtain ⟨_, _, _, hget, _, _⟩ := hordered
    have hk : k < l := by
      have hlt := (List.getElem?_eq_some_iff.mp hget).1
      rw [List.length_take] at hlt
      omega
    refine ⟨k, by omega, q, code, job, id, retry, hlater, ?_, rfl⟩
    obtain ⟨i, _, _, _, _, hasked, _⟩ := hlater
    exact address_of_asked hd hasked

theorem id_nonempty : "id" ≠ "" := by decide

/-- No call fails, and every mail is given one id. -/
def chosen (name : String) : Choice := ⟨{ name := name }, ⟨0, none, ⟨"id", id_nonempty⟩⟩⟩

/-- A signup, and a worker that is delivered its mail. -/
def signedUp : List (Label Request Choice Passing) :=
  .spawn (.api true (.signup Requests.withoutFilter "a@b" "long password" "1.2.3.4")) ::
    (["", "", "", "u"] ++ List.replicate 12 "").map (fun name => .run 0 (chosen name)) ++
  .spawn .work :: List.replicate 3 (.run 1 (chosen ""))

def isSend : Command F → Bool
  | .inr (.send ..) => true
  | _ => false

abbrev afterSignup : State (Command Unit) Reply Failure (Option Requests.Answer) World Request :=
  run (system MailWorker.plainInterpreter Requests.plainLibraries Requests.plainSettings) signedUp
    (initial ⟨Services.World.fresh 0 noAccounts, MailWorker.World.fresh 1000⟩)

theorem mails_are_of_codes_signup : ∃ m < 18, ∃ q code job id,
    Ordered MailWorker.plainInterpreter Requests.plainLibraries Requests.plainSettings
      afterSignup.history m q code job id ∧
      (addressOf q).map (normalizeEmail Requests.plainLibraries) = some (.ok code.email) := by
  have hsend : (afterSignup.history[18]?).map (fun e => isSend e.command) = some true := by
    decide +kernel
  obtain ⟨e, he, hsent⟩ := Option.map_eq_some_iff.mp hsend
  have hcommand : ∃ task sent, e.command = Sum.inr (.send task sent) := by
    unfold isSend at hsent
    split at hsent
    case h_1 task sent heq => exact ⟨task, sent, heq⟩
    case h_2 => cases hsent
  obtain ⟨task, sent, hcommand⟩ := hcommand
  obtain ⟨m, hm, q, code, job, id, k, hordered, haddress, -⟩ :=
    mails_are_of_codes MailWorker.plainInterpreter Requests.plainLibraries Requests.plainSettings
      0 1000 noAccounts signedUp 18 e task sent he hcommand
  exact ⟨m, hm, q, code, job, id, hordered, haddress⟩

end Gamely.MailDelivery
