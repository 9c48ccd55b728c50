import Gamely.JobRoundTrip
import Gamely.MailMoves

/-!
# Failed deliveries

The handler tells failures of SMTP apart by the class of the exception, which says
at what stage a reply came and not whether it is final. A message is handled here
with its send failing in any way; its other calls are answered.
-/

set_option autoImplicit false

namespace Gamely.DeliveryFailures
open Gamely.Calls Gamely.Broker Gamely.Sequential Gamely.Json Gamely.EmailJobs Gamely.JobCodec
open Gamely.MailWorker Gamely.MailMoves Gamely.JobRoundTrip

/-! ## Outcomes of a send -/

/-- The command of the dialogue that was refused. -/
inductive Stage where
  | connect
  | hello
  | startTls
  | login
  | sender
  | recipient
  | data
  | content
  deriving DecidableEq, Repr

inductive Outcome where
  | reply (stage : Stage) (code : ℕ)
  | connectionError
  | timeout
  deriving DecidableEq, Repr

def Outcome.permanent : Outcome → Bool
  | .reply _ code => 500 ≤ code && code < 600
  | _ => false

def Outcome.temporary : Outcome → Bool
  | .reply _ code => 400 ≤ code && code < 500
  | _ => true

def Outcome.atRecipient : Outcome → Bool
  | .reply stage _ => stage = .recipient
  | _ => false

/-- The exceptions of the SMTP library: the two classes the handler names are raised for the
replies to `RCPT` other than 250 and 251, and for nothing else. -/
structure Smtp where
  raised : Outcome → Failure
  recipient : ∀ code, code ≠ 250 → code ≠ 251 →
    raised (.reply .recipient code) = .recipientRefused
  others : ∀ o : Outcome, o.atRecipient = false → raised o ≠ .recipientRefused

theorem refused_iff (smtp : Smtp) {o : Outcome} (ho : o.temporary ∨ o.permanent) :
    smtp.raised o = .recipientRefused ↔ o.atRecipient = true := by
  constructor
  · intro h
    by_contra hn
    exact smtp.others o (by simpa using hn) h
  · intro h
    cases o with
    | connectionError => cases h
    | timeout => cases h
    | reply stage code =>
      obtain rfl : stage = .recipient := of_decide_eq_true h
      have hcode : 400 ≤ code := by
        rcases ho with ho | ho <;>
          simp only [Outcome.temporary, Outcome.permanent, Bool.and_eq_true,
            decide_eq_true_eq] at ho <;> omega
      exact smtp.recipient code (by omega) (by omega)

/-! ## The handled message -/

/-- The second call is the send; it fails, and the others are answered. -/
def failingSend (e : Failure) (u : Uuid) (n : ℕ) : Choice :=
  if n = 1 then { failure := some e, uuid := u } else { uuid := u }

/-- The task holds this message of the primary queue. -/
structure Holds (task : ℕ) (m : Mail) (w : World) : Prop where
  alive : task ∉ w.lost
  held : ∃ since, heldBy w.broker task = some ⟨task, ⟨primaryQueue, m, since⟩⟩

/-- The delivery is settled, and one message is added. -/
def Replaced (task : ℕ) (w w' : World) (s : Stored Mail) : Prop :=
  w'.broker = ⟨w.broker.queued ++ [s], settled w.broker task⟩

variable {F : Type} (py : Interpreter F)

/-- The job with one attempt more waits in the retry queue of its attempts. -/
def Retried (u : Uuid) (j : TypedJob) (task : ℕ) (w w' : World) : Prop :=
  ∃ s delay, Replaced task w w' s ∧ retryDelays[j.attempts.toNat]? = some delay ∧
    s.queue = retryQueue delay ∧ fromBytes py s.message.body =
      .ok (({ j with attempts := j.attempts+1 } : TypedJob).decoded u |>.job F)

/-- The message as it was is in the dead queue, and in no retry queue. -/
def DeadLettered (m : Mail) (task : ℕ) (w w' : World) : Prop :=
  ∃ s, Replaced task w w' s ∧ s.queue = deadQueue ∧ s.message.body = m.body

theorem retried_not_dead {u : Uuid} {j : TypedJob} {m : Mail} {task : ℕ} {w w' : World}
    (h : Retried py u j task w w') : ¬ DeadLettered m task w w' := by
  rintro ⟨s, hs, hqueue, -⟩
  obtain ⟨s', delay, hs', -, hqueue', -⟩ := h
  have hsame : s = s' := by
    have he := hs.symm.trans hs'
    simpa using he
  rw [hsame, hqueue'] at hqueue
  have hname := congrArg Queue.messageTtl hqueue
  cases hname

section
variable {schedule : ℕ → Choice} {n task : ℕ} {m : Mail} {w : World}

theorem runs_call {c : Command F} {r : Reply c × World} (hf : (schedule n).failure = none)
    (ha : ∀ t ∈ c.task?, t ∉ w.lost) (hr : answer (schedule n) w c = some r) :
    runOn perform schedule n (invoke c : Act F (Reply c)) w = some (.ok r.1, r.2, n+1) := by
  have hlost : ¬ ∃ t ∈ c.task?, t ∈ w.lost := by
    rintro ⟨t, ht, hl⟩
    exact ha t ht hl
  rw [runOn_invoke, perform, if_neg hlost, hf, hr]
  rfl

theorem holds_tried (h : Holds task m w) : Holds task m (tried w task m) := ⟨h.alive, h.held⟩

theorem runs_publish (body : Bytes) (hf : (schedule n).failure = none) (h : Holds task m w)
    {key : String} {queue : Queue} {retry : ℕ}
    (hr : (if key = "dead" then m.retry else m.retry+1) = retry)
    (hq : ∀ now (m : Mail), copies topology now key m = [⟨queue, m, now⟩]) :
    ∃ w',
      runOn perform schedule n (invoke (Command.publish (F := F) task key body) : Act F Unit) w =
        some (.ok (), w', n+1) ∧ Holds task m w' ∧ w'.broker =
          { w.broker with queued :=
            w.broker.queued ++ [⟨queue, ⟨m.origin, retry, body⟩, w.millis⟩] } := by
  obtain ⟨since, hu⟩ := h.held
  have hroutes : routes topology key ≠ [] := by
    intro he
    have hc := hq 0 m
    rw [copies, he] at hc
    cases hc
  have hmail : mailOf w.broker task key body = ⟨m.origin, retry, body⟩ := by
    simp only [mailOf, hu, hr]
  let w' : World := { w with broker := { w.broker with queued :=
    w.broker.queued ++ [⟨queue, ⟨m.origin, retry, body⟩, w.millis⟩] } }
  have ha : answer (schedule n) w (Command.publish (F := F) task key body) = some ((), w') := by
    simp only [answer, publish, if_neg hroutes, hmail, hq]
    rfl
  refine ⟨w', runs_call hf ?_ ha, ⟨h.alive, since, hu⟩, rfl⟩
  intro t ht
  cases ht
  exact h.alive

theorem runs_ack (hf : (schedule n).failure = none) (h : Holds task m w) :
    ∃ w', runOn perform schedule n (invoke (Command.ack (F := F) task) : Act F Unit) w =
        some (.ok (), w', n+1) ∧ w'.broker = ⟨w.broker.queued, settled w.broker task⟩ := by
  obtain ⟨since, hu⟩ := h.held
  have ha : ∃ w', answer (schedule n) w (Command.ack (F := F) task) = some ((), w') ∧
      w'.broker = ⟨w.broker.queued, settled w.broker task⟩ := by
    simp only [answer, hu, Option.map_some]
    exact ⟨_, rfl, rfl⟩
  obtain ⟨w', hr, hb⟩ := ha
  refine ⟨w', runs_call hf ?_ hr, hb⟩
  intro t ht
  cases ht
  exact h.alive

theorem runs_reject (hf : (schedule n).failure = none) (h : Holds task m w) :
    ∃ w', runOn perform schedule n (invoke (Command.reject (F := F) task) : Act F Unit) w =
        some (.ok (), w', n+1) ∧ DeadLettered m task w w' := by
  obtain ⟨since, hu⟩ := h.held
  have ha : ∃ w', answer (schedule n) w (Command.reject (F := F) task) = some ((), w') ∧
      w'.broker = reject topology w.millis ⟨task, ⟨primaryQueue, m, since⟩⟩ w.broker := by
    simp only [answer, hu, Option.map_some]
    exact ⟨_, rfl, rfl⟩
  obtain ⟨w', hr, hb⟩ := ha
  have hdead : deadLetter topology w.millis ⟨primaryQueue, m, since⟩ =
      [⟨deadQueue, m, w.millis⟩] := copies_dead w.millis m
  refine ⟨w', runs_call hf ?_ hr, ⟨deadQueue, m, w.millis⟩, ?_, rfl, rfl⟩
  · intro t ht
    cases ht
    exact h.alive
  · rw [Replaced, hb, reject, hdead]

/-! ## The handler of a failed send -/

theorem runs_spent {job : Job F} (hf : ∀ k, n ≤ k → (schedule k).failure = none)
    (h : Holds task m w) (hspent : atLeast py retryDelays.length job.attempts = .ok true) :
    ∃ w' k, runOn perform schedule n (republish py task m.body job) w = some (.ok (), w', k) ∧
      DeadLettered m task w w' := by
  obtain ⟨w₁, hpublish, h₁, hb₁⟩ := runs_publish (F := F) m.body (hf n le_rfl) h
    (if_pos rfl) copies_dead
  obtain ⟨w₂, hack, hb₂⟩ := runs_ack (F := F) (hf (n+1) (by omega)) h₁
  refine ⟨w₂, n+2, ?_, ⟨deadQueue, ⟨m.origin, m.retry, m.body⟩, w.millis⟩, ?_, rfl, rfl⟩
  · unfold republish
    rw [hspent]
    change runOn perform schedule n (invoke (Command.publish (F := F) task "dead" m.body) >>=
      fun _ => invoke (Command.ack (F := F) task)) w = _
    rw [runOn_bind, hpublish]
    exact hack
  · rw [Replaced, hb₂, hb₁]
    rfl

theorem delay_of_few {a : ℤ} (ha : 0 ≤ a) (hfew : a < 4) :
    ∃ delay, retryDelays[a.toNat]? = some delay ∧ delay ∈ retryDelays ∧
      item retryDelays (.int a : Value F) = .ok delay := by
  have h4 : (retryDelays.length : ℤ) = 4 := rfl
  have hpos : position retryDelays.length a = some a.toNat := by
    rw [position, h4, if_pos (by omega), Int.emod_eq_of_lt ha hfew]
  have hlt : a.toNat < retryDelays.length := by
    have : retryDelays.length = 4 := rfl
    omega
  have hget : retryDelays[a.toNat]? = some (retryDelays[a.toNat]) := List.getElem?_eq_getElem hlt
  refine ⟨_, hget, List.getElem_mem hlt, ?_⟩
  simp only [item, Bind.bind, Except.bind, hpos, Option.bind_some, hget]

theorem runs_retry {j : TypedJob} {u : Uuid} (hj : (j.job F).postInit py = .ok ())
    (hwhole : j.expiresAt.read = j.expiresAt)
    (hfew : j.attempts < 4) (hf : ∀ k, n ≤ k → (schedule k).failure = none)
    (hu : (schedule n).uuid = u) (h : Holds task m w) :
    ∃ w' k, runOn perform schedule n (republish py task m.body (j.job F)) w =
        some (.ok (), w', k) ∧ Retried py u j task w w' := by
  let again : TypedJob := { j with attempts := j.attempts+1 }
  have hvalid := (postInit_typed py j).mp hj
  have hpos : 0 ≤ j.attempts := hvalid.2.2.2.2
  have hagain : (again.job F).postInit py = .ok () :=
    (postInit_typed py again).mpr ⟨hvalid.1, hvalid.2.1, hvalid.2.2.1, hvalid.2.2.2.1,
      by show 0 ≤ j.attempts+1; omega⟩
  have hmake : Job.make py (again.job F) = .ok (again.job F) := by
    simp only [Job.make, hagain, Bind.bind, Except.bind]
  obtain ⟨body, hbody⟩ := toBytes_typed py (again.identified u)
    (by show 0 ≤ j.attempts+1; omega) (lt_printable (by show j.attempts+1 < 10; omega))
  obtain ⟨k, hencode⟩ := writes_typed py again u schedule n w hu (hf n le_rfl)
  rw [hbody] at hencode
  have hk : n ≤ k := runOn_le hencode
  have hread := fromBytes_decoded py again u hagain (by rw [toBytes_decoded, hbody])
  rw [decoded_read again u hwhole] at hread
  obtain ⟨delay, hget, hmem, hitem⟩ := delay_of_few (F := F) hpos hfew
  obtain ⟨w₁, hpublish, h₁, hb₁⟩ := runs_publish (F := F) body (hf k hk) h
    (if_neg (retry_key_ne hmem)) (copies_retry hmem)
  obtain ⟨w₂, hack, hb₂⟩ := runs_ack (F := F) (hf (k+1) (by omega)) h₁
  have hleft : atLeast py retryDelays.length (j.job F).attempts = .ok false := by
    have hn : ¬ (4 : ℤ) ≤ j.attempts := not_le.mpr hfew
    have he : atLeast py retryDelays.length (j.job F).attempts =
      .ok (decide ((4 : ℤ) ≤ j.attempts)) := rfl
    rw [he, decide_eq_false hn]
  refine ⟨w₂, k+2, ?_, ⟨retryQueue delay, ⟨m.origin, m.retry+1, body⟩, w.millis⟩, delay, ?_,
    hget, rfl, hread⟩
  · unfold republish
    rw [hleft]
    change runOn perform schedule n (ofResult (Job.make py (again.job F)) >>= fun retry =>
      encodeJob py retry >>= fun body => ofResult (item retryDelays (j.job F).attempts) >>=
        fun delay => invoke (Command.publish (F := F) task s!"retry.{delay}" body) >>=
          fun _ => invoke (Command.ack (F := F) task)) w = _
    rw [hmake]
    change runOn perform schedule n (encodeJob py (again.job F) >>= _) w = _
    rw [runOn_bind, hencode]
    change runOn perform schedule k (ofResult (item retryDelays (.int j.attempts)) >>= _) w = _
    rw [hitem]
    change runOn perform schedule k (invoke _ >>= _) w = _
    rw [runOn_bind, hpublish]
    exact hack
  · rw [Replaced, hb₂, hb₁]
    rfl

end

/-! ## Classification -/

variable {py} {j : TypedJob} {u : Uuid} {task : ℕ} {m : Mail} {w : World}

theorem runs_send (e : Failure) (job : Job F) (h : Holds task m w) :
    runOn perform (failingSend e u) 1 (attempt (invoke (Command.send task job))) w =
      some (.ok (some e), tried w task m, 2) := by
  obtain ⟨since, hu⟩ := h.held
  have hlost : ¬ ∃ t ∈ (Command.send task job).task?, t ∈ w.lost := by
    rintro ⟨t, ht, hl⟩
    cases ht
    exact h.alive hl
  have hcall : perform (Command.send task job) (failingSend e u 1) w =
      some (.error e, tried w task m) := by
    rw [perform, if_neg hlost]
    simp [failingSend, failed, hu, tried]
  unfold attempt
  rw [runOn_tryCatch, runOn_bind, runOn_invoke, hcall]
  rfl

theorem handles_failure (e : Failure) (hj : (j.job F).postInit py = .ok ())
    (hbody : fromBytes py m.body = .ok (j.job F)) (h : Holds task m w)
    (hlive : (w.now : ℤ) < j.expiresAt.instant) :
    ∃ w' k, runOn perform (failingSend e u) 0 (handleMessage py task m.body) w =
        some (.ok (), w', k) ∧
      (if e = .recipientRefused ∨ 4 ≤ j.attempts then DeadLettered m task w w'
        else Retried py u j task w w') := by
  have hnow : runOn perform (failingSend e u) 0 (invoke (Command.utcnow (F := F)) : Act F ℤ) w =
      some (.ok (w.now : ℤ), w, 1) :=
    runs_call (c := Command.utcnow) rfl (by intro t ht; cases ht) rfl
  have hwhole : j.expiresAt.read = j.expiresAt :=
    congrArg Job.expiresAt (read_fromBytes py hbody)
  have hfresh : ¬ j.expiresAt.instant ≤ (w.now : ℤ) := not_le.mpr hlive
  have hlater : ∀ k, 2 ≤ k → (failingSend e u k).failure = none ∧ (failingSend e u k).uuid = u := by
    intro k hk
    have hne : k ≠ 1 := by omega
    simp [failingSend, hne]
  have hf : ∀ k, 2 ≤ k → (failingSend e u k).failure = none := fun k hk => (hlater k hk).1
  have htried := holds_tried h
  simp only [handleMessage, hbody]
  rw [runOn_bind, hnow]
  change ∃ w' k, runOn perform (failingSend e u) 1 (if j.expiresAt.instant ≤ (w.now : ℤ) then _
    else _) w = _ ∧ _
  rw [if_neg hfresh, runOn_bind, runs_send e (j.job F) h]
  by_cases hrefused : e = .recipientRefused
  · subst hrefused
    obtain ⟨w', hreject, hdead⟩ := runs_reject (F := F) (hf 2 le_rfl) htried
    refine ⟨w', 3, hreject, ?_⟩
    rw [if_pos (Or.inl rfl)]
    exact hdead
  · have hrun : ∃ w' k, runOn perform (failingSend e u) 2 (republish py task m.body (j.job F))
        (tried w task m) = some (.ok (), w', k) ∧
        (if e = .recipientRefused ∨ 4 ≤ j.attempts then DeadLettered m task w w'
          else Retried py u j task w w') := by
      by_cases hspent : 4 ≤ j.attempts
      · have hat : atLeast py retryDelays.length (j.job F).attempts = .ok true :=
          congrArg Except.ok (decide_eq_true hspent)
        obtain ⟨w', k, hr, hdead⟩ := runs_spent py hf htried hat
        refine ⟨w', k, hr, ?_⟩
        rw [if_pos (Or.inr hspent)]
        exact hdead
      · obtain ⟨w', k, hr, hretried⟩ :=
          runs_retry py hj hwhole (not_le.mp hspent) hf (hlater 2 le_rfl).2 htried
        refine ⟨w', k, hr, ?_⟩
        rw [if_neg (not_or.mpr ⟨hrefused, hspent⟩)]
        exact hretried
    obtain ⟨w', k, hr, hclass⟩ := hrun
    have hcaught : runOn perform (failingSend e u) 2
        (tryCatchThe Failure (republish py task m.body (j.job F))
          (fun _ => invoke (Command.reject (F := F) task))) (tried w task m) =
            some (.ok (), w', k) := by
      rw [runOn_tryCatch, hr]
      rfl
    refine ⟨w', k, ?_, hclass⟩
    cases e with
    | recipientRefused => exact absurd rfl hrefused
    | _ => exact hcaught

/-- Temporary failures are put off while attempts are left, and permanent ones never. -/
def Classified (py : Interpreter F) (u : Uuid) (o : Outcome) (j : TypedJob) (m : Mail) (task : ℕ)
    (w w' : World) : Prop :=
  (o.temporary = true → j.attempts < 4 → Retried py u j task w w') ∧
    (o.permanent = true → DeadLettered m task w w')

/-- A failure is treated by its permanence exactly when no attempt is left, or when it is
permanent just in case it is a reply to the recipient. -/
theorem failure_classified_iff (smtp : Smtp) (u : Uuid) (j : TypedJob) (m : Mail) (task : ℕ)
    (w : World) (hj : (j.job F).postInit py = .ok ()) (hbody : fromBytes py m.body = .ok (j.job F))
    (h : Holds task m w) (hlive : (w.now : ℤ) < j.expiresAt.instant) (o : Outcome)
    (ho : o.temporary ∨ o.permanent) :
    ∃ w' k, runOn perform (failingSend (smtp.raised o) u) 0 (handleMessage py task m.body) w =
        some (.ok (), w', k) ∧
      (Classified py u o j m task w w' ↔ 4 ≤ j.attempts ∨ o.atRecipient = o.permanent) := by
  obtain ⟨w', k, hr, hclass⟩ := handles_failure (u := u) (smtp.raised o) hj hbody h hlive
  refine ⟨w', k, hr, ?_⟩
  simp only [refused_iff smtp ho] at hclass
  have hexclusive : o.temporary = !o.permanent := by
    cases o with
    | reply stage code =>
      simp only [Outcome.temporary, Outcome.permanent, Bool.and_eq_true, decide_eq_true_eq] at ho ⊢
      rw [Bool.eq_iff_iff]
      simp only [Bool.and_eq_true, decide_eq_true_eq, Bool.not_eq_true', Bool.and_eq_false_iff,
        decide_eq_false_iff_not]
      omega
    | _ => rfl
  by_cases hspent : 4 ≤ j.attempts
  · rw [if_pos (Or.inr hspent)] at hclass
    apply iff_of_true
    · exact ⟨fun _ hfew => absurd hspent (not_le.mpr hfew), fun _ => hclass⟩
    · exact Or.inl hspent
  · have hfew := not_le.mp hspent
    unfold Classified
    rw [hexclusive]
    cases hp : o.permanent with
    | true =>
      cases hat : o.atRecipient with
      | true =>
        rw [hat, if_pos (Or.inl rfl)] at hclass
        exact iff_of_true ⟨(fun h => by cases h), fun _ => hclass⟩ (Or.inr rfl)
      | false =>
        rw [hat, if_neg (not_or.mpr ⟨Bool.false_ne_true, hspent⟩)] at hclass
        apply iff_of_false
        · exact fun hdead => retried_not_dead py hclass (hdead.2 rfl)
        · exact not_or.mpr ⟨hspent, Bool.false_ne_true⟩
    | false =>
      cases hat : o.atRecipient with
      | true =>
        rw [hat, if_pos (Or.inl rfl)] at hclass
        apply iff_of_false
        · exact fun hput => retried_not_dead py (hput.1 rfl hfew) hclass
        · exact not_or.mpr ⟨hspent, fun h => Bool.false_ne_true h.symm⟩
      | false =>
        rw [hat, if_neg (not_or.mpr ⟨Bool.false_ne_true, hspent⟩)] at hclass
        exact iff_of_true ⟨fun _ _ => hclass, (fun h => by cases h)⟩ (Or.inr rfl)

/-- A library that raises one class for every refusal of the recipient. -/
def plainSmtp : Smtp where
  raised o := if o.atRecipient then .recipientRefused else .external
  recipient _ _ _ := rfl
  others o ho := by simp [ho]

def sample : TypedJob := (sampleJob (str "") 0).decoded sampleId

def sampleMail : Mail :=
  ⟨0, 0, (Job.toBytes plainInterpreter (sample.job Unit)).toOption.getD []⟩

def sampleWorld : World :=
  { World.fresh 0 with broker := ⟨[], [⟨1, ⟨primaryQueue, sampleMail, 0⟩⟩]⟩ }

theorem sample_decodes : (sample.job Unit).postInit plainInterpreter = .ok () ∧
    fromBytes plainInterpreter sampleMail.body = .ok (sample.job Unit) := by
  have hvalid := sample_valid (str "") 0 (by decide) (le_refl 0)
  have hpost := postInit_decoded plainInterpreter _ sampleId hvalid
  obtain ⟨body, hbody⟩ := toBytes_typed plainInterpreter (F := Unit) sample (le_refl 0)
    (lt_printable (by decide))
  have hmail : sampleMail.body = body := by
    change (Job.toBytes plainInterpreter (sample.job Unit)).toOption.getD [] = body
    rw [hbody]
    rfl
  rw [hmail]
  exact ⟨hpost, fromBytes_decoded plainInterpreter _ sampleId hvalid hbody⟩

theorem sample_held : Holds 1 sampleMail sampleWorld where
  alive := List.not_mem_nil
  held := ⟨0, rfl⟩

theorem sample_live : (sampleWorld.now : ℤ) < sample.expiresAt.instant := by decide

/-- A temporary refusal of the recipient is not put off. -/
theorem greylisted_dead_lettered : ∃ w' k,
    runOn perform (failingSend (plainSmtp.raised (.reply .recipient 450)) sampleId) 0
      (handleMessage plainInterpreter 1 sampleMail.body) sampleWorld = some (.ok (), w', k) ∧
    ¬ Classified plainInterpreter sampleId (.reply .recipient 450) sample sampleMail 1
      sampleWorld w' := by
  obtain ⟨w', k, hr, hdead⟩ := handles_failure (u := sampleId)
    (plainSmtp.raised (.reply .recipient 450)) sample_decodes.1 sample_decodes.2 sample_held
    sample_live
  have hrefused : plainSmtp.raised (.reply .recipient 450) = .recipientRefused := rfl
  rw [if_pos (Or.inl hrefused)] at hdead
  refine ⟨w', k, hr, ?_⟩
  exact fun h => retried_not_dead plainInterpreter (h.1 rfl (by decide)) hdead

theorem failure_classified_sample : ∃ w' k,
    runOn perform (failingSend (plainSmtp.raised .timeout) sampleId) 0
      (handleMessage plainInterpreter 1 sampleMail.body) sampleWorld = some (.ok (), w', k) ∧
    Classified plainInterpreter sampleId .timeout sample sampleMail 1 sampleWorld w' := by
  obtain ⟨w', k, hr, hclass⟩ := failure_classified_iff plainSmtp sampleId sample sampleMail 1
    sampleWorld sample_decodes.1 sample_decodes.2 sample_held sample_live .timeout (Or.inl rfl)
  exact ⟨w', k, hr, hclass.mpr (Or.inr rfl)⟩

end Gamely.DeliveryFailures
