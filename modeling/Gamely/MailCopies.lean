import Gamely.MailMoves

/-!
# What the copies of a job are

Every copy, queued or delivered, is read as the published job with only the
attempts raised, once for each time it was put off. It waits in the retry queue of
that count, and a handler's hand says what the broker has given it.
-/

set_option autoImplicit false

namespace Gamely.MailCopies
open Gamely.Calls Gamely.Broker Gamely.Json Gamely.DateTimes Gamely.EmailJobs Gamely.JobCodec
open Gamely.MailWorker Gamely.MailContract Gamely.MailMoves Gamely.Interleaving

variable {F : Type} (py : Interpreter F)

/-- The job of its `k`-th retry. -/
def again (job : EmailJob) (id : String) (k : ℕ) : JobFields :=
  { stamped job id with attempts := job.fields.attempts+k }

/-- What a handler reads from the copy of the `k`-th retry. -/
def received (job : EmailJob) (id : String) (k : ℕ) : JobFields := fieldsRead (again job id k)

/-- How far a job of so many attempts is from its last send. -/
def spare (attempts : ℤ) : ℕ := (retryDelays.length-attempts).toNat

structure Descends (hand : ℕ → Hand) (m : Mail) (job : EmailJob) (id : String)
    (body : Bytes) : Prop where
  origin : hand m.origin = .published job body
  stamp : Stamped py job id body
  reads : fromBytes py m.body = .ok (fieldsJob F (received job id m.retry))
  few : m.retry = 0 ∨ job.fields.attempts+m.retry ≤ retryDelays.length

def Copy (hand : ℕ → Hand) (m : Mail) : Prop := ∃ job id body, Descends py hand m job id body

/-- A copy that was put off waits for the delay of its last attempt. -/
inductive Placed (hand : ℕ → Hand) (s : Stored Mail) : Prop where
  | primary (queue : s.queue = primaryQueue) : Placed hand s
  | dead (queue : s.queue = deadQueue) : Placed hand s
  | waiting (job : EmailJob) (body : Bytes) (delay : ℕ)
      (origin : hand s.message.origin = .published job body) (put : 1 ≤ s.message.retry)
      (delayed : retryDelays[(job.fields.attempts+s.message.retry-1).toNat]? = some delay)
      (queue : s.queue = retryQueue delay) : Placed hand s

/-! ## One hop -/

variable {py} {job : EmailJob} {id : String} {k : ℕ}

theorem attempts_nonneg (job : EmailJob) : 0 ≤ job.fields.attempts :=
  ((postInit_ok job.fields).mp job.valid).2.2.2.2

theorem received_valid (job : EmailJob) (id : String) (k : ℕ) :
    postInit (received job id k) = .ok () := by
  obtain ⟨hr, ht, hc, he, ha⟩ := (postInit_ok job.fields).mp job.valid
  rw [postInit_ok]
  refine ⟨hr, ht, hc, ?_, ?_⟩
  · exact fun hnone => he ((DateTime.read_none _).mp hnone)
  · show 0 ≤ job.fields.attempts+k
    omega

theorem decodes {body : Bytes} (h : Job.toBytes py (fieldsJob F (received job id k)) = .ok body) :
    fromBytes py body = .ok (fieldsJob F (received job id k)) := by
  have he : fieldsRead (received job id k) = received job id k := by simp [received, fieldsRead]
  have hd := fromBytes_toBytes py _ (received_valid job id k) body h
  rwa [he] at hd

theorem decodes_stamped {body : Bytes} (h : Stamped py job id body) :
    fromBytes py body = .ok (fieldsJob F (received job id 0)) := by
  have he : again job id 0 = stamped job id := by simp [again, stamped]
  rw [received, he]
  exact fromBytes_toBytes py (stamped job id) job.valid body h.written

theorem delay_mem {n delay : ℕ} (h : retryDelays[n]? = some delay) : delay ∈ retryDelays :=
  List.mem_of_getElem? h

/-- A failed send leads to the next retry, or to the dead queue when none is left. -/
theorem hop_again (hid : id ≠ "") {body copy : Bytes} {key : String}
    (hop : Hop py (fieldsJob F (received job id k)) body key copy) :
    (key = "dead" ∧ copy = body) ∨
      ∃ delay, key = s!"retry.{delay}" ∧
        retryDelays[(job.fields.attempts+k).toNat]? = some delay ∧
        job.fields.attempts+k < retryDelays.length ∧
        fromBytes py copy = .ok (fieldsJob F (received job id (k+1))) := by
  cases hop with
  | dead spent => exact Or.inl ⟨rfl, rfl⟩
  | retry again' attempts id' delay copy more stamp written delayed =>
    right
    have ha := attempts_nonneg job
    have hlt : job.fields.attempts+k < 4 := by
      simp only [atLeast, fieldsJob, received, fieldsRead, again, Except.ok.injEq,
        decide_eq_false_iff_not] at again'
      simpa [retryDelays] using again'
    have hid' : id' = .str (text id) := by
      have ht := truthy_id py (received job id k)
      rcases stamp with ⟨rfl, -⟩ | ⟨hf, -⟩
      · rfl
      · rw [ht] at hf
        exact absurd hid (of_decide_eq_false hf)
    have hmore : attempts = .int (job.fields.attempts+(k+1 : ℕ)) := by
      simp only [increment, fieldsJob, received, fieldsRead, again, Except.ok.injEq] at more
      rw [← more]
      congr 1
      omega
    have hpos : position retryDelays.length (job.fields.attempts+k) =
        some (job.fields.attempts+k).toNat := by
      have h4 : (retryDelays.length : ℤ) = 4 := rfl
      have hmod : (job.fields.attempts+k)%4 = job.fields.attempts+k :=
        Int.emod_eq_of_lt (by omega) hlt
      rw [position, h4, if_pos (by omega), hmod]
    have hdelay : retryDelays[(job.fields.attempts+k).toNat]? = some delay := by
      have hi : item retryDelays (.int (job.fields.attempts+k) : Value F) = .ok delay := delayed
      simp only [item, Bind.bind, Except.bind, hpos, Option.bind_some] at hi
      split at hi
      case h_1 d hd =>
        cases hi
        exact hd
      case h_2 => cases hi
    refine ⟨delay, rfl, hdelay, by simpa [retryDelays] using hlt, ?_⟩
    subst hid' hmore
    exact decodes written

/-! ## The invariant -/

variable (py) in
/-- The broker holds copies in their places, and a living task holds what its hand says. -/
structure Shelved (w : World) (hand : ℕ → Hand) : Prop where
  single : Single w.broker
  held : ∀ i, Matches w i (hand i)
  gone : ∀ i ∈ w.lost, heldBy w.broker i = none
  placed : ∀ s ∈ w.broker.queued, Placed hand s
  queued : ∀ s ∈ w.broker.queued, Copy py hand s.message
  unacked : ∀ u ∈ w.broker.unacked, Copy py hand u.entry.message ∧ u.entry.queue = primaryQueue

variable (py) in
/-- The ledgers agree with the hands. -/
structure Booked (w : World) (hand : ℕ → Hand) : Prop where
  whole : ∀ i, hand i ≠ .broken
  begun : ∀ a ∈ w.attempts, (hand a.task).begun = true ∨ hand a.task = .settled
  tried : ∀ i, (hand i).begun = true → ∃ a ∈ w.attempts, a.task = i
  late : ∀ i m, hand i = .stale m →
    ∃ job, fromBytes py m.body = .ok job ∧ job.expiresAt.instant ≤ w.now
  dropped : ∀ d ∈ w.dropped, ∃ job body, hand d.1 = .published job body ∧
    job.fields.expiresAt.read.instant ≤ d.2
  origins : ∀ t ∈ w.attempts.map Attempt.origin ++ w.sent, ∃ job body, hand t = .published job body

variable {hand : ℕ → Hand} {w w' : World} {i : ℕ} {g g' : Hand}

theorem copy_of_held (hs : Shelved py w hand) {m : Mail} {u : Unacked Mail}
    (held : heldBy w.broker i = some u) (same : u.entry.message = m) : Copy py hand m := by
  subst same
  exact (hs.unacked u (task_of_heldBy held).1).1

theorem mail_of_unacked (hs : Shelved py w hand) {u : Unacked Mail} (hu : u ∈ w.broker.unacked) :
    (hand u.task).mail? = some u.entry.message := by
  have hheld := heldBy_of_mem hs.single hu
  have hliving : u.task ∉ w.lost := by
    intro hl
    rw [hs.gone _ hl] at hheld
    cases hheld
  have hm := hs.held u.task hliving
  rw [hheld] at hm
  exact hm.symm

/-- What was published stays published. -/
def Keeping (hand hand' : ℕ → Hand) : Prop :=
  ∀ t job body, hand t = .published job body → hand' t = .published job body

theorem Copy.carry {hand' : ℕ → Hand} (hk : Keeping hand hand') {m : Mail}
    (h : Copy py hand m) : Copy py hand' m := by
  obtain ⟨job, id, body, h⟩ := h
  exact ⟨job, id, body, hk _ _ _ h.origin, h.stamp, h.reads, h.few⟩

theorem Placed.carry {hand' : ℕ → Hand} (hk : Keeping hand hand') {s : Stored Mail}
    (h : Placed hand s) : Placed hand' s := by
  cases h with
  | primary queue => exact .primary queue
  | dead queue => exact .dead queue
  | waiting job body delay origin put delayed queue =>
    exact .waiting job body delay (hk _ _ _ origin) put delayed queue

theorem keeping_moves (hm : Moves py i w (hand i) w' g') :
    Keeping hand (Function.update hand i g') := by
  intro t job body ht
  by_cases hti : t = i
  · subst hti
    rw [Function.update_self]
    rw [ht] at hm
    generalize hg : Hand.published job body = g at hm
    cases hm with
    | rest => rfl
    | born | took | read | sent | unsent | hop | stuck => cases hg
    | acked _ m u held same how =>
      subst hg
      rcases how with h | h | h <;> cases h
    | rejected _ m u held same how =>
      subst hg
      rcases how with ⟨h, -⟩ | h | h | h <;> cases h
  · rwa [Function.update_of_ne hti]

theorem copies_origin {now : ℕ} {key : String} {m : Mail} {s : Stored Mail}
    (h : s ∈ copies topology now key m) : s.message = m ∧ s.queue ∈ routes topology key := by
  obtain ⟨queue, hq, rfl⟩ := List.mem_map.mp h
  exact ⟨rfl, hq⟩

theorem primary_of_name {s : Stored Mail} (h : Placed hand s)
    (hn : s.queue.name = "auth.email.primary") : s.queue = primaryQueue := by
  cases h with
  | primary queue => exact queue
  | dead queue =>
    rw [queue] at hn
    exact absurd hn (by decide)
  | waiting job body delay origin put delayed queue =>
    have hne : ∀ d ∈ retryDelays, (retryQueue d).name ≠ "auth.email.primary" := by decide +kernel
    rw [queue] at hn
    exact absurd hn (hne delay (delay_mem delayed))

theorem deadLetter_primary {s : Stored Mail} (h : s.queue = primaryQueue) (now : ℕ) :
    deadLetter topology now s = [⟨deadQueue, s.message, now⟩] := by
  simp only [deadLetter, h, primaryQueue]
  exact copies_dead now s.message

theorem deadLetter_ripe {s : Stored Mail} (h : Placed hand s) {now : ℕ} (hr : ripe now s = true) :
    s.queue ≠ deadQueue ∧ s.queue ≠ primaryQueue ∧
      deadLetter topology now s = [⟨primaryQueue, s.message, now⟩] := by
  cases h with
  | primary queue =>
    simp only [ripe, queue, primaryQueue] at hr
    cases hr
  | dead queue =>
    simp only [ripe, queue, deadQueue] at hr
    cases hr
  | waiting job body delay origin put delayed queue =>
    have hkept : s.queue.messageTtl = some (delay*1000) := congrArg Queue.messageTtl queue
    have hkey : s.queue.deadLetterKey = some "send" := congrArg Queue.deadLetterKey queue
    have hnone : ∀ other : Queue, other.messageTtl = none → s.queue ≠ other := by
      rintro _ hother rfl
      rw [hkept] at hother
      cases hother
    refine ⟨hnone _ rfl, hnone _ rfl, ?_⟩
    rw [deadLetter, hkey]
    exact copies_send now s.message

/-! ## Copies along a run -/

theorem judged_mail (m : Mail) (now : ℤ) : (judged py m now).mail? = some m := by
  unfold judged
  split
  · split <;> rfl
  · rfl

theorem shelved_still (hs : Shelved py w hand) (hk : Keeping hand (Function.update hand i g'))
    (hb : w'.broker = w.broker) (hl : w'.lost = w.lost) (hg : g'.mail? = (hand i).mail?) :
    Shelved py w' (Function.update hand i g') where
  single := by rw [hb]; exact hs.single
  held := by
    intro j hj
    rw [hl] at hj
    rw [hb, hs.held j hj]
    by_cases hji : j = i
    · subst hji
      rw [Function.update_self, hg]
    · rw [Function.update_of_ne hji]
  gone := by rw [hb, hl]; exact hs.gone
  placed := by rw [hb]; exact fun s h => (hs.placed s h).carry hk
  queued := by rw [hb]; exact fun s h => (hs.queued s h).carry hk
  unacked := by rw [hb]; exact fun u h => ⟨(hs.unacked u h).1.carry hk, (hs.unacked u h).2⟩

theorem shelved_queue (hs : Shelved py w hand) (hk : Keeping hand (Function.update hand i g'))
    (key : String) (m : Mail) (hg : g'.mail? = (hand i).mail?)
    (hp : ∀ s ∈ copies topology w.millis key m, Placed (Function.update hand i g') s)
    (hc : Copy py (Function.update hand i g') m) :
    Shelved py (queue w key m) (Function.update hand i g') where
  single := hs.single
  held := by
    intro j hj
    have h : (heldBy (queue w key m).broker j).map (fun u => u.entry.message) = (hand j).mail? :=
      hs.held j hj
    rw [h]
    by_cases hji : j = i
    · subst hji
      rw [Function.update_self, hg]
    · rw [Function.update_of_ne hji]
  gone := hs.gone
  placed := by
    intro s h
    rcases List.mem_append.mp h with h | h
    · exact (hs.placed s h).carry hk
    · exact hp s h
  queued := by
    intro s h
    rcases List.mem_append.mp h with h | h
    · exact (hs.queued s h).carry hk
    · rwa [(copies_origin h).1]
  unacked := fun u h => ⟨(hs.unacked u h).1.carry hk, (hs.unacked u h).2⟩

/-- A task that settles its delivery; `more` is what is dead-lettered. -/
theorem shelved_settle (hs : Shelved py w hand)
    (hk : Keeping hand (Function.update hand i .settled))
    {u : Unacked Mail} (hu : heldBy w.broker i = some u) (more : List (Stored Mail))
    (hm : ∀ s ∈ more, Placed hand s ∧ Copy py hand s.message)
    (hb : w'.broker = ⟨w.broker.queued ++ more, settled w.broker i⟩) (hl : w'.lost = w.lost) :
    Shelved py w' (Function.update hand i .settled) where
  single := by rw [hb]; exact (single_settled hs.single hu).1
  held := by
    intro j hj
    rw [hl] at hj
    rw [hb, heldBy_settled hs.single hu]
    by_cases hji : j = i
    · subst hji
      rw [if_pos rfl, Function.update_self]
      rfl
    · rw [if_neg hji, Function.update_of_ne hji]
      exact hs.held j hj
  gone := by
    intro j hj
    rw [hl] at hj
    rw [hb, heldBy_settled hs.single hu, hs.gone j hj, ite_self]
  placed := by
    rw [hb]
    intro s h
    rcases List.mem_append.mp h with h | h
    · exact (hs.placed s h).carry hk
    · exact (hm s h).1.carry hk
  queued := by
    rw [hb]
    intro s h
    rcases List.mem_append.mp h with h | h
    · exact (hs.queued s h).carry hk
    · exact (hm s h).2.carry hk
  unacked := by
    rw [hb]
    intro v h
    have hv := hs.unacked v (List.mem_of_mem_eraseP h)
    exact ⟨hv.1.carry hk, hv.2⟩

theorem shelved_took (hs : Shelved py w hand) (s : Stored Mail) (b : Messages Mail)
    (hk : Keeping hand (Function.update hand i (.holding s.message)))
    (primary : s.queue.name = "auth.email.primary") (moved : w.broker.queued.Perm (s :: b.queued))
    (hb : b.unacked = ⟨i, s⟩ :: w.broker.unacked) (free : heldBy w.broker i = none)
    (living : i ∉ w.lost) :
    Shelved py { w with broker := b } (Function.update hand i (.holding s.message)) where
  single := by
    show (b.unacked.map Unacked.task).Nodup
    rw [hb, List.map_cons, List.nodup_cons]
    constructor
    · intro h
      obtain ⟨u, hu, ht⟩ := List.mem_map.mp h
      have hheld := heldBy_of_mem hs.single hu
      rw [ht, free] at hheld
      cases hheld
    · exact hs.single
  held := by
    intro j hj
    have hcons := heldBy_cons w.broker b.queued ⟨i, s⟩ j
    rw [← hb] at hcons
    show (heldBy b j).map _ = _
    rw [hcons]
    by_cases hji : j = i
    · subst hji
      rw [if_pos rfl, Function.update_self]
      rfl
    · rw [if_neg (Ne.symm hji), Function.update_of_ne hji]
      exact hs.held j hj
  gone := by
    intro j hj
    have hcons := heldBy_cons w.broker b.queued ⟨i, s⟩ j
    rw [← hb] at hcons
    have hji : i ≠ j := by
      rintro rfl
      exact living hj
    show heldBy b j = none
    rw [hcons, if_neg hji]
    exact hs.gone j hj
  placed := fun s' h => (hs.placed s' (moved.mem_iff.mpr (List.mem_cons_of_mem _ h))).carry hk
  queued := fun s' h => (hs.queued s' (moved.mem_iff.mpr (List.mem_cons_of_mem _ h))).carry hk
  unacked := by
    show ∀ u ∈ b.unacked, _
    rw [hb]
    have hmem : s ∈ w.broker.queued := moved.mem_iff.mpr List.mem_cons_self
    intro u h
    rcases List.mem_cons.mp h with rfl | h
    · exact ⟨(hs.queued s hmem).carry hk, primary_of_name (hs.placed s hmem) primary⟩
    · exact ⟨(hs.unacked u h).1.carry hk, (hs.unacked u h).2⟩

theorem copy_born (job : EmailJob) (id : String) (body : Bytes) (stamp : Stamped py job id body) :
    Copy py (Function.update hand i (.published job body)) ⟨i, 0, body⟩ :=
  ⟨job, id, body, by simp, stamp, decodes_stamped stamp, Or.inl rfl⟩

theorem hop_shelved {m : Mail} (hs : Shelved py w hand)
    (hk : Keeping hand (Function.update hand i (.moved m))) (hc : Copy py hand m)
    (hg : hand i = .failed m) {job : Job F} {key : String}
    {body : Bytes} (decoded : fromBytes py m.body = .ok job) (hop : Hop py job m.body key body) :
    Shelved py (queue w key ⟨m.origin, if key = "dead" then m.retry else m.retry+1, body⟩)
      (Function.update hand i (.moved m)) := by
  obtain ⟨first, id, published, horigin, hstamp, hreads, hfew⟩ := hc
  rw [hreads] at decoded
  cases decoded
  have hmail : (Hand.moved m).mail? = (hand i).mail? := by
    rw [hg]
    rfl
  rcases hop_again hstamp.named hop with ⟨rfl, rfl⟩ | ⟨delay, rfl, hdelay, hlt, hcopy⟩
  · apply shelved_queue hs hk _ _ hmail
    · intro s h
      rw [copies_dead, List.mem_singleton] at h
      subst h
      exact .dead rfl
    · exact ⟨first, id, published, hk _ _ _ horigin, hstamp, hreads, hfew⟩
  · rw [if_neg (retry_key_ne (delay_mem hdelay))]
    apply shelved_queue hs hk _ _ hmail
    · intro s h
      rw [copies_retry (delay_mem hdelay), List.mem_singleton] at h
      subst h
      refine .waiting first published delay (hk _ _ _ horigin) (Nat.le_add_left 1 _) ?_ rfl
      have he : first.fields.attempts+((m.retry+1 : ℕ) : ℤ)-1 = first.fields.attempts+m.retry := by
        push_cast
        omega
      show retryDelays[(first.fields.attempts+((m.retry+1 : ℕ) : ℤ)-1).toNat]? = some delay
      rw [he]
      exact hdelay
    · refine ⟨first, id, published, hk _ _ _ horigin, hstamp, hcopy, Or.inr ?_⟩
      show first.fields.attempts+((m.retry+1 : ℕ) : ℤ) ≤ retryDelays.length
      push_cast
      omega

theorem shelved_moves (hs : Shelved py w hand) (hm : Moves py i w (hand i) w' g') :
    Shelved py w' (Function.update hand i g') := by
  have hk := keeping_moves hm
  generalize hg : hand i = g at hm
  have still : ∀ {w' : World}, w'.broker = w.broker → w'.lost = w.lost → g'.mail? = g.mail? →
      Shelved py w' (Function.update hand i g') := by
    intro w' hb hl hmail
    exact shelved_still hs hk hb hl (by rw [hg]; exact hmail)
  cases hm with
  | rest => exact still rfl rfl rfl
  | born job id body stamp free =>
    apply shelved_queue hs hk _ _ (by rw [hg]; rfl)
    · intro s h
      rw [copies_send, List.mem_singleton] at h
      subst h
      exact .primary rfl
    · exact copy_born job id body stamp
  | took s b primary moved hb free living =>
    exact shelved_took hs s b hk primary moved hb free living
  | read m => exact still rfl rfl (judged_mail m _)
  | sent m u held same => exact still rfl rfl rfl
  | unsent m u held same _ how =>
    have hmail : g'.mail? = (Hand.due m).mail? := by
      rcases how with rfl | rfl <;> rfl
    exact still rfl rfl hmail
  | hop m u held same job key body decoded hop =>
    have hc := (hs.unacked u (task_of_heldBy held).1).1
    rw [same] at hc
    exact hop_shelved hs hk hc hg decoded hop
  | stuck m => exact still rfl rfl rfl
  | acked _ m u held same how =>
    apply shelved_settle hs hk held [] (by simp)
    · simp [Broker.ack]
    · rfl
  | rejected _ m u held same how =>
    obtain ⟨hmem, htask⟩ := task_of_heldBy held
    obtain ⟨hc, hq⟩ := hs.unacked u hmem
    apply shelved_settle hs hk held (deadLetter topology w.millis u.entry)
    · rw [deadLetter_primary hq]
      intro s h
      rw [List.mem_singleton.mp h]
      exact ⟨.dead rfl, hc⟩
    · simp only [reject, htask]
    · rfl

theorem shelved_passed (hs : Shelved py w hand) (d : Passing) : Shelved py (passed d w) hand := by
  cases d with
  | elapse micros => exact ⟨hs.single, hs.held, hs.gone, hs.placed, hs.queued, hs.unacked⟩
  | expire n =>
    have cases := @expire_cases Mail topology w.millis n w.broker
    rcases cases with h | ⟨s, rest, hp, hr, h⟩
    · have he : passed (.expire n) w = w := by rw [passed, h]
      rw [he]
      exact hs
    · have hmem : ∀ s' ∈ s::rest, s' ∈ w.broker.queued := fun s' h' => hp.mem_iff.mpr h'
      have hs' := hs.placed s (hmem s List.mem_cons_self)
      obtain ⟨-, -, hd⟩ := deadLetter_ripe hs' hr
      rw [passed, h, hd]
      refine ⟨hs.single, hs.held, hs.gone, ?_, ?_, hs.unacked⟩
      · intro s' h'
        rcases List.mem_append.mp h' with h' | h'
        · exact hs.placed s' (hmem s' (List.mem_cons_of_mem _ h'))
        · rw [List.mem_singleton.mp h']
          exact .primary rfl
      · intro s' h'
        rcases List.mem_append.mp h' with h' | h'
        · exact hs.queued s' (hmem s' (List.mem_cons_of_mem _ h'))
        · rw [List.mem_singleton.mp h']
          exact hs.queued s (hmem s List.mem_cons_self)
  | crash tasks =>
    have hback : ∀ s ∈ (w.broker.unacked.filter (fun u => u.task ∈ tasks)).map Unacked.entry,
        Placed hand s ∧ Copy py hand s.message := by
      intro s h
      obtain ⟨u, hu, rfl⟩ := List.mem_map.mp h
      obtain ⟨hc, hq⟩ := hs.unacked u (List.mem_of_mem_filter hu)
      exact ⟨.primary hq, hc⟩
    constructor
    · exact List.Nodup.sublist (List.Sublist.map _ List.filter_sublist) hs.single
    · intro i hi
      have hi' : i ∉ w.lost ∧ i ∉ tasks := by simpa [passed] using hi
      show (heldBy (lose tasks w.broker) i).map _ = _
      rw [heldBy_lose, if_neg hi'.2]
      exact hs.held i hi'.1
    · intro i hi
      show heldBy (lose tasks w.broker) i = none
      rw [heldBy_lose]
      split
      · rfl
      case isFalse hnot =>
        rcases List.mem_append.mp hi with h | h
        · exact hs.gone i h
        · exact absurd h hnot
    · intro s h
      rcases List.mem_append.mp h with h | h
      · exact hs.placed s h
      · exact (hback s h).1
    · intro s h
      rcases List.mem_append.mp h with h | h
      · exact hs.queued s h
      · exact (hback s h).2
    · exact fun u h => hs.unacked u (List.mem_of_mem_filter h)

/-! ## Ledgers along a run -/

/-- What a task writes into the ledgers has to agree with its own new hand only. -/
theorem booked_update (hb : Booked py w hand) (hk : Keeping hand (Function.update hand i g'))
    (hg : hand i = g) (hn : w'.now = w.now) (hw : g' ≠ .broken) (extra : List Attempt)
    (ha : w'.attempts = w.attempts ++ extra) (he : ∀ a ∈ extra, a.task = i)
    (hbegun : extra ≠ [] ∨ g.begun = true ∨ g = .settled → g'.begun = true ∨ g' = .settled)
    (htried : g'.begun = true → extra ≠ [] ∨ g.begun = true)
    (hlate : ∀ m, g' = .stale m →
      ∃ job, fromBytes py m.body = .ok job ∧ job.expiresAt.instant ≤ w.now)
    (hdropped : ∀ d ∈ w'.dropped, d ∈ w.dropped ∨ ∃ job body, hand d.1 = .published job body ∧
      job.fields.expiresAt.read.instant ≤ d.2)
    (horigins : ∀ t ∈ extra.map Attempt.origin ++ w'.sent, t ∈ w.sent ∨
      ∃ job body, hand t = .published job body) :
    Booked py w' (Function.update hand i g') where
  whole := by
    intro j
    by_cases hji : j = i
    · subst hji
      rwa [Function.update_self]
    · rw [Function.update_of_ne hji]
      exact hb.whole j
  begun := by
    intro a h
    rw [ha] at h
    by_cases hai : a.task = i
    · rw [hai, Function.update_self]
      apply hbegun
      rcases List.mem_append.mp h with h | h
      · rw [← hg, ← hai]
        exact Or.inr (hb.begun a h)
      · exact Or.inl (List.ne_nil_of_mem h)
    · rw [Function.update_of_ne hai]
      rcases List.mem_append.mp h with h | h
      · exact hb.begun a h
      · exact absurd (he a h) hai
  tried := by
    intro j hj
    rw [ha]
    have old : (hand j).begun = true → ∃ a ∈ w.attempts ++ extra, a.task = j := by
      intro h
      obtain ⟨a, hm, ht⟩ := hb.tried j h
      exact ⟨a, List.mem_append_left _ hm, ht⟩
    by_cases hji : j = i
    · subst hji
      rw [Function.update_self] at hj
      rcases htried hj with h | h
      · obtain ⟨a, hm⟩ := List.exists_mem_of_ne_nil extra h
        exact ⟨a, List.mem_append_right _ hm, he a hm⟩
      · exact old (by rw [hg]; exact h)
    · rw [Function.update_of_ne hji] at hj
      exact old hj
  late := by
    intro j m hj
    rw [hn]
    by_cases hji : j = i
    · subst hji
      rw [Function.update_self] at hj
      exact hlate m hj
    · rw [Function.update_of_ne hji] at hj
      exact hb.late j m hj
  dropped := by
    intro d h
    have hd : ∃ job body, hand d.1 = .published job body ∧
        job.fields.expiresAt.read.instant ≤ d.2 := by
      rcases hdropped d h with h | h
      · exact hb.dropped d h
      · exact h
    obtain ⟨job, body, hp, hd⟩ := hd
    exact ⟨job, body, hk _ _ _ hp, hd⟩
  origins := by
    intro t h
    have ho : ∃ job body, hand t = .published job body := by
      rw [ha, List.map_append, List.append_assoc] at h
      rcases List.mem_append.mp h with h | h
      · exact hb.origins t (List.mem_append_left _ h)
      · rcases horigins t h with h | h
        · exact hb.origins t (List.mem_append_right _ h)
        · exact h
    obtain ⟨job, body, hp⟩ := ho
    exact ⟨job, body, hk _ _ _ hp⟩

theorem booked_still (hb : Booked py w hand) (hk : Keeping hand (Function.update hand i g'))
    (hg : hand i = g) (ha : w'.attempts = w.attempts) (hs : w'.sent = w.sent)
    (hd : w'.dropped = w.dropped) (hn : w'.now = w.now) (hw : g' ≠ .broken)
    (hbegun : g.begun = true ∨ g = .settled → g'.begun = true ∨ g' = .settled)
    (htried : g'.begun = true → g.begun = true)
    (hlate : ∀ m, g' = .stale m →
      ∃ job, fromBytes py m.body = .ok job ∧ job.expiresAt.instant ≤ w.now) :
    Booked py w' (Function.update hand i g') := by
  apply booked_update hb hk hg hn hw []
  · rw [ha, List.append_nil]
  · exact fun a h => by cases h
  · rintro (h | h)
    · exact absurd rfl h
    · exact hbegun h
  · exact fun h => Or.inr (htried h)
  · exact hlate
  · rw [hd]
    exact fun d h => Or.inl h
  · rw [hs]
    exact fun t h => Or.inl h

theorem booked_send (hb : Booked py w hand) (hk : Keeping hand (Function.update hand i g'))
    {m : Mail} (hg : hand i = .due m) (hc : Copy py hand m) (sent : List ℕ)
    (hs : ∀ t ∈ sent, t = m.origin) (hbegun : g'.begun = true) (hw : ∀ m, g' ≠ .stale m) :
    Booked py { tried w i m with sent := w.sent ++ sent } (Function.update hand i g') := by
  obtain ⟨job, id, body, hc⟩ := hc
  refine booked_update hb hk hg rfl ?_ [⟨i, m.origin⟩] rfl ?_ ?_ ?_ ?_ ?_ ?_
  · rintro rfl
    cases hbegun
  · exact fun a h => by rw [List.mem_singleton.mp h]
  · exact fun _ => Or.inl hbegun
  · exact fun _ => Or.inl (List.cons_ne_nil _ _)
  · exact fun m h => absurd h (hw m)
  · exact fun d h => Or.inl h
  · intro t h
    rcases List.mem_append.mp h with h | h
    · rw [List.mem_singleton.mp h]
      exact Or.inr ⟨job, body, hc.origin⟩
    · rcases List.mem_append.mp h with h | h
      · exact Or.inl h
      · rw [hs t h]
        exact Or.inr ⟨job, body, hc.origin⟩

theorem stale_of_judged {m : Mail} {now : ℤ} {m' : Mail} (h : judged py m now = .stale m') :
    ∃ job, fromBytes py m'.body = .ok job ∧ job.expiresAt.instant ≤ now := by
  unfold judged at h
  split at h
  case h_1 job hj =>
    split at h
    case isTrue he =>
      cases h
      exact ⟨job, hj, he⟩
    case isFalse => cases h
  case h_2 => cases h

theorem begun_judged (m : Mail) (now : ℤ) : (judged py m now).begun = false := by
  unfold judged
  split
  · split <;> rfl
  · rfl

theorem judged_ne_broken (m : Mail) (now : ℤ) : judged py m now ≠ .broken := by
  intro h
  have hm := @judged_mail F py m now
  rw [h] at hm
  cases hm

/-- Only an expired message is acknowledged by a task that has sent nothing. -/
theorem dropped_late (hb : Booked py w hand) {m : Mail} (hc : Copy py hand m)
    (how : hand i = .stale m ∨ hand i = .sent m ∨ hand i = .moved m)
    (none : w.attempts.any (fun a => a.task = i) = false) :
    ∃ job body, hand m.origin = .published job body ∧
      job.fields.expiresAt.read.instant ≤ w.now := by
  obtain ⟨job, id, body, hc⟩ := hc
  have silent : (hand i).begun = false := by
    rw [Bool.eq_false_iff]
    intro h
    obtain ⟨a, hm, ht⟩ := hb.tried i h
    have hany : w.attempts.any (fun a => a.task = i) = true :=
      List.any_eq_true.mpr ⟨a, hm, by simp [ht]⟩
    rw [none] at hany
    cases hany
  rcases how with h | h | h
  · obtain ⟨job', hj, he⟩ := hb.late i m h
    rw [hc.reads] at hj
    cases hj
    exact ⟨job, body, hc.origin, he⟩
  · rw [h] at silent
    cases silent
  · rw [h] at silent
    cases silent

theorem booked_moves (hs : Shelved py w hand) (hb : Booked py w hand)
    (hm : Moves py i w (hand i) w' g') : Booked py w' (Function.update hand i g') := by
  have hk := keeping_moves hm
  generalize hg : hand i = g at hm
  cases hm with
  | rest =>
    rw [← hg, Function.update_eq_self]
    exact hb
  | born job id body stamp free =>
    refine booked_still hb hk hg rfl rfl rfl rfl ?_ ?_ ?_ ?_ <;> simp [Hand.begun]
  | took s b primary moved held free living =>
    refine booked_still hb hk hg rfl rfl rfl rfl ?_ ?_ ?_ ?_ <;> simp [Hand.begun]
  | read m =>
    refine booked_still hb hk hg rfl rfl rfl rfl ?_ ?_ ?_ ?_
    · exact judged_ne_broken m _
    · simp [Hand.begun]
    · simp [begun_judged]
    · exact fun m' h => stale_of_judged h
  | sent m u held same =>
    apply booked_send hb hk hg (copy_of_held hs held same) [m.origin] _ rfl (fun _ h => by cases h)
    exact fun t h => List.mem_singleton.mp h
  | unsent m u held same _ how =>
    have h := booked_send hb hk hg (copy_of_held hs held same) [] (fun t h => by cases h)
      (by rcases how with rfl | rfl <;> rfl)
      (by rcases how with rfl | rfl <;> exact fun _ h => by cases h)
    rw [List.append_nil] at h
    exact h
  | hop m u held same job key body decoded hop =>
    refine booked_still hb hk hg rfl rfl rfl rfl ?_ ?_ ?_ ?_ <;> simp [Hand.begun]
  | stuck m =>
    refine booked_still hb hk hg rfl rfl rfl rfl ?_ ?_ ?_ ?_ <;> simp [Hand.begun]
  | acked _ m u held same how =>
    refine booked_update hb hk hg rfl ?_ [] (List.append_nil _).symm ?_ ?_ ?_ ?_ ?_ ?_
    · exact fun h => by cases h
    · exact fun a h => by cases h
    · exact fun _ => Or.inr rfl
    · exact fun h => by cases h
    · exact fun m h => by cases h
    · intro d h
      dsimp only at h
      split at h
      case isTrue => exact Or.inl h
      case isFalse hnone =>
        rcases List.mem_append.mp h with h | h
        · exact Or.inl h
        · rw [List.mem_singleton.mp h]
          rw [← hg] at how
          exact Or.inr (dropped_late hb (copy_of_held hs held same) how (by simpa using hnone))
    · exact fun t h => Or.inl h
  | rejected _ m u held same how =>
    refine booked_still hb hk hg rfl rfl rfl rfl ?_ ?_ ?_ ?_ <;> simp [Hand.begun]

theorem booked_passed (hb : Booked py w hand) (d : Passing) : Booked py (passed d w) hand := by
  cases d with
  | elapse micros =>
    refine ⟨hb.whole, hb.begun, hb.tried, ?_, hb.dropped, hb.origins⟩
    intro i m h
    obtain ⟨job, hj, he⟩ := hb.late i m h
    refine ⟨job, hj, le_trans he ?_⟩
    show (w.now : ℤ) ≤ ((w.now+micros : ℕ) : ℤ)
    omega
  | expire n => exact ⟨hb.whole, hb.begun, hb.tried, hb.late, hb.dropped, hb.origins⟩
  | crash tasks => exact ⟨hb.whole, hb.begun, hb.tried, hb.late, hb.dropped, hb.origins⟩

end Gamely.MailCopies
