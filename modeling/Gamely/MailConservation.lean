import Gamely.MailWeights

/-!
# Conservation of mail jobs

Every published job is in one place: sent, dropped after its expiry, or a copy
in a queue or with a handler. A crash can only add copies.
-/

set_option autoImplicit false

namespace Gamely.MailConservation
open Gamely.Calls Gamely.Broker Gamely.Json Gamely.EmailJobs Gamely.JobCodec
open Gamely.MailWorker Gamely.MailContract Gamely.MailMoves Gamely.MailCopies
open Gamely.MailWeights Gamely.Interleaving

variable {F : Type} {py : Interpreter F} {w w' : World}

/-! ## Published jobs -/

/-- A publisher whose message the broker took. -/
def publication : Event (Command F) Reply Failure Request → Option (ℕ × EmailJob × Bytes)
  | ⟨t, .publish _ job, .publish _ _ body, .ok _⟩ => some (t, job, body)
  | _ => none

def Published (h : List (Event (Command F) Reply Failure Request)) (t : ℕ) (job : EmailJob)
    (body : Bytes) : Prop := (t, job, body) ∈ h.filterMap publication

instance (h : List (Event (Command F) Reply Failure Request)) (t : ℕ) (job : EmailJob)
    (body : Bytes) : Decidable (Published h t job body) :=
  inferInstanceAs (Decidable (_ ∈ h.filterMap publication))

variable (py) in
/-- What is known of a world and its history. -/
structure Kept (w : World) (h : List (Event (Command F) Reply Failure Request)) : Prop where
  conserved : Conserved py w (ghost (contract py) h)
  published : ∀ t job body, Published h t job body →
    ghost (contract py) h t = .published job body ∧ ∃ id, Stamped py job id body

theorem published_append {h : List (Event (Command F) Reply Failure Request)}
    {e : Event (Command F) Reply Failure Request} {t : ℕ} {job : EmailJob} {body : Bytes}
    (hp : Published (h ++ [e]) t job body) :
    Published h t job body ∨ publication e = some (t, job, body) := by
  rw [Published, List.filterMap_append] at hp
  rcases List.mem_append.mp hp with h | h
  · exact Or.inl h
  · obtain ⟨e', hm, he⟩ := List.mem_filterMap.mp h
    rw [List.mem_singleton.mp hm] at he
    exact Or.inr he

theorem published_of_publication {i : ℕ} {q : Request} {c : Command F}
    {reply : Except Failure (Reply c)} {g : Hand} {t : ℕ} {job : EmailJob} {body : Bytes}
    (ha : allows py i q g c) (h : publication ⟨i, q, c, reply⟩ = some (t, job, body)) :
    t = i ∧ next py q g c reply = .published job body ∧ ∃ id, Stamped py job id body := by
  cases q with
  | work => cases h
  | publish connected published =>
    cases c with
    | publish task key copy =>
      cases reply with
      | error e => cases h
      | ok u =>
        cases h
        obtain ⟨-, ⟨rfl, -, connected', job', id, hq, hne, hkept, hw⟩ | ⟨hq, -⟩⟩ := ha
        · cases hq
          exact ⟨rfl, rfl, id, hne, hkept, hw⟩
        · cases hq
    | _ => cases h

abbrev MailState (F : Type) :=
  Interleaving.State (Command F) Reply Failure Unit World Request

theorem moves_call {s : MailState F} {i : ℕ} {x : Choice} {q : Request} {c : Command F}
    {reply : Except Failure (Reply c)} {w : World} (hk : Kept py s.world s.history)
    (ha : allows py i q (ghost (contract py) s.history i) c)
    (hp : perform c x s.world = some (reply, w)) :
    Moves py i s.world (ghost (contract py) s.history i) w
      (next py q (ghost (contract py) s.history i) c reply) :=
  moves_of_perform (hk.conserved.shelved.held i) (hk.conserved.booked.whole i) ha hp

theorem kept_preserved : Preserved (system py) (contract py) (fun _ _ => True) (Kept py) where
  call := by
    intro s i x q c reply w hk hu ha hp _
    have hm := moves_call hk ha hp
    constructor
    · rw [ghost_append]
      exact conserved_moves hk.conserved hm
    · intro t job body hpub
      rw [ghost_append]
      rcases published_append hpub with hold | hnew
      · obtain ⟨hg, hid⟩ := hk.published t job body hold
        exact ⟨keeping_moves hm t job body hg, hid⟩
      · obtain ⟨rfl, hnext, hid⟩ := published_of_publication ha hnew
        refine ⟨?_, hid⟩
        rw [Function.update_self]
        exact hnext
  pass := by
    intro s d hk _
    exact ⟨conserved_passed hk.conserved d, hk.published⟩

/-- Runs in which no process dies also keep the exact account. -/
theorem exact_preserved : Preserved (system py) (contract py) (fun _ l => survives l = true)
    (fun w h => Kept py w h ∧ Exact w (ghost (contract py) h)) where
  call := by
    rintro s i x q c reply w ⟨hk, he⟩ hu ha hp _
    constructor
    · exact kept_preserved.call s i x q c reply w hk hu ha hp trivial
    · rw [ghost_append]
      exact exact_moves hk.conserved he (moves_call hk ha hp)
  pass := by
    rintro s d ⟨hk, he⟩ hd
    constructor
    · exact kept_preserved.pass s d hk trivial
    · apply exact_passed hk.conserved he
      rintro tasks rfl
      cases hd

/-! ## Handlers at rest -/

/-- The thread is not in the middle of handling a message. -/
def atRest : Thread (Command F) Reply Failure Unit Request → Prop
  | ⟨.work, .call (.consume _) _⟩ => True
  | ⟨.work, .call _ _⟩ => False
  | _ => True

theorem free_of_rest {s : MailState F} (hf : Following (contract py) s)
    (hr : ∀ t ∈ s.threads, atRest t) {i : ℕ} {m : Mail} {job : Job F}
    (decoded : fromBytes py m.body = .ok job) :
    (ghost (contract py) s.history i).mail? ≠ some m := by
  intro hm
  have hi : i < s.threads.length := by
    by_contra hlt
    have hg : ghost (contract py) s.history i = .idle := by
      apply ghost_unspawned
      intro e he
      have := hf.spawned e he
      omega
    rw [hg] at hm
    cases hm
  have hthread : s.threads[i]? = some s.threads[i] := List.getElem?_eq_getElem hi
  have hkeeps := hf.follows i _ hthread
  have hrest := hr _ (List.getElem_mem hi)
  have ended : ∀ r, post py (ghost (contract py) s.history i) r → False := by
    rintro r (h | ⟨m', e, -, hg, he⟩)
    · rw [hm] at h
      cases h
    · rw [hg] at hm
      cases hm
      rw [decoded] at he
      cases he
  generalize s.threads[i] = thread at hkeeps hrest
  obtain ⟨q, p⟩ := thread
  cases p with
  | done a => exact ended _ hkeeps
  | raised e => exact ended _ hkeeps
  | call c next =>
    have ha : allows py i q (ghost (contract py) s.history i) c := hkeeps.1
    cases q with
    | publish connected published =>
      rw [publisher_free py ha] at hm
      cases hm
    | work =>
      cases c with
      | consume task =>
        rw [ha.2.2] at hm
        cases hm
      | _ => exact hrest

/-! ## The fate of a job -/

def mails (w : World) (t : ℕ) : List (Stored Mail) :=
  (w.broker.queued ++ w.broker.unacked.map Unacked.entry).filter (fun s => s.message.origin = t)

/-- Where a job can be: with its recipient, dropped after its expiry as it is read,
queued or delivered. -/
inductive Somewhere (w : World) (t : ℕ) (job : EmailJob) : Prop where
  | sent (h : t ∈ w.sent) : Somewhere w t job
  | dropped (time : ℤ) (h : (t, time) ∈ w.dropped)
      (late : job.fields.expiresAt.read.instant ≤ time) :
      Somewhere w t job
  | present (s : Stored Mail) (h : s ∈ mails w t) : Somewhere w t job

/-- The queues a copy can be in: a retry queue is that of its last delay. -/
inductive Shelf (job : EmailJob) (retry : ℕ) : Queue → Prop where
  | primary : Shelf job retry primaryQueue
  | dead : Shelf job retry deadQueue
  | waiting (delay : ℕ) (put : 1 ≤ retry)
      (delayed : retryDelays[(job.fields.attempts+retry-1).toNat]? = some delay) :
      Shelf job retry (retryQueue delay)

variable (py) in
/-- A copy is read as the published job with its attempts raised, on one of its shelves. -/
structure Faithful (job : EmailJob) (id : String) (s : Stored Mail) : Prop where
  decoded : fromBytes py s.message.body = .ok (fieldsJob F (received job id s.message.retry))
  shelf : Shelf job s.message.retry s.queue

variable (py) in
/-- All that becomes of a published job. -/
structure Fate (s : MailState F) (t : ℕ) (job : EmailJob) (body : Bytes) : Prop where
  somewhere : Somewhere s.world t job
  unchanged : ∃ id, id ≠ "" ∧ (job.fields.id ≠ "" → id = job.fields.id) ∧
    fromBytes py body = .ok (fieldsJob F (received job id 0)) ∧
    ∀ copy ∈ mails s.world t, Faithful py job id copy

/-- All that becomes of it while no process dies. -/
structure Settled (s : MailState F) (t : ℕ) : Prop where
  frugal : sends t s.world ≤ 5
  once : (∀ thread ∈ s.threads, atRest thread) →
    s.world.sent.count t+(s.world.dropped.map Prod.fst).count t+(mails s.world t).length = 1

variable {hand : ℕ → Hand} {t : ℕ} {job : EmailJob} {id : String} {body : Bytes}

theorem stamped_unique {id' : String} (h : Stamped py job id body) (h' : Stamped py job id' body) :
    id' = id := by
  have hd := decodes_stamped h
  rw [decodes_stamped h'] at hd
  have hid : (.str (text id) : Value F) = .str (text id') :=
    congrArg Job.id (Except.ok.inj hd).symm
  exact ((text_inj id id').mp (Value.str.inj hid)).symm

theorem shelf_of_placed {s : Stored Mail} (hp : Placed hand s)
    (ho : hand s.message.origin = .published job body) : Shelf job s.message.retry s.queue := by
  cases hp with
  | primary queue =>
    rw [queue]
    exact .primary
  | dead queue =>
    rw [queue]
    exact .dead
  | waiting job' body' delay origin put delayed queue =>
    rw [ho] at origin
    cases origin
    rw [queue]
    exact .waiting delay put delayed

theorem faithful_of_copy {s : Stored Mail} (hc : Copy py hand s.message) (hp : Placed hand s)
    (ho : hand s.message.origin = .published job body) (hs : Stamped py job id body) :
    Faithful py job id s := by
  obtain ⟨job', id', body', horigin, hstamp, hreads, -⟩ := hc
  rw [ho] at horigin
  cases horigin
  have hid := stamped_unique hs hstamp
  subst hid
  exact ⟨hreads, shelf_of_placed hp ho⟩

theorem mails_faithful (hs : Shelved py w hand) (ho : hand t = .published job body)
    (hid : Stamped py job id body) : ∀ copy ∈ mails w t, Faithful py job id copy := by
  intro copy hm
  obtain ⟨hmem, horigin⟩ := List.mem_filter.mp hm
  have ho : hand copy.message.origin = .published job body := by
    rw [of_decide_eq_true horigin]
    exact ho
  rcases List.mem_append.mp hmem with h | h
  · exact faithful_of_copy (hs.queued copy h) (hs.placed copy h) ho hid
  · obtain ⟨u, hu, rfl⟩ := List.mem_map.mp h
    exact faithful_of_copy (hs.unacked u hu).1 (.primary (hs.unacked u hu).2) ho hid

theorem copy_of_total (hs : Shelved py w hand) (h : 0 < total (live t) w.broker hand) :
    ∃ copy, copy ∈ mails w t := by
  by_contra none
  have off : ∀ s ∈ w.broker.queued ++ w.broker.unacked.map Unacked.entry, s.message.origin ≠ t :=
    fun s hm ho => none ⟨s, List.mem_filter.mpr ⟨hm, decide_eq_true ho⟩⟩
  have hqueued : (w.broker.queued.map (live t).stored).sum = 0 := by
    apply List.sum_eq_zero
    intro n hn
    obtain ⟨s, hm, rfl⟩ := List.mem_map.mp hn
    exact if_neg (off s (List.mem_append_left _ hm))
  have hunacked : (w.broker.unacked.map (fun u => (live t).held (hand u.task))).sum = 0 := by
    apply List.sum_eq_zero
    intro n hn
    obtain ⟨u, hm, rfl⟩ := List.mem_map.mp hn
    have hle := live_mail t _ (mail_of_unacked hs hm)
    rw [if_neg (off u.entry (List.mem_append_right _ (List.mem_map_of_mem hm)))] at hle
    exact Nat.le_zero.mp hle
  simp only [total, weight, hqueued, hunacked] at h
  omega

theorem mails_of_free (hu : w.broker.unacked = []) :
    (mails w t).length = total (live t) w.broker hand := by
  have sum : ∀ l : List (Stored Mail), (l.filter (fun s => s.message.origin = t)).length =
      (l.map (live t).stored).sum := by
    intro l
    induction l with
    | nil => rfl
    | cons s l ih =>
      rw [List.map_cons, List.sum_cons, ← ih]
      by_cases h : s.message.origin = t
      · simp [h, live, Nat.add_comm]
      · simp [h, live]
  simp only [mails, total, weight, hu, List.map_nil, List.append_nil, List.sum_nil, Nat.add_zero]
  exact sum _

theorem somewhere_of_conserved (hc : Conserved py w hand) (ho : hand t = .published job body) :
    Somewhere w t job := by
  have hleast := hc.least t
  rw [ho] at hleast
  by_cases hsent : t ∈ w.sent
  · exact .sent hsent
  · by_cases hdropped : t ∈ w.dropped.map Prod.fst
    · obtain ⟨⟨t', time⟩, hd, rfl⟩ := List.mem_map.mp hdropped
      obtain ⟨job', body', hp, hlate⟩ := hc.booked.dropped _ hd
      rw [ho] at hp
      cases hp
      exact .dropped time hd hlate
    · have hnone := List.count_eq_zero.mpr hsent
      have hnone' := List.count_eq_zero.mpr hdropped
      have hpos : 0 < total (live t) w.broker hand := by
        simp only [accounted, born] at hleast
        omega
      obtain ⟨copy, hm⟩ := copy_of_total hc.shelved hpos
      exact .present copy hm

theorem unacked_of_rest {s : MailState F} (hf : Following (contract py) s)
    (hk : Kept py s.world s.history) (hr : ∀ thread ∈ s.threads, atRest thread) :
    s.world.broker.unacked = [] := by
  rw [List.eq_nil_iff_forall_not_mem]
  intro u hu
  obtain ⟨job, id, body, hc⟩ := (hk.conserved.shelved.unacked u hu).1
  exact free_of_rest hf hr hc.reads (mail_of_unacked hk.conserved.shelved hu)

theorem spare_le (job : EmailJob) : spare job.fields.attempts ≤ 4 := by
  have ha := attempts_nonneg job
  have h4 : (retryDelays.length : ℤ) = 4 := rfl
  simp only [spare, h4]
  omega

theorem kept_fresh (now : ℕ) : Kept py (World.fresh now) [] where
  conserved := conserved_fresh now
  published := fun t job body h => by cases h

/-- In every run a published job is somewhere and every copy of it is the job; while
no process dies it is in one place and sent five times at most. -/
theorem jobs_conserved (now : ℕ) (ls : List (Label Request Choice Passing)) (t : ℕ)
    (job : EmailJob) (body : Bytes)
    (h : Published (run (system py) ls (initial (World.fresh now))).history t job body) :
    Fate py (run (system py) ls (initial (World.fresh now))) t job body ∧
      ((∀ l ∈ ls, survives l = true) →
        Settled (run (system py) ls (initial (World.fresh now))) t) := by
  have hf := following_run (obeys py) ls (initial (World.fresh now)) (following_initial _)
  have hk := invariant_run (obeys py) kept_preserved ls (initial (World.fresh now))
    (following_initial _) (kept_fresh now) (meets_trivial ls _)
  obtain ⟨ho, id, hid⟩ := hk.published t job body h
  constructor
  · constructor
    · exact somewhere_of_conserved hk.conserved ho
    · exact ⟨id, hid.named, hid.kept, decodes_stamped hid,
        mails_faithful hk.conserved.shelved ho hid⟩
  · intro hsurvives
    obtain ⟨-, he⟩ := invariant_run (obeys py) exact_preserved ls (initial (World.fresh now))
      (following_initial _) ⟨kept_fresh now, exact_fresh now⟩ (meets_of_forall ls _ hsurvives)
    constructor
    · have hfrugal := he.frugal t job.fields.attempts (fun job' body' hp => by
        rw [ho] at hp
        cases hp
        rfl)
      have hspare := spare_le job
      rw [ho, grant] at hfrugal
      omega
    · intro hr
      have honce := he.once t
      rw [ho, accounted, ← mails_of_free (unacked_of_rest hf hk hr), born] at honce
      omega

/-! ## A run -/

/-- A job that starts with so many attempts and expires in the year 2001. -/
def sampleJob (attempts : ℕ) : EmailJob where
  fields := ⟨"a@b", "verify", "123456",
    ⟨63113904000000000, some 0, by decide, by decide⟩, attempts, "j"⟩
  valid := by
    have recipient : '@' ∈ "a@b".toList ∧ "a@b".length ≤ 320 := by decide
    have code : "123456".length = 6 ∧ isDigits "123456" = true := by decide +kernel
    rw [postInit_ok]
    exact ⟨recipient, Or.inl rfl, code, Option.some_ne_none _, Int.natCast_nonneg _⟩

/-- Its expiry is a microsecond east of UTC. -/
def eastJob : EmailJob where
  fields := { (sampleJob 0).fields with
    expiresAt := ⟨63113904000000000, some 1, by decide, by decide⟩ }
  valid := by
    obtain ⟨recipient, template, code, -, attempts⟩ := (postInit_ok _).mp (sampleJob 0).valid
    exact (postInit_ok _).mpr ⟨recipient, template, code, Option.some_ne_none _, attempts⟩

/-- The job is published, and the send of its first delivery fails. -/
def firstRetry (job : EmailJob) : List (Label Request Choice Passing) :=
  [.spawn (.publish true job), .run 0 {}, .run 0 {}, .run 0 {}, .run 0 {},
    .spawn .work, .run 1 {}, .run 1 {}, .run 1 { failure := some .external }, .run 1 {}, .run 1 {}]

def bodyOf (job : EmailJob) : Bytes :=
  (Job.toBytes plainInterpreter (fieldsJob Unit job.fields)).toOption.getD []

abbrev afterRetry (job : EmailJob) : MailState Unit :=
  run (system plainInterpreter) (firstRetry job) (initial (World.fresh 1000))

theorem jobs_conserved_retry : let job := sampleJob 0
    Published (afterRetry job).history 0 job (bodyOf job) ∧
      Fate plainInterpreter (afterRetry job) 0 job (bodyOf job) ∧ Settled (afterRetry job) 0 := by
  intro job
  have h : Published (afterRetry job).history 0 job (bodyOf job) := by decide +kernel
  obtain ⟨hfate, hsettled⟩ :=
    @jobs_conserved Unit plainInterpreter 1000 (firstRetry job) 0 job (bodyOf job) h
  exact ⟨h, hfate, hsettled (by decide)⟩

/-- The offset with which a handler reads a copy. -/
def offsetRead (m : Mail) : Option (Option ℤ) :=
  (fromBytes plainInterpreter m.body).toOption.map (fun job => job.expiresAt.utcoffset)

/-- The first retry of a job published with two attempts waits for the third delay, and an
offset of a microsecond is gone from the first copy. -/
theorem retry_out_of_step :
    (Published (afterRetry (sampleJob 2)).history 0 (sampleJob 2) (bodyOf (sampleJob 2)) ∧
      (∀ l ∈ firstRetry (sampleJob 2), survives l = true) ∧
        ∃ copy ∈ mails (afterRetry (sampleJob 2)).world 0, copy.message.retry = 1 ∧
          retryDelays[0]? = some 30 ∧ copy.queue ≠ retryQueue 30 ∧ copy.queue = retryQueue 120) ∧
    (Published (afterRetry eastJob).history 0 eastJob (bodyOf eastJob) ∧
      (∀ l ∈ firstRetry eastJob, survives l = true) ∧
        ∃ copy ∈ mails (afterRetry eastJob).world 0, copy.message.retry = 1 ∧
          eastJob.fields.expiresAt.utcoffset = some 1 ∧
          offsetRead copy.message = some (some 0)) := by
  decide +kernel

end Gamely.MailConservation
