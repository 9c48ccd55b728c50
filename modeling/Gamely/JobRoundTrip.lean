import Gamely.MailWorker
import Gamely.Sequential

/-!
# A job written, read and written again

The texts of a job are any strings of the interpreter, surrogates included, and
its attempts any integer. Encoding fails only on an integer that is too long to
print. What is decoded is encoded as the same bytes, but for an offset of less than
a second, which the first hop drops and no later one changes.
-/

set_option autoImplicit false

namespace Gamely.JobRoundTrip
open Gamely.Calls Gamely.Sequential Gamely.Json Gamely.DateTimes Gamely.EmailJobs
open Gamely.JobCodec Gamely.MailWorker

/-- A `str`. -/
abbrev Str := {s : Text // ∀ c ∈ s, c < 1114112}

def str (s : String) : Str := ⟨text s, (whole_text s).1⟩

/-- The fields of `EmailJob` under their annotations. -/
structure TypedJob where
  recipient : Str
  template : Str
  code : Str
  expiresAt : DateTime
  attempts : ℤ := 0
  id : Str := str ""

def TypedJob.job (F : Type) (j : TypedJob) : Job F where
  recipient := .str j.recipient.val
  template := .str j.template.val
  code := .str j.code.val
  expiresAt := j.expiresAt
  attempts := .int j.attempts
  id := .str j.id.val

/-- The id that is written: a new one when there is none. -/
def TypedJob.identified (u : Uuid) (j : TypedJob) : TypedJob :=
  { j with id := if j.id.val = [] then str u.val else j.id }

/-- Split pairs become the code points they encode. -/
def whole (s : Str) : Str := ⟨joinUnits s.val, joinUnits_range s.val s.property⟩

/-- What is read back. -/
def TypedJob.decoded (u : Uuid) (j : TypedJob) : TypedJob :=
  { j.identified u with recipient := whole j.recipient, id := whole (j.identified u).id }

/-- An offset of less than a second is read as UTC. -/
def TypedJob.read (j : TypedJob) : TypedJob := { j with expiresAt := j.expiresAt.read }

variable {F : Type} (py : Interpreter F)

/-- `to_bytes` ends in this way when `uuid4` returns `u`. -/
def Writes (u : Uuid) (job : Job F) (result : Except Failure Bytes) : Prop :=
  ∀ (schedule : ℕ → Choice) (n : ℕ) (w : World), (schedule n).uuid = u →
    (schedule n).failure = none →
      ∃ m, runOn perform schedule n (encodeJob py job) w = some (result, w, m)

theorem runs_uuid4 {schedule : ℕ → Choice} {n : ℕ} (w : World) (hf : (schedule n).failure = none) :
    runOn perform schedule n (invoke (Command.uuid4 (F := F)) : Act F Uuid) w =
      some (.ok (schedule n).uuid, w, n+1) := by
  rw [runOn_invoke]
  simp [perform, Command.task?, hf, answer]

theorem encodeJob_bind (job : Job F) : encodeJob py job =
    (if truthy py job.id then pure job.id
      else (fun u => Value.str (text u.val)) <$> invoke (Command.uuid4 (F := F))) >>=
        fun id => ofResult (Job.toBytes py { job with id := id }) := by
  unfold encodeJob
  split <;> rfl

theorem writes_typed (j : TypedJob) (u : Uuid) :
    Writes py u (j.job F) (Job.toBytes py ((j.identified u).job F)) := by
  intro schedule n w hu hf
  have ht : truthy py (j.job F).id = decide (j.id.val ≠ []) := rfl
  have hid : ∃ m, runOn perform schedule n (if truthy py (j.job F).id then pure (j.job F).id
      else (fun u : Uuid => Value.str (F := F) (text u.val)) <$>
        invoke (Command.uuid4 (F := F)) : Act F (Value F)) w =
      some (.ok ((j.identified u).job F).id, w, m) := by
    by_cases hid : j.id.val = []
    · have hfalse : truthy py (j.job F).id = false := by rw [ht]; simpa using hid
      have he : ((j.identified u).job F).id = .str (text u.val) := by
        simp only [TypedJob.identified, TypedJob.job, hid, if_true]
        rfl
      rw [hfalse, he]
      change ∃ m, runOn perform schedule n (invoke (Command.uuid4 (F := F)) >>= _) w = _
      rw [runOn_bind, runs_uuid4 w hf, hu]
      exact ⟨n+1, rfl⟩
    · have htrue : truthy py (j.job F).id = true := by rw [ht]; simpa using hid
      have he : ((j.identified u).job F).id = (j.job F).id := by
        simp only [TypedJob.identified, TypedJob.job, hid, if_false]
      rw [htrue, he]
      exact ⟨n, rfl⟩
  obtain ⟨m, hm⟩ := hid
  rw [encodeJob_bind, runOn_bind, hm]
  exact ⟨m, runOn_ofResult schedule m w _⟩

/-! ## The bytes -/

theorem decimal_length (n : ℕ) : (decimal n).length ≤ maxStrDigits ↔ n < 10^maxStrDigits := by
  unfold decimal
  split
  case isTrue h =>
    have hpos : 0 < 10^maxStrDigits := Nat.pow_pos (by decide)
    rw [h]
    exact iff_of_true (by decide) hpos
  case isFalse h =>
    rw [List.length_map, List.length_reverse, Nat.digits_length_le_iff (by decide)]

theorem items_typed (j : TypedJob) (depth : ℕ) :
    dumpsMembers py.toRuntime depth (j.job F).members =
      (dumps py.toRuntime depth (.int j.attempts)).map (fun attempts =>
        [quoted (text "recipient") ++ [58, 32] ++ quoted j.recipient.val,
          quoted (text "template") ++ [58, 32] ++ quoted j.template.val,
          quoted (text "code") ++ [58, 32] ++ quoted j.code.val,
          quoted (text "expires_at") ++ [58, 32] ++ quoted (isoformat j.expiresAt),
          quoted (text "attempts") ++ [58, 32] ++ attempts,
          quoted (text "id") ++ [58, 32] ++ quoted j.id.val]) := by
  simp only [Job.members, TypedJob.job, dumpsMembers, dumps, Bind.bind, Except.bind]
  by_cases h : maxStrDigits < (decimal j.attempts.natAbs).length
  · rw [if_pos h]
    rfl
  · rw [if_neg h]
    rfl

/-- How many attempts can be printed. -/
def printable : ℤ := 10^maxStrDigits

theorem printable_iff (n : ℤ) (hn : 0 ≤ n) :
    n < printable ↔ (decimal n.natAbs).length ≤ maxStrDigits := by
  have hcast : ((10^maxStrDigits : ℕ) : ℤ) = printable := by
    unfold printable
    push_cast
    rfl
  rw [decimal_length]
  omega

theorem toBytes_typed (j : TypedJob) (hj : 0 ≤ j.attempts) (h : j.attempts < printable) :
    ∃ body, Job.toBytes py (j.job F) = .ok body := by
  obtain ⟨depth, hdepth⟩ := Nat.exists_eq_add_one.mpr py.depth_pos
  have hshort : ¬ maxStrDigits < (decimal j.attempts.natAbs).length :=
    not_lt.mpr ((printable_iff _ hj).mp h)
  unfold Job.toBytes
  rw [hdepth, dumps, items_typed, dumps, if_neg hshort]
  exact ⟨_, rfl⟩

theorem toBytes_raises (j : TypedJob) (hj : 0 ≤ j.attempts) (h : printable ≤ j.attempts) :
    Job.toBytes py (j.job F) = .error (.valueError "") := by
  obtain ⟨depth, hdepth⟩ := Nat.exists_eq_add_one.mpr py.depth_pos
  have hlong : maxStrDigits < (decimal j.attempts.natAbs).length := by
    rw [← not_le, ← printable_iff _ hj]
    exact not_lt.mpr h
  unfold Job.toBytes
  rw [hdepth, dumps, items_typed, dumps, if_pos hlong]
  rfl

theorem toBytes_decoded (j : TypedJob) (u : Uuid) :
    Job.toBytes py ((j.decoded u).job F) = Job.toBytes py ((j.identified u).job F) := by
  obtain ⟨depth, hdepth⟩ := Nat.exists_eq_add_one.mpr py.depth_pos
  have hitems : dumpsMembers py.toRuntime depth ((j.decoded u).job F).members =
      dumpsMembers py.toRuntime depth ((j.identified u).job F).members := by
    rw [items_typed, items_typed]
    simp only [TypedJob.decoded, whole, quoted_joinUnits]
    rfl
  unfold Job.toBytes
  rw [hdepth, dumps, dumps, hitems]

/-! ## Valid jobs -/

theorem postInit_typed (j : TypedJob) : (j.job F).postInit py = .ok () ↔
    (64 ∈ j.recipient.val ∧ j.recipient.val.length ≤ 320) ∧
    (j.template.val = text "verify" ∨ j.template.val = text "reset") ∧
    (j.code.val.length = 6 ∧ j.code.val.all digitPoint = true) ∧
    j.expiresAt.utcoffset ≠ none ∧ 0 ≤ j.attempts := by
  have hr : badRecipient (j.job F).recipient =
      .ok (decide (64 ∉ j.recipient.val ∨ 320 < j.recipient.val.length)) := by
    simp only [badRecipient, TypedJob.job, containsAt, len, Bind.bind, Except.bind]
    by_cases h : 64 ∈ j.recipient.val <;> simp [h]
  have ht : badTemplate (j.job F).template =
      .ok (decide (j.template.val ≠ text "verify" ∧ j.template.val ≠ text "reset")) := rfl
  have hc : badCode (j.job F).code =
      .ok (decide (j.code.val.length ≠ 6 ∨ j.code.val.all digitPoint = false)) := by
    simp only [badCode, TypedJob.job, len, Bind.bind, Except.bind]
    by_cases h : j.code.val.length = 6
    · have hne : j.code.val ≠ [] := by
        intro he
        rw [he] at h
        cases h
      cases j.code.val.all digitPoint <;> simp [h, hne]
    · simp [h]
  have ha : less py 0 (j.job F).attempts = .ok (decide (j.attempts < 0)) := rfl
  have hlast : refuse (.ok (decide (j.attempts < 0))) "email job attempts cannot be negative" =
      .ok () ↔ ¬ j.attempts < 0 := by
    rw [refuse_ok, Except.ok.injEq, decide_eq_false_iff_not]
  rw [Job.postInit, hr, ht, hc, ha, refuse_bind_ok, refuse_bind_ok, refuse_bind_ok,
    refuse_bind_ok, hlast]
  simp only [not_or, not_and_or, not_not, not_lt, ne_eq, Bool.not_eq_false, TypedJob.job]

theorem scalar_digit {c : ℕ} (h : digitPoint c = true) : IsScalar c := by
  have hranges : ∀ r ∈ digitRanges, r.2 < 1114112 ∧ (r.2 < 55296 ∨ 57344 ≤ r.1) := by decide
  obtain ⟨r, hr, hc⟩ := List.any_eq_true.mp h
  have := hranges r hr
  simp only [Bool.and_eq_true, decide_eq_true_eq] at hc
  exact ⟨by omega, by omega⟩

theorem postInit_decoded (j : TypedJob) (u : Uuid) (hj : (j.job F).postInit py = .ok ()) :
    ((j.decoded u).job F).postInit py = .ok () := by
  obtain ⟨⟨hat, hlen⟩, ht, hc, he, ha⟩ := (postInit_typed py j).mp hj
  have hat' : 64 ∈ joinUnits j.recipient.val := mem_joinUnits ⟨by decide, by decide⟩ hat
  have hlen' := joinUnits_length j.recipient.val
  exact (postInit_typed py (j.decoded u)).mpr ⟨⟨hat', le_trans hlen' hlen⟩, ht, hc, he, ha⟩

theorem plain_decoded (j : TypedJob) (u : Uuid) (hj : (j.job F).postInit py = .ok ()) :
    Plain (.obj ((j.decoded u).job F).members) := by
  obtain ⟨-, ht, hc, -⟩ := (postInit_typed py j).mp hj
  have htemplate : Whole j.template.val := by
    rcases ht with ht | ht <;> rw [ht] <;> exact whole_text _
  have hcode : Whole j.code.val :=
    whole_scalar _ (fun c h => scalar_digit (List.all_eq_true.mp hc.2 c h))
  exact plain_members _ (whole_joinUnits _ j.recipient.property) htemplate hcode trivial
    (whole_joinUnits _ (j.identified u).id.property)

/-! ## The round trip -/

theorem decoded_unpaired (j : TypedJob) (u : Uuid) (hr : Unpaired j.recipient.val)
    (hi : Unpaired j.id.val) : j.decoded u = j.identified u := by
  have hid : Unpaired (j.identified u).id.val := by
    unfold TypedJob.identified
    split
    · exact (whole_text u.val).2
    · exact hi
  have hwhole : ∀ s : Str, Unpaired s.val → whole s = s :=
    fun s hs => Subtype.ext (joinUnits_unpaired s.val hs)
  rw [TypedJob.decoded, hwhole _ hr, hwhole _ hid]
  rfl

theorem identified_decoded (j : TypedJob) (u v : Uuid) :
    (j.decoded u).identified v = j.decoded u := by
  have hne : ∀ s : Text, s ≠ [] → joinUnits s ≠ [] := by
    intro s hs
    fun_cases joinUnits s with
    | case1 => exact absurd rfl hs
    | case2 => simp
    | case3 => simp
    | case4 => simp
  have hid : (j.identified u).id.val ≠ [] := by
    unfold TypedJob.identified
    split
    case isTrue =>
      intro h
      have he : text u.val = text "" := h
      exact u.property ((text_inj _ _).mp he)
    case isFalse h => exact h
  have hid' : (j.decoded u).id.val ≠ [] := hne _ hid
  rw [TypedJob.identified, if_neg hid']

theorem decoded_read (j : TypedJob) (u : Uuid) (h : j.expiresAt.read = j.expiresAt) :
    (j.decoded u).read = j.decoded u := by
  rw [TypedJob.read, show (j.decoded u).expiresAt = j.expiresAt from rfl, h]
  rfl

theorem fromBytes_decoded (j : TypedJob) (u : Uuid) (hj : (j.job F).postInit py = .ok ())
    {body : Bytes} (hbody : Job.toBytes py ((j.decoded u).job F) = .ok body) :
    fromBytes py body = .ok ((j.decoded u).read.job F) :=
  fromBytes_plain py _ (plain_decoded py j u hj) (postInit_decoded py j u hj) body hbody

theorem written_and_read (j : TypedJob) (u : Uuid) (hj : (j.job F).postInit py = .ok ())
    (h : j.attempts < printable) : ∃ body, Writes py u (j.job F) (.ok body) ∧
      Job.toBytes py ((j.decoded u).job F) = .ok body ∧
      fromBytes py body = .ok ((j.decoded u).read.job F) := by
  have hpos : 0 ≤ (j.identified u).attempts := ((postInit_typed py j).mp hj).2.2.2.2
  have hwrites := writes_typed py j u
  obtain ⟨body, hbody⟩ := toBytes_typed py (j.identified u) hpos h
  rw [hbody] at hwrites
  have hdecoded : Job.toBytes py ((j.decoded u).job F) = .ok body := by
    rw [toBytes_decoded, hbody]
  exact ⟨body, hwrites, hdecoded, fromBytes_decoded py j u hj hdecoded⟩

/-- A valid job whose attempts can be printed is encoded, and its bytes decode to the
job itself, but for split pairs and an offset of less than a second. Encoding that
again gives bytes that decode to it, and the same bytes without such an offset. -/
theorem job_round_trip (j : TypedJob) (u : Uuid) (hj : (j.job F).postInit py = .ok ()) :
    (j.attempts < printable → ∃ body, Writes py u (j.job F) (.ok body) ∧
      fromBytes py body = .ok ((j.decoded u).read.job F) ∧
      (∃ copy, (∀ v, Writes py v ((j.decoded u).read.job F) (.ok copy)) ∧
        fromBytes py copy = .ok ((j.decoded u).read.job F) ∧
        (j.expiresAt.read = j.expiresAt → copy = body)) ∧
      (Unpaired j.recipient.val → Unpaired j.id.val → j.decoded u = j.identified u)) ∧
    (printable ≤ j.attempts → Writes py u (j.job F) (.error (.valueError ""))) := by
  have hpos : 0 ≤ (j.identified u).attempts := ((postInit_typed py j).mp hj).2.2.2.2
  constructor
  · intro h
    obtain ⟨body, hwrites, hdecoded, hread⟩ := written_and_read py j u hj h
    obtain ⟨copy, hcopy⟩ := toBytes_typed py (j.decoded u).read hpos h
    have hagain : ∀ v, Writes py v ((j.decoded u).read.job F) (.ok copy) := by
      intro v
      have hv := writes_typed py (j.decoded u).read v
      have hsame : (j.decoded u).read.identified v = (j.decoded u).read :=
        congrArg TypedJob.read (identified_decoded j u v)
      rwa [hsame, hcopy] at hv
    refine ⟨body, hwrites, hread, ⟨copy, hagain, ?_, ?_⟩, decoded_unpaired j u⟩
    · have hread := fromBytes_decoded py j.read u ((postInit_read py _).trans hj) hcopy
      have hsame : (j.read.decoded u).read = (j.decoded u).read :=
        congrArg (fun t => ({ j.decoded u with expiresAt := t } : TypedJob)) j.expiresAt.read_read
      rwa [hsame] at hread
    · intro hwhole
      rw [decoded_read j u hwhole, hdecoded] at hcopy
      exact (Except.ok.inj hcopy).symm
  · intro h
    have hwrites := writes_typed py j u
    rwa [toBytes_raises py (j.identified u) hpos h] at hwrites

/-- A mail to `@` and whatever follows, expiring at an offset with seconds and microseconds. -/
def sampleJob (after : Str) (attempts : ℤ) : TypedJob where
  recipient := ⟨64 :: after.val, by
    intro c hc
    rcases List.mem_cons.mp hc with rfl | hc
    · decide
    · exact after.property c hc⟩
  template := str "reset"
  code := str "12345٦"
  expiresAt := ⟨63900000000123456, some (-5400000001), by decide, by decide⟩
  attempts := attempts

def sampleId : Uuid := ⟨"u", by decide⟩

theorem sample_valid (after : Str) (attempts : ℤ) (hlen : after.val.length < 320)
    (ha : 0 ≤ attempts) :
    ((sampleJob after attempts).job Unit).postInit plainInterpreter = .ok () := by
  have hcode : (text "12345٦").length = 6 ∧ (text "12345٦").all digitPoint = true := by
    decide +kernel
  have hr : 64 ∈ (sampleJob after attempts).recipient.val ∧
      (sampleJob after attempts).recipient.val.length ≤ 320 := ⟨List.mem_cons_self, hlen⟩
  exact (postInit_typed plainInterpreter _).mpr ⟨hr, Or.inr rfl, hcode, by simp [sampleJob], ha⟩

theorem lt_printable {n : ℤ} (h : n < 10) : n < printable := by
  have hle : (10 : ℤ)^1 ≤ printable := pow_le_pow_right₀ (by decide) (by decide)
  omega

theorem job_round_trip_sample : ∃ body,
    Writes plainInterpreter sampleId ((sampleJob (str "é\"\\😀") 3).job Unit) (.ok body) ∧
    fromBytes plainInterpreter body =
      .ok (((sampleJob (str "é\"\\😀") 3).identified sampleId).job Unit) := by
  have hlen : (str "é\"\\😀").val.length < 320 := by decide +kernel
  have hr : Unpaired (sampleJob (str "é\"\\😀") 3).recipient.val :=
    unpaired_cons (whole_text _).2 (by intro v _; rfl)
  obtain ⟨body, hwrites, hread, -, hsame⟩ :=
    (job_round_trip plainInterpreter (sampleJob (str "é\"\\😀") 3) sampleId
      (sample_valid _ 3 hlen (by decide))).1 (lt_printable (by decide))
  rw [hsame hr trivial] at hread
  exact ⟨body, hwrites, hread⟩

theorem writes_unique {u : Uuid} {job : Job F} {r r' : Except Failure Bytes}
    (h : Writes py u job r) (h' : Writes py u job r') : r = r' := by
  obtain ⟨m, hm⟩ := h (fun _ => { uuid := u }) 0 (World.fresh 0) rfl rfl
  obtain ⟨m', hm'⟩ := h' (fun _ => { uuid := u }) 0 (World.fresh 0) rfl rfl
  rw [hm] at hm'
  simp only [Option.some.injEq, Prod.mk.injEq] at hm'
  exact hm'.1

def splitPair : Str := ⟨[55296, 56320], by decide⟩

theorem east_lt : ∀ o ∈ some (1 : ℤ), -86400000000 < o ∧ o < 86400000000 := by
  rintro o ⟨⟩
  omega

/-- One microsecond east of UTC. -/
def eastJob : TypedJob :=
  { sampleJob (str "") 0 with expiresAt := ⟨63900000000123456, some 1, by decide, east_lt⟩ }

/-- A valid job need not come back: its attempts may be too long to print, a split
pair in its recipient comes back as one code point and an offset of less than a
second as UTC. -/
theorem job_changes :
    (∃ j : TypedJob, (j.job Unit).postInit plainInterpreter = .ok () ∧
      ¬ ∃ body, Writes plainInterpreter sampleId (j.job Unit) (.ok body)) ∧
    (∃ (j : TypedJob) (body : Bytes), (j.job Unit).postInit plainInterpreter = .ok () ∧
      Writes plainInterpreter sampleId (j.job Unit) (.ok body) ∧
      fromBytes plainInterpreter body ≠ .ok ((j.identified sampleId).job Unit)) ∧
    (∃ (j : TypedJob) (body : Bytes), (j.job Unit).postInit plainInterpreter = .ok () ∧
      Unpaired j.recipient.val ∧ Unpaired j.id.val ∧
      Writes plainInterpreter sampleId (j.job Unit) (.ok body) ∧
      fromBytes plainInterpreter body ≠ .ok ((j.identified sampleId).job Unit)) := by
  refine ⟨?_, ?_, ?_⟩
  · have hpos : 0 ≤ printable := pow_nonneg (by decide) _
    have hj := sample_valid (str "") printable (by decide) hpos
    have hwrites := writes_typed plainInterpreter (sampleJob (str "") printable) sampleId
    have hraise := toBytes_raises (F := Unit) plainInterpreter
      ((sampleJob (str "") printable).identified sampleId) hpos (le_refl printable)
    rw [hraise] at hwrites
    refine ⟨sampleJob (str "") printable, hj, ?_⟩
    rintro ⟨body, hbody⟩
    cases writes_unique plainInterpreter hbody hwrites
  · have hj := sample_valid splitPair 0 (by decide) (by decide)
    obtain ⟨body, hwrites, -, hread⟩ :=
      written_and_read plainInterpreter _ sampleId hj (lt_printable (by decide))
    refine ⟨sampleJob splitPair 0, body, hj, hwrites, ?_⟩
    rw [hread]
    intro h
    have hrecipient := congrArg Job.recipient (Except.ok.inj h)
    have hchars : joinUnits [64, 55296, 56320] = [64, 55296, 56320] := Value.str.inj hrecipient
    revert hchars
    decide
  · have hsample := sample_valid (str "") 0 (by decide) (by decide)
    have hj : (eastJob.job Unit).postInit plainInterpreter = .ok () := by
      obtain ⟨hr, ht, hc, -, ha⟩ := (postInit_typed plainInterpreter _).mp hsample
      exact (postInit_typed plainInterpreter eastJob).mpr ⟨hr, ht, hc, by simp [eastJob], ha⟩
    obtain ⟨body, hwrites, -, hread⟩ :=
      written_and_read plainInterpreter eastJob sampleId hj (lt_printable (by decide))
    refine ⟨eastJob, body, hj, unpaired_cons (whole_text "").2 (by intro v _; rfl), trivial,
      hwrites, ?_⟩
    rw [hread]
    intro h
    have hoffset := congrArg (fun j => j.expiresAt.utcoffset) (Except.ok.inj h)
    have hwhole : some (wholeOffset 1) = some 1 := hoffset
    revert hwhole
    decide

end Gamely.JobRoundTrip
