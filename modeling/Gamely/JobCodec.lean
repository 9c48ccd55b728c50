import Gamely.EmailJobs
import Gamely.JsonRoundTrip
import Gamely.DateTimeRoundTrip

/-!
# Jobs as bytes

A decoded job has whatever JSON types its body had: the dataclass checks its
fields with operations that some types do not support. A job that was built
from strings comes back as it was, but for an offset of less than a second.
-/

set_option autoImplicit false

namespace Gamely.JobCodec
open Gamely.Json Gamely.DateTimes Gamely.EmailJobs

variable {F : Type}

/-- The interpreter also supplies `datetime.fromisoformat`. The texts it takes differ
from release to release; it reads a written datetime, and nothing that another
round would change. -/
structure Interpreter (F : Type) extends Runtime F where
  fromisoformat : Text → Option DateTime
  fromisoformat_isoformat : ∀ t, fromisoformat (isoformat t) = some t.read
  read_fromisoformat : ∀ s t, fromisoformat s = some t → t.read = t

instance : CoeOut (Interpreter F) (Runtime F) := ⟨Interpreter.toRuntime⟩

/-- An `EmailJob` as the interpreter holds it; only the expiration has one type. -/
structure Job (F : Type) where
  recipient : Value F
  template : Value F
  code : Value F
  expiresAt : DateTime
  attempts : Value F
  id : Value F

/-! ## Operations on values of any type -/

/-- `"@" in value`. -/
def containsAt : Value F → Except Failure Bool
  | .str s => .ok (64 ∈ s)
  | .arr items => .ok (items.any (fun v => match v with
    | .str s => s = [64]
    | _ => false))
  | .obj members => .ok (members.any (fun m => m.1 = [64]))
  | _ => .error (.typeError "")

def len : Value F → Except Failure ℕ
  | .str s => .ok s.length
  | .arr items => .ok items.length
  | .obj members => .ok members.length
  | _ => .error (.typeError "")

/-- `bool(value)`. -/
def truthy (py : Interpreter F) : Value F → Bool
  | .null => false
  | .bool b => b
  | .int n => n ≠ 0
  | .float x => py.truthy x
  | .str s => s ≠ []
  | .arr items => !items.isEmpty
  | .obj members => !members.isEmpty

def less (py : Interpreter F) (n : ℤ) : Value F → Except Failure Bool
  | .bool b => .ok ((if b then 1 else 0) < n)
  | .int k => .ok (k < n)
  | .float x => .ok (py.less x n)
  | _ => .error (.typeError "")

def atLeast (py : Interpreter F) (n : ℤ) : Value F → Except Failure Bool
  | .bool b => .ok (n ≤ (if b then 1 else 0))
  | .int k => .ok (n ≤ k)
  | .float x => .ok (py.atLeast x n)
  | _ => .error (.typeError "")

def increment (py : Interpreter F) : Value F → Except Failure (Value F)
  | .bool b => .ok (.int ((if b then 1 else 0)+1))
  | .int k => .ok (.int (k+1))
  | .float x => .ok (.float (py.plus x 1))
  | _ => .error (.typeError "")

/-- The position an index names; a negative one counts from the end. -/
def position (length : ℕ) (k : ℤ) : Option ℕ :=
  if -length ≤ k ∧ k < length then some (k%length).toNat else none

/-- `values[value]`. -/
def item {A : Type} (values : List A) (index : Value F) : Except Failure A := do
  let k : ℤ ← match index with
    | .int k => .ok k
    | .bool b => .ok (if b then 1 else 0)
    | _ => .error (.typeError "")
  match (position values.length k).bind (fun n => values[n]?) with
  | some a => .ok a
  | none => .error .indexError

/-! ## The checks of the constructor -/

def refuse (bad : Except Failure Bool) (message : String) : Except Failure Unit := do
  if ← bad then .error (.valueError message) else .ok ()

def badRecipient (recipient : Value F) : Except Failure Bool := do
  if (← containsAt recipient) = false then .ok true
  else do
    let n ← len recipient
    .ok (320 < n)

/-- Arrays and objects cannot be looked up in a set. -/
def badTemplate : Value F → Except Failure Bool
  | .str s => .ok (s ≠ text "verify" ∧ s ≠ text "reset")
  | .arr _ => .error (.typeError "")
  | .obj _ => .error (.typeError "")
  | _ => .ok true

def badCode (code : Value F) : Except Failure Bool := do
  if (← len code) ≠ 6 then .ok true
  else match code with
    | .str s => .ok (!(s ≠ [] && s.all digitPoint))
    | _ => .error .attributeError

def Job.postInit (py : Interpreter F) (j : Job F) : Except Failure Unit := do
  refuse (badRecipient j.recipient) "invalid email recipient"
  refuse (badTemplate j.template) "invalid email template"
  refuse (badCode j.code) "invalid authentication code"
  refuse (.ok (j.expiresAt.utcoffset = none)) "email job expiration must include a timezone"
  refuse (less py 0 j.attempts) "email job attempts cannot be negative"

def Job.make (py : Interpreter F) (j : Job F) : Except Failure (Job F) := do
  j.postInit py
  .ok j

/-! ## Encoding and decoding -/

def ofJson {A : Type} : Except Json.Error A → Except Failure A
  | .ok a => .ok a
  | .error .valueError => .error (.valueError "")
  | .error .recursionError => .error .recursionError

def Job.members (j : Job F) : List (Text × Value F) :=
  [(text "recipient", j.recipient), (text "template", j.template), (text "code", j.code),
    (text "expires_at", .str (isoformat j.expiresAt)), (text "attempts", j.attempts),
    (text "id", j.id)]

/-- `to_bytes` of a job whose id is filled in. -/
def Job.toBytes (py : Interpreter F) (j : Job F) : Except Failure Bytes := do
  let s ← ofJson (dumps py py.depth (.obj j.members))
  .ok (encode s)

def field (members : List (Text × Value F)) (name : String) : Option (Value F) :=
  (members.find? (fun m => m.1 = text name)).map Prod.snd

def expirationOf (py : Interpreter F) (members : List (Text × Value F)) :
    Except Failure DateTime :=
  match field members "expires_at" with
  | none => .error .keyError
  | some (.str s) => match py.fromisoformat s with
    | some t => .ok t
    | none => .error (.valueError "")
  | some _ => .error (.typeError "")

def parameters : List Text :=
  ["recipient", "template", "code", "expires_at", "attempts", "id"].map text

/-- `cls(**members)` with the expiration replaced: an unknown or a missing
argument is a type error, and the last two have defaults. -/
def construct (py : Interpreter F) (members : List (Text × Value F)) (expiresAt : DateTime) :
    Except Failure (Job F) :=
  if members.any (fun m => m.1 ∉ parameters) then .error (.typeError "")
  else match field members "recipient", field members "template", field members "code" with
    | some recipient, some template, some code =>
      Job.make py ⟨recipient, template, code, expiresAt,
        (field members "attempts").getD (.int 0), (field members "id").getD (.str [])⟩
    | _, _, _ => .error (.typeError "")

def fromBytes (py : Interpreter F) (body : Bytes) : Except Failure (Job F) := do
  match ← ofJson (loads py body) with
  | .obj members => do
    let expiresAt ← expirationOf py members
    construct py members expiresAt
  | _ => .error (.typeError "")

/-- What comes back of a job that is written and read. -/
def Job.read (j : Job F) : Job F := { j with expiresAt := j.expiresAt.read }

/-! ## Jobs built from strings -/

def fieldsJob (F : Type) (j : JobFields) : Job F where
  recipient := .str (text j.recipient)
  template := .str (text j.template)
  code := .str (text j.code)
  expiresAt := j.expiresAt
  attempts := .int j.attempts
  id := .str (text j.id)

def fieldsRead (j : JobFields) : JobFields := { j with expiresAt := j.expiresAt.read }

theorem toNat_injective : Function.Injective Char.toNat := by
  intro a b h
  exact Char.ext (UInt32.toNat_inj.mp h)

theorem text_inj (s t : String) : text s = text t ↔ s = t := by
  constructor
  · intro h
    exact String.toList_inj.mp (List.map_injective_iff.mpr toNat_injective h)
  · rintro rfl
    rfl

theorem text_length (s : String) : (text s).length = s.length := by
  rw [text, List.length_map, String.length_toList]

theorem at_mem_text (s : String) : 64 ∈ text s ↔ '@' ∈ s.toList := by
  constructor
  · intro h
    obtain ⟨c, hc, he⟩ := List.mem_map.mp h
    have hat : c = '@' := toNat_injective he
    rwa [hat] at hc
  · exact fun h => List.mem_map.mpr ⟨'@', h, rfl⟩

theorem isDigits_text (s : String) :
    (decide (text s ≠ []) && (text s).all digitPoint) = isDigits s := by
  have hne : text s = [] ↔ s.toList = [] := by simp [text]
  have hall : (text s).all digitPoint = s.toList.all isDigit := by
    simp only [text, List.all_map]
    rfl
  simp [isDigits, hne, hall]

variable (py : Interpreter F)

theorem refuse_decide (p : Prop) [Decidable p] (message : String) :
    refuse (.ok (decide p)) message = if p then .error (.valueError message) else .ok () := by
  by_cases h : p <;> simp [refuse, bind, Except.bind, h]

theorem refuse_ok {bad : Except Failure Bool} {message : String} {u : Unit} :
    refuse bad message = .ok u ↔ bad = .ok false := by
  rcases bad with e | _ | _ <;> simp [refuse, bind, Except.bind]

theorem refuse_bind {A : Type} (p : Prop) [Decidable p] (message : String)
    (f : Unit → Except Failure A) : (refuse (.ok (decide p)) message >>= f) =
      if p then .error (.valueError message) else f () := by
  rw [refuse_decide]
  split <;> rfl

theorem refuse_bind_ok {A : Type} (p : Prop) [Decidable p] (message : String)
    (f : Unit → Except Failure A) (a : A) :
    (refuse (.ok (decide p)) message >>= f) = .ok a ↔ ¬ p ∧ f () = .ok a := by
  rw [refuse_bind]
  split <;> simp [*]

theorem postInit_fieldsJob (j : JobFields) : (fieldsJob F j).postInit py = postInit j := by
  have hr : badRecipient (fieldsJob F j).recipient =
      .ok (decide ('@' ∉ j.recipient.toList ∨ 320 < j.recipient.length)) := by
    simp only [badRecipient, fieldsJob, containsAt, len, bind, Except.bind, text_length,
      at_mem_text]
    by_cases h : '@' ∈ j.recipient.toList <;> simp [h]
  have ht : badTemplate (fieldsJob F j).template =
      .ok (decide (j.template ≠ "verify" ∧ j.template ≠ "reset")) := by
    simp only [badTemplate, fieldsJob, ne_eq, text_inj]
  have hc : badCode (fieldsJob F j).code =
      .ok (decide (j.code.length ≠ 6 ∨ isDigits j.code = false)) := by
    simp only [badCode, fieldsJob, len, bind, Except.bind, text_length, isDigits_text]
    by_cases h : j.code.length = 6 <;> simp [h]
  have ha : less py 0 (fieldsJob F j).attempts = .ok (decide (j.attempts < 0)) := rfl
  rw [Job.postInit, hr, ht, hc, ha, refuse_bind, refuse_bind, refuse_bind, refuse_bind,
    refuse_decide]
  rfl

theorem whole_isoformat (t : DateTime) : Whole (isoformat t) := by
  apply whole_scalar
  intro c hc
  have := isoformat_ascii t c hc
  exact ⟨by omega, Or.inl (by omega)⟩

theorem plain_members (job : Job F) (hr : Plain job.recipient) (ht : Plain job.template)
    (hc : Plain job.code) (ha : Plain job.attempts) (hi : Plain job.id) :
    Plain (.obj job.members) := by
  constructor
  · simp [Job.members, text_inj]
  · exact ⟨whole_text _, hr, whole_text _, ht, whole_text _, hc, whole_text _,
      whole_isoformat _, whole_text _, ha, whole_text _, hi, trivial⟩

theorem postInit_read (job : Job F) : job.read.postInit py = job.postInit py := by
  simp only [Job.postInit, Job.read, DateTime.read_none]

theorem construct_members (job : Job F) (h : job.postInit py = .ok ()) :
    construct py job.members job.expiresAt.read = .ok job.read := by
  have hmake : Job.make py job.read = .ok job.read := by
    simp [Job.make, bind, Except.bind, postInit_read, h]
  simp [construct, Job.members, parameters, field, text_inj]
  exact hmake

theorem toBytes_ok {job : Job F} {body : Bytes} (hb : job.toBytes py = .ok body) :
    ∃ s, dumps py py.depth (.obj job.members) = .ok s ∧ body = encode s := by
  unfold Job.toBytes at hb
  cases hs : dumps py py.depth (.obj job.members) with
  | error e =>
    rw [hs] at hb
    cases e <;> cases hb
  | ok s =>
    rw [hs] at hb
    cases hb
    exact ⟨s, rfl, rfl⟩

/-- Decoding undoes encoding for every job whose other fields survive it. -/
theorem fromBytes_plain (job : Job F) (hp : Plain (.obj job.members))
    (h : job.postInit py = .ok ()) (body : Bytes) (hb : job.toBytes py = .ok body) :
    fromBytes py body = .ok job.read := by
  obtain ⟨s, hs, rfl⟩ := toBytes_ok py hb
  have hl := loads_dumps hp hs
  have he : expirationOf py job.members = .ok job.expiresAt.read := by
    have hf : field job.members "expires_at" = some (.str (isoformat job.expiresAt)) := by
      simp [field, Job.members, text_inj]
    simp only [expirationOf, hf, py.fromisoformat_isoformat]
  simp only [fromBytes, hl, ofJson, bind, Except.bind, he, construct_members py job h]

/-- Decoding undoes encoding for every job built from strings, but for such an offset. -/
theorem fromBytes_toBytes (j : JobFields) (h : postInit j = .ok ()) (body : Bytes)
    (hb : (fieldsJob F j).toBytes py = .ok body) :
    fromBytes py body = .ok (fieldsJob F (fieldsRead j)) := by
  have hp : (fieldsJob F j).postInit py = .ok () := by rw [postInit_fieldsJob, h]
  have hm : Plain (.obj (fieldsJob F j).members) := plain_members _ (whole_text _)
    (whole_text _) (whole_text _) trivial (whole_text _)
  exact fromBytes_plain py _ hm hp body hb

theorem read_expirationOf {members : List (Text × Value F)} {t : DateTime}
    (h : expirationOf py members = .ok t) : t.read = t := by
  unfold expirationOf at h
  split at h
  · cases h
  · split at h
    case h_1 hread =>
      cases h
      exact py.read_fromisoformat _ _ hread
    case h_2 => cases h
  · cases h

theorem expiresAt_construct {members : List (Text × Value F)} {t : DateTime} {job : Job F}
    (h : construct py members t = .ok job) : job.expiresAt = t := by
  have made : ∀ {j : Job F}, Job.make py j = .ok job → job = j := by
    intro j hj
    unfold Job.make at hj
    cases hp : j.postInit py with
    | error e =>
      rw [hp] at hj
      cases hj
    | ok u =>
      rw [hp] at hj
      cases hj
      rfl
  unfold construct at h
  split at h
  · cases h
  · split at h
    · rw [made h]
    · cases h

/-- A decoded job comes back as it is. -/
theorem read_fromBytes {body : Bytes} {job : Job F} (h : fromBytes py body = .ok job) :
    job.read = job := by
  unfold fromBytes at h
  cases hl : loads py.toRuntime body with
  | error e =>
    rw [hl] at h
    cases e <;> cases h
  | ok v =>
    rw [hl] at h
    cases v with
    | obj members =>
      change (expirationOf py members >>= fun t => construct py members t) = _ at h
      cases ht : expirationOf py members with
      | error e =>
        rw [ht] at h
        cases h
      | ok t =>
        rw [ht] at h
        rw [Job.read, expiresAt_construct py h, read_expirationOf py ht, ← expiresAt_construct py h]
    | null | bool | int | float | str | arr => cases h

end Gamely.JobCodec
