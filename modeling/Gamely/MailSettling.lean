import Gamely.MailContract

/-!
# How a delivery is settled

One handler is run against every outcome of its calls. It settles its delivery
once unless decoding raises an exception outside the three it expects: a body
nested too deep, or a job that is in order up to a code of six items.
-/

set_option autoImplicit false

namespace Gamely.MailSettling
open Gamely.Calls Gamely.Json Gamely.EmailJobs Gamely.DateTimes Gamely.JobCodec
open Gamely.MailWorker Gamely.MailContract

variable {F : Type} (py : Interpreter F)

/-- What one handler has done; `assumed` until a call fails that never does. -/
structure Ledger where
  acks : ℕ := 0
  rejects : ℕ := 0
  sends : ℕ := 0
  publishes : ℕ := 0
  assumed : Bool := true

def entered : Ledger → (c : Command F) → Except Failure (Reply c) → Ledger
  | l, .ack _, .ok _ => { l with acks := l.acks+1 }
  | l, .reject _, .ok _ => { l with rejects := l.rejects+1 }
  | l, .send .., _ => { l with sends := l.sends+1 }
  | l, .publish .., _ => { l with publishes := l.publishes+1 }
  | l, c, .error _ => { l with assumed := l.assumed && !isSure c }
  | l, _, .ok _ => l

def ledger : Protocol (Command F) Reply Failure Ledger := ⟨fun _ _ => True, entered⟩

/-- The handler has returned after settling once, and has only rejected what it could
not decode. -/
def Settles (body : Bytes) (l : Ledger) (r : Except Failure Unit) : Prop :=
  l.assumed = true → r = .ok () ∧ l.acks+l.rejects = 1 ∧
    ((∃ e, fromBytes py body = .error e) → l.rejects = 1 ∧ l.sends = 0 ∧ l.publishes = 0)

/-- Whatever its calls are answered. -/
def SettledOnce (task : ℕ) (body : Bytes) : Prop :=
  Keeps ledger (handleMessage py task body) {} (Settles py body)

/-! ## Bodies that raise an unexpected exception -/

/-- Decoding reads such a code past the length check and fails in `isdigit`. -/
structure SixItems (members : List (Text × Value F)) : Prop where
  expiration : ∃ t, expirationOf py members = .ok t
  known : members.any (fun m => m.1 ∉ parameters) = false
  recipient : ∃ v, field members "recipient" = some v ∧ badRecipient v = .ok false
  template : ∃ v, field members "template" = some v ∧ badTemplate v = .ok false
  code : ∃ v, field members "code" = some v ∧ len v = .ok 6 ∧ ∀ s, v ≠ .str s

inductive Escapes (body : Bytes) : Prop where
  | nested (h : loads py.toRuntime body = .error .recursionError) : Escapes body
  | sixItems (members : List (Text × Value F)) (h : loads py.toRuntime body = .ok (.obj members))
      (six : SixItems py members) : Escapes body

/-- Every error of a computation is one the handler expects. -/
def Expected {A : Type} (r : Except Failure A) : Prop := ∀ e, r = .error e → isDecodeError e = true

section
variable {A B : Type} {v : Value F} {members : List (Text × Value F)}

theorem expected_ok (a : A) : Expected (.ok a : Except Failure A) := by
  rintro e ⟨⟩

theorem expected_value (message : String) :
    Expected (.error (.valueError message) : Except Failure A) := by
  rintro e ⟨⟩
  rfl

theorem expected_type : Expected (.error (.typeError "") : Except Failure A) := by
  rintro e ⟨⟩
  rfl

theorem expected_containsAt (v : Value F) : Expected (containsAt v) := by
  cases v with
  | str | arr | obj => exact expected_ok _
  | null | bool | int | float => exact expected_type

theorem expected_len (v : Value F) : Expected (len v) := by
  cases v with
  | str | arr | obj => exact expected_ok _
  | null | bool | int | float => exact expected_type

theorem expected_less (n : ℤ) (v : Value F) : Expected (less py n v) := by
  cases v with
  | bool | int | float => exact expected_ok _
  | null | str | arr | obj => exact expected_type

theorem expected_bind {r : Except Failure A} {f : A → Except Failure B} (hr : Expected r)
    (hf : ∀ a, r = .ok a → Expected (f a)) : Expected (r >>= f) := by
  intro e he
  cases r with
  | error e' =>
    cases he
    exact hr _ rfl
  | ok a => exact hf a rfl e he

theorem expected_badRecipient (v : Value F) : Expected (badRecipient v) := by
  apply expected_bind (expected_containsAt v)
  intro present _
  split
  · exact expected_ok _
  · exact expected_bind (expected_len v) (fun n _ => expected_ok _)

theorem expected_badTemplate (v : Value F) : Expected (badTemplate v) := by
  cases v with
  | arr | obj => exact expected_type
  | null | bool | int | float | str => exact expected_ok _

theorem expected_expiration (members : List (Text × Value F)) :
    Expected (expirationOf py members) := by
  unfold expirationOf
  split
  · rintro e ⟨⟩
    rfl
  · split
    · exact expected_ok _
    · exact expected_value _
  · exact expected_type

theorem expected_refuse {bad : Except Failure Bool} (h : Expected bad) (message : String) :
    Expected (refuse bad message) := by
  apply expected_bind h
  intro b _
  cases b with
  | true => exact expected_value _
  | false => exact expected_ok _

/-- Only a code of six items that is no string fails in an unexpected way. -/
theorem badCode_error {e : Failure} (h : badCode v = .error e) (he : isDecodeError e = false) :
    len v = .ok 6 ∧ ∀ s, v ≠ .str s := by
  unfold badCode at h
  cases hl : len v with
  | error e' =>
    rw [hl] at h
    cases h
    rw [expected_len v _ hl] at he
    cases he
  | ok n =>
    rw [hl] at h
    change (if n ≠ 6 then _ else _) = _ at h
    split at h
    case isTrue => cases h
    case isFalse hn =>
      have hsix : n = 6 := not_not.mp hn
      subst hsix
      refine ⟨rfl, ?_⟩
      rintro s rfl
      cases h

theorem badCode_of_six (hl : len v = .ok 6) (hs : ∀ s, v ≠ .str s) :
    badCode v = .error .attributeError := by
  unfold badCode
  rw [hl]
  cases v with
  | str s => exact absurd rfl (hs s)
  | arr | obj => rfl
  | null | bool | int | float => cases hl

variable {py} {e : Failure}

theorem error_bind {r : Except Failure A} {f : A → Except Failure B}
    (h : (r >>= f) = .error e) : r = .error e ∨ ∃ a, r = .ok a ∧ f a = .error e := by
  cases r with
  | error e' =>
    left
    cases h
    rfl
  | ok a => exact Or.inr ⟨a, rfl, h⟩

theorem unexpected {r : Except Failure A} (hr : Expected r) (h : r = .error e)
    (he : isDecodeError e = false) : False := by
  rw [hr e h] at he
  cases he

theorem postInit_error {j : Job F} (h : j.postInit py = .error e) (he : isDecodeError e = false) :
    badRecipient j.recipient = .ok false ∧ badTemplate j.template = .ok false ∧
      len j.code = .ok 6 ∧ ∀ s, j.code ≠ .str s := by
  have hr := expected_refuse (expected_badRecipient j.recipient) "invalid email recipient"
  have ht := expected_refuse (expected_badTemplate j.template) "invalid email template"
  have hx := expected_refuse (expected_ok (j.expiresAt.utcoffset = none : Bool))
    "email job expiration must include a timezone"
  have ha := expected_refuse (expected_less py 0 j.attempts) "email job attempts cannot be negative"
  rcases error_bind h with h | ⟨u, hrecipient, h⟩
  · exact (unexpected hr h he).elim
  · rcases error_bind h with h | ⟨u, htemplate, h⟩
    · exact (unexpected ht h he).elim
    · rcases error_bind h with h | ⟨u, -, h⟩
      · rcases error_bind h with h | ⟨b, hb, h⟩
        · exact ⟨refuse_ok.mp hrecipient, refuse_ok.mp htemplate, badCode_error h he⟩
        · exact (unexpected (expected_refuse (expected_ok b) _) h he).elim
      · rcases error_bind h with h | ⟨u, -, h⟩
        · exact (unexpected hx h he).elim
        · exact (unexpected ha h he).elim

theorem construct_error (t : DateTime) :
    (∃ e, construct py members t = .error e ∧ isDecodeError e = false) ↔
      members.any (fun m => m.1 ∉ parameters) = false ∧
      (∃ v, field members "recipient" = some v ∧ badRecipient v = .ok false) ∧
      (∃ v, field members "template" = some v ∧ badTemplate v = .ok false) ∧
      ∃ v, field members "code" = some v ∧ len v = .ok 6 ∧ ∀ s, v ≠ .str s := by
  constructor
  · rintro ⟨e, h, he⟩
    unfold construct at h
    split at h
    case isTrue =>
      cases h
      cases he
    case isFalse hknown =>
      split at h
      case h_2 =>
        cases h
        cases he
      case h_1 recipient template code hr ht hc =>
        rcases error_bind h with h | ⟨u, -, h⟩
        · obtain ⟨hrecipient, htemplate, hsix⟩ := postInit_error h he
          exact ⟨by simpa using hknown, ⟨recipient, hr, hrecipient⟩, ⟨template, ht, htemplate⟩,
            code, hc, hsix⟩
        · cases h
  · rintro ⟨hknown, ⟨recipient, hr, hrecipient⟩, ⟨template, ht, htemplate⟩, code, hc, hl, hs⟩
    refine ⟨.attributeError, ?_, rfl⟩
    have hcode := badCode_of_six hl hs
    simp only [construct, hknown, hr, ht, hc, Bool.false_eq_true, if_false, Job.make,
      Job.postInit, hrecipient, htemplate, hcode]
    rfl

/-- Decoding raises an unexpected exception on just these bodies. -/
theorem escapes_iff (body : Bytes) :
    Escapes py body ↔ ∃ e, fromBytes py body = .error e ∧ isDecodeError e = false := by
  constructor
  · rintro (h | ⟨members, h, ⟨t, ht⟩, hknown, hrecipient, htemplate, hcode⟩)
    · refine ⟨.recursionError, ?_, rfl⟩
      rw [fromBytes, h]
      rfl
    · obtain ⟨e, he, hx⟩ :=
        (@construct_error F py members t).mpr ⟨hknown, hrecipient, htemplate, hcode⟩
      refine ⟨e, ?_, hx⟩
      rw [fromBytes, h, ← he]
      change (expirationOf py members >>= fun t => construct py members t) = _
      rw [ht]
      rfl
  · rintro ⟨e, h, he⟩
    cases hl : loads py.toRuntime body with
    | error e' =>
      rw [fromBytes, hl] at h
      cases e' with
      | valueError =>
        cases h
        cases he
      | recursionError => exact .nested hl
    | ok v =>
      rw [fromBytes, hl] at h
      cases v with
      | obj members =>
        change (expirationOf py members >>= fun t => construct py members t) = _ at h
        rcases error_bind h with h | ⟨t, ht, h⟩
        · exact (unexpected (expected_expiration py members) h he).elim
        · obtain ⟨hknown, hrecipient, htemplate, hcode⟩ := (construct_error t).mp ⟨e, h, he⟩
          exact .sixItems members hl ⟨⟨t, ht⟩, hknown, hrecipient, htemplate, hcode⟩
      | null | bool | int | float | str | arr =>
        cases h
        cases he

end

/-! ## Settling -/

/-- Nothing is settled yet, as far as no call failed that never does. -/
def Open (l : Ledger) : Prop := l.assumed = true → l.acks+l.rejects = 0

section
variable {py} {task : ℕ} {body : Bytes} {l : Ledger}

theorem settles_broken (h : l.assumed = false) (r : Except Failure Unit) : Settles py body l r := by
  intro ha
  rw [h] at ha
  cases ha

theorem keeps_ack {job : Job F} (decoded : fromBytes py body = .ok job) (hl : Open l) :
    Keeps ledger (invoke (Command.ack (F := F) task)) l (Settles py body) := by
  rw [keeps_invoke]
  constructor
  · trivial
  · intro reply
    cases reply with
    | error e => exact settles_broken (Bool.and_false _) _
    | ok u =>
      intro ha
      have hopen := hl ha
      refine ⟨rfl, ?_, ?_⟩
      · show l.acks+1+l.rejects = 1
        omega
      · rintro ⟨e, he⟩
        rw [decoded] at he
        cases he

theorem keeps_reject (unsent : (∃ e, fromBytes py body = .error e) →
      l.sends = 0 ∧ l.publishes = 0 ∧ l.rejects = 0) (hl : Open l) :
    Keeps ledger (invoke (Command.reject (F := F) task)) l (Settles py body) := by
  rw [keeps_invoke]
  constructor
  · trivial
  · intro reply
    cases reply with
    | error e => exact settles_broken (Bool.and_false _) _
    | ok u =>
      intro ha
      have hopen := hl ha
      refine ⟨rfl, ?_, ?_⟩
      · show l.acks+(l.rejects+1) = 1
        omega
      · intro he
        obtain ⟨hs, hp, hr⟩ := unsent he
        refine ⟨?_, hs, hp⟩
        show l.rejects+1 = 1
        omega

variable (py) in
/-- The delivery is settled, or it is open and an error asks for its rejection. -/
def Republished (body : Bytes) (l : Ledger) : Except Failure Unit → Prop
  | .ok _ => Settles py body l (.ok ())
  | .error _ => Open l

theorem keeps_encodeJob (job : Job F) (hl : Open l)
    {after : Ledger → Except Failure Bytes → Prop} (h : ∀ l r, Open l → after l r) :
    Keeps ledger (encodeJob py job) l after := by
  unfold encodeJob
  by_cases ht : truthy py job.id = true
  · rw [if_pos ht, keeps_bind, keeps_pure]
    exact (keeps_ofResult _ _ _).mpr (h _ _ hl)
  · rw [if_neg ht, keeps_bind, keeps_map, keeps_invoke]
    constructor
    · trivial
    · intro reply
      cases reply with
      | ok u => exact (keeps_ofResult _ _ _).mpr (h _ _ hl)
      | error e =>
        apply h
        intro ha
        exact absurd ha (by simp [ledger, entered, isSure])

theorem keeps_hop {job : Job F} (decoded : fromBytes py body = .ok job) (hl : Open l)
    (key : String) (copy : Bytes) :
    Keeps ledger (do
      invoke (Command.publish (F := F) task key copy)
      invoke (Command.ack (F := F) task)) l (Republished py body) := by
  rw [keeps_bind, keeps_invoke]
  constructor
  · trivial
  · intro reply
    cases reply with
    | error e => exact hl
    | ok u =>
      have told : Open (entered l (.publish task key copy) (.ok u)) := hl
      refine keeps_mono _ _ ?_ (keeps_ack decoded told)
      intro l r hr
      cases r with
      | ok u => exact hr
      | error e =>
        intro ha
        cases (hr ha).1

theorem keeps_republish {job : Job F} (decoded : fromBytes py body = .ok job) (hl : Open l) :
    Keeps ledger (republish py task body job) l (Republished py body) := by
  unfold republish
  rw [keeps_bind, keeps_ofResult]
  cases atLeast py retryDelays.length job.attempts with
  | error e => exact hl
  | ok spent =>
    cases spent with
    | true => exact keeps_hop decoded hl "dead" body
    | false =>
      simp only [Bool.false_eq_true, if_false]
      rw [keeps_bind, keeps_ofResult]
      cases increment py job.attempts with
      | error e => exact hl
      | ok attempts =>
        dsimp only
        rw [keeps_bind, keeps_ofResult]
        cases Job.make py { job with attempts := attempts } with
        | error e => exact hl
        | ok retry =>
          dsimp only
          rw [keeps_bind]
          apply keeps_encodeJob retry hl
          intro l r hl
          cases r with
          | error e => exact hl
          | ok copy =>
            dsimp only
            rw [keeps_bind, keeps_ofResult]
            cases item retryDelays job.attempts with
            | error e => exact hl
            | ok delay => exact keeps_hop decoded hl s!"retry.{delay}" copy

theorem keeps_decoded {job : Job F} (decoded : fromBytes py body = .ok job) :
    SettledOnce py task body := by
  have start : Open {} := fun _ => rfl
  have sure : ∀ {l : Ledger}, (∃ e, fromBytes py body = .error e) →
      l.sends = 0 ∧ l.publishes = 0 ∧ l.rejects = 0 := by
    rintro l ⟨e, he⟩
    rw [decoded] at he
    cases he
  unfold SettledOnce handleMessage
  rw [decoded]
  dsimp only
  rw [keeps_bind, keeps_invoke]
  constructor
  · trivial
  · intro reply
    cases reply with
    | error e => exact settles_broken rfl _
    | ok now =>
      dsimp only
      split
      · exact keeps_ack decoded start
      · rw [keeps_bind, attempt, keeps_tryCatch, keeps_bind, keeps_invoke]
        constructor
        · trivial
        · intro reply
          cases reply with
          | ok u => exact keeps_ack decoded start
          | error e =>
            have asked : Open (entered {} (.send task job) (.error e)) := fun _ => rfl
            have other : Keeps ledger (tryCatchThe Failure (republish py task body job)
                (fun _ => invoke (Command.reject (F := F) task)))
                (entered {} (.send task job) (.error e)) (Settles py body) := by
              rw [keeps_tryCatch]
              apply keeps_mono _ _ _ (keeps_republish decoded asked)
              intro l r hr
              cases r with
              | ok u => exact hr
              | error e => exact keeps_reject sure hr
            cases e with
            | recipientRefused => exact keeps_reject sure asked
            | _ => exact other

theorem handle_undecoded {e : Failure} (hd : fromBytes py body = .error e) :
    handleMessage py task body =
      if isDecodeError e = true then invoke (Command.reject (F := F) task) else throw e := by
  rw [handleMessage, hd]

theorem unsettled_of_error {e : Failure} (hd : fromBytes py body = .error e)
    (he : isDecodeError e = false) : ¬SettledOnce py task body := by
  intro h
  rw [SettledOnce, handle_undecoded hd, he] at h
  cases (h rfl).1

/-- Every delivery is settled once, whatever the outcomes of its calls, except that of a
body on which decoding raises an exception the handler does not expect. -/
theorem settled_once_iff (task : ℕ) (body : Bytes) :
    SettledOnce py task body ↔ ¬Escapes py body := by
  rw [escapes_iff]
  cases hd : fromBytes py body with
  | ok job =>
    constructor
    · rintro _ ⟨e, he, -⟩
      cases he
    · exact fun _ => keeps_decoded hd
  | error e =>
    cases he : isDecodeError e with
    | true =>
      constructor
      · rintro _ ⟨e', h, he'⟩
        cases h
        rw [he] at he'
        cases he'
      · intro _
        rw [SettledOnce, handle_undecoded hd, if_pos he]
        exact keeps_reject (fun _ => ⟨rfl, rfl, rfl⟩) (fun _ => rfl)
    | false =>
      constructor
      · exact fun h => absurd h (unsettled_of_error hd he)
      · exact fun h => absurd ⟨e, rfl, he⟩ h

end

/-- A body that is in order but for its code, an array of six numbers. -/
def sixNumbers : Bytes := encode (text ("\x7b\"recipient\": \"a@b\", \"template\": \"verify\", " ++
  "\"code\": [0, 0, 0, 0, 0, 0], \"expires_at\": \"2030-01-01T00:00:00+00:00\"\x7d"))

def errorOf {A : Type} : Except Failure A → Option Failure
  | .ok _ => none
  | .error e => some e

theorem six_numbers_unsettled : ¬SettledOnce plainInterpreter 0 sixNumbers := by
  have h : errorOf (fromBytes plainInterpreter sixNumbers) = some .attributeError := by
    decide +kernel
  cases hd : fromBytes plainInterpreter sixNumbers with
  | ok job =>
    rw [hd] at h
    cases h
  | error e =>
    rw [hd] at h
    cases h
    exact unsettled_of_error hd rfl

end Gamely.MailSettling
