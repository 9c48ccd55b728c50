import Gamely.FailedSignup

/-!
# A resend that fails among others

One `_send_code` runs while other calls of `_send_code` are answered between its own
calls. Its cleanup deletes both keys by name, whoever wrote them, so what a failed call
leaves is what the others made only if they had made no code that was still good.
-/

set_option autoImplicit false

namespace Gamely.FailedResend
open Gamely.Calls Gamely.Sequential Gamely.ExpiringStore Gamely.Stores Gamely.EmailJobs
open Gamely.Services Gamely.EmailFilter Gamely.AuthService
open Gamely.CodeLifetime (sentTo)
open Gamely.FailedSignup (undoes performing)

variable (lib : Libraries) (settings : Settings)

/-! ## Other calls meanwhile -/

/-- The calls of `_send_code`, for any pair and code. -/
def Sends : Command → Prop
  | .code (.setCooldown _ ttl) => ttl = 60
  | .code (.setCode _ payload ttl) => (∃ code, payload = ⟨lib.sha256 code, 0⟩) ∧
    ttl = 60*settings.authCodeMinutes
  | .code (.delCooldownAndCode _) => True
  | .randbelow _ => True
  | .utcnow => True
  | .publish _ => True
  | _ => False

/-- What happens between two calls of one `_send_code`: time passes, or a call of another
one is made. -/
inductive Move where
  | elapse (milliseconds : ℕ)
  | call (c : Command) (sends : Sends lib settings c) (x : Choice)

variable {lib settings}

def Move.act (w : World) : Move lib settings → World
  | .elapse milliseconds => passed (.elapse milliseconds) w
  | .call c _ x => ((perform lib c x w).map Prod.snd).getD w

def meanwhile (moves : List (Move lib settings)) (w : World) : World := moves.foldl Move.act w

/-- A call of the send that is watched, after what came before it. Its cleanup does not
fail. -/
def amid (c : Command) (x : List (Move lib settings) × Choice) (w : World) :
    Option (Except Failure (Reply c) × World) :=
  performing lib c x.2 (meanwhile x.1 w)

/-- What the others make of a world before the first `k` calls, these left out. -/
def others (choices : ℕ → List (Move lib settings) × Choice) (k : ℕ) (w : World) : World :=
  (List.range k).foldl (fun w n => meanwhile (choices n).1 w) w

/-- Every call of a `_send_code` is one of the moves. -/
theorem only_sends (email : Email) (purpose : Purpose) :
    Only (Sends lib settings) (sendCode lib settings email purpose) := by
  have hundo : ∀ key, Sends lib settings (.code (.delCooldownAndCode key)) := fun _ => trivial
  apply only_bind
  · exact only_invoke _ rfl
  intro fresh
  split
  · exact only_throw _
  · apply only_bind
    · exact only_map _ _ (only_invoke _ trivial)
    intro code
    apply only_bind
    · exact only_invoke _ trivial
    intro now
    apply only_bind _ _ (only_ofResult _)
    intro expiresAt
    apply only_tryCatch
    · apply only_bind
      · exact only_invoke _ ⟨⟨code, rfl⟩, rfl⟩
      · exact fun _ => only_bind _ _ (only_ofResult _) (fun _ => only_invoke _ trivial)
    · exact fun e => only_bind _ _ (only_invoke _ (hundo _)) (fun _ => only_throw e)

/-! ## What a failed send should leave -/

variable (lib) in
/-- `_consume_code` would take the code. -/
def accepts (w : World) (key : CodeKey) (code : String) : Prop :=
  (runOn (perform lib) (fun _ => {}) 0 (consumeCode lib key.email key.purpose code) w).map
    Prod.fst = some (.ok true)

instance (w : World) (key : CodeKey) (code : String) : Decidable (accepts lib w key code) :=
  inferInstanceAs (Decidable (_ = _))

/-- A job with the code was published for the pair. -/
def Delivered (w : World) (key : CodeKey) (code : String) : Prop :=
  ∃ job ∈ w.published, sentTo key job = true ∧ job.fields.code = code

instance (w : World) (key : CodeKey) (code : String) : Decidable (Delivered w key code) :=
  inferInstanceAs (Decidable (∃ job ∈ w.published, _))

/-- What the others delivered is taken as if the failed call had not been; the code it
drew, if it came to that, is not; and a cooldown that is there is another's. -/
structure Harmless (key : CodeKey) (choices : ℕ → List (Move lib settings) × Choice) (k : ℕ)
    (w w' : World) : Prop where
  kept : ∀ code, Delivered (others choices k w) key code →
    accepts lib (others choices k w) key code → accepts lib w' key code
  unsent : 2 ≤ k → ¬accepts lib w' key (sixDigits (choices 1).2.number)
  uncooled : ∀ e, w'.codes.cooldown key = some e →
    (others choices k w).codes.cooldown key = some e

def waiting : Failure := .badRequest "Please wait before requesting another code."

/-- The cooldown was active, or could not be asked for. -/
def Refused (key : CodeKey) (choices : ℕ → List (Move lib settings) × Choice) (w : World) : Prop :=
  (get (others choices 1 w).now (others choices 1 w).codes.cooldown key).isSome = true ∨
    (choices 0).2.fail = true

variable (lib) in
/-- Under the key is a code that lives, has been tried fewer than four times and was
delivered. -/
def Standing (key : CodeKey) (w : World) : Prop :=
  ∃ p, get w.now w.codes.code key = some p ∧ p.attempts < 4 ∧
    ∃ code, Delivered w key code ∧ p.digest = lib.sha256 code

variable {w w' : World} {key : CodeKey} {k n : ℕ}
  {choices : ℕ → List (Move lib settings) × Choice}

theorem accepts_iff (code : String) : accepts lib w key code ↔
    ∃ p, get w.now w.codes.code key = some p ∧ p.attempts < 4 ∧ p.digest = lib.sha256 code := by
  have hcall : ∀ (c : CodeCall) (n : ℕ) (w : World), runOn (perform lib) (fun _ => {}) n (codes c)
      w = some (.ok (c.perform w.now w.codes).1, { w with codes := (c.perform w.now w.codes).2 },
        n+1) := by
    intro c n w
    rw [codes, runOn_invoke]
    rfl
  unfold accepts consumeCode
  rw [runOn_bind, hcall, Option.bind_some, afterwards]
  cases hget : get w.now w.codes.code key with
  | none => simp [CodeCall.perform, hget, runOn_pure]
  | some p =>
    obtain ⟨digest, attempts⟩ := p
    by_cases hspent : 4 ≤ attempts
    · have hnot : ¬attempts < 4 := by omega
      simp [CodeCall.perform, hget, hspent, hnot, runOn_bind, hcall, afterwards, runOn_pure]
    · have hlt : attempts < 4 := by omega
      by_cases hd : digest = lib.sha256 code
      · simp [CodeCall.perform, hget, hspent, hlt, hd, runOn_bind, hcall, afterwards, runOn_pure]
      · simp [CodeCall.perform, hget, hspent, hd, runOn_bind, hcall, afterwards, runOn_pure]

theorem standing_iff : Standing lib key w ↔
    ∃ code, Delivered w key code ∧ accepts lib w key code := by
  simp only [accepts_iff, Standing]
  constructor
  · rintro ⟨p, hp, ha, code, hd, hdigest⟩
    exact ⟨code, hd, p, hp, ha, hdigest⟩
  · rintro ⟨code, hd, p, hp, ha, hdigest⟩
    exact ⟨p, hp, ha, code, hd, hdigest⟩

/-! ## How a send fails -/

/-- A send that raises has done nothing of its own, or has cleaned both keys up, or has
stopped at a date that cannot be written. -/
inductive Stopped (key : CodeKey) (choices : ℕ → List (Move lib settings) × Choice)
    (w : World) (e : Failure) (w' : World) (k : ℕ) : Prop
  | refused (hk : k = 1) (hw : w' = others choices 1 w) (h : Refused key choices w)
  | cleaned (hk : 2 ≤ k) (hcode : w'.codes.code key = none)
      (hcooldown : w'.codes.cooldown key = none) (h : ¬Refused key choices w)
  | undated (he : e = .overflowError)

theorem amid_undo (n : ℕ) (w : World) : runOn amid choices n
    (codes (.delCooldownAndCode key)) w = some (.ok (), { meanwhile (choices n).1 w with
      codes := ⟨del (meanwhile (choices n).1 w).codes.code key,
        del (meanwhile (choices n).1 w).codes.cooldown key⟩ }, n+1) := by
  rw [codes, runOn_invoke]
  rfl

theorem cleaned_of_handler {e e' : Failure} {n : ℕ} {w₁ : World}
    (h : runOn amid choices n (do
      codes (.delCooldownAndCode key)
      (throw e : Act Unit)) w₁ = some (.error e', w', k)) :
    k = n+1 ∧ w'.codes.code key = none ∧ w'.codes.cooldown key = none := by
  rw [runOn_bind, amid_undo] at h
  cases h
  exact ⟨rfl, del_self _ _, del_self _ _⟩

theorem raised_of_draw {e : Failure}
    (h : runOn amid choices n (sixDigits <$> invoke (Command.randbelow 1000000)) w =
      some (.error e, w', k)) : False := by
  rcases runOn_bind_some h with ⟨e', -, hr⟩ | ⟨number, w₁, k₁, -, hr⟩
  · obtain ⟨hperform, -⟩ := runOn_invoke_some hr
    simp only [amid, performing, perform, Command.isLocal, Bool.true_eq_false, and_false, if_false,
      answer] at hperform
    split at hperform <;> cases hperform
  · cases hr

theorem later_error {now minutes : ℕ} {e : Failure} (h : later now minutes = .error e) :
    e = .overflowError := by
  unfold later at h
  split at h <;> cases h
  rfl

theorem stopped_of_run {email : Email} {purpose : Purpose} {e : Failure}
    (h : runOn amid choices 0 (sendCode lib settings email purpose) w = some (.error e, w', k)) :
    Stopped ⟨email, purpose⟩ choices w e w' k := by
  rcases runOn_bind_some h with ⟨e', he, hcool⟩ | ⟨fresh, w₁, k₁, hcool, hrest⟩
  · obtain ⟨hperform, rfl⟩ := runOn_invoke_some hcool
    rcases perform_cases hperform with ⟨-, hfail, -, rfl⟩ | ⟨-, ha⟩
    · exact .refused rfl rfl (Or.inr (by simpa [undoes] using hfail))
    · cases ha
  · obtain ⟨hperform, rfl⟩ := runOn_invoke_some hcool
    rcases perform_cases hperform with ⟨-, -, hr, -⟩ | ⟨hup, ha⟩
    · cases hr
    · have hfail : (choices 0).2.fail = false := by simpa [undoes, Command.isLocal] using hup
      cases hget : get (others choices 1 w).now (others choices 1 w).codes.cooldown
        ⟨email, purpose⟩ with
      | some u =>
        have hget' : get (meanwhile (choices 0).1 w).now (meanwhile (choices 0).1 w).codes.cooldown
          ⟨email, purpose⟩ = some u := hget
        simp only [answer, CodeCall.perform, hget'] at ha
        cases ha
        cases hrest
        exact .refused rfl rfl (Or.inl (by rw [hget]; rfl))
      | none =>
        have hget' : get (meanwhile (choices 0).1 w).now (meanwhile (choices 0).1 w).codes.cooldown
          ⟨email, purpose⟩ = none := hget
        have hnot : ¬Refused ⟨email, purpose⟩ choices w := by
          rintro (hr | hr)
          · rw [hget] at hr
            cases hr
          · rw [hfail] at hr
            cases hr
        simp only [answer, CodeCall.perform, hget'] at ha
        cases ha
        rw [if_neg (by decide)] at hrest
        rcases runOn_bind_some hrest with ⟨e', -, hdraw⟩ | ⟨code, w₂, k₂, hdraw, hrest⟩
        · exact (raised_of_draw hdraw).elim
        · have hk₂ : 1 ≤ k₂ := runOn_le hdraw
          rcases runOn_bind_some hrest with ⟨e', -, hnow⟩ | ⟨now, w₃, k₃, hnow, hrest⟩
          · obtain ⟨hperform', -⟩ := runOn_invoke_some hnow
            simp only [amid, performing, perform, Command.isLocal, Bool.true_eq_false, and_false,
              if_false, answer] at hperform'
            cases hperform'
          · have hk₃ : k₂ ≤ k₃ := runOn_le hnow
            rw [runOn_bind, runOn_ofResult] at hrest
            cases hlater : later now settings.authCodeMinutes with
            | error e' =>
              rw [hlater] at hrest
              cases hrest
              exact .undated (later_error hlater)
            | ok t =>
              rw [hlater, Option.bind_some, afterwards, runOn_tryCatch] at hrest
              obtain ⟨⟨r, w₄, k₄⟩, hdeliver, hrec⟩ := Option.bind_eq_some_iff.mp hrest
              have hk₄ : k₃ ≤ k₄ := runOn_le hdeliver
              cases r with
              | ok _ => cases hrec
              | error e' =>
                obtain ⟨rfl, hcode, hcooldown⟩ := cleaned_of_handler hrec
                exact .cleaned (by omega) hcode hcooldown hnot

/-- Whatever the keys hold and whatever other sends do meanwhile, a send that raises is
harmless just when it was refused its cooldown or no delivered code stands under the key
when it cleans up. -/
theorem harmless_iff (lib : Libraries) (settings : Settings) (email : Email) (purpose : Purpose)
    (choices : ℕ → List (Move lib settings) × Choice) (w w' : World) (e : Failure) (k : ℕ)
    (hrun : runOn amid choices 0 (sendCode lib settings email purpose) w =
      some (.error e, w', k)) (hdate : e ≠ .overflowError) :
    Harmless ⟨email, purpose⟩ choices k w w' ↔
      Refused ⟨email, purpose⟩ choices w ∨
        ¬Standing lib ⟨email, purpose⟩ (others choices k w) := by
  cases stopped_of_run hrun with
  | undated he => exact absurd he hdate
  | refused hk hw h =>
    subst hk
    subst hw
    apply iff_of_true _ (Or.inl h)
    exact ⟨fun code _ ha => ha, fun hk => absurd hk (by decide), fun e he => he⟩
  | cleaned hk hcode hcooldown h =>
    have hnone : ∀ code, ¬accepts lib w' ⟨email, purpose⟩ code := by
      intro code ha
      obtain ⟨p, hp, -⟩ := (accepts_iff code).mp ha
      obtain ⟨entry, hentry, -⟩ := (get_eq_some _ _ _ _).mp hp
      rw [hcode] at hentry
      cases hentry
    constructor
    · intro hharmless
      right
      intro hstanding
      obtain ⟨code, hdelivered, haccepted⟩ := standing_iff.mp hstanding
      exact hnone code (hharmless.kept code hdelivered haccepted)
    · intro hspared
      have hstanding := hspared.resolve_left h
      constructor
      · intro code hdelivered haccepted
        exact absurd (standing_iff.mpr ⟨code, hdelivered, haccepted⟩) hstanding
      · exact fun _ => hnone _
      · intro entry hentry
        rw [hcooldown] at hentry
        cases hentry

/-! ## Sends whose publish fails -/

abbrev Plain := Move Requests.plainLibraries Requests.plainSettings

def sendTo : Act Unit :=
  sendCode Requests.plainLibraries Requests.plainSettings "a@b" .verify

/-- A code was sent, and a minute and a second have passed. -/
def afterOne : World :=
  (runOn (perform Requests.plainLibraries) (fun _ => { number := 7 }) 0 sendTo
    (World.fresh 0 Requests.oneAccount)).elim (World.fresh 0 Requests.oneAccount)
    (fun r => passed (.elapse 61000) r.2.1)

/-- Nobody else sends, and the fifth call, the publish, fails. -/
def publishFails (n : ℕ) : List Plain × Choice := ([], { number := 1, fail := n = 4 })

theorem raised_of_publishFails {w : World}
    (h : (runOn amid publishFails 0 sendTo w).map (fun r => (r.1, r.2.2)) =
      some (.error .external, 6)) :
    ∃ w', runOn amid publishFails 0 sendTo w = some (.error .external, w', 6) := by
  obtain ⟨⟨r, w', k⟩, hr, he⟩ := Option.map_eq_some_iff.mp h
  cases he
  exact ⟨w', hr⟩

/-- A first send that fails leaves nothing. -/
theorem harmless_first : ∃ w', runOn amid publishFails 0 sendTo
    (World.fresh 0 Requests.oneAccount) = some (.error .external, w', 6) ∧
      Harmless ⟨"a@b", .verify⟩ publishFails 6 (World.fresh 0 Requests.oneAccount) w' := by
  obtain ⟨w', hrun⟩ := raised_of_publishFails (w := World.fresh 0 Requests.oneAccount)
    (by decide +kernel)
  refine ⟨w', hrun, (harmless_iff _ _ _ _ _ _ _ _ _ hrun (by decide)).mpr (Or.inr ?_)⟩
  rintro ⟨p, hp, -⟩
  have hnone : get (others publishFails 6 (World.fresh 0 Requests.oneAccount)).now
      (others publishFails 6 (World.fresh 0 Requests.oneAccount)).codes.code
      ⟨"a@b", .verify⟩ = none := by decide +kernel
  rw [hnone] at hp
  cases hp

/-- A resend that fails takes the code away that was delivered a minute ago. -/
theorem delivered_code_lost :
    ¬∀ (lib : Libraries) (settings : Settings) (email : Email) (purpose : Purpose)
      (choices : ℕ → List (Move lib settings) × Choice) (w w' : World) (e : Failure) (k : ℕ),
      runOn amid choices 0 (sendCode lib settings email purpose) w = some (.error e, w', k) →
      e = waiting ∨ e = .external → Harmless ⟨email, purpose⟩ choices k w w' := by
  intro h
  obtain ⟨w', hrun⟩ := raised_of_publishFails (w := afterOne) (by decide +kernel)
  have hharmless := h _ _ _ _ _ _ _ _ _ hrun (Or.inr rfl)
  have hgood : Delivered (others publishFails 6 afterOne) ⟨"a@b", .verify⟩ "000007" ∧
      accepts Requests.plainLibraries (others publishFails 6 afterOne) ⟨"a@b", .verify⟩ "000007" :=
    by decide +kernel
  have hlost : (runOn amid publishFails 0 sendTo afterOne).map (fun r =>
      decide (accepts Requests.plainLibraries r.2.1 ⟨"a@b", .verify⟩ "000007")) = some false := by
    decide +kernel
  rw [hrun, Option.map_some, Option.some.injEq, decide_eq_false_iff_not] at hlost
  exact hlost (hharmless.kept "000007" hgood.1 hgood.2)

end Gamely.FailedResend
