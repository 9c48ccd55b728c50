import Gamely.CodeLifetime
import Mathlib.Data.List.Forall2
import Mathlib.Data.Nat.Digits.Defs

/-!
# Signup without its filter

What a signup leaves behind for everyone else is a function of the accounts, the
codes, the broker and its own random draws. The filter is no argument of it: a miss
that skips the lookup of a taken address is made good by the unique index.
-/

set_option autoImplicit false

namespace Gamely.SignupOutcome
open Gamely.Calls Gamely.Sequential Gamely.ExpiringStore Gamely.Stores Gamely.EmailJobs
open Gamely.CodeLifetime (cooled coded)
open Gamely.DateTimes Gamely.Services Gamely.TokenService Gamely.EmailFilter Gamely.AuthService

variable (lib : Libraries) (settings : Settings)

/-- What a signup draws: the id of the account, the salt of its hash and the number of
its code. -/
structure Draws where
  id : UserId
  salt : String
  number : ℕ
  deriving DecidableEq, Repr

/-- The draws are made as given, the broker is up or down and no other call fails, but
for those of the filter, which may do anything. -/
def settled (d : Draws) (up : Bool) : Command → Choice → Choice
  | .uuid4, _ => { name := d.id }
  | .hash _, _ => { name := d.salt }
  | .randbelow _, _ => { number := d.number }
  | .publish _, _ => { fail := !up }
  | .filter _, x => x
  | _, _ => {}

def performing (d : Draws) (up : Bool) (c : Command) (x : Choice) (w : World) :
    Option (Except Failure (Reply c) × World) :=
  perform lib c (settled d up c x) w

/-! ## The outcome -/

/-- What other requests and the owner of the address see of the world. -/
structure Seen where
  database : Database
  codes : CodeStore
  published : List EmailJob

def seen (w : World) : Seen := ⟨w.database, w.codes, w.published⟩

def verificationKey (address : Email) : CodeKey := ⟨address, .verify⟩

def uncoded (address : Email) (s : CodeStore) : CodeStore :=
  ⟨del s.code (verificationKey address), del s.cooldown (verificationKey address)⟩

def job (d : Draws) (address : Email) (expiresAt : DateTime) : JobFields :=
  { recipient := address, template := "verify", code := sixDigits d.number, expiresAt := expiresAt }

/-- Sending the code of the address. -/
def sent (d : Draws) (up : Bool) (now : ℕ) (address : Email) (s : Seen) :
    Except Failure Unit × Seen :=
  match get now s.codes.cooldown (verificationKey address) with
  | some _ => (.error (.badRequest "Please wait before requesting another code."), s)
  | none => match later now settings.authCodeMinutes with
    | .error e => (.error e, { s with codes := cooled now (verificationKey address) s.codes })
    | .ok expiresAt =>
      let codes := coded lib settings now (verificationKey address) d.number
        (cooled now (verificationKey address) s.codes)
      match EmailJob.make (job d address expiresAt) with
      | .error e => (.error e, { s with codes := uncoded address codes })
      | .ok job =>
        if up then (.ok (), { s with codes := codes, published := s.published ++ [job] })
        else (.error .external, { s with codes := uncoded address codes })

def taken (db : Database) (address : Email) : Bool := db.users.any (fun u => u.email = address)

def account (d : Draws) (address : Email) (password : String) : User :=
  ⟨d.id, address, some (lib.hash password d.salt), none⟩

def registered (d : Draws) (address : Email) (password : String) (s : Seen) : Seen :=
  { s with database := { s.database with
      users := s.database.users ++ [account lib d address password] } }

def outcome (d : Draws) (up : Bool) (now : ℕ) (email password : String) (s : Seen) :
    Except Failure Unit × Seen :=
  match normalizeEmail lib email, checkPassword password with
  | .error e, _ => (.error e, s)
  | .ok _, .error e => (.error e, s)
  | .ok address, .ok _ =>
    if taken s.database address then
      (.error (.conflict "An account already exists for this email address."), s)
    else match sent lib settings d up now address s with
      | (.ok _, s') => (.ok (), registered lib d address password s')
      | (.error e, s') => (.error e, s')

/-! ## The filter is not seen -/

variable {lib settings} {d : Draws} {up : Bool} {w : World} {A : Type}

/-- Only the filter may differ. -/
def Like (w w' : World) : Prop := seen w' = seen w ∧ w'.now = w.now ∧ w'.drawn = w.drawn

theorem like_refl (w : World) : Like w w := ⟨rfl, rfl, rfl⟩

theorem like_trans {w w' w'' : World} (h : Like w w') (h' : Like w' w'') : Like w w'' :=
  ⟨h'.1.trans h.1, h'.2.1.trans h.2.1, h'.2.2.trans h.2.2⟩

variable (lib d up) in
/-- A run with these draws. -/
abbrev Ends (p : Act A) (w : World) (post : Except Failure A → World → Prop) : Prop :=
  Alone (performing lib d up) (fun _ => True) p w post

theorem ends_cuckoo (c : FilterCall) : Ends lib d up (cuckoo c) w (fun _ w' => Like w w') := by
  apply alone_invoke
  · exact ⟨{}, (.ok (c.perform lib.filterDefaults w.now false [] w.filter).1, _), trivial, rfl⟩
  · intro x reply w' _ h
    rcases perform_cases h with ⟨-, -, -, rfl⟩ | ⟨-, h⟩
    · exact like_refl _
    · cases h
      exact ⟨rfl, rfl, rfl⟩

theorem ends_mightExist (f : FilterSettings) (email : Email) :
    Ends lib d up (mightExist f email) w (fun r w' => Like w w' ∧ ∃ hit, r = .ok hit) := by
  unfold mightExist
  split
  · exact alone_pure _ ⟨like_refl w, true, rfl⟩
  · apply alone_tryCatch
    apply alone_bind
    apply alone_bind
    apply alone_mono _ (ends_cuckoo _)
    intro r w₁ h₁
    cases r with
    | error e => exact alone_pure _ ⟨h₁, true, rfl⟩
    | ok marker =>
      apply alone_bind
      apply alone_mono _ (ends_cuckoo _)
      intro r w₂ h₂
      cases r with
      | error e => exact alone_pure _ ⟨like_trans h₁ h₂, true, rfl⟩
      | ok hit => exact alone_pure _ (alone_pure _ ⟨like_trans h₁ h₂, _, rfl⟩)

theorem ends_remember (f : FilterSettings) (email : Email) :
    Ends lib d up (remember f email) w (fun r w' => Like w w' ∧ r = .ok ()) := by
  have withdrawn : ∀ w₁, Like w w₁ →
      Ends lib d up withdrawTrust w₁ (fun r w' => Like w w' ∧ r = .ok ()) := by
    intro w₁ h₁
    apply alone_tryCatch
    apply alone_mono _ (ends_cuckoo _)
    intro r w₂ h₂
    cases r with
    | error e => exact alone_pure _ ⟨like_trans h₁ h₂, rfl⟩
    | ok _ => exact ⟨like_trans h₁ h₂, rfl⟩
  unfold remember
  split
  · exact alone_pure _ ⟨like_refl w, rfl⟩
  · apply alone_tryCatch
    apply alone_bind
    apply alone_bind
    apply alone_bind
    apply alone_mono _ (ends_cuckoo _)
    intro r w₁ h₁
    cases r with
    | error e => exact withdrawn w₁ h₁
    | ok replies => exact alone_pure _ (alone_pure _ (alone_pure _ ⟨h₁, rfl⟩))

/-! ## The other calls -/

/-! ## Sending the code -/

theorem ends_deliverCode (address : Email) (expiresAt : DateTime) :
    Ends lib d up
      (deliverCode lib settings (verificationKey address) (sixDigits d.number) expiresAt) w
      (fun r w' => w'.database = w.database ∧
        w'.codes = coded lib settings w.now (verificationKey address) d.number w.codes ∧
        match EmailJob.make (job d address expiresAt) with
        | .error e => r = .error e ∧ w'.published = w.published
        | .ok job => if up then r = .ok () ∧ w'.published = w.published ++ [job]
          else r = .error .external ∧ w'.published = w.published) := by
  apply alone_bind
  apply alone_settled {} (fun _ => rfl)
  apply alone_bind
  apply alone_ofResult
  have hjob : EmailJob.make ⟨(verificationKey address).email,
      (verificationKey address).purpose.text, sixDigits d.number, expiresAt, 0, ""⟩ =
      EmailJob.make (job d address expiresAt) := rfl
  rw [hjob]
  cases EmailJob.make (job d address expiresAt) with
  | error e => exact ⟨rfl, rfl, rfl, rfl⟩
  | ok job =>
    cases up with
    | true => exact alone_settled {} (fun _ => rfl) ⟨rfl, rfl, rfl, rfl⟩
    | false => exact alone_settled {} (fun _ => rfl) ⟨rfl, rfl, rfl, rfl⟩

theorem ends_codes (c : CodeCall) {post : Except Failure c.Reply → World → Prop}
    (h : post (.ok (c.perform w.now w.codes).1) { w with codes := (c.perform w.now w.codes).2 }) :
    Ends lib d up (codes c) w post :=
  alone_settled {} (fun _ => rfl) h

theorem ends_randbelow (hn : d.number < 1000000) {post : Except Failure ℕ → World → Prop}
    (h : post (.ok d.number) w) : Ends lib d up (invoke (Command.randbelow 1000000)) w post := by
  apply alone_settled {} _ h
  intro x
  simp [performing, settled, perform, answer, hn]

theorem ends_sendCode (hn : d.number < 1000000) (address : Email) :
    Ends lib d up (sendCode lib settings address .verify) w
      (fun r w' => (r, seen w') = sent lib settings d up w.now address (seen w)) := by
  unfold sent
  apply alone_bind
  apply ends_codes
  cases hg : get w.now w.codes.cooldown (verificationKey address) with
  | some _ =>
    have hc : (CodeCall.setCooldown (verificationKey address) 60).perform w.now w.codes =
        (false, w.codes) := by simp only [CodeCall.perform, hg]
    simp only [verificationKey] at hc
    rw [hc]
    exact alone_throw _ (by simp only [seen, hg])
  | none =>
    have hc : (CodeCall.setCooldown (verificationKey address) 60).perform w.now w.codes =
        (true, cooled w.now (verificationKey address) w.codes) := by
      simp only [CodeCall.perform, hg]
      rfl
    simp only [verificationKey] at hc
    rw [hc]
    apply alone_bind
    apply alone_map
    apply ends_randbelow hn
    apply alone_bind
    apply alone_settled {} (fun _ => rfl)
    apply alone_bind
    apply alone_ofResult
    have hcodes : (seen w).codes = w.codes := rfl
    rw [hcodes, hg]
    dsimp only
    cases later w.now settings.authCodeMinutes with
    | error e => rfl
    | ok expiresAt =>
      apply alone_tryCatch
      apply alone_mono _ (ends_deliverCode address expiresAt)
      rintro r w' ⟨hdb, hcodes, hrest⟩
      have undone : ∀ e, w'.published = w.published →
          Ends lib d up (do
            codes (.delCooldownAndCode (verificationKey address))
            throw e : Act Unit) w' (fun r w'' => (r, seen w'') = (.error e, { seen w with
              codes := uncoded address
                (coded lib settings w.now (verificationKey address) d.number
                  (cooled w.now (verificationKey address) w.codes)) })) := by
        intro e hpublished
        apply alone_bind
        apply ends_codes
        apply alone_throw
        simp only [seen, hdb, hpublished, hcodes, CodeCall.perform, uncoded, verificationKey]
      dsimp only
      cases hmake : EmailJob.make (job d address expiresAt) with
      | error e =>
        rw [hmake] at hrest
        obtain ⟨rfl, hpublished⟩ := hrest
        exact undone e hpublished
      | ok j =>
        rw [hmake] at hrest
        cases up with
        | true =>
          obtain ⟨rfl, hpublished⟩ := hrest
          simp only [seen, hdb, hpublished, hcodes]
          rfl
        | false =>
          obtain ⟨rfl, hpublished⟩ := hrest
          exact undone .external hpublished

/-! ## Signing up -/

theorem ends_byEmail (address : Email) {post : Except Failure (Option User) → World → Prop}
    (h : post (.ok (w.database.users.find? (fun u => u.email = address))) w) :
    Ends lib d up (byEmail address) w post :=
  alone_settled {} (fun _ => rfl) h

/-- Whatever the filter says, only a taken address is called taken. -/
theorem ends_emailTaken (f : FilterSettings) (address : Email) :
    Ends lib d up (emailTaken f address) w (fun r w' => Like w w' ∧
      ∃ b, r = .ok b ∧ (b = true → taken w.database address = true)) := by
  apply alone_bind
  apply alone_mono _ (ends_mightExist f address)
  rintro _ w₁ ⟨h₁, hit, rfl⟩
  dsimp only
  split
  · apply alone_bind
    apply ends_byEmail
    have hdb : w₁.database = w.database := congrArg Seen.database h₁.1
    refine alone_pure _ ⟨h₁, _, rfl, fun hb => ?_⟩
    rw [hdb] at hb
    obtain ⟨u, hu⟩ := Option.isSome_iff_exists.mp hb
    exact List.any_eq_true.mpr ⟨u, List.mem_of_find?_eq_some hu, by simpa using List.find?_some hu⟩
  · exact alone_pure _ ⟨h₁, false, rfl, fun h => by cases h⟩

/-- The database with the row of a signup flushed. -/
def flushedRow (session : ℕ) (row : User) (db : Database) : Database :=
  { db with flushed := [(session, row)] }

theorem ended_nil {session : ℕ} {db : Database} (h : db.flushed = []) : ended db session = db := by
  obtain ⟨users, identities, flushed⟩ := db
  cases h
  rfl

theorem ended_flushedRow {session : ℕ} {row : User} {db : Database} (h : db.flushed = []) :
    ended (flushedRow session row db) session = db := by
  obtain ⟨users, identities, flushed⟩ := db
  cases h
  simp [flushedRow, ended]

theorem committed_flushedRow {session : ℕ} {row : User} {db : Database} (h : db.flushed = []) :
    committed (flushedRow session row db) session [] = { db with users := db.users ++ [row] } := by
  obtain ⟨users, identities, flushed⟩ := db
  cases h
  simp [flushedRow, ended, committed]

theorem ends_createUser (session : ℕ) (address : Email) (h : Hash) (hid : d.id ∉ w.drawn)
    (hflushed : w.database.flushed = []) :
    Ends lib d up (createUser session address (some h) false) w (fun r w' =>
      w'.now = w.now ∧ (seen w').codes = w.codes ∧ (seen w').published = w.published ∧
      if taken w.database address then r = .error .integrityError ∧ w'.database = w.database
      else r = .ok ⟨d.id, address, some h, none⟩ ∧
        w'.database = flushedRow session ⟨d.id, address, some h, none⟩ w.database) := by
  have hrow : ∀ x, performing lib d up .uuid4 x w =
      some (.ok d.id, { w with drawn := d.id :: w.drawn }) := by
    intro x
    simp [performing, settled, perform, answer, hid]
  apply alone_bind
  apply alone_pure
  dsimp only
  apply alone_bind
  apply alone_settled {} hrow
  apply alone_bind
  by_cases ht : taken w.database address = true
  · have hany : w.database.users.any (fun u => u.email = address) = true := ht
    apply alone_settled {}
    · intro x
      simp only [performing, settled, perform, answer, DatabaseCall.perform, hany]
      rfl
    · refine ⟨rfl, rfl, rfl, ?_⟩
      rw [if_pos ht]
      exact ⟨rfl, rfl⟩
  · have hany : w.database.users.any (fun u => u.email = address) = false := by
      simpa [taken] using ht
    apply alone_settled {}
    · intro x
      simp only [performing, settled, perform, answer, DatabaseCall.perform, hany, hflushed]
      rfl
    · refine ⟨rfl, rfl, rfl, ?_⟩
      rw [if_neg ht]
      exact ⟨rfl, rfl⟩

theorem ends_hash (password : String) {post : Except Failure Hash → World → Prop}
    (h : post (.ok (lib.hash password d.salt)) w) :
    Ends lib d up (AuthService.hash password) w post :=
  alone_settled {} (fun _ => rfl) h

theorem sent_database (now : ℕ) (address : Email) (s : Seen) (db : Database) :
    sent lib settings d up now address { s with database := db } =
      ((sent lib settings d up now address s).1,
        { (sent lib settings d up now address s).2 with database := db }) ∧
    (sent lib settings d up now address s).2.database = s.database := by
  unfold sent
  dsimp only
  cases get now s.codes.cooldown (verificationKey address) with
  | some _ => exact ⟨rfl, rfl⟩
  | none =>
    dsimp only
    cases later now settings.authCodeMinutes with
    | error e => exact ⟨rfl, rfl⟩
    | ok expiresAt =>
      dsimp only
      cases EmailJob.make (job d address expiresAt) with
      | error e => exact ⟨rfl, rfl⟩
      | ok job =>
        cases up with
        | true => exact ⟨rfl, rfl⟩
        | false => exact ⟨rfl, rfl⟩

/-- The error of a taken address, or what sending its code ends with. -/
theorem ends_createAccount (f : FilterSettings) (session : ℕ) (address : Email) (password : String)
    (hn : d.number < 1000000) (hid : d.id ∉ w.drawn) (hflushed : w.database.flushed = []) :
    Ends lib d up (createAccount lib settings f session address password) w (fun r w' =>
      if taken w.database address then r = .error .integrityError ∧ seen w' = seen w
      else ∃ s, sent lib settings d up w.now address (seen w) = (r, s) ∧
        match r with
        | .ok _ => seen w' = registered lib d address password s
        | .error _ => seen w' = { s with
            database := flushedRow session (account lib d address password) w.database }) := by
  apply alone_bind
  apply ends_hash
  apply alone_bind
  apply alone_mono _ (ends_createUser session address _ hid hflushed)
  rintro r w₁ ⟨hnow, hcodes, hpublished, hrow⟩
  by_cases ht : taken w.database address = true
  · rw [if_pos ht] at hrow
    obtain ⟨rfl, hdb⟩ := hrow
    dsimp only
    rw [if_pos ht]
    simp only [seen] at hcodes hpublished
    exact ⟨rfl, by simp only [seen, hdb, hcodes, hpublished]⟩
  · rw [if_neg ht] at hrow
    obtain ⟨rfl, hdb⟩ := hrow
    simp only [if_neg ht]
    apply alone_bind
    apply alone_mono _ (ends_remember f address)
    rintro _ w₂ ⟨⟨hseen, hnow₂, -⟩, rfl⟩
    dsimp only
    apply alone_bind
    apply alone_mono _ (ends_sendCode hn address)
    intro r w₃ hsent
    have hw₂ : seen w₂ = { seen w with
        database := flushedRow session (account lib d address password) w.database } := by
      simp only [seen] at hseen hcodes hpublished ⊢
      rw [hseen, hdb, hcodes, hpublished]
      rfl
    rw [hw₂, hnow₂, hnow, (sent_database _ _ _ _).1] at hsent
    have hr := congrArg Prod.fst hsent
    have hs := congrArg Prod.snd hsent
    dsimp only at hr hs
    cases r with
    | error e => exact ⟨_, Prod.ext hr.symm rfl, hs⟩
    | ok _ =>
      apply alone_settled {} (fun _ => rfl)
      refine ⟨_, Prod.ext hr.symm rfl, ?_⟩
      have hcodes₃ := congrArg Seen.codes hs
      have hpublished₃ := congrArg Seen.published hs
      have hdb₃ : w₃.database = flushedRow session (account lib d address password) w.database :=
        congrArg Seen.database hs
      have hkept : (sent lib settings d up w.now address (seen w)).2.database = w.database :=
        (sent_database w.now address (seen w) w.database).2
      simp only [seen] at hcodes₃ hpublished₃
      simp only [seen, registered, hcodes₃, hpublished₃, hdb₃, committed_flushedRow hflushed]
      rw [show (sent lib settings d up w.now address
        ⟨w.database, w.codes, w.published⟩).2.database = w.database from hkept]

theorem ends_rollback (session : ℕ) {post : Except Failure Unit → World → Prop}
    (h : post (.ok ()) { w with database := ended w.database session }) :
    Ends lib d up (rollback session) w post :=
  alone_settled {} (fun _ => rfl) h

/-- A code that was drawn makes a valid job, so no error of sending is one of integrity. -/
theorem sent_error {email : String} {address : Email} {now : ℕ} {s s' : Seen} {e : Failure}
    (hn : d.number < 1000000) (ha : normalizeEmail lib email = .ok address)
    (h : sent lib settings d up now address s = (.error e, s')) : e ≠ .integrityError := by
  unfold sent at h
  split at h
  · cases h
    exact fun he => by cases he
  · split at h
    case h_1 e' hlater =>
      cases h
      unfold later at hlater
      split at hlater
      · cases hlater
      · cases hlater
        exact fun he => by cases he
    case h_2 expiresAt hlater =>
      dsimp only at h
      split at h
      case h_1 e' hmake =>
        have hvalid : postInit (job d address expiresAt) = .ok () :=
          postInit_drawn .verify (valid_address ha) hn hlater
        rw [make_valid hvalid] at hmake
        cases hmake
      case h_2 j hmake =>
        cases up with
        | true => cases h
        | false =>
          cases h
          exact fun he => by cases he

theorem ends_signup (f : FilterSettings) (session : ℕ) (email password : String)
    (hn : d.number < 1000000) (hid : d.id ∉ w.drawn) (hflushed : w.database.flushed = []) :
    Ends lib d up (signup lib settings f session email password) w
      (fun r w' => (r, seen w') = outcome lib settings d up w.now email password (seen w)) := by
  unfold outcome
  apply alone_bind
  apply alone_ofResult
  cases ha : normalizeEmail lib email with
  | error e => rfl
  | ok address =>
    dsimp only
    apply alone_bind
    apply alone_ofResult
    cases hp : checkPassword password with
    | error e => rfl
    | ok _ =>
      dsimp only
      apply alone_bind
      apply alone_mono _ (ends_emailTaken f address)
      rintro _ w₁ ⟨⟨hseen, hnow, hdrawn⟩, b, rfl, hb⟩
      have hdb : w₁.database = w.database := congrArg Seen.database hseen
      have htaken : taken (seen w).database address = taken w.database address := rfl
      rw [htaken]
      dsimp only
      split
      case isTrue hbt =>
        rw [if_pos (hb hbt)]
        exact alone_throw _ (by rw [hseen])
      case isFalse =>
        apply alone_tryCatch
        apply alone_mono _ (ends_createAccount f session address password hn (hdrawn ▸ hid)
          (hdb ▸ hflushed))
        intro r w₂ hr
        rw [hdb, hnow, hseen] at hr
        have handled : ∀ e, Ends lib d up (do
            rollback session
            if e = .integrityError then do
              remember f address
              throw (.conflict "An account already exists for this email address.")
            else throw e : Act Unit) w₂ (fun r w' =>
              seen w' = { seen w₂ with database := ended w₂.database session } ∧
              r = .error (if e = .integrityError then
                .conflict "An account already exists for this email address." else e)) := by
          intro e
          apply alone_bind
          apply ends_rollback
          dsimp only
          split
          · apply alone_bind
            apply alone_mono _ (ends_remember f address)
            rintro _ w₃ ⟨⟨h₃, -⟩, rfl⟩
            exact alone_throw _ ⟨h₃, rfl⟩
          · exact alone_throw _ ⟨rfl, rfl⟩
        by_cases ht : taken w.database address = true
        · rw [if_pos ht] at hr
          obtain ⟨rfl, hseen₂⟩ := hr
          rw [if_pos ht]
          apply alone_mono _ (handled _)
          rintro _ w₃ ⟨hseen₃, rfl⟩
          have hdb₂ : w₂.database = w.database := congrArg Seen.database hseen₂
          rw [hseen₃, hseen₂, hdb₂, ended_nil hflushed]
          rfl
        · rw [if_neg ht] at hr
          obtain ⟨s, hsent, hrest⟩ := hr
          rw [if_neg ht, hsent]
          cases r with
          | ok _ => exact Prod.ext rfl hrest
          | error e =>
            apply alone_mono _ (handled e)
            rintro _ w₃ ⟨hseen₃, rfl⟩
            have hdb₂ : w₂.database =
                flushedRow session (account lib d address password) w.database :=
              congrArg Seen.database hrest
            have hs : s.database = w.database := by
              have hkept :
                  (sent lib settings d up w.now address (seen w)).2.database = w.database :=
                (sent_database w.now address (seen w) w.database).2
              rw [hsent] at hkept
              exact hkept
            rw [hseen₃, hrest, hdb₂, ended_flushedRow hflushed, if_neg (sent_error hn ha hsent),
              ← hs]

/-! ## Two signups -/

/-- One account, up to its id and the salt of its hash. -/
def AlikeUser (lib : Libraries) (password : String) (d₁ d₂ : Draws) (u₁ u₂ : User) : Prop :=
  u₁ = u₂ ∨ ∃ address, u₁ = account lib d₁ address password ∧ u₂ = account lib d₂ address password

/-- One job, up to its code. -/
def AlikeJob (d₁ d₂ : Draws) (j₁ j₂ : EmailJob) : Prop :=
  j₁ = j₂ ∨ ∃ address expiresAt, j₁.fields = job d₁ address expiresAt ∧
    j₂.fields = job d₂ address expiresAt

/-- One stored code, up to the code itself. -/
def AlikeEntry (lib : Libraries) (d₁ d₂ : Draws) (e₁ e₂ : Option (Entry CodePayload)) : Prop :=
  e₁ = e₂ ∨ ∃ deadline, e₁ = some ⟨⟨lib.sha256 (sixDigits d₁.number), 0⟩, deadline⟩ ∧
    e₂ = some ⟨⟨lib.sha256 (sixDigits d₂.number), 0⟩, deadline⟩

/-- The same is seen, up to what was drawn. -/
structure Alike (lib : Libraries) (password : String) (d₁ d₂ : Draws) (s₁ s₂ : Seen) : Prop where
  users : List.Forall₂ (AlikeUser lib password d₁ d₂) s₁.database.users s₂.database.users
  identities : s₁.database.identities = s₂.database.identities
  cooldown : s₁.codes.cooldown = s₂.codes.cooldown
  code : ∀ key, AlikeEntry lib d₁ d₂ (s₁.codes.code key) (s₂.codes.code key)
  published : List.Forall₂ (AlikeJob d₁ d₂) s₁.published s₂.published

variable {d₁ d₂ : Draws} {password : String}

theorem alike_refl (s : Seen) : Alike lib password d₁ d₂ s s where
  users := List.forall₂_same.mpr (fun _ _ => Or.inl rfl)
  identities := rfl
  cooldown := rfl
  code := fun _ => Or.inl rfl
  published := List.forall₂_same.mpr (fun _ _ => Or.inl rfl)

theorem alike_coded (now : ℕ) (address : Email) (s : CodeStore) (key : CodeKey) :
    AlikeEntry lib d₁ d₂ ((coded lib settings now (verificationKey address) d₁.number s).code key)
      ((coded lib settings now (verificationKey address) d₂.number s).code key) := by
  by_cases hk : key = verificationKey address
  · subst hk
    exact Or.inr ⟨_, set_self _ _ _ _, set_self _ _ _ _⟩
  · left
    simp only [coded, set_ne _ _ _ _ hk]

/-- Taking the code back leaves no trace of it. -/
theorem uncoded_coded (now : ℕ) (address : Email) (s : CodeStore) :
    uncoded address (coded lib settings now (verificationKey address) d₁.number s) =
      uncoded address s := by
  have hcode : del (coded lib settings now (verificationKey address) d₁.number s).code
      (verificationKey address) = del s.code (verificationKey address) := by
    funext key
    by_cases hk : key = verificationKey address
    · subst hk
      simp
    · simp only [del_ne _ _ hk, coded, set_ne _ _ _ _ hk]
  simp only [uncoded, hcode]
  rfl

theorem alike_sent {email : String} {address : Email} (now : ℕ) (s : Seen)
    (hn₁ : d₁.number < 1000000) (hn₂ : d₂.number < 1000000)
    (ha : normalizeEmail lib email = .ok address) :
    (sent lib settings d₁ up now address s).1 = (sent lib settings d₂ up now address s).1 ∧
      Alike lib password d₁ d₂ (sent lib settings d₁ up now address s).2
        (sent lib settings d₂ up now address s).2 := by
  have made : ∀ {d : Draws} {t : DateTime} (_ : d.number < 1000000)
      (_ : later now settings.authCodeMinutes = .ok t),
      ∃ j, EmailJob.make (job d address t) = .ok j ∧ j.fields = job d address t := by
    intro d t hn ht
    have hvalid : postInit (job d address t) = .ok () :=
      postInit_drawn .verify (valid_address ha) hn ht
    exact ⟨_, make_valid hvalid, rfl⟩
  unfold sent
  cases get now s.codes.cooldown (verificationKey address) with
  | some _ => exact ⟨rfl, alike_refl s⟩
  | none =>
    cases ht : later now settings.authCodeMinutes with
    | error e => exact ⟨rfl, alike_refl _⟩
    | ok t =>
      obtain ⟨j₁, hj₁, hf₁⟩ := made hn₁ ht
      obtain ⟨j₂, hj₂, hf₂⟩ := made hn₂ ht
      cases up with
      | true =>
        simp only [hj₁, hj₂, if_true]
        refine ⟨trivial, ?_⟩
        constructor
        · exact List.forall₂_same.mpr (fun _ _ => Or.inl rfl)
        · rfl
        · rfl
        · exact fun key => alike_coded now address _ key
        · have hold : List.Forall₂ (AlikeJob d₁ d₂) s.published s.published :=
            List.forall₂_same.mpr (fun _ _ => Or.inl rfl)
          have hjob : AlikeJob d₁ d₂ j₁ j₂ := Or.inr ⟨address, t, hf₁, hf₂⟩
          exact List.rel_append hold (.cons hjob .nil)
      | false =>
        simp only [hj₁, hj₂, Bool.false_eq_true, if_false, uncoded_coded]
        exact ⟨trivial, alike_refl _⟩

variable (lib settings up) in
theorem alike_outcome (email password : String) (now : ℕ) (s : Seen) (hn₁ : d₁.number < 1000000)
    (hn₂ : d₂.number < 1000000) :
    (outcome lib settings d₁ up now email password s).1 =
        (outcome lib settings d₂ up now email password s).1 ∧
      Alike lib password d₁ d₂ (outcome lib settings d₁ up now email password s).2
        (outcome lib settings d₂ up now email password s).2 := by
  unfold outcome
  cases ha : normalizeEmail lib email with
  | error e => exact ⟨rfl, alike_refl s⟩
  | ok address =>
    cases checkPassword password with
    | error e => exact ⟨rfl, alike_refl s⟩
    | ok _ =>
      dsimp only
      split
      · exact ⟨rfl, alike_refl s⟩
      · have hsent : (sent lib settings d₁ up now address s).1 =
              (sent lib settings d₂ up now address s).1 ∧
            Alike lib password d₁ d₂ (sent lib settings d₁ up now address s).2
              (sent lib settings d₂ up now address s).2 := alike_sent now s hn₁ hn₂ ha
        generalize sent lib settings d₁ up now address s = sent₁ at hsent ⊢
        generalize sent lib settings d₂ up now address s = sent₂ at hsent ⊢
        obtain ⟨r₁, s₁⟩ := sent₁
        obtain ⟨r₂, s₂⟩ := sent₂
        obtain ⟨hr, hs⟩ := hsent
        dsimp only at hr hs
        subst hr
        cases r₁ with
        | error e => exact ⟨rfl, hs⟩
        | ok _ =>
          have hnew : AlikeUser lib password d₁ d₂ (account lib d₁ address password)
              (account lib d₂ address password) := Or.inr ⟨address, rfl, rfl⟩
          exact ⟨rfl, List.rel_append hs.users (.cons hnew .nil), hs.identities, hs.cooldown,
            hs.code, hs.published⟩

/-- The filter never changes what a signup ends with: run with any filter in any state,
whatever its commands do, and run with the filter switched off, it ends with the same
error or none and the same accounts, codes and jobs, up to what each run drew. -/
theorem filter_never_matters (lib : Libraries) (settings : Settings) (f : FilterSettings)
    (session : ℕ) (email password : String) (up : Bool) (d₁ d₂ : Draws) (w : World)
    (hn₁ : d₁.number < 1000000) (hn₂ : d₂.number < 1000000) (hid₁ : d₁.id ∉ w.drawn)
    (hid₂ : d₂.id ∉ w.drawn) (hflushed : w.database.flushed = []) :
    Ends lib d₁ up (signup lib settings f session email password) w (fun r₁ w₁ =>
      Ends lib d₂ up (signup lib settings { f with enabled := false } session email password) w
        (fun r₂ w₂ => r₁ = r₂ ∧ Alike lib password d₁ d₂ (seen w₁) (seen w₂))) := by
  apply alone_mono _ (ends_signup f session email password hn₁ hid₁ hflushed)
  intro r₁ w₁ h₁
  apply alone_mono _
    (ends_signup { f with enabled := false } session email password hn₂ hid₂ hflushed)
  intro r₂ w₂ h₂
  have hboth := alike_outcome lib settings up email password w.now (seen w) hn₁ hn₂
  rw [← h₁, ← h₂] at hboth
  exact hboth

/-- A filter that holds the address of the one account, under a marker that vouches for it. -/
def vouching : World :=
  { World.fresh 0 Requests.oneAccount with
    filter := ⟨some ⟨Requests.withFilter.params, ["a@b"]⟩,
      some Requests.withFilter.params.fingerprint, empty⟩ }

/-- The filter excludes a second address that signs up. -/
theorem filter_never_matters_oneAccount :
    let d₁ : Draws := ⟨"first", "", 0⟩
    let d₂ : Draws := ⟨"second", "", 1⟩
    Ends Requests.plainLibraries d₁ true
      (signup Requests.plainLibraries Requests.plainSettings Requests.withFilter 0 "c@d"
        "long password") vouching (fun r₁ w₁ =>
      Ends Requests.plainLibraries d₂ true
        (signup Requests.plainLibraries Requests.plainSettings
          { Requests.withFilter with enabled := false } 0 "c@d" "long password") vouching
        (fun r₂ w₂ => r₁ = r₂ ∧
          Alike Requests.plainLibraries "long password" d₁ d₂ (seen w₁) (seen w₂))) :=
  filter_never_matters Requests.plainLibraries Requests.plainSettings Requests.withFilter 0 "c@d"
    "long password" true ⟨"first", "", 0⟩ ⟨"second", "", 1⟩ vouching
    (by decide) (by decide) (by decide) (by decide) rfl

end Gamely.SignupOutcome
