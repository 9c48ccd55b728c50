import Gamely.CodeLifetime

/-!
# Signups that fail half-way

A signup is run alone and one of its calls fails. Sending the code undoes both keys
when a later step of it fails, and the signup rolls its row back. Neither handler
sees a commit that fails after the code was sent, or a date that cannot be written.
-/

set_option autoImplicit false

namespace Gamely.FailedSignup
open Gamely.Calls Gamely.Sequential Gamely.ExpiringStore Gamely.Stores Gamely.EmailJobs
open Gamely.Services Gamely.EmailFilter Gamely.AuthService Gamely.CodeLifetime

variable (lib : Libraries) (settings : Settings)

/-- The rollback, and the deletion of both keys of a code. -/
def undoes : Command → Bool
  | .database (.rollback _) => true
  | .code (.delCooldownAndCode _) => true
  | _ => false

/-- What undoes something succeeds. -/
def performing (c : Command) (x : Choice) (w : World) :
    Option (Except Failure (Reply c) × World) :=
  perform lib c { x with fail := !undoes c && x.fail } w

/-- Call number `n` fails; everything else is as chosen. -/
def faulty (choices : ℕ → Choice) (n k : ℕ) : Choice := { choices k with fail := k = n }

/-- Nothing of a signup is left: no row of it, no key of it and no job. -/
structure Nothing (w w' : World) : Prop where
  users : w'.database.users = w.database.users
  flushed : ∀ x ∈ w'.database.flushed, x ∈ w.database.flushed
  code : ∀ key e, w'.codes.code key = some e → w.codes.code key = some e
  cooldown : ∀ key e, w'.codes.cooldown key = some e → w.codes.cooldown key = some e
  published : w'.published = w.published

/-! ## Where the calls are -/

/-- How many calls look the address up: the database only, the filter only or both. -/
def lookups (f : FilterSettings) (w : World) (address : Email) (hit : Bool) : ℕ :=
  if f.enabled = false then 1
  else if w.filter.marker = some f.params.fingerprint ∧
      contains hit address w.filter.filter = false then 2
  else 3

/-- The flush comes after the salt and the id. -/
def flushAt (f : FilterSettings) (w : World) (address : Email) (hit : Bool) : ℕ :=
  lookups f w address hit+2

def cooldownAt (f : FilterSettings) (w : World) (address : Email) (hit : Bool) : ℕ :=
  if f.enabled = false then flushAt f w address hit+1 else flushAt f w address hit+2

/-- The commit comes after the five calls that send the code. -/
def commitAt (f : FilterSettings) (w : World) (address : Email) (hit : Bool) : ℕ :=
  cooldownAt f w address hit+5

/-- The call that fails is the look-up in the database, the flush or the cooldown. -/
def Early (f : FilterSettings) (w : World) (address : Email) (hit : Bool) (n : ℕ) : Prop :=
  (lookups f w address hit ≠ 2 ∧ n+1 = lookups f w address hit) ∨
    n = flushAt f w address hit ∨ n = cooldownAt f w address hit

def Cooling (w : World) (key : CodeKey) : Prop := get w.now w.codes.cooldown key = some ()

/-- When nothing is left of a signup that raises: it was refused, it failed before the
cooldown, or its date can be written and it is not the commit that failed. -/
inductive Spared (f : FilterSettings) (w : World) (email password : String) (hit : Bool) (n : ℕ) :
    Prop
  | malformed (h : ∀ address, normalizeEmail lib email ≠ .ok address)
  | short (h : checkPassword password ≠ .ok ())
  | taken {address : Email} (ha : normalizeEmail lib email = .ok address)
      (h : ∃ u ∈ w.database.users, u.email = address)
  | cooling {address : Email} (ha : normalizeEmail lib email = .ok address)
      (h : Cooling w ⟨address, .verify⟩)
  | early {address : Email} (ha : normalizeEmail lib email = .ok address)
      (h : Early f w address hit n)
  | undone {address : Email} (ha : normalizeEmail lib email = .ok address)
      (ht : ∃ t, later w.now settings.authCodeMinutes = .ok t) (h : n ≠ commitAt f w address hit)

variable {lib settings} {w w' : World} {choices : ℕ → Choice} {n m k : ℕ}
variable {f : FilterSettings} {address : Email} {A : Type}

theorem nothing_refl (w : World) : Nothing w w :=
  ⟨rfl, fun _ h => h, fun _ _ h => h, fun _ _ h => h, rfl⟩

/-! ## One failing call -/

variable (lib) in
abbrev RunsTo (choices : ℕ → Choice) (n k : ℕ) (p : Act A) (w : World) (r : Except Failure A)
    (w' : World) (m : ℕ) : Prop :=
  runOn (performing lib) (faulty choices n) k p w = some (r, w', m)

theorem performing_faulty {c : Command} (hc : c.isLocal = false) (hu : undoes c = false) (k : ℕ) :
    performing lib c (faulty choices n k) w =
      if k = n then some (.error .external, w) else answer lib (faulty choices n k) w c := by
  unfold performing perform
  by_cases h : k = n
  · simp [faulty, h, hc, hu]
  · simp [faulty, h, hu]

theorem runOn_codes (c : CodeCall) (hu : undoes (.code c) = false) :
    runOn (performing lib) (faulty choices n) k (codes c) w =
      if k = n then some (.error .external, w, k+1)
      else some (.ok (c.perform w.now w.codes).1,
        { w with codes := (c.perform w.now w.codes).2 }, k+1) := by
  rw [codes, runOn_invoke, performing_faulty rfl hu]
  split <;> rfl

theorem runOn_undo (key : CodeKey) :
    runOn (performing lib) (faulty choices n) k (codes (.delCooldownAndCode key)) w =
      some (.ok (), { w with codes := ⟨del w.codes.code key, del w.codes.cooldown key⟩ }, k+1) := by
  rw [codes, runOn_invoke]
  rfl

theorem runOn_rollback (session : ℕ) :
    runOn (performing lib) (faulty choices n) k (rollback session) w =
      some (.ok (), { w with database := ended w.database session }, k+1) := by
  rw [rollback, database, runOn_invoke]
  rfl

theorem runOn_cuckoo (c : FilterCall) :
    runOn (performing lib) (faulty choices n) k (cuckoo c) w =
      if k = n then some (.error .external, w, k+1)
      else some (.ok (c.perform lib.filterDefaults w.now (choices k).hit (choices k).refused
          w.filter).1,
        { w with filter := (c.perform lib.filterDefaults w.now (choices k).hit (choices k).refused
          w.filter).2 }, k+1) := by
  rw [cuckoo, runOn_invoke, performing_faulty rfl rfl]
  split <;> rfl

theorem runOn_utcnow : runOn (performing lib) (faulty choices n) k TokenService.utcnow w =
    some (.ok w.now, w, k+1) := by
  rw [TokenService.utcnow, runOn_invoke]
  simp only [performing, perform, Command.isLocal, Bool.true_eq_false, and_false, if_false]
  rfl

theorem runOn_byEmail (address : Email) :
    runOn (performing lib) (faulty choices n) k (byEmail address) w =
      if k = n then some (.error .external, w, k+1)
      else some (.ok (w.database.users.find? (fun u => u.email = address)), w, k+1) := by
  rw [byEmail, database, runOn_invoke, performing_faulty rfl rfl]
  split <;> rfl

/-! ## The address -/

theorem runOn_mightExist (address : Email) :
    runOn (performing lib) (faulty choices n) 0 (mightExist f address) w =
      if f.enabled = false then some (.ok true, w, 0)
      else if n = 0 then some (.ok true, w, 1)
      else if n = 1 then some (.ok true, w, 2)
      else some (.ok (decide (lookups f w address (choices 1).hit ≠ 2)), w, 2) := by
  unfold mightExist lookups
  by_cases hf : f.enabled = false
  · simp only [if_pos hf]
    rfl
  · simp only [if_neg hf]
    rw [runOn_tryCatch, containsIfReady, runOn_bind, runOn_bind, runOn_cuckoo]
    by_cases h0 : n = 0
    · rw [if_pos h0.symm, if_pos h0]
      rfl
    · rw [if_neg (Ne.symm h0), if_neg h0, Option.bind_some, afterwards, runOn_bind, runOn_cuckoo]
      by_cases h1 : n = 1
      · rw [if_pos h1.symm, if_pos h1]
        rfl
      · rw [if_neg (Ne.symm h1), if_neg h1]
        by_cases hm : w.filter.marker = some f.params.fingerprint
        · cases hc : contains (choices 1).hit address w.filter.filter with
          | true => simp [FilterCall.perform, afterwards, recovered, hm, hc, runOn_pure]
          | false => simp [FilterCall.perform, afterwards, recovered, hm, hc, runOn_pure]
        · simp [FilterCall.perform, afterwards, recovered, hm, runOn_pure]

/-- Where a look-up that did not stop the signup has ended: nothing has failed yet, or a
call of the filter has. -/
def Looked (f : FilterSettings) (w : World) (address : Email) (hit : Bool) (n m : ℕ) : Prop :=
  (m ≤ n ∧ m = lookups f w address hit) ∨ (n < m ∧ n < 2 ∧ f.enabled = true)

theorem emailTaken_failing {r : Except Failure Bool}
    (h : RunsTo lib choices n 0 (emailTaken f address) w r w' m) :
    w' = w ∧ ((∃ e, r = .error e ∧ lookups f w address (choices 1).hit ≠ 2 ∧
        n+1 = lookups f w address (choices 1).hit) ∨
      (r = .ok true ∧ ∃ u ∈ w.database.users, u.email = address) ∨
      (r = .ok false ∧ Looked f w address (choices 1).hit n m)) := by
  have found : ∀ k, n ≠ k → RunsTo lib choices n k (do return (← byEmail address).isSome)
      w r w' m → w' = w ∧ m = k+1 ∧ ((r = .ok true ∧ ∃ u ∈ w.database.users, u.email = address) ∨
        r = .ok false) := by
    intro k hk hr
    rw [RunsTo, runOn_bind, runOn_byEmail, if_neg (Ne.symm hk), Option.bind_some, afterwards] at hr
    cases hu : w.database.users.find? (fun u => u.email = address) with
    | none =>
      rw [hu] at hr
      cases hr
      exact ⟨rfl, rfl, Or.inr rfl⟩
    | some u =>
      rw [hu] at hr
      cases hr
      have hm := List.mem_of_find?_eq_some hu
      have he : u.email = address := by simpa using List.find?_some hu
      exact ⟨rfl, rfl, Or.inl ⟨rfl, u, hm, he⟩⟩
  have stopped : ∀ k, n = k → RunsTo lib choices n k (do return (← byEmail address).isSome)
      w r w' m → w' = w ∧ ∃ e, r = .error e := by
    intro k hk hr
    rw [RunsTo, runOn_bind, runOn_byEmail, if_pos hk.symm] at hr
    cases hr
    exact ⟨rfl, _, rfl⟩
  rw [RunsTo, emailTaken, runOn_bind, runOn_mightExist] at h
  by_cases hf : f.enabled = false
  · have hl : lookups f w address (choices 1).hit = 1 := if_pos hf
    rw [if_pos hf, Option.bind_some, afterwards, if_pos rfl] at h
    unfold Looked
    rw [hl]
    by_cases hn : n = 0
    · obtain ⟨rfl, he⟩ := stopped 0 hn h
      obtain ⟨e, rfl⟩ := he
      exact ⟨rfl, Or.inl ⟨e, rfl, by decide, by omega⟩⟩
    · obtain ⟨rfl, rfl, hr⟩ := found 0 hn h
      refine ⟨rfl, Or.inr ?_⟩
      rcases hr with hr | rfl
      · exact Or.inl hr
      · exact Or.inr ⟨rfl, Or.inl ⟨by omega, rfl⟩⟩
  · have hon : f.enabled = true := by simpa using hf
    rw [if_neg hf] at h
    by_cases h2 : n < 2
    · -- The filter failed, so the address is looked up in the database.
      obtain ⟨k, hk, hr⟩ : ∃ k, n < k ∧ RunsTo lib choices n k
          (do return (← byEmail address).isSome) w r w' m := by
        by_cases h0 : n = 0
        · rw [if_pos h0] at h
          exact ⟨1, by omega, h⟩
        · have h1 : n = 1 := by omega
          rw [if_neg h0, if_pos h1] at h
          exact ⟨2, by omega, h⟩
      obtain ⟨rfl, rfl, hres⟩ := found k (by omega) hr
      refine ⟨rfl, Or.inr ?_⟩
      rcases hres with hres | rfl
      · exact Or.inl hres
      · exact Or.inr ⟨rfl, Or.inr ⟨by omega, h2, hon⟩⟩
    · rw [if_neg (by omega), if_neg (by omega), Option.bind_some, afterwards] at h
      have hlook : lookups f w address (choices 1).hit = 2 ∨
          lookups f w address (choices 1).hit = 3 := by
        unfold lookups
        rw [if_neg hf]
        split
        · exact Or.inl rfl
        · exact Or.inr rfl
      unfold Looked
      rcases hlook with hl | hl
      · simp only [hl, ne_eq, not_true_eq_false, decide_false, Bool.false_eq_true, if_false] at h
        cases h
        exact ⟨rfl, Or.inr (Or.inr ⟨rfl, Or.inl ⟨by omega, hl.symm⟩⟩)⟩
      · have hne : decide (lookups f w address (choices 1).hit ≠ 2) = true := by simp [hl]
        rw [hne, if_pos rfl] at h
        rw [hl]
        by_cases hn : n = 2
        · obtain ⟨rfl, he⟩ := stopped 2 hn h
          obtain ⟨e, rfl⟩ := he
          exact ⟨rfl, Or.inl ⟨e, rfl, by decide, by omega⟩⟩
        · obtain ⟨rfl, rfl, hr⟩ := found 2 hn h
          refine ⟨rfl, Or.inr ?_⟩
          rcases hr with hr | rfl
          · exact Or.inl hr
          · exact Or.inr ⟨rfl, Or.inl ⟨by omega, rfl⟩⟩

/-! ## The row and the filter -/

variable (lib choices n) in
theorem runOn_remember (f : FilterSettings) (address : Email) (k : ℕ) (w : World) :
    ∃ filter, runOn (performing lib) (faulty choices n) k (remember f address) w =
      some (.ok (), { w with filter := filter },
        if f.enabled = false then k else if k = n then k+2 else k+1) := by
  unfold remember
  by_cases hf : f.enabled = false
  · rw [if_pos hf, if_pos hf]
    exact ⟨w.filter, rfl⟩
  · rw [if_neg hf, if_neg hf, runOn_tryCatch, add, addMany, if_neg (List.cons_ne_nil _ _),
      runOn_bind, runOn_bind, runOn_bind, runOn_cuckoo]
    by_cases hk : k = n
    · rw [if_pos hk, if_pos hk]
      simp only [Option.bind_some, afterwards, recovered]
      rw [withdrawTrust, runOn_tryCatch, runOn_cuckoo, if_neg (by omega)]
      exact ⟨_, rfl⟩
    · rw [if_neg hk, if_neg hk]
      exact ⟨_, rfl⟩

theorem createUser_failing {session : ℕ} {hash? : Option Hash} {r : Except Failure User}
    (h : RunsTo lib choices n k (createUser session address hash? false) w r w' m) :
    w'.now = w.now ∧ w'.codes = w.codes ∧ w'.published = w.published ∧
      w'.filter = w.filter ∧ m = k+2 ∧
      ((∃ e, r = .error e ∧ w'.database = w.database ∧
          (n = k+1 ∨ ∃ u ∈ w.database.users, u.email = address)) ∨
        (∃ user, r = .ok user ∧ n ≠ k+1 ∧ (¬∃ u ∈ w.database.users, u.email = address) ∧
          w'.database =
            { w.database with flushed := w.database.flushed ++ [(session, user)] })) := by
  have hid : runOn (performing lib) (faulty choices n) k (emailVerifiedAt false) w =
      some (.ok none, w, k) := rfl
  rw [RunsTo, createUser, runOn_bind, hid, Option.bind_some, afterwards] at h
  rcases runOn_bind_some h with ⟨e, -, huuid⟩ | ⟨id, w₁, k₁, huuid, h⟩
  · obtain ⟨hperform, -⟩ := runOn_invoke_some huuid
    simp only [performing, perform, Command.isLocal, Bool.true_eq_false, and_false, if_false,
      answer] at hperform
    split at hperform <;> cases hperform
  · obtain ⟨hperform, rfl⟩ := runOn_invoke_some huuid
    simp only [performing, perform, Command.isLocal, Bool.true_eq_false, and_false, if_false,
      answer] at hperform
    split at hperform
    · cases hperform
    · cases hperform
      rw [runOn_bind, database, runOn_invoke, performing_faulty rfl rfl] at h
      by_cases hn : k+1 = n
      · rw [if_pos hn] at h
        cases h
        exact ⟨rfl, rfl, rfl, rfl, rfl, Or.inl ⟨_, rfl, rfl, Or.inl hn.symm⟩⟩
      · rw [if_neg hn] at h
        simp only [answer, DatabaseCall.perform] at h
        by_cases ht : w.database.users.any (fun u => u.email = address) = true
        · rw [if_pos ht] at h
          cases h
          obtain ⟨u, hu, he⟩ := List.any_eq_true.mp ht
          exact ⟨rfl, rfl, rfl, rfl, rfl,
            Or.inl ⟨_, rfl, rfl, Or.inr ⟨u, hu, by simpa using he⟩⟩⟩
        · rw [if_neg ht] at h
          split at h
          · cases h
          · cases h
            have hfree : ¬∃ u ∈ w.database.users, u.email = address := by
              rintro ⟨u, hu, he⟩
              exact ht (List.any_eq_true.mpr ⟨u, hu, by simpa using he⟩)
            exact ⟨rfl, rfl, rfl, rfl, rfl, Or.inr ⟨_, rfl, Ne.symm hn, hfree, rfl⟩⟩

/-! ## The code -/

/-- What `_send_code` leaves when it raises with both keys undone, or before it set one. -/
structure Unsent (w w' : World) : Prop where
  now : w'.now = w.now
  database : w'.database = w.database
  code : ∀ key e, w'.codes.code key = some e → w.codes.code key = some e
  cooldown : ∀ key e, w'.codes.cooldown key = some e → w.codes.cooldown key = some e
  published : w'.published = w.published

theorem unsent_refl (w : World) : Unsent w w :=
  ⟨rfl, rfl, fun _ _ h => h, fun _ _ h => h, rfl⟩

theorem unsent_undone (key : CodeKey) (s : CodeStore) (w : World)
    (hcode : ∀ k, k ≠ key → s.code k = w.codes.code k)
    (hcooldown : ∀ k, k ≠ key → s.cooldown k = w.codes.cooldown k) :
    Unsent w { w with codes := ⟨del s.code key, del s.cooldown key⟩ } where
  now := rfl
  database := rfl
  code := by
    intro k e h
    obtain ⟨hk, hs⟩ := (del_eq_some _ _ _ _).mp h
    rwa [hcode k hk] at hs
  cooldown := by
    intro k e h
    obtain ⟨hk, hs⟩ := (del_eq_some _ _ _ _).mp h
    rwa [hcooldown k hk] at hs
  published := rfl

/-- How sending the code of a valid address ends when one call may fail. -/
inductive Sent (settings : Settings) (key : CodeKey) (n k : ℕ) (w : World)
    (r : Except Failure Unit) (w' : World) (m : ℕ) : Prop
  | unsent {e : Failure} (hr : r = .error e) (h : Unsent w w')
      (why : Cooling w key ∨ n = k ∨
        ((∃ t, later w.now settings.authCodeMinutes = .ok t) ∧ n ≠ k+5))
  | undated {e : Failure} (hr : r = .error e)
      (ht : later w.now settings.authCodeMinutes = .error e) (hc : ¬ Cooling w key) (hn : n ≠ k)
      (hw : w' = { w with codes := cooled w.now key w.codes })
  | sent (hr : r = .ok ()) (hm : m = k+5) (hc : ¬ Cooling w key) (hn : n ≠ k)
      (ht : ∃ t, later w.now settings.authCodeMinutes = .ok t)
      (hdb : w'.database = w.database) (hj : ∃ job, w'.published = w.published ++ [job])

theorem deliver_failing {key : CodeKey} {number : ℕ} {expiresAt : DateTimes.DateTime}
    {r : Except Failure Unit} (hvalid : postInit (jobFields key number expiresAt) = .ok ())
    (h : RunsTo lib choices n k
      (tryCatchThe Failure (deliverCode lib settings key (sixDigits number) expiresAt) (fun e => do
        codes (.delCooldownAndCode key)
        throw e)) w r w' m) :
    (∃ e, r = .error e ∧ (n = k ∨ n = k+1) ∧
      ∃ s : Store CodeKey CodePayload, (∀ j, j ≠ key → s j = w.codes.code j) ∧
        w' = { w with codes := ⟨del s key, del w.codes.cooldown key⟩ }) ∨
    (r = .ok () ∧ m = k+2 ∧ n ≠ k ∧ n ≠ k+1 ∧ ∃ job, w' = { w with
      codes := coded lib settings w.now key number w.codes
      published := w.published ++ [job] }) := by
  rw [RunsTo, runOn_tryCatch, deliverCode, runOn_bind, runOn_codes _ rfl] at h
  by_cases hn : k = n
  · rw [if_pos hn, Option.bind_some, afterwards, Option.bind_some, recovered, runOn_bind,
      runOn_undo] at h
    cases h
    exact Or.inl ⟨_, rfl, Or.inl hn.symm, w.codes.code, fun _ _ => rfl, rfl⟩
  · have hfields : (⟨key.email, key.purpose.text, sixDigits number, expiresAt, 0, ""⟩ :
        JobFields) = jobFields key number expiresAt := rfl
    rw [if_neg hn, Option.bind_some, afterwards, runOn_bind, runOn_ofResult, hfields,
      make_valid hvalid, Option.bind_some, afterwards, runOn_invoke, performing_faulty rfl rfl] at h
    by_cases hn' : k+1 = n
    · rw [if_pos hn', Option.map_some, Option.bind_some, recovered, runOn_bind, runOn_undo] at h
      cases h
      exact Or.inl ⟨_, rfl, Or.inr hn'.symm, _, fun j hj => set_ne _ _ _ _ hj, rfl⟩
    · rw [if_neg hn'] at h
      cases h
      exact Or.inr ⟨rfl, rfl, Ne.symm hn, Ne.symm hn', _, rfl⟩

theorem draw_failing {r : Except Failure String}
    (h : RunsTo lib choices n k (sixDigits <$> invoke (Command.randbelow 1000000)) w r w' m) :
    ∃ number, number < 1000000 ∧ r = .ok (sixDigits number) ∧ w' = w ∧ m = k+1 := by
  have hrand : ∀ {r₁ w₁ k₁}, RunsTo lib choices n k (invoke (Command.randbelow 1000000)) w
      r₁ w₁ k₁ → ∃ number, number < 1000000 ∧ r₁ = .ok number ∧ w₁ = w ∧ k₁ = k+1 := by
    intro r₁ w₁ k₁ hr
    obtain ⟨hperform, hk⟩ := runOn_invoke_some hr
    simp only [performing, perform, Command.isLocal, Bool.true_eq_false, and_false, if_false,
      answer] at hperform
    split at hperform
    case isTrue hnumber =>
      cases hperform
      exact ⟨_, hnumber, rfl, rfl, hk⟩
    case isFalse => cases hperform
  rcases runOn_bind_some h with ⟨e, -, hr⟩ | ⟨number, w₁, k₁, hr, hpure⟩
  · obtain ⟨number, -, he, -⟩ := hrand hr
    cases he
  · obtain ⟨number', hnumber, he, rfl, rfl⟩ := hrand hr
    cases he
    change runOn _ _ _ (pure (sixDigits number)) _ = _ at hpure
    rw [runOn_pure, Option.some.injEq, Prod.mk.injEq, Prod.mk.injEq] at hpure
    exact ⟨number, hnumber, hpure.1.symm, hpure.2.1.symm, hpure.2.2.symm⟩

theorem sendCode_failing {r : Except Failure Unit}
    (ha : '@' ∈ address.toList ∧ address.length ≤ 320)
    (h : RunsTo lib choices n k (sendCode lib settings address .verify) w r w' m) :
    Sent settings ⟨address, .verify⟩ n k w r w' m := by
  rw [RunsTo, sendCode, runOn_bind, runOn_codes _ rfl] at h
  by_cases hn : k = n
  · rw [if_pos hn] at h
    cases h
    exact .unsent rfl (unsent_refl w) (Or.inr (Or.inl hn.symm))
  · rw [if_neg hn, Option.bind_some, afterwards] at h
    simp only [CodeCall.perform] at h
    cases hc : get w.now w.codes.cooldown (⟨address, .verify⟩ : CodeKey) with
    | some u =>
      simp only [hc] at h
      cases h
      exact .unsent rfl (unsent_refl w) (Or.inl hc)
    | none =>
      have hcool : ¬ Cooling w ⟨address, .verify⟩ := by
        intro hcooling
        rw [Cooling, hc] at hcooling
        cases hcooling
      simp only [hc, Bool.true_eq_false, if_false] at h
      rcases runOn_bind_some h with ⟨e, -, hdraw⟩ | ⟨code, w₁, k₁, hdraw, h⟩
      · obtain ⟨number, -, he, -⟩ := draw_failing hdraw
        cases he
      · obtain ⟨number, hnumber, he, rfl, rfl⟩ := draw_failing hdraw
        have hcode : code = sixDigits number := Except.ok.inj he
        rw [hcode, ← cooled, runOn_bind, runOn_utcnow, Option.bind_some, afterwards, runOn_bind,
          runOn_ofResult] at h
        cases ht : later w.now settings.authCodeMinutes with
        | error e =>
          rw [ht] at h
          cases h
          exact .undated rfl ht hcool (Ne.symm hn) rfl
        | ok t =>
          rw [ht, Option.bind_some, afterwards] at h
          have hvalid : postInit (jobFields ⟨address, .verify⟩ number t) = .ok () :=
            postInit_drawn .verify ha hnumber ht
          rcases deliver_failing hvalid h with ⟨e, rfl, hwhere, s, hs, rfl⟩ |
            ⟨rfl, rfl, h₀, h₁, job, rfl⟩
          · have hundone := unsent_undone ⟨address, .verify⟩
              ⟨s, (cooled w.now ⟨address, .verify⟩ w.codes).cooldown⟩ w hs
              (fun j hj => set_ne _ _ _ _ hj)
            exact .unsent rfl hundone (Or.inr (Or.inr ⟨⟨t, ht⟩, by omega⟩))
          · exact .sent rfl rfl hcool (Ne.symm hn) ⟨t, ht⟩ rfl ⟨job, rfl⟩

/-! ## The signup -/

/-- Before the rollback a row of the session itself may be flushed. -/
structure Pending (session : ℕ) (w w' : World) : Prop where
  users : w'.database.users = w.database.users
  flushed : ∀ x ∈ w'.database.flushed, x ∈ w.database.flushed ∨ x.1 = session

/-- A cooldown, or a job, that was not there. -/
def Left (w w' : World) (key : CodeKey) : Prop :=
  (∃ e, w'.codes.cooldown key = some e ∧ e.live w.now = true) ∨ w'.published ≠ w.published

theorem not_nothing {key : CodeKey} (hc : ¬ Cooling w key) (h : Left w w' key) :
    ¬ Nothing w w' := by
  intro hn
  rcases h with ⟨e, he, hl⟩ | hj
  · apply hc
    rw [Cooling, get_eq_some]
    exact ⟨e, hn.cooldown key e he, hl, rfl⟩
  · exact hj hn.published

/-- The position of the cooldown when the account is created from position `k` on. -/
def cooldownFrom (f : FilterSettings) (n k : ℕ) : ℕ :=
  if f.enabled = false then k+3 else if k+3 = n then k+5 else k+4

/-- How creating an account ends when it raises. -/
inductive Uncreated (settings : Settings) (f : FilterSettings) (session : ℕ) (address : Email)
    (n k : ℕ) (w w' : World) : Prop
  | clean (hp : Pending session w w')
      (hcode : ∀ key e, w'.codes.code key = some e → w.codes.code key = some e)
      (hcooldown : ∀ key e, w'.codes.cooldown key = some e → w.codes.cooldown key = some e)
      (hj : w'.published = w.published)
      (why : n = k+2 ∨ (∃ u ∈ w.database.users, u.email = address) ∨
        Cooling w ⟨address, .verify⟩ ∨ n = cooldownFrom f n k ∨
        ((∃ t, later w.now settings.authCodeMinutes = .ok t) ∧ n ≠ cooldownFrom f n k+5))
  | left (hp : Pending session w w') (hleft : Left w w' ⟨address, .verify⟩)
      (free : ¬∃ u ∈ w.database.users, u.email = address)
      (hc : ¬ Cooling w ⟨address, .verify⟩) (hflush : n ≠ k+2) (hn : n ≠ cooldownFrom f n k)
      (why : (¬∃ t, later w.now settings.authCodeMinutes = .ok t) ∨ n = cooldownFrom f n k+5)

/-- Once the row is flushed, nothing but it has changed, the filter apart. -/
structure Flushed (session : ℕ) (w w' : World) : Prop where
  now : w'.now = w.now
  codes : w'.codes = w.codes
  published : w'.published = w.published
  database : ∃ user, w'.database =
    { w.database with flushed := w.database.flushed ++ [(session, user)] }

theorem Flushed.pending {session : ℕ} (h : Flushed session w w') {w'' : World}
    (hdb : w''.database = w'.database) : Pending session w w'' := by
  obtain ⟨user, hflushed⟩ := h.database
  constructor
  · rw [hdb, hflushed]
  · intro x hx
    rw [hdb, hflushed] at hx
    rcases List.mem_append.mp hx with hx | hx
    · exact Or.inl hx
    · exact Or.inr (by rw [List.mem_singleton.mp hx])

theorem Flushed.cooling {session : ℕ} (h : Flushed session w w') (key : CodeKey) :
    Cooling w' key ↔ Cooling w key := by simp only [Cooling, h.now, h.codes]

theorem refused_uncreated {session : ℕ} {hash? : Option Hash} {e : Failure}
    (h : RunsTo lib choices n (k+1) (createUser session address hash? false) w (.error e) w' m) :
    Uncreated settings f session address n k w w' := by
  obtain ⟨-, hcodes, hpub, -, -, hend⟩ := createUser_failing h
  rcases hend with ⟨e₂, -, hdb, hwhy⟩ | ⟨user, he, -⟩
  · apply Uncreated.clean
    · exact ⟨by rw [hdb], fun x hx => Or.inl (hdb ▸ hx)⟩
    · intro key e he
      rwa [hcodes] at he
    · intro key e he
      rwa [hcodes] at he
    · exact hpub
    · rcases hwhy with hn | ht
      · exact Or.inl hn
      · exact Or.inr (Or.inl ht)
  · cases he

theorem unsent_uncreated {session : ℕ} {e : Failure} {w₁ : World}
    (ha : '@' ∈ address.toList ∧ address.length ≤ 320) (hf : Flushed session w w₁)
    (free : ¬∃ u ∈ w.database.users, u.email = address) (hflush : n ≠ k+2)
    (h : RunsTo lib choices n (cooldownFrom f n k) (sendCode lib settings address .verify) w₁
      (.error e) w' m) : Uncreated settings f session address n k w w' := by
  cases sendCode_failing ha h with
  | unsent _ hu hwhy =>
    apply Uncreated.clean (hf.pending hu.database)
    · intro key e he
      rw [← hf.codes]
      exact hu.code key e he
    · intro key e he
      rw [← hf.codes]
      exact hu.cooldown key e he
    · exact hu.published.trans hf.published
    · rw [hf.cooling, hf.now] at hwhy
      exact Or.inr (Or.inr hwhy)
  | undated _ ht hc hn hw =>
    rw [hf.cooling] at hc
    have hleft : Left w w' ⟨address, .verify⟩ := by
      refine Or.inl ⟨⟨(), ex w.now 60⟩, ?_, by simp [Entry.live, ex]⟩
      rw [hw]
      simp only [cooled, hf.now, set_self]
    apply Uncreated.left (hf.pending (by rw [hw])) hleft free hc hflush hn
    apply Or.inl
    rintro ⟨t, ht'⟩
    rw [hf.now, ht'] at ht
    cases ht
  | sent hr => cases hr

theorem uncommitted_uncreated {session : ℕ} {e : Failure} {w₁ w₂ : World} {k₂ : ℕ}
    (ha : '@' ∈ address.toList ∧ address.length ≤ 320) (hf : Flushed session w w₁)
    (free : ¬∃ u ∈ w.database.users, u.email = address) (hflush : n ≠ k+2)
    (hsend : RunsTo lib choices n (cooldownFrom f n k) (sendCode lib settings address .verify) w₁
      (.ok ()) w₂ k₂)
    (h : RunsTo lib choices n k₂ (commit session []) w₂ (.error e) w' m) :
    Uncreated settings f session address n k w w' := by
  cases sendCode_failing ha hsend with
  | unsent hr => cases hr
  | undated hr => cases hr
  | sent _ hm hc hn ht hdb hj =>
    obtain ⟨job, hjob⟩ := hj
    rw [hf.cooling] at hc
    subst hm
    rw [RunsTo, commit, database, runOn_invoke, performing_faulty rfl rfl] at h
    by_cases hk : cooldownFrom f n k+5 = n
    · rw [if_pos hk] at h
      cases h
      have hleft : Left w w₂ ⟨address, .verify⟩ := by
        apply Or.inr
        rw [hjob]
        intro hsame
        have hlen := congrArg List.length hsame
        rw [hf.published, List.length_append, List.length_singleton] at hlen
        omega
      exact .left (hf.pending hdb) hleft free hc hflush hn (Or.inr hk.symm)
    · rw [if_neg hk] at h
      cases h

theorem createAccount_failing {session : ℕ} {password : String} {e : Failure}
    (ha : '@' ∈ address.toList ∧ address.length ≤ 320)
    (h : RunsTo lib choices n k (createAccount lib settings f session address password) w
      (.error e) w' m) : Uncreated settings f session address n k w w' := by
  have hhash : runOn (performing lib) (faulty choices n) k (hash password) w =
      some (.ok (lib.hash password (choices k).name), w, k+1) := by
    rw [AuthService.hash, runOn_invoke]
    simp only [performing, perform, Command.isLocal, Bool.true_eq_false, and_false, if_false]
    rfl
  rw [RunsTo, createAccount, runOn_bind, hhash, Option.bind_some, afterwards] at h
  rcases runOn_bind_some h with ⟨e₁, -, hcreate⟩ | ⟨user, w₁, k₁, hcreate, h⟩
  · exact refused_uncreated hcreate
  · obtain ⟨hnow, hcodes, hpub, -, rfl, hend⟩ := createUser_failing hcreate
    rcases hend with ⟨e₂, he, -⟩ | ⟨user', -, hflush, free, hdb⟩
    · cases he
    · obtain ⟨filter, hremember⟩ := runOn_remember lib choices n f address (k+1+2) w₁
      have hpos : (if f.enabled = false then k+1+2 else if k+1+2 = n then k+1+2+2 else k+1+2+1) =
          cooldownFrom f n k := rfl
      rw [runOn_bind, hremember, Option.bind_some, afterwards, hpos] at h
      have hf : Flushed session w { w₁ with filter := filter } := ⟨hnow, hcodes, hpub, user', hdb⟩
      rcases runOn_bind_some h with ⟨e₁, -, hsend⟩ | ⟨u, w₂, k₂, hsend, hcommit⟩
      · exact unsent_uncreated ha hf free hflush hsend
      · exact uncommitted_uncreated ha hf free hflush hsend hcommit

/-- The handler takes the row back and touches neither keys nor jobs. -/
theorem handler_failing {session : ℕ} {e e' : Failure}
    (h : RunsTo lib choices n k (do
      rollback session
      if e = .integrityError then
        remember f address
        throw (.conflict "An account already exists for this email address.")
      else throw e : Act Unit) w (.error e') w' m) :
    w'.database = ended w.database session ∧ w'.codes = w.codes ∧ w'.published = w.published := by
  rw [RunsTo, runOn_bind, runOn_rollback, Option.bind_some, afterwards] at h
  split at h
  · obtain ⟨filter, hremember⟩ := runOn_remember lib choices n f address (k+1)
      { w with database := ended w.database session }
    rw [runOn_bind, hremember] at h
    cases h
    exact ⟨rfl, rfl, rfl⟩
  · cases h
    exact ⟨rfl, rfl, rfl⟩

theorem pending_ended {session : ℕ} {w₁ : World} (h : Pending session w w₁)
    (hw : w'.database = ended w₁.database session) :
    w'.database.users = w.database.users ∧
      ∀ x ∈ w'.database.flushed, x ∈ w.database.flushed := by
  constructor
  · rw [hw]
    exact h.users
  · intro x hx
    rw [hw] at hx
    obtain ⟨hx, hs⟩ := List.mem_filter.mp hx
    exact (h.flushed x hx).resolve_right (by simpa using hs)

section Positions

variable {hit : Bool}

theorem two_le_lookups (h : ¬ f.enabled = false) : 2 ≤ lookups f w address hit := by
  unfold lookups
  rw [if_neg h]
  split <;> decide

theorem early_of_cooldownFrom (hl : Looked f w address hit n k) (hn : n = cooldownFrom f n k) :
    n = cooldownAt f w address hit := by
  unfold Looked at hl
  unfold cooldownFrom at hn
  unfold cooldownAt flushAt
  by_cases hf : f.enabled = false
  · rw [if_pos hf] at hn ⊢
    omega
  · rw [if_neg hf] at hn ⊢
    split at hn <;> omega

/-- The commit is where it would be without the failure that came before it. -/
theorem commitAt_iff (hl : Looked f w address hit n k) :
    n = cooldownFrom f n k+5 ↔ n = commitAt f w address hit := by
  unfold Looked at hl
  unfold cooldownFrom commitAt cooldownAt flushAt
  by_cases hf : f.enabled = false
  · have hon : ¬ f.enabled = true := by simp [hf]
    rw [if_pos hf, if_pos hf]
    omega
  · have h2 : 2 ≤ lookups f w address hit := two_le_lookups hf
    rw [if_neg hf, if_neg hf]
    split <;> omega

theorem not_early (hl : Looked f w address hit n k) (hflush : n ≠ k+2)
    (hn : n ≠ cooldownFrom f n k) : ¬ Early f w address hit n := by
  unfold Looked at hl
  unfold cooldownFrom at hn
  unfold Early cooldownAt flushAt
  by_cases hf : f.enabled = false
  · have hon : ¬ f.enabled = true := by simp [hf]
    rw [if_pos hf] at hn ⊢
    rcases hl with hl | ⟨-, -, hf'⟩
    · omega
    · exact absurd hf' hon
  · have h2 : 2 ≤ lookups f w address hit := two_le_lookups hf
    rw [if_neg hf] at hn ⊢
    split at hn <;> omega

end Positions

theorem not_spared {email password : String} {hit : Bool}
    (ha : normalizeEmail lib email = .ok address) (hp : checkPassword password = .ok ())
    (free : ¬∃ u ∈ w.database.users, u.email = address) (hc : ¬ Cooling w ⟨address, .verify⟩)
    (hearly : ¬ Early f w address hit n)
    (hwhy : (¬∃ t, later w.now settings.authCodeMinutes = .ok t) ∨
      n = commitAt f w address hit) : ¬ Spared lib settings f w email password hit n := by
  intro hs
  cases hs with
  | malformed h => exact h address ha
  | short h => exact h hp
  | taken ha' h =>
    cases ha.symm.trans ha'
    exact free h
  | cooling ha' h =>
    cases ha.symm.trans ha'
    exact hc h
  | early ha' h =>
    cases ha.symm.trans ha'
    exact hearly h
  | undone ha' ht h =>
    cases ha.symm.trans ha'
    rcases hwhy with hwhy | hwhy
    · exact hwhy ht
    · exact h hwhy

/-- A signup that raises because of one failing call leaves nothing just when it is
spared. -/
theorem all_or_nothing_iff (lib : Libraries) (settings : Settings) (f : FilterSettings)
    (session : ℕ) (email password : String) (choices : ℕ → Choice) (n m : ℕ) (w w' : World)
    (e : Failure)
    (h : runOn (performing lib) (faulty choices n) 0
      (signup lib settings f session email password) w = some (.error e, w', m)) :
    Nothing w w' ↔ Spared lib settings f w email password (choices 1).hit n := by
  rw [signup, runOn_bind, runOn_ofResult] at h
  cases ha : normalizeEmail lib email with
  | error e₁ =>
    rw [ha] at h
    cases h
    exact iff_of_true (nothing_refl w) (.malformed (by simp [ha]))
  | ok address =>
    rw [ha, Option.bind_some, afterwards, runOn_bind, runOn_ofResult] at h
    cases hp : checkPassword password with
    | error e₁ =>
      rw [hp] at h
      cases h
      exact iff_of_true (nothing_refl w) (.short (by simp [hp]))
    | ok u =>
      rw [hp, Option.bind_some, afterwards] at h
      rcases runOn_bind_some h with ⟨e₁, -, hlook⟩ | ⟨taken, w₁, k, hlook, h⟩
      · obtain ⟨rfl, hend⟩ := emailTaken_failing hlook
        rcases hend with ⟨e₂, -, h2, hn⟩ | ⟨he, -⟩ | ⟨he, -⟩
        · exact iff_of_true (nothing_refl w') (.early ha (Or.inl ⟨h2, hn⟩))
        · cases he
        · cases he
      · obtain ⟨rfl, hend⟩ := emailTaken_failing hlook
        rcases hend with ⟨e₂, he, -⟩ | ⟨he, ht⟩ | ⟨he, hl⟩
        · cases he
        · cases he
          cases h
          exact iff_of_true (nothing_refl _) (.taken ha ht)
        · cases he
          rw [if_neg Bool.false_ne_true, runOn_tryCatch] at h
          obtain ⟨⟨r, w₂, k₂⟩, hcreate, h⟩ := Option.bind_eq_some_iff.mp h
          cases r with
          | ok u => cases h
          | error e₁ =>
            obtain ⟨hdb, hcodes, hpub⟩ := handler_failing h
            cases createAccount_failing (valid_address ha) hcreate with
            | clean hpending hcode hcooldown hj hwhy =>
              obtain ⟨husers, hflushed⟩ := pending_ended hpending hdb
              have hnothing : Nothing w₁ w' := by
                constructor
                · exact husers
                · exact hflushed
                · rw [hcodes]
                  exact hcode
                · rw [hcodes]
                  exact hcooldown
                · exact hpub.trans hj
              apply iff_of_true hnothing
              rcases hwhy with hn | ht | hc | hn | ⟨ht, hn⟩
              · refine .early ha (Or.inr (Or.inl ?_))
                unfold Looked at hl
                unfold flushAt
                omega
              · exact .taken ha ht
              · exact .cooling ha hc
              · exact .early ha (Or.inr (Or.inr (early_of_cooldownFrom hl hn)))
              · exact .undone ha ht (fun hn' => hn ((commitAt_iff hl).mpr hn'))
            | left hpending hleft free hc hflush hn hwhy =>
              have hleft' : Left w₁ w' ⟨address, .verify⟩ := by
                rw [Left, hcodes, hpub]
                exact hleft
              apply iff_of_false (not_nothing hc hleft')
              apply not_spared ha hp free hc (not_early hl hflush hn)
              rcases hwhy with ht | hn'
              · exact Or.inl ht
              · exact Or.inr ((commitAt_iff hl).mp hn')

/-! ## A signup that fails -/

def nobody : World := World.fresh 0 ⟨[], [], []⟩

/-- A signup without the filter, in database session `session`, whose call number `n` fails. -/
def signupFailing (session n : ℕ) (id : String) (w : World) :
    Option (Except Failure Unit × World × ℕ) :=
  runOn (performing Requests.plainLibraries) (faulty (fun _ => { name := id }) n) 0
    (signup Requests.plainLibraries Requests.plainSettings Requests.withoutFilter session "a@b"
      "long password") w

theorem raised_of_signupFailing {n : ℕ}
    (h : (signupFailing 0 n "u" nobody).map Prod.fst = some (.error .external)) :
    ∃ w' m, signupFailing 0 n "u" nobody = some (.error .external, w', m) := by
  obtain ⟨⟨r, w', m⟩, hr, rfl⟩ := Option.map_eq_some_iff.mp h
  exact ⟨w', m, hr⟩

/-- A failed publish is undone. -/
theorem nothing_after_publish : ∃ w' m,
    signupFailing 0 8 "u" nobody = some (.error .external, w', m) ∧ Nothing nobody w' := by
  obtain ⟨w', m, h⟩ := raised_of_signupFailing (n := 8) (by decide +kernel)
  have hlater : ∃ t, later nobody.now Requests.plainSettings.authCodeMinutes = .ok t :=
    ⟨_, rfl⟩
  have haddress : normalizeEmail Requests.plainLibraries "a@b" = .ok "a@b" := rfl
  exact ⟨w', m, h, (all_or_nothing_iff _ _ _ _ _ _ _ _ _ _ _ _ h).mpr
    (.undone haddress hlater (by decide))⟩

/-- A failed commit leaves a job and the cooldown, which refuses the signup that follows. -/
theorem code_after_commit : ∃ w' m,
    signupFailing 0 9 "u" nobody = some (.error .external, w', m) ∧ ¬Nothing nobody w' ∧
      (signupFailing 1 100 "v" w').map Prod.fst =
        some (.error (.badRequest "Please wait before requesting another code.")) := by
  obtain ⟨w', m, h⟩ := raised_of_signupFailing (n := 9) (by decide +kernel)
  have hpublished : (signupFailing 0 9 "u" nobody).map (fun r => r.2.1.published.length) =
      some 1 := by decide +kernel
  have hretry : (signupFailing 0 9 "u" nobody).bind
      (fun r => (signupFailing 1 100 "v" r.2.1).map Prod.fst) =
      some (.error (.badRequest "Please wait before requesting another code.")) := by
    decide +kernel
  rw [h] at hpublished hretry
  refine ⟨w', m, h, ?_, hretry⟩
  intro hn
  rw [Option.map_some, hn.published] at hpublished
  cases hpublished

end Gamely.FailedSignup
