import Gamely.Credentials

/-!
# Verified addresses

A code stored under the verification key of an address was generated for that key,
also where a failed attempt wrote it back. An account is therefore verified by a
request that presents such a code, or by a provider login whose token names the
address.
-/

set_option autoImplicit false

namespace Gamely.Verification
open Gamely.Calls Gamely.Stores Gamely.EmailJobs Gamely.ExpiringStore Gamely.Services
open Gamely.EmailFilter Gamely.AuthService Gamely.OAuthService Gamely.Requests
open Gamely.Interleaving Gamely.SessionMoves Gamely.AccountContract Gamely.AccountMoves
open Gamely.Credentials

variable (lib : Libraries) (settings : Settings)

/-! ## Proofs of an address -/

/-- `_send_code` generated the code for the key: one request took the cooldown of the
key and drew the number. -/
def Generated (h : Past) (key : CodeKey) (code : String) : Prop :=
  ∃ j q q' n, (⟨j, q, .code (.setCooldown key 60), .ok true⟩ : Occurrence) ∈ h ∧
    (⟨j, q', .randbelow 1000000, .ok n⟩ : Occurrence) ∈ h ∧ code = sixDigits n

/-- A request to verify the address presented a code generated for it. -/
def Shown (h : Past) (address : Email) : Prop :=
  ∃ j email code changes, (⟨j, .verifyEmail email code, .database (.commit j changes), .ok ()⟩ :
      Occurrence) ∈ h ∧
    normalizeEmail lib email = .ok address ∧ Generated h ⟨address, .verify⟩ code

/-- A provider login had a token checked whose claims vouch for the address. -/
def Attested (h : Past) (address : Email) : Prop :=
  ∃ j f provider idToken nonce config claims, (⟨j, .oauthLogin f provider idToken nonce,
      .idToken config.jwksUrl config.clientId idToken, .ok (some claims)⟩ : Occurrence) ∈ h ∧
    Attests lib settings provider nonce config claims address

def Proven (h : Past) (address : Email) : Prop :=
  Shown lib h address ∨ Attested lib settings h address

/-! ## What the history says of the hands -/

/-- Every code a request read under a verification key was generated for it, and what
it took, drew and had checked was answered in the past. -/
structure Traced (h : Past) (j : ℕ) (g : Hand) : Prop where
  sending : ∀ key, g.sending = some key →
    ∃ q, (⟨j, q, .code (.setCooldown key 60), .ok true⟩ : Occurrence) ∈ h
  number : ∀ n, g.number = some n → ∃ q, (⟨j, q, .randbelow 1000000, .ok n⟩ : Occurrence) ∈ h
  payload : ∀ key p, g.payload = some (key, p) →
    ∃ code, Generated h key code ∧ lib.sha256 code = p.digest
  checked : ∀ q jwksUrl clientId idToken claims,
    g.checked = some (q, ⟨jwksUrl, clientId, idToken, claims⟩) →
    (⟨j, q, .idToken jwksUrl clientId idToken, .ok (some claims)⟩ : Occurrence) ∈ h

structure Grounded (v : View) (hands : ℕ → Hand) (h : Past) : Prop where
  traced : ∀ j, Traced lib h j (hands j)
  code : ∀ key d, v.code key = some d → ∃ code, Generated h key code ∧ lib.sha256 code = d
  users : ∀ u ∈ v.users, u.emailVerifiedAt ≠ none → Proven lib settings h u.email
  flushed : ∀ j row, (j, row) ∈ v.flushed → row.emailVerifiedAt ≠ none →
    Proven lib settings h row.email

variable {lib settings} {h : Past} {e : Occurrence}

theorem generated_append {key : CodeKey} {code : String} (hg : Generated h key code) :
    Generated (h ++ [e]) key code := by
  obtain ⟨j, q, q', n, hc, hn, he⟩ := hg
  exact ⟨j, q, q', n, List.mem_append_left _ hc, List.mem_append_left _ hn, he⟩

theorem proven_append {address : Email} (hp : Proven lib settings h address) :
    Proven lib settings (h ++ [e]) address := by
  rcases hp with ⟨j, email, code, changes, hm, he, hg⟩ | ⟨j, f, provider, idToken, nonce, config,
    claims, hm, ha⟩
  · exact Or.inl ⟨j, email, code, changes, List.mem_append_left _ hm, he, generated_append hg⟩
  · exact Or.inr ⟨j, f, provider, idToken, nonce, config, claims, List.mem_append_left _ hm, ha⟩

theorem traced_append {j : ℕ} {g : Hand} (ht : Traced lib h j g) : Traced lib (h ++ [e]) j g where
  sending := by
    intro key hk
    obtain ⟨q, hq⟩ := ht.sending key hk
    exact ⟨q, List.mem_append_left _ hq⟩
  number := by
    intro n hn
    obtain ⟨q, hq⟩ := ht.number n hn
    exact ⟨q, List.mem_append_left _ hq⟩
  payload := by
    intro key p hp
    obtain ⟨code, hg, hd⟩ := ht.payload key p hp
    exact ⟨code, generated_append hg, hd⟩
  checked := fun q jwksUrl clientId idToken claims hc =>
    List.mem_append_left _ (ht.checked q jwksUrl clientId idToken claims hc)

/-! ## Moves -/

theorem verified_changes (changes : List Change) (u : User)
    (hv : (changes.foldl onUser u).emailVerifiedAt ≠ none) :
    u.emailVerifiedAt ≠ none ∨ ∃ t, .emailVerifiedAt u.id t ∈ changes := by
  induction changes generalizing u with
  | nil => exact Or.inl hv
  | cons change changes ih =>
    rcases ih (onUser u change) hv with hu | ⟨t, ht⟩
    · cases change with
      | emailVerifiedAt user t =>
        simp only [onUser] at hu
        split at hu
        case isTrue he => exact Or.inr ⟨t, he ▸ List.mem_cons_self⟩
        case isFalse => exact Or.inl hu
      | passwordHash user h =>
        simp only [onUser] at hu
        split at hu <;> exact Or.inl hu
      | identity row => exact Or.inl hu
    · rw [(onUser_kept change u).1] at ht
      exact Or.inr ⟨t, List.mem_cons_of_mem _ ht⟩

theorem attested_of_vouched {j : ℕ} {q : Request} {g : Hand} {address : Email}
    (ht : Traced lib h j g) (hv : Vouched lib settings q g address) :
    Attested lib settings h address := by
  obtain ⟨f, provider, idToken, nonce, config, claims, rfl, hc, ha⟩ := hv
  exact ⟨j, f, provider, idToken, nonce, config, claims, ht.checked _ _ _ _ _ hc, ha⟩

variable {v v' : View} {hands : ℕ → Hand} {i : ℕ} {q : Request} {c : Command}
  {reply : Except Failure (Reply c)} {g' : Hand}

/-- A change that verifies an account comes with a proof of its address. -/
theorem proven_of_justified (hsha : Function.Injective lib.sha256) (hs : Sound v hands)
    (hg : Grounded lib settings v hands h) {changes : List Change} {u : User} {t : ℕ}
    (hu : u ∈ v.users ++ rowsOf v i)
    (hj : Justified lib settings q (hands i) (.emailVerifiedAt u.id t)) :
    Proven lib settings (h ++ [⟨i, q, .database (.commit i changes), .ok ()⟩]) u.email := by
  obtain ⟨row, address, hfound, hasked, hid, hgrounds⟩ := hj
  obtain ⟨w, hw, hsame⟩ := (hs.fits i).found row hfound
  have haddress : row.email = address := (hs.fits i).asked row address hfound hasked
  have hemail : u.email = row.email := by
    have := same_of_id hs.owned hu (List.mem_append_left _ hw) (hid.symm.trans hsame.1.symm)
    rw [this.2.1, hsame.2.1]
  rw [hemail]
  rcases hgrounds with hv | ⟨email, code, p, rfl, hn, hp, hd⟩
  · rw [haddress]
    exact proven_append (Or.inr (attested_of_vouched (hg.traced i) hv))
  · obtain ⟨code', hcode, hd'⟩ := (hg.traced i).payload _ p hp
    obtain rfl : code' = code := hsha (hd'.trans hd)
    refine Or.inl ⟨i, email, code', changes, ?_, haddress ▸ hn, generated_append hcode⟩
    exact List.mem_append_right _ (List.mem_singleton.mpr rfl)

theorem traced_move (hg : Grounded lib settings v hands h)
    (hm : Moves lib settings i q v (hands i) c reply v' g') :
    Traced lib (h ++ [⟨i, q, c, reply⟩]) i g' := by
  have old : Traced lib (h ++ [⟨i, q, c, reply⟩]) i (hands i) := traced_append (hg.traced i)
  have last : (⟨i, q, c, reply⟩ : Occurrence) ∈ h ++ [⟨i, q, c, reply⟩] :=
    List.mem_append_right _ (List.mem_singleton.mpr rfl)
  cases hm with
  | number n =>
    refine ⟨old.sending, ?_, old.payload, old.checked⟩
    rintro _ ⟨⟩
    exact ⟨q, last⟩
  | cool key grounds =>
    refine ⟨?_, old.number, old.payload, old.checked⟩
    rintro _ ⟨⟩
    exact ⟨q, last⟩
  | readCode key payload seen =>
    refine ⟨old.sending, old.number, ?_, old.checked⟩
    intro key' p hp
    obtain ⟨p', hp', he⟩ := Option.map_eq_some_iff.mp hp
    cases he
    obtain ⟨code, hc, hd⟩ := hg.code key p.digest (seen p hp')
    exact ⟨code, generated_append hc, hd⟩
  | check jwksUrl clientId idToken claims =>
    refine ⟨old.sending, old.number, old.payload, ?_⟩
    rintro _ _ _ _ _ ⟨⟩
    exact last
  | draw | look | create => exact ⟨old.sending, old.number, old.payload, old.checked⟩
  | _ => exact old

theorem grounded_move (hsha : Function.Injective lib.sha256) (hs : Sound v hands)
    (hg : Grounded lib settings v hands h)
    (hm : Moves lib settings i q v (hands i) c reply v' g') :
    Grounded lib settings v' (Function.update hands i g') (h ++ [⟨i, q, c, reply⟩]) := by
  have htraced : ∀ j, Traced lib (h ++ [⟨i, q, c, reply⟩]) j (Function.update hands i g' j) := by
    intro j
    by_cases hj : j = i
    · subst hj
      rw [Function.update_self]
      exact traced_move hg hm
    · rw [Function.update_of_ne hj]
      exact traced_append (hg.traced j)
  have hcode : ∀ key d, v.code key = some d → ∃ code,
      Generated (h ++ [⟨i, q, c, reply⟩]) key code ∧ lib.sha256 code = d := by
    intro key d hd
    obtain ⟨code, hc, he⟩ := hg.code key d hd
    exact ⟨code, generated_append hc, he⟩
  have husers : ∀ u ∈ v.users, u.emailVerifiedAt ≠ none →
      Proven lib settings (h ++ [⟨i, q, c, reply⟩]) u.email :=
    fun u hu hv => proven_append (hg.users u hu hv)
  have hflushed : ∀ j row, (j, row) ∈ v.flushed → row.emailVerifiedAt ≠ none →
      Proven lib settings (h ++ [⟨i, q, c, reply⟩]) row.email :=
    fun j row hm hv => proven_append (hg.flushed j row hm hv)
  cases hm with
  | writeCode key payload ttl grounds =>
    refine ⟨htraced, ?_, husers, hflushed⟩
    intro key' d hd
    dsimp only at hd
    by_cases hk : key' = key
    · subst hk
      rw [Function.update_self] at hd
      cases hd
      rcases grounds with ⟨hsending, n, hn, he⟩ | ⟨p, hp, he⟩
      · obtain ⟨q₁, hq₁⟩ := (hg.traced i).sending key' hsending
        obtain ⟨q₂, hq₂⟩ := (hg.traced i).number n hn
        exact ⟨sixDigits n, generated_append ⟨i, q₁, q₂, n, hq₁, hq₂, rfl⟩, he.symm⟩
      · obtain ⟨code, hc, hd⟩ := (hg.traced i).payload key' p hp
        exact ⟨code, generated_append hc, hd.trans he.symm⟩
    · rw [Function.update_of_ne hk] at hd
      exact hcode key' d hd
  | dropCode c reply key =>
    refine ⟨htraced, ?_, husers, hflushed⟩
    intro key' d hd
    dsimp only at hd
    by_cases hk : key' = key
    · subst hk
      rw [Function.update_self] at hd
      cases hd
    · rw [Function.update_of_ne hk] at hd
      exact hcode key' d hd
  | create row named first vouched free alone =>
    refine ⟨htraced, hcode, husers, ?_⟩
    intro j row' hm hv
    rcases List.mem_append.mp hm with hm | hm
    · exact hflushed j row' hm hv
    · cases List.mem_singleton.mp hm
      exact proven_append (Or.inr (attested_of_vouched (hg.traced i) (vouched hv)))
  | commit changes credential justified =>
    refine ⟨htraced, hcode, ?_, fun j row hm => hflushed j row (List.mem_of_mem_filter hm)⟩
    intro u' hu' hv
    obtain ⟨u, hu, rfl⟩ := List.mem_map.mp hu'
    have harmless : ∀ change ∈ changes, Harmless (v.users ++ rowsOf v i) change :=
      fun change hc => harmless_of_justified hs.owned (hs.fits i) (justified change hc)
    rw [(same_changes hu changes harmless u (same_refl u)).2.1]
    rcases verified_changes changes u hv with hu' | ⟨t, ht⟩
    · rcases List.mem_append.mp hu with hu | hu
      · exact husers u hu hu'
      · exact hflushed i u ((rowsOf_iff u).mp hu) hu'
    · exact proven_of_justified hsha hs hg hu (justified _ ht)
  | close c reply flushed fewer =>
    exact ⟨htraced, hcode, husers, fun j row hm => hflushed j row (fewer hm)⟩
  | _ => exact ⟨htraced, hcode, husers, hflushed⟩

/-! ## Runs -/

structure Verified (lib : Libraries) (settings : Settings) (w : World) (h : Past) : Prop where
  sound : Sound (view w) (ghost (contract lib settings) h)
  grounded : Grounded lib settings (view w) (ghost (contract lib settings) h) h

theorem preserved (hsha : Function.Injective lib.sha256) :
    Preserved (service lib settings) (contract lib settings) (fun _ _ => True)
      (Verified lib settings) where
  call := by
    intro s i x q c reply w hi _ ha hp _
    have hm := moves_of_perform c x reply ha hp
    constructor
    · rw [ghost_append]
      exact sound_move hi.sound hm
    · rw [ghost_append]
      exact grounded_move hsha hi.sound hi.grounded hm
  pass := by
    intro s d hi _
    apply Verified.mk (sound_passed d s.world hi.sound)
    rcases view_passed d s.world with he | ⟨key, he⟩
    · exact he ▸ hi.grounded
    · rw [he]
      refine ⟨hi.grounded.traced, ?_, hi.grounded.users, hi.grounded.flushed⟩
      intro key' d hd
      dsimp only at hd
      by_cases hk : key' = key
      · subst hk
        rw [Function.update_self] at hd
        cases hd
      · rw [Function.update_of_ne hk] at hd
        exact hi.grounded.code key' d hd

theorem grounded_fresh (now : ℕ) :
    Grounded lib settings (view (World.fresh now noAccounts)) (fun _ => Hand.empty) [] where
  traced := fun _ => {
    sending := fun _ h => by cases h
    number := fun _ h => by cases h
    payload := fun _ _ h => by cases h
    checked := fun _ _ _ _ _ h => by cases h }
  code := fun _ _ h => by cases h
  users := fun _ h => by cases h
  flushed := fun _ _ h => by cases h

/-- Every verified account was verified on a proof of its own address. -/
theorem verified_on_proof (lib : Libraries) (settings : Settings)
    (hsha : Function.Injective lib.sha256) (now : ℕ) (ls : List (Label Request Choice Passing)) :
    let s := run (service lib settings) ls (initial (World.fresh now noAccounts))
    ∀ u ∈ s.world.database.users, u.emailVerifiedAt ≠ none →
      Proven lib settings s.history u.email := by
  intro s u hu hv
  have hrun : Verified lib settings s.world s.history :=
    invariant_run (obeys lib settings) (preserved hsha) ls _ (following_initial _)
      ⟨sound_fresh now, grounded_fresh now⟩ (meets_trivial ls _)
  exact hrun.grounded.users u hu hv

/-- A signup and the request that presents its code. -/
def signedUp : List (Label Request Choice Passing) :=
  .spawn (.signup withoutFilter "a@b" "long password" "1.2.3.4") ::
    steps 0 ["", "", "", "u", "", "", "", "", "", "", "", ""] ++
  .spawn (.verifyEmail "a@b" "000000") :: steps 1 ["", "", "", "", "", ""]

theorem verified_on_proof_signedUp :
    Proven plainLibraries plainSettings
      (run (service plainLibraries plainSettings) signedUp
        (initial (World.fresh 0 noAccounts))).history "a@b" :=
  verified_on_proof plainLibraries plainSettings Function.injective_id 0 signedUp
    ⟨"u", "a@b", some "long password", some 0⟩ (by decide +kernel) (by decide)

end Gamely.Verification
