import Gamely.SignIns
import Mathlib.Data.List.Nodup

/-!
# Competing sign-ins

The unique indexes settle every race between first sign-ins. A signup turns the refusal
of its insert into a conflict; a login lets it through, so sign-ins resolve in every run
in which no login's insert or commit meets a row that another request committed first.
-/

set_option autoImplicit false

namespace Gamely.SignInRaces
open Gamely.Calls Gamely.Stores Gamely.EmailJobs Gamely.Services Gamely.TokenService
open Gamely.EmailFilter Gamely.AuthService Gamely.OAuthService Gamely.Requests
open Gamely.Interleaving Gamely.Relying Gamely.SignIns
open Gamely.AccountMoves (added onUser apply_changes changes_kept)

/-! ## What is to be shown -/

def accountsOf (s : Service) (address : Email) : List User :=
  s.world.database.users.filter (fun u => u.email = address)

def identitiesOf (s : Service) (provider subject : String) : List OAuthIdentity :=
  s.world.database.identities.filter (fun r => r.provider = provider ∧ r.subject = subject)

def isApplication : Failure → Bool
  | .badRequest _ => true
  | .unauthorized _ => true
  | .conflict _ => true
  | .tooManyRequests _ => true
  | .serviceUnavailable _ => true
  | _ => false

/-- A request that ended in an error which is none of the application's. -/
def isInternal : Except Failure Answer → Bool
  | .ok _ => false
  | .error e => !isApplication e

/-- The identity a look-up was answered with. -/
def identityRead : (c : Command) → Except Failure (Reply c) → Option OAuthIdentity
  | .database (.byIdentity ..), .ok found => found
  | _, _ => none

variable (lib : Libraries) (settings : Settings)

/-- A request that succeeded did so on an account that is there: a signup on that of its
address, a login on that of its identity, which is the one of the address unless the
login found the identity linked. -/
def OnAccount (s : Service) (i : ℕ) (answer : Answer) : Request → Prop
  | .signup _ email _ _ => answer = .status "verification_sent" ∧
    ∃ address, normalizeEmail lib email = .ok address ∧ (accountsOf s address).length = 1
  | .oauthLogin _ provider idToken nonce => ∃ grant config claims address,
    answer = .granted grant ∧
    Genuine lib settings provider idToken nonce config claims address ∧
    (accountsOf s grant.user.email).map User.id = [grant.user.id] ∧
    identitiesOf s provider claims.subject = [⟨grant.user.id, provider, claims.subject⟩] ∧
    (grant.user.email = address ∨ ∃ e ∈ s.history, e.thread = i ∧
      identityRead e.command e.reply = some ⟨grant.user.id, provider, claims.subject⟩)
  | _ => True

/-- One account for an address and one row for an identity at most, every success on such
an account, every failure an error of the application, and one account for the address of
every signup that has ended and was not turned away before it looked. -/
structure Resolved (s : Service) : Prop where
  accounts : ∀ address, (accountsOf s address).length ≤ 1
  identities : ∀ provider subject, (identitiesOf s provider subject).length ≤ 1
  succeeded : ∀ i q answer,
    endedWith s i = some (q, .ok answer) → OnAccount lib settings s i answer q
  failed : ∀ i q r, endedWith s i = some (q, r) → isSignup q = true ∨ isLogin q = true →
    isInternal r = false
  settled : ∀ i f email password client r address,
    endedWith s i = some (.signup f email password client, r) →
    normalizeEmail lib email = .ok address → checkPassword password = .ok () →
    r = .error throttled ∨ (accountsOf s address).length = 1

/-- No login's insert meets an account of its address and no login's commit an identity of
its provider and subject that another request has committed, and a signup that dates its
code does so within the calendar. -/
def Unraced (s : Service) (_ : ℕ) (_ : Choice) : Request → Command → Prop
  | .oauthLogin .., .database (.createUser _ row) =>
    ∀ u ∈ s.world.database.users, u.email ≠ row.email
  | .oauthLogin .., .database (.commit _ changes) =>
    ∀ row ∈ links changes, ∀ r ∈ s.world.database.identities,
      ¬(r.provider = row.provider ∧ r.subject = row.subject)
  | .signup .., .utcnow => ∃ t, later s.world.now settings.authCodeMinutes = .ok t
  | _, _ => True

instance (now minutes : ℕ) : Decidable (∃ t, later now minutes = .ok t) :=
  match h : later now minutes with
  | .ok t => isTrue ⟨t, rfl⟩
  | .error e => isFalse (fun ⟨t, ht⟩ => by cases ht)

instance (s : Service) (i : ℕ) (x : Choice) (q : Request) (c : Command) :
    Decidable (Unraced settings s i x q c) := by
  unfold Unraced
  split <;> infer_instance

/-- What the unique indexes keep, with no transaction open. -/
structure Constrained (database : Database) : Prop where
  emails : (database.users.map User.email).Nodup
  identities : (database.identities.map (fun r => (r.provider, r.subject))).Nodup
  closed : database.flushed = []

/-! ## The tables and the hands -/

/-- What a hand has seen committed is there, and the row it has flushed and not committed
is the one its session has open. -/
structure Held (database : Database) (i : ℕ) (g : Hand) : Prop where
  flushed : ∀ row, (i, row) ∈ database.flushed ↔ g.made = some row
  address : ∀ a, g.address = some a → ∃ u ∈ database.users, u.email = a
  owner : ∀ row, g.owner = some row → ∃ u ∈ database.users, u.id = row.id ∧ u.email = row.email
  linked : ∀ row, g.linked = some row → row ∈ database.identities
  read : ∀ row, g.read = some row → row ∈ database.identities

/-- The row in a hand for which a code was sent. -/
def Awaits (g : Hand) (address : Email) : Prop :=
  ∃ row, g.made = some row ∧ g.cooled = true ∧ row.email = address

/-- No two rows have an address, flushed ones included. A cooldown is that of an account,
or of the row in some hand; a nonce was drawn for a provider. -/
structure Sound (w : World) (hand : ℕ → Hand) : Prop where
  addresses : ((w.database.users ++ w.database.flushed.map Prod.snd).map User.email).Nodup
  identities : (w.database.identities.map (fun r => (r.provider, r.subject))).Nodup
  held : ∀ i, Held w.database i (hand i)
  cooled : ∀ a, w.codes.cooldown ⟨a, .verify⟩ ≠ none →
    (∃ u ∈ w.database.users, u.email = a) ∨ ∃ i, Awaits (hand i) a
  nonces : ∀ key, w.nonces key ≠ none →
    ∃ provider nonce, key = nonceKey provider nonce ∧ ':' ∉ provider.toList ∧ urlSafe nonce = true

variable {lib settings} {w w' : World} {hand : ℕ → Hand} {i : ℕ} {q : Request}

theorem sound_fresh {database : Database} (h : Constrained database) (now : ℕ) :
    Sound (World.fresh now database) (fun _ => Hand.empty) where
  addresses := by
    show ((database.users ++ database.flushed.map Prod.snd).map User.email).Nodup
    rw [h.closed, List.map_nil, List.append_nil]
    exact h.emails
  identities := h.identities
  held := by
    intro i
    constructor
    · intro row
      show (i, row) ∈ database.flushed ↔ _
      simp [h.closed, Hand.empty]
    · exact fun a ha => by cases ha
    · exact fun row hrow => by cases hrow
    · exact fun row hrow => by cases hrow
    · exact fun row hrow => by cases hrow
  cooled := fun a ha => absurd rfl ha
  nonces := fun key hk => absurd rfl hk

theorem sound_quiet (hs : Sound w hand) (hdb : w'.database = w.database)
    (hcooldown : ∀ k, w'.codes.cooldown k ≠ none → w.codes.cooldown k ≠ none)
    (hnonces : ∀ k, w'.nonces k ≠ none → w.nonces k ≠ none) : Sound w' hand where
  addresses := by
    rw [hdb]
    exact hs.addresses
  identities := by
    rw [hdb]
    exact hs.identities
  held := by
    rw [hdb]
    exact hs.held
  cooled := by
    rw [hdb]
    exact fun a ha => hs.cooled a (hcooldown _ ha)
  nonces := fun k hk => hs.nonces k (hnonces k hk)

theorem each_update (P : ℕ → Hand → Prop) {g : Hand} (hs : ∀ j, P j (hand j)) (hg : P i g) :
    ∀ j, P j (Function.update hand i g j) :=
  (Function.forall_update_iff hand P).mpr ⟨hg, fun j _ => hs j⟩

/-- A hand that changes awaits what it did, or the address is no longer asked about. -/
theorem awaits_update {g : Hand} {a : Email} {P : Prop} (hg : Awaits (hand i) a → P ∨ Awaits g a)
    (h : ∃ j, Awaits (hand j) a) : P ∨ ∃ j, Awaits (Function.update hand i g j) a := by
  obtain ⟨j, hj⟩ := h
  by_cases hji : j = i
  · subst hji
    rcases hg hj with hp | hg
    · exact Or.inl hp
    · refine Or.inr ⟨j, ?_⟩
      rw [Function.update_self]
      exact hg
  · refine Or.inr ⟨j, ?_⟩
    rw [Function.update_of_ne hji]
    exact hj

theorem sound_hand (hs : Sound w hand) {g : Hand} (hg : Held w.database i g)
    (hawaits : ∀ a, Awaits (hand i) a → Awaits g a) : Sound w (Function.update hand i g) where
  addresses := hs.addresses
  identities := hs.identities
  held := each_update (Held w.database) hs.held hg
  cooled := by
    intro a ha
    rcases hs.cooled a ha with hu | h
    · exact Or.inl hu
    · exact awaits_update (fun hi => Or.inr (hawaits a hi)) h
  nonces := hs.nonces

theorem sound_create (hs : Sound w hand) {row : User} (hmade : (hand i).made = none)
    (hfree : ∀ u ∈ w.database.users, u.email ≠ row.email)
    (halone : ∀ x ∈ w.database.flushed, x.2.email = row.email → x.1 = i) :
    Sound { w with database := { w.database with flushed := w.database.flushed ++ [(i, row)] } }
      (Function.update hand i { hand i with made := some row }) where
  addresses := by
    show ((w.database.users ++ (w.database.flushed ++ [(i, row)]).map Prod.snd).map
      User.email).Nodup
    have hone : (w.database.users ++ (w.database.flushed ++ [(i, row)]).map Prod.snd).map
        User.email = (w.database.users ++ w.database.flushed.map Prod.snd).map User.email ++
          [row.email] := by simp
    rw [hone, List.nodup_append]
    refine ⟨hs.addresses, List.nodup_singleton _, ?_⟩
    intro a ha b hb hab
    obtain rfl : b = row.email := List.mem_singleton.mp hb
    subst hab
    obtain ⟨u, hu, he⟩ := List.mem_map.mp ha
    rcases List.mem_append.mp hu with hu | hu
    · exact hfree u hu he
    · obtain ⟨⟨j, u'⟩, hx, rfl⟩ := List.mem_map.mp hu
      obtain rfl : j = i := halone _ hx he
      rw [((hs.held j).flushed u').mp hx] at hmade
      cases hmade
  identities := hs.identities
  held := by
    intro j
    by_cases hj : j = i
    · subst hj
      rw [Function.update_self]
      refine ⟨fun r => ?_, (hs.held j).address, (hs.held j).owner, (hs.held j).linked,
        (hs.held j).read⟩
      show (j, r) ∈ w.database.flushed ++ [(j, row)] ↔ some row = some r
      rw [List.mem_append, (hs.held j).flushed, List.mem_singleton, hmade]
      simp [eq_comm]
    · rw [Function.update_of_ne hj]
      refine ⟨fun r => ?_, (hs.held j).address, (hs.held j).owner, (hs.held j).linked,
        (hs.held j).read⟩
      show (j, r) ∈ w.database.flushed ++ [(i, row)] ↔ _
      rw [List.mem_append, (hs.held j).flushed, List.mem_singleton]
      simp [hj]
  cooled := by
    intro a ha
    rcases hs.cooled a ha with hu | h
    · exact Or.inl hu
    · apply awaits_update _ h
      rintro ⟨r, hr, -⟩
      rw [hmade] at hr
      cases hr
  nonces := hs.nonces

theorem mem_links {changes : List Change} {row : OAuthIdentity} (h : .identity row ∈ changes) :
    row ∈ links changes := List.mem_filterMap.mpr ⟨_, h, rfl⟩

/-! ## Commits -/

section
variable (database : Database) (i : ℕ) (changes : List Change)

/-- The rows of a session, which its commit makes visible. -/
def rowsOf : List User := (database.flushed.filter (fun x => x.1 = i)).map Prod.snd

theorem committed_users : (committed database i changes).users =
    (database.users ++ rowsOf database i).map (fun u => changes.foldl onUser u) :=
  (apply_changes changes _).1

theorem committed_identities : (committed database i changes).identities =
    database.identities ++ links changes :=
  (apply_changes changes _).2.1

theorem committed_flushed : (committed database i changes).flushed =
    database.flushed.filter (fun x => !decide (x.1 = i)) := by
  rw [committed, (apply_changes changes _).2.2]
  apply List.filter_congr
  intro x _
  simp

theorem committed_emails : (committed database i changes).users.map User.email =
    (database.users ++ rowsOf database i).map User.email := by
  rw [committed_users, List.map_map]
  apply List.map_congr_left
  exact fun u _ => (changes_kept changes u).2.1

theorem committed_kept {u : User} (hu : u ∈ database.users ∨ u ∈ rowsOf database i) :
    ∃ u' ∈ (committed database i changes).users, u'.id = u.id ∧ u'.email = u.email := by
  obtain ⟨hid, hemail, -⟩ := changes_kept changes u
  refine ⟨_, ?_, hid, hemail⟩
  rw [committed_users]
  exact List.mem_map_of_mem (List.mem_append.mpr hu)

theorem committed_address {a : Email} (h : ∃ u ∈ database.users, u.email = a) :
    ∃ u ∈ (committed database i changes).users, u.email = a := by
  obtain ⟨u, hu, rfl⟩ := h
  obtain ⟨u', hu', -, he⟩ := committed_kept database i changes (Or.inl hu)
  exact ⟨u', hu', he⟩

theorem committed_owner {row : User}
    (h : ∃ u ∈ database.users, u.id = row.id ∧ u.email = row.email) :
    ∃ u ∈ (committed database i changes).users, u.id = row.id ∧ u.email = row.email := by
  obtain ⟨u, hu, hid, he⟩ := h
  obtain ⟨u', hu', hid', he'⟩ := committed_kept database i changes (Or.inl hu)
  exact ⟨u', hu', hid'.trans hid, he'.trans he⟩

theorem committed_made {g : Hand} (hg : Held database i g) {row : User} (hr : g.made = some row) :
    ∃ u ∈ (committed database i changes).users, u.id = row.id ∧ u.email = row.email := by
  apply committed_kept
  right
  exact List.mem_map.mpr ⟨(i, row), by simpa using (hg.flushed row).mpr hr, rfl⟩

end

variable {database : Database} {changes : List Change} {g : Hand}

/-- The hand that commits. -/
theorem held_commit (hg : Held database i g) : Held (committed database i changes) i
    (next g (.database (.commit i changes)) (.ok ())) where
  flushed := by
    intro row
    rw [committed_flushed, List.mem_filter]
    simp [SignIns.next]
  address := by
    intro a ha
    cases hm : g.made with
    | none => exact committed_address _ _ _ (hg.address a (by simpa [SignIns.next, hm] using ha))
    | some row =>
      obtain ⟨u, hu, -, he⟩ := committed_made database i changes hg hm
      have ha' : row.email = a := by simpa [SignIns.next, hm] using ha
      exact ⟨u, hu, he.trans ha'⟩
  owner := by
    intro row hr
    cases hm : g.made with
    | none => exact committed_owner _ _ _ (hg.owner row (by simpa [SignIns.next, hm] using hr))
    | some row' =>
      have hr' : row' = row := by simpa [SignIns.next, hm] using hr
      rw [← hr']
      exact committed_made database i changes hg hm
  linked := by
    intro row hr
    rw [committed_identities]
    exact List.mem_append_right _ (List.mem_of_head? hr)
  read := by
    intro row hr
    rw [committed_identities]
    exact List.mem_append_left _ (hg.read row hr)

/-- The other hands. -/
theorem held_committed {j : ℕ} (hj : j ≠ i) (hg : Held database j g) :
    Held (committed database i changes) j g where
  flushed := by
    intro row
    rw [committed_flushed, List.mem_filter, hg.flushed]
    simp [hj]
  address := fun a ha => committed_address _ _ _ (hg.address a ha)
  owner := fun row hr => committed_owner _ _ _ (hg.owner row hr)
  linked := by
    intro row hr
    rw [committed_identities]
    exact List.mem_append_left _ (hg.linked row hr)
  read := by
    intro row hr
    rw [committed_identities]
    exact List.mem_append_left _ (hg.read row hr)

theorem sound_commit (hs : Sound w hand) (hlinks : (links changes).length ≤ 1)
    (hnew : ∀ row ∈ links changes, ∀ r ∈ w.database.identities,
      ¬(r.provider = row.provider ∧ r.subject = row.subject)) :
    Sound { w with database := committed w.database i changes }
      (Function.update hand i (next (hand i) (.database (.commit i changes)) (.ok ()))) where
  addresses := by
    show (((committed w.database i changes).users ++
      (committed w.database i changes).flushed.map Prod.snd).map User.email).Nodup
    rw [List.map_append, committed_emails, committed_flushed, ← List.map_append,
      List.append_assoc, rowsOf, ← List.map_append]
    have hperm := (List.filter_append_perm (fun x : ℕ × User => decide (x.1 = i))
      w.database.flushed).map Prod.snd
    exact ((hperm.append_left w.database.users).map User.email).nodup_iff.mpr hs.addresses
  identities := by
    show ((committed w.database i changes).identities.map _).Nodup
    rw [committed_identities, List.map_append, List.nodup_append]
    refine ⟨hs.identities, ?_, ?_⟩
    · apply List.nodup_iff_count_le_one.mpr
      intro k
      exact List.count_le_length.trans (by simpa using hlinks)
    · intro a ha b hb hab
      obtain ⟨r, hr, rfl⟩ := List.mem_map.mp ha
      obtain ⟨row, hrow, rfl⟩ := List.mem_map.mp hb
      exact hnew row hrow r hr ⟨congrArg Prod.fst hab, congrArg Prod.snd hab⟩
  held := by
    intro j
    by_cases hj : j = i
    · subst hj
      rw [Function.update_self]
      exact held_commit (hs.held j)
    · rw [Function.update_of_ne hj]
      exact held_committed hj (hs.held j)
  cooled := by
    intro a ha
    rcases hs.cooled a ha with hu | h
    · exact Or.inl (committed_address _ _ _ hu)
    · apply awaits_update _ h
      rintro ⟨row, hr, -, rfl⟩
      obtain ⟨u, hu, -, he⟩ := committed_made w.database i changes (hs.held i) hr
      exact Or.inl ⟨u, hu, he⟩
  nonces := hs.nonces

/-! ## Calls -/

/-- The address of a flushed row has no account and is in no other hand. -/
theorem alone_of_made (hs : Sound w hand) {row : User} (hr : (hand i).made = some row) :
    (∀ u ∈ w.database.users, u.email ≠ row.email) ∧
      ∀ j, Awaits (hand j) row.email → j = i := by
  have hflushed := ((hs.held i).flushed row).mpr hr
  have hnodup := hs.addresses
  rw [List.map_append, List.map_map, List.nodup_append] at hnodup
  constructor
  · intro u hu he
    exact hnodup.2.2 _ (List.mem_map_of_mem hu) _ (List.mem_map_of_mem hflushed) he
  · rintro j ⟨row', hr', -, he⟩
    have hflushed' := ((hs.held j).flushed row').mpr hr'
    have hsame := List.inj_on_of_nodup_map hnodup.2.1 hflushed' hflushed he
    exact congrArg Prod.fst hsame

theorem held_cooled (hg : Held database i g) : Held database i { g with cooled := true } :=
  ⟨hg.flushed, hg.address, hg.owner, hg.linked, hg.read⟩

theorem sound_code (hs : Sound w hand) (c : CodeCall) (ha : allows i q (hand i) (.code c)) :
    expected lib settings q (hand i) (.code c) (.ok (c.perform w.now w.codes).1) ∧
      Sound { w with codes := (c.perform w.now w.codes).2 } (Function.update hand i
        (next (hand i) (.code c) (.ok (c.perform w.now w.codes).1))) := by
  have same : ∀ {w' : World}, Sound w' hand → Sound w' (Function.update hand i (hand i)) := by
    intro w' h
    rwa [Function.update_eq_self]
  cases c with
  | setCooldown key ttl =>
    obtain ⟨-, hcooled, row, hrow, rfl⟩ := ha
    obtain ⟨hfree, halone⟩ := alone_of_made hs hrow
    have hfresh : ExpiringStore.get w.now w.codes.cooldown ⟨row.email, .verify⟩ = none := by
      cases hget : ExpiringStore.get w.now w.codes.cooldown ⟨row.email, .verify⟩ with
      | none => rfl
      | some v =>
        obtain ⟨e, he, -⟩ := (ExpiringStore.get_eq_some _ _ _ _).mp hget
        rcases hs.cooled row.email (by simp [he]) with ⟨u, hu, hmail⟩ | ⟨j, hj⟩
        · exact absurd hmail (hfree u hu)
        · obtain rfl := halone j hj
          obtain ⟨-, -, hc, -⟩ := hj
          rw [hcooled] at hc
          cases hc
    simp only [CodeCall.perform, hfresh]
    refine ⟨rfl, hs.addresses, hs.identities,
      each_update (Held w.database) hs.held (held_cooled (hs.held i)), ?_, hs.nonces⟩
    intro a hset
    by_cases hkey : a = row.email
    · subst hkey
      refine Or.inr ⟨i, ?_⟩
      rw [Function.update_self]
      exact ⟨row, hrow, rfl, rfl⟩
    · have hne : (⟨a, .verify⟩ : CodeKey) ≠ ⟨row.email, .verify⟩ := by simpa using hkey
      have hold : w.codes.cooldown ⟨a, .verify⟩ ≠ none := by
        rwa [← ExpiringStore.set_ne w.codes.cooldown _ () (ex w.now ttl) hne]
      rcases hs.cooled a hold with hu | h
      · exact Or.inl hu
      · apply awaits_update _ h
        rintro ⟨r, hr, -, he⟩
        exact Or.inr ⟨r, hr, rfl, he⟩
  | delCooldownAndCode key =>
    refine ⟨trivial, same (sound_quiet hs rfl ?_ (fun _ h => h))⟩
    intro k hk
    by_cases hkey : k = key
    · subst hkey
      simp [CodeCall.perform] at hk
    · simpa [CodeCall.perform, ExpiringStore.del_ne _ _ hkey] using hk
  | getCode | ttlCode | setCode | delCode =>
    exact ⟨trivial, same (sound_quiet hs rfl (fun _ h => h) (fun _ h => h))⟩

theorem not_duplicate {changes : List Change}
    (h : ∀ row ∈ links changes, ∀ r ∈ database.identities,
      ¬(r.provider = row.provider ∧ r.subject = row.subject)) :
    changes.any (Change.duplicate database) = false := by
  apply List.any_eq_false.mpr
  intro change hchange
  cases change with
  | identity row =>
    simp only [Change.duplicate, Bool.not_eq_true, List.any_eq_false]
    intro r hr
    simpa using h row (mem_links hchange) r hr
  | _ => simp [Change.duplicate]

theorem ended_unmade (hg : Held database i g) (hmade : g.made = none) :
    ended database i = database := by
  have hall : database.flushed.filter (fun x => x.1 ≠ i) = database.flushed := by
    apply List.filter_eq_self.mpr
    rintro ⟨j, row⟩ hx
    simp only [decide_eq_true_eq]
    rintro rfl
    rw [(hg.flushed row).mp hx] at hmade
    cases hmade
  rw [ended, hall]

theorem sound_database (s : Service) {x : Choice} {c : DatabaseCall}
    {reply : Except Failure c.Reply} {db : Database} (hs : Sound s.world hand)
    (ha : allows i q (hand i) (.database c)) (hp : c.perform s.world.database = some (reply, db))
    (hc : Unraced settings s i x q (.database c)) :
    expected lib settings q (hand i) (.database c) reply ∧
      Sound { s.world with database := db }
        (Function.update hand i (next (hand i) (.database c) reply)) := by
  have same : Sound s.world (Function.update hand i (hand i)) := by
    rwa [Function.update_eq_self]
  have hheld := hs.held i
  cases c with
  | byEmail email =>
    cases hp
    cases hu : s.world.database.users.find? (fun u => u.email = email) with
    | none => exact ⟨fun row hr => (by cases hr), same⟩
    | some u =>
      have hm := List.mem_of_find?_eq_some hu
      refine ⟨?_, sound_hand hs ⟨hheld.flushed, ?_, ?_, hheld.linked, hheld.read⟩ (fun _ h => h)⟩
      · rintro row ⟨⟩
        simpa using List.find?_some hu
      · rintro a ⟨⟩
        exact ⟨u, hm, rfl⟩
      · rintro row ⟨⟩
        exact ⟨u, hm, rfl, rfl⟩
  | byId user =>
    cases hp
    cases hu : s.world.database.users.find? (fun u => u.id = user) with
    | none => exact ⟨fun row hr => (by cases hr), same⟩
    | some u =>
      have hm := List.mem_of_find?_eq_some hu
      refine ⟨?_, sound_hand hs ⟨hheld.flushed, hheld.address, ?_, hheld.linked, hheld.read⟩
        (fun _ h => h)⟩
      · rintro row ⟨⟩
        simpa using List.find?_some hu
      · rintro row ⟨⟩
        exact ⟨u, hm, rfl, rfl⟩
  | byIdentity provider subject =>
    cases hp
    cases hr : s.world.database.identities.find? (fun i =>
      i.provider = provider && i.subject = subject) with
    | none => exact ⟨fun row hr => (by cases hr), same⟩
    | some r =>
      refine ⟨?_, sound_hand hs ⟨hheld.flushed, hheld.address, hheld.owner, hheld.linked, ?_⟩
        (fun _ h => h)⟩
      · rintro row ⟨⟩
        simpa using List.find?_some hr
      · rintro row ⟨⟩
        exact List.mem_of_find?_eq_some hr
  | createUser session row =>
    obtain ⟨rfl, hmade, hq⟩ := ha
    simp only [DatabaseCall.perform] at hp
    split at hp
    case isTrue htaken =>
      cases hp
      obtain ⟨u, hu, he⟩ := List.any_eq_true.mp htaken
      have he' : u.email = row.email := by simpa using he
      refine ⟨⟨rfl, hq.resolve_right ?_⟩, ?_⟩
      · intro hlogin
        cases q with
        | oauthLogin f provider idToken nonce => exact hc u hu he'
        | _ => cases hlogin
      · have hknown : Held s.world.database session
            { hand session with address := some row.email } := by
          refine ⟨hheld.flushed, ?_, hheld.owner, hheld.linked, hheld.read⟩
          rintro a ⟨⟩
          exact ⟨u, hu, he'⟩
        exact sound_hand hs hknown (fun _ h => h)
    case isFalse hfree =>
      split at hp
      · cases hp
      case isFalse halone =>
        cases hp
        refine ⟨trivial, sound_create hs hmade ?_ ?_⟩
        · intro u hu he
          exact hfree (List.any_eq_true.mpr ⟨u, hu, by simpa using he⟩)
        · intro y hy he
          by_contra hne
          exact halone (List.any_eq_true.mpr ⟨y, hy, by simp [hne, he]⟩)
  | commit session changes =>
    obtain ⟨rfl, hlinks, hq⟩ := ha
    have hnew : ∀ row ∈ links changes, ∀ r ∈ s.world.database.identities,
        ¬(r.provider = row.provider ∧ r.subject = row.subject) := by
      intro row hrow
      have hlogin := hq (List.ne_nil_of_mem hrow)
      cases q with
      | oauthLogin f provider idToken nonce => exact hc row hrow
      | _ => cases hlogin
    simp only [DatabaseCall.perform, not_duplicate hnew] at hp
    cases hp
    exact ⟨trivial, sound_commit hs hlinks hnew⟩
  | rollback session =>
    obtain ⟨rfl, hmade⟩ := ha
    cases hp
    rw [ended_unmade hheld hmade]
    exact ⟨trivial, same⟩
  | emails =>
    cases hp
    exact ⟨trivial, same⟩

theorem sound_nonces (hs : Sound w hand) {nonces : ExpiringStore.Store String Unit}
    (h : ∀ key, nonces key ≠ none → w.nonces key ≠ none ∨ ∃ provider nonce,
      key = nonceKey provider nonce ∧ ':' ∉ provider.toList ∧ urlSafe nonce = true) :
    Sound { w with nonces := nonces } hand where
  addresses := hs.addresses
  identities := hs.identities
  held := hs.held
  cooled := hs.cooled
  nonces := fun key hk => (h key hk).elim (hs.nonces key) id

/-- Every answer of a service of which no call fails is expected in a run without lost
races. -/
theorem sound_call (s : Service) {x : Choice} {c : Command} {reply : Except Failure (Reply c)}
    (hs : Sound s.world hand) (hfail : x.fail = false) (ha : allows i q (hand i) c)
    (hp : perform lib c x s.world = some (reply, w')) (hc : Unraced settings s i x q c) :
    expected lib settings q (hand i) c reply ∧
      Sound w' (Function.update hand i (next (hand i) c reply)) := by
  have same : ∀ {w : World}, Sound w hand → Sound w (Function.update hand i (hand i)) := by
    intro w h
    rwa [Function.update_eq_self]
  rcases perform_cases hp with ⟨-, hf, -⟩ | ⟨-, h⟩
  · rw [hfail] at hf
    cases hf
  · cases c with
    | tokenUrlsafe =>
      simp only [answer] at h
      split at h
      case isTrue => cases h
      case isFalse hn =>
        cases h
        have hsafe : urlSafe x.name = true := by
          by_contra hu
          exact hn (Or.inr (by simpa using hu))
        exact ⟨hsafe, same (sound_quiet hs rfl (fun _ h => h) (fun _ h => h))⟩
    | uuid4 =>
      simp only [answer] at h
      split at h <;> cases h
      exact ⟨trivial, same (sound_quiet hs rfl (fun _ h => h) (fun _ h => h))⟩
    | randbelow bound =>
      simp only [answer] at h
      split at h
      case isTrue hn =>
        cases h
        exact ⟨hn, same hs⟩
      case isFalse => cases h
    | utcnow =>
      cases h
      refine ⟨fun hq => ?_, same hs⟩
      cases q with
      | signup f email password client => exact hc
      | _ => cases hq
    | code c =>
      cases h
      exact sound_code hs c ha
    | setNonce provider nonce ttl =>
      cases h
      refine ⟨trivial, same (sound_nonces hs fun key hk => ?_)⟩
      by_cases hkey : key = nonceKey provider nonce
      · exact Or.inr ⟨provider, nonce, hkey, ha⟩
      · rw [ExpiringStore.set_ne _ _ _ _ hkey] at hk
        exact Or.inl hk
    | delNonce provider nonce =>
      cases h
      refine ⟨fun hspent => ?_, same (sound_nonces hs fun key hk => ?_)⟩
      · obtain ⟨v, hv⟩ := Option.isSome_iff_exists.mp hspent
        obtain ⟨e, he, -⟩ := (ExpiringStore.get_eq_some _ _ _ _).mp hv
        have hstored : s.world.nonces (nonceKey provider nonce) ≠ none := by
          rw [he]
          exact Option.some_ne_none e
        obtain ⟨p, n, hkey, hp, hn⟩ := hs.nonces _ hstored
        obtain ⟨-, rfl⟩ :=
          Challenges.nonceKey_inj hp (Challenges.urlSafe_colon hn) hkey.symm
        exact hn
      · by_cases hkey : key = nonceKey provider nonce
        · subst hkey
          simp at hk
        · rw [ExpiringStore.del_ne _ _ hkey] at hk
          exact Or.inl hk
    | database c =>
      obtain ⟨⟨r, db⟩, hr, he⟩ := Option.map_eq_some_iff.mp h
      cases he
      exact sound_database s hs ha hr hc
    | idToken =>
      cases h
      exact ⟨rfl, same hs⟩
    | filter c =>
      cases h
      exact ⟨trivial, same (sound_quiet hs rfl (fun _ h => h) (fun _ h => h))⟩
    | _ =>
      cases h
      exact ⟨trivial, same (sound_quiet hs rfl (fun _ h => h) (fun _ h => h))⟩

theorem sound_passed (hs : Sound w hand) (d : Passing) : Sound (passed d w) hand := by
  cases d <;> exact sound_quiet hs rfl (fun _ h => h) (fun _ h => h)

/-! ## Every run -/

/-- A step of a run of sign-ins: nothing fails, everything asked for is a sign-in, and no
login loses a race. -/
def Fair (lib : Libraries) (settings : Settings) (s : Service)
    (l : Label Request Choice Passing) : Prop :=
  faultless l = true ∧ (∀ t ∈ s.threads, Entering lib settings t.request) ∧
    OnCall (Unraced settings) s l

theorem sustained (lib : Libraries) (settings : Settings) :
    Sustained (service lib settings) (contract lib settings)
      (fun _ q => expected lib settings q) (Fair lib settings) Sound where
  call := by
    rintro s i x q c reply w hand hs hu ha hp ⟨hfault, hthreads, hrace⟩
    obtain ⟨t, ht, rfl⟩ := request_of_upcoming hu
    have hfail : x.fail = false := by simpa [faultless] using hfault
    exact sound_call s hs hfail (ha (hthreads t ht)) hp (onCall_run hu hrace)
  pass := fun _ d _ hs _ => sound_passed hs d

abbrev handsOf (lib : Libraries) (settings : Settings) (h : Past) : ℕ → Hand :=
  hands (contract lib settings) (fun _ q => expected lib settings q) h

theorem next_read {g : Hand} {c : Command} {reply : Except Failure (Reply c)}
    {row : OAuthIdentity} (h : (next g c reply).read = some row) :
    g.read = some row ∨ identityRead c reply = some row := by
  cases c with
  | code c =>
    left
    cases c with
    | setCooldown => cases reply <;> exact h
    | _ => exact h
  | database c =>
    cases c with
    | byIdentity provider subject =>
      cases reply with
      | error e => exact Or.inl h
      | ok found =>
        cases found with
        | none => exact Or.inl h
        | some r => exact Or.inr h
    | byEmail | byId =>
      left
      cases reply with
      | error e => exact h
      | ok found => cases found <;> exact h
    | createUser | commit =>
      left
      cases reply <;> exact h
    | _ => exact Or.inl h
  | _ => exact Or.inl h

theorem read_event (h : Past) {row : OAuthIdentity}
    (hr : (handsOf lib settings h i).read = some row) :
    ∃ e ∈ h, e.thread = i ∧ identityRead e.command e.reply = some row := by
  induction h using List.reverseRecOn with
  | nil => cases hr
  | append_singleton h e ih =>
    have before : (handsOf lib settings h i).read = some row →
        ∃ e' ∈ h ++ [e], e'.thread = i ∧ identityRead e'.command e'.reply = some row := by
      intro hold
      obtain ⟨e', he', hthread, hread⟩ := ih hold
      exact ⟨e', List.mem_append_left _ he', hthread, hread⟩
    rw [handsOf, hands_append] at hr
    by_cases hi : i = e.thread
    · subst hi
      rw [Function.update_self] at hr
      rcases next_read hr with hold | hread
      · exact before hold
      · exact ⟨e, by simp, rfl, hread⟩
    · rw [Function.update_of_ne hi] at hr
      exact before hr

theorem accounts_one (hs : Sound w hand) (a : Email) :
    (w.database.users.filter (fun u => u.email = a)).length ≤ 1 := by
  have hnodup := hs.addresses
  rw [List.map_append, List.nodup_append] at hnodup
  have hcount := List.nodup_iff_count_le_one.mp hnodup.1 a
  rwa [List.count_eq_countP, List.countP_map, List.countP_eq_length_filter] at hcount

theorem eq_singleton {T : Type} {l : List T} (hone : l.length ≤ 1) {a : T} (ha : a ∈ l) :
    l = [a] := by
  cases l with
  | nil => cases ha
  | cons b rest =>
    have hrest : rest = [] := List.length_eq_zero_iff.mp (by simpa using hone)
    rw [hrest] at ha ⊢
    rw [List.mem_singleton.mp ha]

theorem identities_one (hs : Sound w hand) (provider subject : String) :
    (w.database.identities.filter (fun r => r.provider = provider ∧ r.subject = subject)).length ≤
      1 := by
  have hcount := List.nodup_iff_count_le_one.mp hs.identities (provider, subject)
  rw [List.count_eq_countP, List.countP_map, List.countP_eq_length_filter] at hcount
  refine le_of_eq_of_le (congrArg List.length (List.filter_congr fun r _ => ?_)) hcount
  rw [Bool.eq_iff_iff]
  simp

theorem account_of_address {s : Service} (hs : Sound s.world hand) {a : Email}
    (ha : (hand i).address = some a) : (accountsOf s a).length = 1 := by
  obtain ⟨u, hu, he⟩ := (hs.held i).address a ha
  have hm : u ∈ accountsOf s a := List.mem_filter.mpr ⟨hu, by simpa using he⟩
  have hone : accountsOf s a = [u] := eq_singleton (accounts_one hs a) hm
  rw [hone, List.length_singleton]

theorem internal_normalizeEmail {email : String} {e : Failure}
    (h : normalizeEmail lib email = .error e) : isInternal (.error e) = false := by
  unfold normalizeEmail at h
  dsimp only at h
  split at h <;> cases h
  rfl

theorem internal_checkPassword {password : String} {e : Failure}
    (h : checkPassword password = .error e) : isInternal (.error e) = false := by
  unfold checkPassword at h
  split at h <;> cases h
  rfl

theorem onAccount_login {s : Service} {f : FilterSettings} {provider idToken nonce : String}
    {answer : Answer} (hs : Sound s.world (handsOf lib settings s.history))
    (h : SignedIn lib settings provider idToken nonce (handsOf lib settings s.history i)
      (.ok answer)) :
    OnAccount lib settings s i answer (.oauthLogin f provider idToken nonce) := by
  rcases h with ⟨m, hm⟩ | ⟨grant, config, claims, address, row, ha, hg, howner, hid, hemail, hrow⟩
  · cases hm
  · obtain ⟨u, hu, huid, huemail⟩ := (hs.held i).owner row howner
    have haccount : u ∈ accountsOf s grant.user.email :=
      List.mem_filter.mpr ⟨hu, by simpa using huemail.trans hemail⟩
    have hidentity : ⟨grant.user.id, provider, claims.subject⟩ ∈
        identitiesOf s provider claims.subject := by
      apply List.mem_filter.mpr
      refine ⟨?_, by simp⟩
      rcases hrow with hread | ⟨hlinked, -⟩
      · exact (hs.held i).read _ hread
      · exact (hs.held i).linked _ hlinked
    refine ⟨grant, config, claims, address, Except.ok.inj ha, hg, ?_, ?_, ?_⟩
    · have hone : accountsOf s grant.user.email = [u] :=
        eq_singleton (accounts_one hs _) haccount
      rw [hone, List.map_singleton, huid, hid]
    · exact eq_singleton (identities_one hs _ _) hidentity
    · rcases hrow with hread | ⟨-, haddress⟩
      · exact Or.inr (read_event s.history hread)
      · exact Or.inl haddress

theorem resolved_of_sound {s : Service} (hs : Sound s.world (handsOf lib settings s.history))
    (hended : ∀ i q r, endedWith s i = some (q, r) →
      Ended lib settings (handsOf lib settings s.history i) r q) : Resolved lib settings s where
  accounts := accounts_one hs
  identities := identities_one hs
  succeeded := by
    intro i q answer h
    have hend := hended i q _ h
    cases q with
    | signup f email password client =>
      rcases hend with ⟨address, ha, haddress, hr | hr⟩ | ⟨e, hr, -⟩
      · exact ⟨Except.ok.inj hr, address, ha, account_of_address hs haddress⟩
      · cases hr
      · cases hr
    | oauthLogin f provider idToken nonce => exact onAccount_login hs hend
    | _ => trivial
  failed := by
    intro i q r h hq
    have hend := hended i q r h
    cases q with
    | signup f email password client =>
      rcases hend with ⟨address, -, -, rfl | rfl⟩ | ⟨e, rfl, rfl | he | he⟩
      · rfl
      · rfl
      · rfl
      · exact internal_normalizeEmail he
      · exact internal_checkPassword he
    | oauthLogin f provider idToken nonce =>
      rcases hend with ⟨m, rfl⟩ | ⟨grant, config, claims, address, row, rfl, -⟩
      · rfl
      · rfl
    | _ => rcases hq with hq | hq <;> cases hq
  settled := by
    intro i f email password client r address h ha hp
    rcases hended i _ _ h with ⟨address', ha', haddress, -⟩ | ⟨e, rfl, he | he | he⟩
    · rw [ha] at ha'
      cases ha'
      exact Or.inr (account_of_address hs haddress)
    · exact Or.inl (congrArg Except.error he)
    · rw [ha] at he
      cases he
    · rw [hp] at he
      cases he

/-- A provider that vouches for one address under two of its subjects. -/
def twoSubjects : Libraries := { plainLibraries with
  decodeIdToken := fun _ _ token =>
    if token = "t1" then some ⟨"accounts.google.com", "n1", "c@d", "", true, "s1"⟩
    else if token = "t2" then some ⟨"accounts.google.com", "n2", "c@d", "", true, "s2"⟩
    else none }

def loginWith (idToken nonce : String) : Request :=
  .oauthLogin withoutFilter "google" idToken nonce

/-- Threads 0 and 1 issue the challenges, threads 2 and 3 are the logins. -/
def challenged : List (Label Request Choice Passing) :=
  [.spawn (.oauthChallenge "google"), .spawn (.oauthChallenge "google"),
    .spawn (loginWith "t1" "n1"), .spawn (loginWith "t2" "n2")] ++
  steps 0 ["n1", "", ""] ++ steps 1 ["n2", "", ""]

/-- What a login does up to its look-ups, and what it does when it creates an account. -/
def lookUps : List String := ["", "", "", ""]

def creates (user value family : String) : List String :=
  ["", user, "", "", "", value, family, "", ""]

/-- The second login looks when the first has ended, and links its identity. -/
def inTurn : List (Label Request Choice Passing) :=
  challenged ++ steps 2 (lookUps ++ creates "u" "r1" "f1") ++
    steps 3 (lookUps ++ ["", "", "r2", "f2", "", ""])

/-- The second login has looked before the first commits. -/
def overlapping : List (Label Request Choice Passing) :=
  challenged ++ steps 2 lookUps ++ steps 3 lookUps ++ steps 2 (creates "u" "r1" "f1") ++
    steps 3 ["", "v", "", ""]

theorem constrained_noAccounts : Constrained noAccounts :=
  ⟨List.nodup_nil, List.nodup_nil, rfl⟩

theorem entering_challenged {steps : List (Label Request Choice Passing)}
    (hsteps : ∀ q, .spawn q ∉ steps) (q : Request) (hq : .spawn q ∈ challenged ++ steps) :
    Entering twoSubjects plainSettings q := by
  have hcases : q = .oauthChallenge "google" ∨ q = loginWith "t1" "n1" ∨
      q = loginWith "t2" "n2" := by
    simpa [challenged, Requests.steps, hsteps] using hq
  rcases hcases with rfl | rfl | rfl
  · trivial
  · exact ⟨_, _, _, rfl, rfl, by decide, rfl, rfl, by decide, fun _ => rfl⟩
  · exact ⟨_, _, _, rfl, rfl, by decide, rfl, rfl, by decide, fun _ => rfl⟩

end Gamely.SignInRaces
