import Gamely.Challenges
import Mathlib.Data.Set.Function

/-!
# A challenge is spent once

Every stored key was written by a challenge and not spent since, and every login that got
past the check spent the key of one challenge of its provider.
-/

set_option autoImplicit false

namespace Gamely.ChallengeUse
open Gamely.Calls Gamely.Stores Gamely.EmailJobs Gamely.Services Gamely.TokenService
open Gamely.OAuthService Gamely.Requests Gamely.Interleaving Gamely.ExpiringStore Gamely.Logs
open Gamely.Challenges

abbrev Log := List (World × Occurrence)

/-- The challenge a call of `create_challenge` wrote. -/
def createOf (q : Request) :
    (c : Command) → Except Failure (Reply c) → Option (String × String)
  | .setNonce _ nonce _, .ok _ => match q with
    | .oauthChallenge provider => some (provider, nonce)
    | _ => none
  | _, _ => none

/-- The provider and nonce of a login that got past the challenge check. -/
def enterOf (q : Request) : (c : Command) → Except Failure (Reply c) → Option (String × String)
  | .delNonce .., .ok true => match q with
    | .oauthLogin _ provider _ nonce => some (provider, nonce)
    | _ => none
  | _, _ => none

/-- A token whose signature and audience checked out. -/
def checkOf : (c : Command) → Except Failure (Reply c) → Option Checked
  | .idToken jwksUrl clientId idToken, .ok (some claims) =>
    some ⟨jwksUrl, clientId, idToken, claims⟩
  | _, _ => none

def created (x : World × Occurrence) : Option (String × String) :=
  createOf x.2.request x.2.command x.2.reply

def entered (x : World × Occurrence) : Option (String × String) :=
  enterOf x.2.request x.2.command x.2.reply

def timeOf (x : World × Occurrence) : Option ℕ := some x.1.now

def keyOf (challenge : String × String) : String := nonceKey challenge.1 challenge.2

/-- No login spends the key in the given entries. -/
def Unspent (lg : Log) (m n : ℕ) (key : String) : Prop :=
  ∀ k challenge, m < k → k < n → readAt entered lg k = some challenge → keyOf challenge ≠ key

/-- Entry `n` spends the challenge of entry `m`, still valid and not spent before. -/
structure Source (lg : Log) (m n : ℕ) (challenge : String × String) : Prop where
  earlier : m < n
  same : readAt created lg m = some challenge
  valid : ∃ t u, readAt timeOf lg m = some t ∧ readAt timeOf lg n = some u ∧ u < t+300000
  unspent : Unspent lg m n (keyOf challenge)

/-! ## What one call does to the challenges -/

variable (settings : Settings) (q : Request)

inductive Moves (now : ℕ) (s : Store String Unit) (drawn : List String) (g : Hand) :
    (c : Command) → Except Failure (Reply c) → Store String Unit → List String → Hand → Prop where
  | draw (name : String) (new : name ∉ drawn) (safe : urlSafe name = true) :
      Moves now s drawn g .tokenUrlsafe (.ok name) s (name :: drawn) { g with drawn := some name }
  | challenge (provider nonce : String) (asked : q = .oauthChallenge provider)
      (config : ∃ config, providerConfig settings provider = .ok config)
      (held : g.drawn = some nonce) :
      Moves now s drawn g (.setNonce provider nonce 300) (.ok ())
        (set s (nonceKey provider nonce) () (ex now 300)) drawn { g with drawn := none }
  | spend (f : FilterSettings) (provider idToken nonce : String)
      (asked : q = .oauthLogin f provider idToken nonce)
      (stored : get now s (nonceKey provider nonce) = some ()) :
      Moves now s drawn g (.delNonce provider nonce) (.ok true) (del s (nonceKey provider nonce))
        drawn { g with spent := some (provider, nonce) }
  | check (jwksUrl clientId idToken : String) (claims : IdClaims) :
      Moves now s drawn g (.idToken jwksUrl clientId idToken) (.ok (some claims)) s drawn
        { g with checked := some ⟨jwksUrl, clientId, idToken, claims⟩ }
  | other (c : Command) (reply : Except Failure (Reply c)) (s' : Store String Unit)
      (drawn' : List String) (g' : Hand)
      (less : ∀ key e, s' key = some e → s key = some e) (more : drawn ⊆ drawn')
      (same : g' = g ∨ g' = { g with drawn := none }) (create : createOf q c reply = none)
      (pass : enterOf q c reply = none) : Moves now s drawn g c reply s' drawn' g'

variable {settings q} (lib : Libraries)

theorem moves_error (now : ℕ) (s : Store String Unit) (drawn : List String) (g : Hand)
    (c : Command) (e : Failure) :
    Moves settings q now s drawn g c (.error e) s drawn (next g c (.error e)) := by
  apply Moves.other
  · exact fun key e h => h
  · exact List.Subset.refl _
  · unfold next
    split
    · contradiction
    · exact Or.inr rfl
    · contradiction
    · contradiction
    · exact Or.inl rfl
  · unfold createOf
    split <;> first | rfl | contradiction
  · unfold enterOf
    split <;> first | rfl | contradiction

theorem moves_of_perform (w w' : World) (g : Hand) (c : Command) (x : Choice)
    (reply : Except Failure (Reply c)) (ha : allows settings q g c)
    (hp : perform lib c x w = some (reply, w')) :
    Moves settings q w.now w.nonces w.drawn g c reply w'.nonces w'.drawn (next g c reply) := by
  have kept : ∀ {c reply}, createOf q c reply = none → enterOf q c reply = none →
      next g c reply = g → Moves settings q w.now w.nonces w.drawn g c reply w.nonces w.drawn
        (next g c reply) := by
    intro c reply hc hp hn
    exact .other _ _ _ _ _ (fun key e h => h) (List.Subset.refl _) (Or.inl hn) hc hp
  unfold perform at hp
  split at hp
  · cases hp
    exact moves_error w.now w.nonces w.drawn g c _
  · cases c with
    | tokenUrlsafe =>
      simp only [answer] at hp
      split at hp
      · cases hp
      · rename_i hn
        rw [not_or] at hn
        cases hp
        exact .draw x.name hn.1 (by simpa using hn.2)
    | uuid4 =>
      simp only [answer] at hp
      split at hp
      · cases hp
      · cases hp
        exact .other _ _ _ _ _ (fun key e h => h) (List.subset_cons_self _ _) (Or.inl rfl) rfl rfl
    | randbelow bound =>
      simp only [answer] at hp
      split at hp
      · cases hp
        exact kept rfl rfl rfl
      · cases hp
    | setNonce provider nonce ttl =>
      obtain ⟨hq, hconfig, hheld, rfl⟩ := ha
      cases hp
      exact .challenge provider nonce hq hconfig hheld
    | delNonce provider nonce =>
      obtain ⟨f, idToken, hq⟩ := ha
      cases hp
      cases hg : ExpiringStore.get w.now w.nonces (nonceKey provider nonce) with
      | none =>
        simp only [Option.isSome_none]
        exact .other _ _ _ _ _ (fun key e h => ((del_eq_some _ _ _ _).mp h).2)
          (List.Subset.refl _) (Or.inl rfl) rfl rfl
      | some u => exact .spend f provider idToken nonce hq hg
    | idToken jwksUrl clientId idToken =>
      cases hp
      cases hd : lib.decodeIdToken jwksUrl clientId idToken with
      | none => exact kept rfl rfl rfl
      | some claims => exact .check jwksUrl clientId idToken claims
    | database c =>
      obtain ⟨⟨r, db⟩, -, he⟩ := Option.map_eq_some_iff.mp hp
      cases he
      cases r <;> exact kept rfl rfl rfl
    | _ =>
      cases hp
      exact kept rfl rfl rfl

/-! ## Challenges along a run -/

/-- Names in hand belong to one request and are no challenge yet; every challenge was
written once, for a provider of the service; every stored key is one of them, valid as
long as its entry says and not spent; every login had its source. -/
structure Sound (settings : Settings) (w : World) (lg : Log) (hand : ℕ → Hand) : Prop where
  drawn : ∀ i name, (hand i).drawn = some name → name ∈ w.drawn ∧ urlSafe name = true
  apart : ∀ i j name, (hand i).drawn = some name → (hand j).drawn = some name → i = j
  written : ∀ n provider nonce, readAt created lg n = some (provider, nonce) →
    (∃ config, providerConfig settings provider = .ok config) ∧ urlSafe nonce = true ∧
      nonce ∈ w.drawn ∧ ∀ j, (hand j).drawn ≠ some nonce
  once : ∀ n m provider provider' nonce, readAt created lg n = some (provider, nonce) →
    readAt created lg m = some (provider', nonce) → n = m
  stored : ∀ key e, w.nonces key = some e → ∃ n challenge t,
    readAt created lg n = some challenge ∧ keyOf challenge = key ∧
      readAt timeOf lg n = some t ∧ e.deadline = some (t+300000) ∧ Unspent lg n lg.length key
  sourced : ∀ n challenge, readAt entered lg n = some challenge → ∃ m, Source lg m n challenge
  spent : ∀ i challenge, (hand i).spent = some challenge →
    ∃ (n : ℕ) (x : World × Occurrence),
      lg[n]? = some x ∧ x.2.thread = i ∧ entered x = some challenge
  checked : ∀ i token, (hand i).checked = some token →
    ∃ x ∈ lg, x.2.thread = i ∧ checkOf x.2.command x.2.reply = some token

variable {w w' : World} {lg : Log} {hand : ℕ → Hand} {x : World × Occurrence} {i m n : ℕ}
  {challenge : String × String} {key : String}

theorem key_injective {other : String × String}
    (h : (∃ config, providerConfig settings challenge.1 = .ok config) ∧
      urlSafe challenge.2 = true) (hk : keyOf challenge = keyOf other) : challenge = other := by
  obtain ⟨⟨config, hc⟩, hsafe⟩ := h
  obtain ⟨h₁, h₂⟩ := nonceKey_inj (provider_colon hc) (urlSafe_colon hsafe) hk
  exact Prod.ext h₁ h₂

theorem unspent_append (h : Unspent lg m n key) (hn : n ≤ lg.length) :
    Unspent (lg ++ [x]) m n key := by
  intro k challenge hm hk ha
  rcases readAt_append.mp ha with ha | ⟨rfl, -⟩
  · exact h k challenge hm hk ha
  · omega

theorem unspent_longer (h : Unspent lg m lg.length key)
    (hx : ∀ challenge, entered x = some challenge → keyOf challenge ≠ key) :
    Unspent (lg ++ [x]) m (lg ++ [x]).length key := by
  intro k challenge hm hk ha
  rcases readAt_append.mp ha with ha | ⟨-, ha⟩
  · exact h k challenge hm (lt_of_readAt ha) ha
  · exact hx challenge ha

theorem timeOf_append {t : ℕ} (h : readAt timeOf lg n = some t) :
    readAt timeOf (lg ++ [x]) n = some t := readAt_append.mpr (Or.inl h)

theorem source_append (h : Source lg m n challenge) : Source (lg ++ [x]) m n challenge := by
  obtain ⟨t, u, ht, hu, hlt⟩ := h.valid
  constructor
  · exact h.earlier
  · exact readAt_append.mpr (Or.inl h.same)
  · exact ⟨t, u, timeOf_append ht, timeOf_append hu, hlt⟩
  · exact unspent_append h.unspent (Nat.le_of_lt (lt_of_readAt hu))

theorem sound_initial (now : ℕ) (database : Database) :
    Sound settings (World.fresh now database) [] (fun _ => Hand.empty) where
  drawn := fun i name h => by cases h
  apart := fun i j name h => by cases h
  written := fun n provider nonce h => by cases h
  once := fun n m provider provider' nonce h => by cases h
  stored := fun key e h => by cases h
  sourced := fun n challenge h => by cases h
  spent := fun i challenge h => by cases h
  checked := fun i token h => by cases h

theorem sound_carry {g : Hand} (hs : Sound settings w lg hand) (hthread : x.2.thread = i)
    (hcreate : created x = none) (hdrawn : w.drawn ⊆ w'.drawn)
    (hstored : ∀ key e, w'.nonces key = some e → w.nonces key = some e ∧
      ∀ challenge, entered x = some challenge → keyOf challenge ≠ key)
    (henter : ∀ challenge, entered x = some challenge → ∃ m,
      Source (lg ++ [x]) m lg.length challenge)
    (hname : ∀ name, g.drawn = some name → (hand i).drawn = some name ∨
      name ∉ w.drawn ∧ name ∈ w'.drawn ∧ urlSafe name = true)
    (hspent : ∀ challenge, g.spent = some challenge → (hand i).spent = some challenge ∨
      entered x = some challenge)
    (hchecked : ∀ token, g.checked = some token → (hand i).checked = some token ∨
      checkOf x.2.command x.2.reply = some token) :
    Sound settings w' (lg ++ [x]) (Function.update hand i g) := by
  have old : ∀ {n challenge}, readAt created (lg ++ [x]) n = some challenge →
      readAt created lg n = some challenge := by
    intro n challenge h
    rcases readAt_append.mp h with h | ⟨-, h⟩
    · exact h
    · rw [hcreate] at h
      cases h
  have names : ∀ j name, (Function.update hand i g j).drawn = some name →
      (hand j).drawn = some name ∨
        j = i ∧ name ∉ w.drawn ∧ name ∈ w'.drawn ∧ urlSafe name = true := by
    intro j name h
    by_cases hj : j = i
    · subst hj
      rw [Function.update_self] at h
      exact (hname name h).imp id (fun h => ⟨rfl, h⟩)
    · rw [Function.update_of_ne hj] at h
      exact Or.inl h
  constructor
  · intro j name h
    rcases names j name h with h | ⟨-, -, hmem, hsafe⟩
    · exact ⟨hdrawn (hs.drawn j name h).1, (hs.drawn j name h).2⟩
    · exact ⟨hmem, hsafe⟩
  · intro j k name hj hk
    rcases names j name hj with hj | ⟨rfl, hn, -⟩
    · rcases names k name hk with hk | ⟨-, hn, -⟩
      · exact hs.apart j k name hj hk
      · exact absurd (hs.drawn j name hj).1 hn
    · rcases names k name hk with hk | ⟨rfl, -⟩
      · exact absurd (hs.drawn k name hk).1 hn
      · rfl
  · intro n provider nonce h
    obtain ⟨hconfig, hsafe, hmem, hfree⟩ := hs.written n provider nonce (old h)
    refine ⟨hconfig, hsafe, hdrawn hmem, fun j hj => ?_⟩
    rcases names j nonce hj with hj | ⟨-, hn, -⟩
    · exact hfree j hj
    · exact hn hmem
  · exact fun n m provider provider' nonce h h' =>
      hs.once n m provider provider' nonce (old h) (old h')
  · intro key e h
    obtain ⟨hold, hkey⟩ := hstored key e h
    obtain ⟨n, challenge, t, hc, hk, ht, hd, hu⟩ := hs.stored key e hold
    exact ⟨n, challenge, t, readAt_append.mpr (Or.inl hc), hk, timeOf_append ht, hd,
      unspent_longer hu hkey⟩
  · intro n challenge h
    rcases readAt_append.mp h with h | ⟨rfl, hx⟩
    · obtain ⟨m, hm⟩ := hs.sourced n challenge h
      exact ⟨m, source_append hm⟩
    · exact henter challenge hx
  · intro j challenge h
    have hcase : (hand j).spent = some challenge ∨ j = i ∧ entered x = some challenge := by
      by_cases hj : j = i
      · subst hj
        rw [Function.update_self] at h
        exact (hspent challenge h).imp id (fun h => ⟨rfl, h⟩)
      · rw [Function.update_of_ne hj] at h
        exact Or.inl h
    rcases hcase with h | ⟨rfl, hx⟩
    · obtain ⟨n, y, hy, hj, ha⟩ := hs.spent j challenge h
      have hlt := (List.getElem?_eq_some_iff.mp hy).1
      exact ⟨n, y, by rwa [List.getElem?_append_left hlt], hj, ha⟩
    · exact ⟨lg.length, x, by simp, hthread, hx⟩
  · intro j token h
    have hcase : (hand j).checked = some token ∨
        j = i ∧ checkOf x.2.command x.2.reply = some token := by
      by_cases hj : j = i
      · subst hj
        rw [Function.update_self] at h
        exact (hchecked token h).imp id (fun h => ⟨rfl, h⟩)
      · rw [Function.update_of_ne hj] at h
        exact Or.inl h
    rcases hcase with h | ⟨rfl, hx⟩
    · obtain ⟨y, hy, hj, hc⟩ := hs.checked j token h
      exact ⟨y, List.mem_append_left _ hy, hj, hc⟩
    · exact ⟨x, by simp, hthread, hx⟩

theorem sound_challenge {provider nonce : String} {g : Hand} (hs : Sound settings w lg hand)
    (hcreate : created x = some (provider, nonce)) (henter : entered x = none)
    (hnow : x.1.now = w.now) (hconfig : ∃ config, providerConfig settings provider = .ok config)
    (hheld : (hand i).drawn = some nonce)
    (hg : g = { hand i with drawn := none }) (hdrawn : w'.drawn = w.drawn)
    (hw : w'.nonces = set w.nonces (nonceKey provider nonce) () (ex w.now 300)) :
    Sound settings w' (lg ++ [x]) (Function.update hand i g) := by
  have names : ∀ j name, (Function.update hand i g j).drawn = some name →
      j ≠ i ∧ (hand j).drawn = some name := by
    intro j name h
    by_cases hj : j = i
    · subst hj
      rw [Function.update_self, hg] at h
      cases h
    · rw [Function.update_of_ne hj] at h
      exact ⟨hj, h⟩
  have spent : ∀ j, (Function.update hand i g j).spent = (hand j).spent ∧
      (Function.update hand i g j).checked = (hand j).checked := by
    intro j
    by_cases hj : j = i
    · subst hj
      rw [Function.update_self, hg]
      exact ⟨rfl, rfl⟩
    · rw [Function.update_of_ne hj]
      exact ⟨rfl, rfl⟩
  obtain ⟨hmem, hsafe⟩ := hs.drawn i nonce hheld
  have fresh : ∀ n provider', readAt created lg n ≠ some (provider', nonce) :=
    fun n provider' h => (hs.written n provider' nonce h).2.2.2 i hheld
  have none_new : ∀ challenge, entered x ≠ some challenge := by simp [henter]
  constructor
  · intro j name h
    rw [hdrawn]
    exact hs.drawn j name (names j name h).2
  · exact fun j k name hj hk => hs.apart j k name (names j name hj).2 (names k name hk).2
  · intro n provider' nonce' h
    rw [hdrawn]
    rcases readAt_append.mp h with h | ⟨-, h⟩
    · obtain ⟨hc, hsafe', hmem', hfree⟩ := hs.written n provider' nonce' h
      exact ⟨hc, hsafe', hmem', fun j hj => hfree j (names j nonce' hj).2⟩
    · rw [hcreate, Option.some.injEq, Prod.mk.injEq] at h
      obtain ⟨rfl, rfl⟩ := h
      refine ⟨hconfig, hsafe, hmem, fun j hj => ?_⟩
      obtain ⟨hne, hj⟩ := names j nonce hj
      exact hne (hs.apart j i nonce hj hheld)
  · intro n m p p' name hn hm
    rcases readAt_append.mp hn with hn | ⟨rfl, hxn⟩
    · rcases readAt_append.mp hm with hm | ⟨-, hxm⟩
      · exact hs.once n m p p' name hn hm
      · rw [hcreate, Option.some.injEq, Prod.mk.injEq] at hxm
        rw [← hxm.2] at hn
        exact absurd hn (fresh n p)
    · rcases readAt_append.mp hm with hm | ⟨rfl, -⟩
      · rw [hcreate, Option.some.injEq, Prod.mk.injEq] at hxn
        rw [← hxn.2] at hm
        exact absurd hm (fresh m p')
      · rfl
  · intro key e h
    rw [hw] at h
    rcases (set_eq_some _ _ _ _ _ _).mp h with ⟨rfl, rfl⟩ | ⟨-, hold⟩
    · refine ⟨lg.length, (provider, nonce), w.now, readAt_append.mpr (Or.inr ⟨rfl, hcreate⟩), rfl,
        readAt_append.mpr (Or.inr ⟨rfl, by rw [timeOf, hnow]⟩), rfl, ?_⟩
      intro k challenge hlt hlen
      simp only [List.length_append, List.length_singleton] at hlen
      omega
    · obtain ⟨n, challenge, t, hc, hk, ht, hd, hu⟩ := hs.stored key e hold
      exact ⟨n, challenge, t, readAt_append.mpr (Or.inl hc), hk, timeOf_append ht, hd,
        unspent_longer hu (fun challenge h => absurd h (none_new challenge))⟩
  · intro n challenge h
    rcases readAt_append.mp h with h | ⟨-, h⟩
    · obtain ⟨m, hm⟩ := hs.sourced n challenge h
      exact ⟨m, source_append hm⟩
    · exact absurd h (none_new challenge)
  · intro j challenge h
    rw [(spent j).1] at h
    obtain ⟨n, y, hy, hj, ha⟩ := hs.spent j challenge h
    have hlt := (List.getElem?_eq_some_iff.mp hy).1
    exact ⟨n, y, by rwa [List.getElem?_append_left hlt], hj, ha⟩
  · intro j token h
    rw [(spent j).2] at h
    obtain ⟨y, hy, hj, hc⟩ := hs.checked j token h
    exact ⟨y, List.mem_append_left _ hy, hj, hc⟩

/-- The stored key a login spends is that of a challenge of its own provider. -/
theorem source_of_stored (hs : Sound settings w lg hand)
    (hstored : ExpiringStore.get w.now w.nonces (keyOf challenge) = some ())
    (hnow : x.1.now = w.now) :
    ∃ m, Source (lg ++ [x]) m lg.length challenge := by
  obtain ⟨e, he, hl, -⟩ := (get_eq_some _ _ _ _).mp hstored
  obtain ⟨n, source, t, hc, hk, ht, hd, hu⟩ := hs.stored _ e he
  obtain ⟨hconfig, hsafe, -⟩ := hs.written n source.1 source.2 hc
  obtain rfl := key_injective ⟨hconfig, hsafe⟩ hk
  have hlt : w.now < t+300000 := by simpa [Entry.live, hd] using hl
  refine ⟨n, lt_of_readAt hc, readAt_append.mpr (Or.inl hc), ?_, unspent_append hu le_rfl⟩
  exact ⟨t, w.now, timeOf_append ht, readAt_append.mpr (Or.inr ⟨rfl, by rw [timeOf, hnow]⟩), hlt⟩

theorem sound_of_move {c : Command} {reply : Except Failure (Reply c)} {g : Hand}
    (hs : Sound settings w lg hand)
    (hm : Moves settings q w.now w.nonces w.drawn (hand i) c reply w'.nonces w'.drawn g) :
    Sound settings w' (lg ++ [(w, ⟨i, q, c, reply⟩)]) (Function.update hand i g) := by
  generalize hnonces : w'.nonces = nonces at hm
  generalize hdrawn : w'.drawn = drawn at hm
  cases hm with
  | draw name new safe =>
    apply sound_carry hs rfl rfl
    · rw [hdrawn]
      exact List.subset_cons_self _ _
    · intro key e h
      rw [hnonces] at h
      exact ⟨h, fun challenge h => by cases h⟩
    · exact fun challenge h => by cases h
    · intro name' h
      cases h
      exact Or.inr ⟨new, by simp [hdrawn], safe⟩
    · exact fun challenge h => Or.inl h
    · exact fun token h => Or.inl h
  | challenge provider nonce asked config held =>
    subst asked
    exact sound_challenge hs rfl rfl rfl config held rfl hdrawn hnonces
  | spend f provider idToken nonce asked stored =>
    subst asked
    have hkey : ∀ challenge, entered (w, (⟨i, .oauthLogin f provider idToken nonce,
        .delNonce provider nonce, .ok true⟩ : Occurrence)) = some challenge →
        challenge = (provider, nonce) := by
      intro challenge h
      cases h
      rfl
    apply sound_carry hs rfl rfl
    · rw [hdrawn]
      exact List.Subset.refl _
    · intro key e h
      rw [hnonces, del_eq_some] at h
      refine ⟨h.2, fun challenge hc => ?_⟩
      rw [hkey challenge hc]
      exact Ne.symm h.1
    · intro challenge hc
      rw [hkey challenge hc]
      exact source_of_stored hs stored rfl
    · exact fun name h => Or.inl h
    · exact fun challenge h => Or.inr h
    · exact fun token h => Or.inl h
  | check jwksUrl clientId idToken claims =>
    apply sound_carry hs rfl rfl
    · rw [hdrawn]
      exact List.Subset.refl _
    · intro key e h
      rw [hnonces] at h
      exact ⟨h, fun challenge h => by cases h⟩
    · exact fun challenge h => by cases h
    · exact fun name h => Or.inl h
    · exact fun challenge h => Or.inl h
    · exact fun token h => Or.inr h
  | other c reply nonces drawn g less more same create enter =>
    have none_new : ∀ challenge, entered (w, (⟨i, q, c, reply⟩ : Occurrence)) ≠ some challenge := by
      intro challenge h
      cases enter.symm.trans h
    apply sound_carry (x := (w, (⟨i, q, c, reply⟩ : Occurrence))) hs rfl create
    · rw [hdrawn]
      exact more
    · intro key e h
      rw [hnonces] at h
      exact ⟨less key e h, fun challenge h => absurd h (none_new challenge)⟩
    · exact fun challenge h => absurd h (none_new challenge)
    · intro name h
      rcases same with rfl | rfl
      · exact Or.inl h
      · cases h
    · intro challenge h
      rcases same with rfl | rfl <;> exact Or.inl h
    · intro token h
      rcases same with rfl | rfl <;> exact Or.inl h

theorem sound_passed (d : Passing) (hs : Sound settings w lg hand) :
    Sound settings (Services.passed d w) lg hand := by
  have hn : (Services.passed d w).nonces = w.nonces := by cases d <;> rfl
  have hd : (Services.passed d w).drawn = w.drawn := by cases d <;> rfl
  constructor
  · intro i name h
    rw [hd]
    exact hs.drawn i name h
  · exact hs.apart
  · intro n provider nonce h
    rw [hd]
    exact hs.written n provider nonce h
  · exact hs.once
  · intro key e h
    rw [hn] at h
    exact hs.stored key e h
  · exact hs.sourced
  · exact hs.spent
  · exact hs.checked

theorem sound_logged (lib : Libraries) (settings : Settings) :
    Logged (service lib settings) (contract settings)
      (fun w lg => Sound settings w lg (ghost (contract settings) (lg.map Prod.snd))) where
  call := by
    intro s lg i x q c reply w hh hs hu ha hp
    have hm := moves_of_perform lib _ _ _ c x reply ha hp
    rw [List.map_append, List.map_singleton, ghost_append]
    rw [hh] at hm
    exact sound_of_move hs hm
  pass := fun w lg d hs => sound_passed d hs

/-! ## The challenges of a run -/

theorem exists_source (hs : Sound settings w lg hand) :
    ∃ source : ℕ → ℕ, (∀ n challenge, readAt entered lg n = some challenge →
      Source lg (source n) n challenge) ∧
      Set.InjOn source {n | (readAt entered lg n).isSome} := by
  have h : ∀ n, ∃ m, ∀ challenge, readAt entered lg n = some challenge →
      Source lg m n challenge := by
    intro n
    cases ha : readAt entered lg n with
    | none => exact ⟨0, fun challenge h => by cases h⟩
    | some challenge =>
      obtain ⟨m, hm⟩ := hs.sourced n challenge ha
      refine ⟨m, fun challenge' h => ?_⟩
      cases h
      exact hm
  choose source hsource using h
  refine ⟨source, hsource, fun n hn n' hn' he => ?_⟩
  obtain ⟨challenge, hc⟩ := Option.isSome_iff_exists.mp hn
  obtain ⟨challenge', hc'⟩ := Option.isSome_iff_exists.mp hn'
  have h₁ := hsource n challenge hc
  have h₂ := hsource n' challenge' hc'
  have hsame : challenge = challenge' := by
    have h := h₂.same
    rw [← he, h₁.same] at h
    exact Option.some.inj h
  subst hsame
  rcases Nat.lt_trichotomy n n' with hlt | heq | hgt
  · have hlater : source n' < n := he ▸ h₁.earlier
    exact absurd rfl (h₂.unspent n challenge hlater hlt hc)
  · exact heq
  · have hlater : source n < n' := he ▸ h₂.earlier
    exact absurd rfl (h₁.unspent n' challenge hlater hgt hc')

theorem spent_once (hs : Sound settings w lg hand) {other : String × String}
    (hn : readAt entered lg n = some challenge) (hm : readAt entered lg m = some other)
    (hk : keyOf challenge = keyOf other) : n = m := by
  obtain ⟨source, hsource, hinj⟩ := exists_source hs
  have hwritten := hs.written _ _ _ (hsource n challenge hn).same
  obtain rfl := key_injective ⟨hwritten.1, hwritten.2.1⟩ hk
  have hsame : source n = source m :=
    hs.once _ _ _ _ challenge.2 (hsource n challenge hn).same (hsource m challenge hm).same
  exact hinj (by simp [hn]) (by simp [hm]) hsame

/-- Every login past the challenge check spends a challenge of its own, written before for
its provider and nonce and still valid; no key is spent twice, whatever became of the login
that spent it; and a login that grants tokens had a token checked that names the spent
nonce and an issuer of the provider. -/
theorem challenge_authorises_one_login (lib : Libraries) (settings : Settings) (now : ℕ)
    (database : Database) (ls : List (Label Request Choice Passing)) :
    let start := initial (World.fresh now database)
    let lg := log (service lib settings) ls start
    (∃ source : ℕ → ℕ, (∀ n challenge, readAt entered lg n = some challenge →
        Source lg (source n) n challenge) ∧
      Set.InjOn source {n | (readAt entered lg n).isSome}) ∧
    (∀ n m challenge other, readAt entered lg n = some challenge →
      readAt entered lg m = some other → keyOf challenge = keyOf other → n = m) ∧
    ∀ i f provider idToken nonce grant,
      returned (run (service lib settings) ls start) i =
        some (.oauthLogin f provider idToken nonce, .granted grant) →
      (∃ x ∈ lg, x.2.thread = i ∧ entered x = some (provider, nonce)) ∧
      ∃ config claims, providerConfig settings provider = .ok config ∧
        (∃ x ∈ lg, x.2.thread = i ∧ checkOf x.2.command x.2.reply =
          some ⟨config.jwksUrl, config.clientId, idToken, claims⟩) ∧
        claims.nonce = nonce ∧ claims.issuer ∈ config.issuers := by
  intro start lg
  obtain ⟨hs, hh⟩ := invariant_log (obeys settings lib) (sound_logged lib settings) ls start []
    (following_initial _) rfl (sound_initial now database)
  rw [List.nil_append] at hs hh
  refine ⟨exists_source hs, fun n m challenge other hn hm hk => spent_once hs hn hm hk, ?_⟩
  intro i f provider idToken nonce grant hr
  have hfollows := following_run (obeys settings lib) ls start (following_initial _)
  obtain ⟨hspent, config, claims, hconfig, hchecked, hnonce, hissuer⟩ :=
    post_of_returned _ hfollows i _ _ hr _ rfl f provider idToken nonce grant rfl rfl
  rw [hh] at hspent hchecked
  obtain ⟨n, x, hx, hthread, henter⟩ := hs.spent i _ hspent
  refine ⟨⟨x, List.mem_of_getElem? hx, hthread, henter⟩, config, claims, hconfig, ?_, hnonce,
    hissuer⟩
  exact hs.checked i _ hchecked

end Gamely.ChallengeUse
