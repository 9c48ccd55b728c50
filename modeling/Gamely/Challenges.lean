import Gamely.Footprints
import Gamely.Logs

/-!
# Provider challenges

A login spends the key its own texts spell, before the provider is looked at. A key
that some challenge wrote can be spelled in one way only, so a login that gets past the
check spends a challenge of its own provider, and no other login ever spends that one.
-/

set_option autoImplicit false

namespace Gamely.Challenges
open Gamely.Calls Gamely.Stores Gamely.EmailJobs Gamely.Services Gamely.TokenService
open Gamely.EmailFilter Gamely.AuthService Gamely.OAuthService Gamely.Requests
open Gamely.Footprints Gamely.Interleaving Gamely.Logs

/-! ## Keys -/

theorem split_at_colon {a b c d : List Char} (ha : ':' ∉ a) (hb : ':' ∉ b)
    (h : a ++ ':' :: b = c ++ ':' :: d) : a = c ∧ b = d := by
  induction a generalizing c with
  | nil =>
    cases c with
    | nil => exact ⟨rfl, List.tail_eq_of_cons_eq h⟩
    | cons x c =>
      have hmem : ':' ∈ b := by
        rw [List.tail_eq_of_cons_eq h]
        simp
      exact absurd hmem hb
  | cons x a ih =>
    cases c with
    | nil =>
      have hx : x = ':' := List.head_eq_of_cons_eq h
      exact absurd (by simp [hx]) ha
    | cons y c =>
      obtain ⟨rfl, rfl⟩ := ih (fun hm => ha (List.mem_cons_of_mem x hm)) (List.tail_eq_of_cons_eq h)
      exact ⟨by rw [List.head_eq_of_cons_eq h], rfl⟩

/-- A text without another colon is put together in one way. -/
theorem joined_inj {scheme p n p' n' : String} (hp : ':' ∉ p.toList) (hn : ':' ∉ n.toList)
    (h : scheme ++ p ++ ":" ++ n = scheme ++ p' ++ ":" ++ n') : p = p' ∧ n = n' := by
  have hlist := congrArg String.toList h
  have hcolon : ":".toList = [':'] := rfl
  simp only [String.toList_append, List.append_assoc, hcolon, List.singleton_append,
    List.append_right_inj] at hlist
  obtain ⟨h₁, h₂⟩ := split_at_colon hp hn hlist
  exact ⟨String.toList_injective h₁, String.toList_injective h₂⟩

theorem nonceKey_inj {provider nonce provider' nonce' : String} (hp : ':' ∉ provider.toList)
    (hn : ':' ∉ nonce.toList) (h : nonceKey provider nonce = nonceKey provider' nonce') :
    provider = provider' ∧ nonce = nonce' := joined_inj hp hn h

theorem urlSafe_colon {nonce : String} (h : urlSafe nonce = true) : ':' ∉ nonce.toList := by
  intro hm
  have hc := List.all_eq_true.mp h ':' hm
  simp at hc

theorem provider_colon {settings : Settings} {provider : String} {config : ProviderConfig}
    (h : providerConfig settings provider = .ok config) : ':' ∉ provider.toList := by
  unfold providerConfig at h
  split at h
  case isTrue hg => rw [hg]; decide
  case isFalse =>
    split at h
    case isTrue ha => rw [ha]; decide
    case isFalse =>
      split at h
      case isTrue hm => rw [hm]; decide
      case isFalse => cases h

/-! ## The contract -/

/-- A token whose signature and audience were checked, against what and with which claims. -/
structure Checked where
  jwksUrl : String
  clientId : String
  idToken : String
  claims : IdClaims
  deriving DecidableEq

/-- `drawn` is the name drawn last and not used as a nonce, `spent` the challenge a login
consumed and `checked` the token it had checked. -/
structure Hand where
  drawn : Option String
  spent : Option (String × String)
  checked : Option Checked

def Hand.empty : Hand := ⟨none, none, none⟩

def next (g : Hand) : (c : Command) → Except Failure (Reply c) → Hand
  | .tokenUrlsafe, .ok name => { g with drawn := some name }
  | .setNonce .., _ => { g with drawn := none }
  | .delNonce provider nonce, .ok true => { g with spent := some (provider, nonce) }
  | .idToken jwksUrl clientId idToken, .ok (some claims) =>
    { g with checked := some ⟨jwksUrl, clientId, idToken, claims⟩ }
  | _, _ => g

variable (settings : Settings)

def allows (q : Request) (g : Hand) : Command → Prop
  | .setNonce provider nonce ttl => q = .oauthChallenge provider ∧
      (∃ config, providerConfig settings provider = .ok config) ∧ g.drawn = some nonce ∧ ttl = 300
  | .delNonce provider nonce => ∃ f idToken, q = .oauthLogin f provider idToken nonce
  | _ => True

def protocol (q : Request) : Protocol Command Reply Failure Hand := ⟨allows settings q, next⟩

/-- A login that grants tokens has spent its challenge and had a token checked that
answers it. -/
def Answered (q : Request) (g : Hand) (a : Answer) : Prop :=
  ∀ f provider idToken nonce grant, q = .oauthLogin f provider idToken nonce → a = .granted grant →
    g.spent = some (provider, nonce) ∧
    ∃ config claims, providerConfig settings provider = .ok config ∧
      g.checked = some ⟨config.jwksUrl, config.clientId, idToken, claims⟩ ∧
      claims.nonce = nonce ∧ claims.issuer ∈ config.issuers

def contract : Contract Command Reply Failure Answer Request Hand where
  start := Hand.empty
  protocol := fun _ q => protocol settings q
  post := fun q g r => ∀ a, r = .ok a → Answered settings q g a

/-! ## The code keeps the contract -/

def otherParts : List Part := [.name, .random, .clock, .order, .session, .code, .throttle,
  .filter, .rebuild, .lock, .database, .account, .snapshot, .transaction, .password, .broker]

variable {settings} {q : Request} {A : Type}

theorem other_allowed {c : Command} (hc : part c ∈ otherParts) (g : Hand) :
    allows settings q g c := by
  cases c with
  | setNonce | delNonce | idToken => simp [part, otherParts] at hc
  | _ => trivial

theorem other_kept {c : Command} (hc : part c ∈ otherParts) (g : Hand)
    (reply : Except Failure (Reply c)) :
    (next g c reply).spent = g.spent ∧ (next g c reply).checked = g.checked := by
  cases c with
  | setNonce | delNonce | idToken => simp [part, otherParts] at hc
  | tokenUrlsafe => cases reply <;> exact ⟨rfl, rfl⟩
  | _ => exact ⟨rfl, rfl⟩

theorem ensures_other {p : Act A} {parts : List Part} (hp : Within parts p)
    (ho : parts ⊆ otherParts) {g : Hand} {post : Hand → A → Prop}
    (hpost : ∀ g' a, g'.spent = g.spent → g'.checked = g.checked → post g' a) :
    Ensures (protocol settings q) p g post := by
  refine ensures_of_kept (fun g' => g'.spent = g.spent ∧ g'.checked = g.checked)
    (within_mono ho hp) ⟨rfl, rfl⟩ ?_ (fun g' a h => hpost g' a h.1 h.2)
  rintro c hc g' ⟨hs, hch⟩
  refine ⟨other_allowed hc g', fun reply => ?_⟩
  obtain ⟨h₁, h₂⟩ := other_kept hc g' reply
  exact ⟨h₁.trans hs, h₂.trans hch⟩

theorem ensures_createChallenge (provider : String) :
    Ensures (protocol settings (.oauthChallenge provider)) (createChallenge settings provider)
      Hand.empty (fun _ _ => True) := by
  apply ensures_bind
  apply ensures_ofResult
  intro config hconfig
  apply ensures_bind
  apply ensures_invoke trivial
  intro name
  apply ensures_bind
  apply ensures_invoke
  · exact ⟨rfl, ⟨config, hconfig⟩, rfl, rfl⟩
  · exact fun _ => ensures_pure _ _ trivial

/-- Under any protocol that lets the token be checked, the claims returned are the
ones the check answered with. -/
theorem ensures_verifiedClaims {G : Type} {P : Protocol Command Reply Failure G}
    (config : ProviderConfig) (idToken nonce : String) (g : G)
    (ha : P.allows g (.idToken config.jwksUrl config.clientId idToken)) :
    Ensures P (verifiedClaims config idToken nonce) g (fun g' claims =>
      g' = P.next g (.idToken config.jwksUrl config.clientId idToken) (.ok (some claims)) ∧
        claims.nonce = nonce ∧ claims.issuer ∈ config.issuers) := by
  have hdecode : Ensures P (tryCatchThe Failure
      (invoke (Command.idToken config.jwksUrl config.clientId idToken))
      (fun _ => throw (.unauthorized "The provider token is invalid."))) g
      (fun g' decoded =>
        g' = P.next g (.idToken config.jwksUrl config.clientId idToken) (.ok decoded)) := by
    apply ensures_tryCatch _ (fun _ _ => ensures_throw _ _)
    exact ensures_invoke ha (fun _ => rfl)
  apply ensures_bind
  apply ensures_mono _ hdecode
  rintro _ decoded rfl
  cases decoded with
  | none => exact ensures_throw _ _
  | some claims =>
    dsimp only
    split
    case isTrue => exact ensures_throw _ _
    case isFalse hissuer =>
      apply ensures_bind
      apply ensures_ofResult
      intro same hsame
      split
      case isTrue => exact ensures_throw _ _
      case isFalse htrue =>
        have hnonce : claims.nonce = nonce := by
          unfold compareDigest at hsame
          split at hsame
          · cases hsame
            simpa using htrue
          · cases hsame
        exact ensures_pure _ _ ⟨rfl, hnonce, by simpa using hissuer⟩

variable (lib : Libraries)

theorem ensures_oauthLogin (f : FilterSettings) (session : ℕ) (provider idToken nonce : String) :
    Ensures (protocol settings (.oauthLogin f provider idToken nonce))
      (oauthLogin lib settings f session provider idToken nonce) Hand.empty
      (fun g grant =>
        Answered settings (.oauthLogin f provider idToken nonce) g (.granted grant)) := by
  apply ensures_bind
  apply ensures_invoke
  · exact ⟨f, idToken, rfl⟩
  intro spent
  split
  case isTrue => exact ensures_throw _ _
  case isFalse hspent =>
    have htrue : spent = true := by simpa using hspent
    subst htrue
    apply ensures_bind
    apply ensures_ofResult
    intro config hconfig
    apply ensures_bind
    apply ensures_mono _ (ensures_verifiedClaims config idToken nonce _ trivial)
    rintro _ claims ⟨rfl, hnonce, hissuer⟩
    apply ensures_bind
    apply ensures_ofResult
    intro email _
    split
    · exact ensures_throw _ _
    · apply ensures_bind
      apply ensures_other (identityUser_within f session provider claims.subject email) (by decide)
      intro g₁ user h₁ h₁'
      apply ensures_other (grant_within lib settings user none) (by decide)
      rintro g₂ grant h₂ h₂' f' provider' idToken' nonce' grant' hq -
      cases hq
      exact ⟨h₂.trans (h₁.trans rfl), config, claims, hconfig, h₂'.trans (h₁'.trans rfl),
        hnonce, hissuer⟩

def isOAuth : Request → Bool
  | .oauthChallenge _ | .oauthLogin .. => true
  | _ => false

variable (settings)

theorem other_handled (session : ℕ) (q : Request) (hq : isOAuth q = false) :
    Within otherParts (handled lib settings session q) := by
  apply within_mono _ (handled_within lib settings session q)
  cases q with
  | oauthChallenge | oauthLogin => cases hq
  | _ =>
    simp only [footprint]
    decide

theorem ensures_handled (session : ℕ) (q : Request) :
    Ensures (protocol settings q) (handled lib settings session q) Hand.empty
      (Answered settings q) := by
  have unasked : isOAuth q = false → Ensures (protocol settings q)
      (handled lib settings session q) Hand.empty (Answered settings q) := by
    intro hq
    apply ensures_other (other_handled settings lib session q hq) (fun _ h => h)
    rintro g a - - f provider idToken nonce grant rfl
    cases hq
  cases q with
  | oauthChallenge provider =>
    apply ensures_map
    apply ensures_mono _ (ensures_createChallenge provider)
    rintro g name - f provider idToken nonce grant hq
    cases hq
  | oauthLogin f provider idToken nonce =>
    exact ensures_map (ensures_oauthLogin lib f session provider idToken nonce)
  | _ => exact unasked rfl

theorem ensures_serve (session : ℕ) (q : Request) :
    Ensures (protocol settings q) (serve lib settings session q) Hand.empty
      (Answered settings q) := by
  apply ensures_bind
  apply ensures_mono _ (ensures_tryCatch (ensures_handled settings lib session q) _)
  · intro g answer hanswer
    apply ensures_bind
    apply ensures_other (rollback_within session) (by decide)
    intro g' _ hs hc
    apply ensures_pure
    intro f provider idToken nonce grant hq ha
    rw [hs, hc]
    exact hanswer f provider idToken nonce grant hq ha
  · intro e g
    apply ensures_bind
    apply ensures_other (rollback_within session) (by decide)
    exact fun _ _ _ _ => ensures_throw _ _

theorem obeys : Obeys (service lib settings) (contract settings) where
  program := fun i q => ensures_serve settings lib i q
  cancelled := by
    intro i q p hp g
    cases q with
    | warm f =>
      cases hp
      intro a _ f' provider idToken nonce grant hq
      cases hq
    | _ => cases hp

end Gamely.Challenges
