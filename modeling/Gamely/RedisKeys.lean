import Gamely.Challenges
import Gamely.UUIDs
import Mathlib.Data.List.TakeDrop

/-!
# The keys of Redis

Keys are spelled out with colons, which some of their arguments contain as well. A
spelling still names one kind of state and one choice of arguments, so the keyspace
is as good as a store for every kind.
-/

set_option autoImplicit false

namespace Gamely.RedisKeys
open Gamely.Digits Gamely.UUIDs Gamely.Stores Gamely.Services Gamely.Challenges
open Gamely.ExpiringStore

/-! ## Spelling -/

inductive Scope where
  | availability
  | signup
  | forgotPassword
  deriving DecidableEq, Repr

def Scope.text : Scope → String
  | .availability => "availability"
  | .signup => "signup"
  | .forgotPassword => "forgot-password"

inductive Provider where
  | google
  | microsoft
  | apple
  deriving DecidableEq, Repr

def Provider.text : Provider → String
  | .google => "google"
  | .microsoft => "microsoft"
  | .apple => "apple"

/-- What a key is for, with the arguments it is built from. -/
inductive Key where
  | refresh (digest : String)
  | reuse (digest : String)
  | family (user : UUID) (familyId : String)
  | sessions (user : UUID)
  | code (purpose : Purpose) (email : String)
  | cooldown (purpose : Purpose) (email : String)
  | oauthNonce (provider : Provider) (nonce : String)
  | throttle (scope : Scope) (digest : String)
  | emailFilter
  | emailFilterMeta
  | emailFilterLock
  deriving DecidableEq

def userText (user : UUID) : String := String.ofList user.str

def sessionValue (user : UUID) (familyId : String) : String := userText user ++ ":" ++ familyId

def Key.text : Key → String
  | .refresh digest => "auth:refresh:" ++ digest
  | .reuse digest => "auth:reuse:" ++ digest
  | .family user familyId => "auth:session:" ++ userText user ++ ":" ++ familyId
  | .sessions user => "auth:sessions:" ++ userText user
  | .code purpose email => "auth:code:" ++ purpose.text ++ ":" ++ email
  | .cooldown purpose email => "auth:code:cooldown:" ++ purpose.text ++ ":" ++ email
  | .oauthNonce provider nonce => nonceKey provider.text nonce
  | .throttle scope digest => "auth:throttle:" ++ scope.text ++ ":" ++ digest
  | .emailFilter => "auth:email:filter"
  | .emailFilterMeta => "auth:email:filter:meta"
  | .emailFilterLock => "auth:email:filter:rebuild"

/-- `_parse_session`; `none` is the refusal of the token. -/
def parseSession (transform : List Char → List Char) (value : String) : Option (UUID × String) :=
  match value.toList.span (· ≠ ':') with
  | (_, []) => none
  | (user, _::familyId) =>
    if familyId = [] then none
    else (UUID.parse transform user).map (fun id => (id, String.ofList familyId))

/-! ## Kinds of keys -/

/-- How the text of a key begins. No beginning goes on as another one. -/
inductive Kind where
  | refresh
  | reuse
  | family
  | sessions
  | code (purpose : Purpose)
  | cooldown (purpose : Purpose)
  | oauthNonce
  | throttle (scope : Scope)
  | emailFilter
  deriving DecidableEq

def Kind.text : Kind → String
  | .refresh => "auth:refresh:"
  | .reuse => "auth:reuse:"
  | .family => "auth:session:"
  | .sessions => "auth:sessions:"
  | .code purpose => "auth:code:" ++ purpose.text ++ ":"
  | .cooldown purpose => "auth:code:cooldown:" ++ purpose.text ++ ":"
  | .oauthNonce => "auth:oauth-nonce:"
  | .throttle scope => "auth:throttle:" ++ scope.text ++ ":"
  | .emailFilter => "auth:email:filter"

def kinds : List Kind := [.refresh, .reuse, .family, .sessions, .code .verify, .code .reset,
  .cooldown .verify, .cooldown .reset, .oauthNonce, .throttle .availability, .throttle .signup,
  .throttle .forgotPassword, .emailFilter]

theorem mem_kinds (a : Kind) : a ∈ kinds := by
  cases a with
  | code purpose => cases purpose <;> decide
  | cooldown purpose => cases purpose <;> decide
  | throttle scope => cases scope <;> decide
  | _ => decide

theorem kinds_apart : ∀ a ∈ kinds, ∀ b ∈ kinds, a.text.toList <+: b.text.toList → a = b := by
  decide +kernel

/-- Where no beginning of a text begins another, a text tells which one it begins with. -/
theorem unique_of_apart {T : Type} {text : T → String}
    (apart : ∀ a b, (text a).toList <+: (text b).toList → a = b) {a b : T} {s t : String}
    (h : text a ++ s = text b ++ t) : a = b ∧ s = t := by
  have hlist := congrArg String.toList h
  rw [String.toList_append, String.toList_append] at hlist
  have hab : a = b := by
    rcases List.append_eq_append_iff.mp hlist with ⟨more, hmore, -⟩ | ⟨more, hmore, -⟩
    · exact apart a b ⟨more, hmore.symm⟩
    · exact (apart b a ⟨more, hmore.symm⟩).symm
  subst hab
  exact ⟨rfl, String.toList_injective (List.append_cancel_left hlist)⟩

theorem kind_unique {a b : Kind} {s t : String} (h : a.text ++ s = b.text ++ t) :
    a = b ∧ s = t :=
  unique_of_apart (fun a b => kinds_apart a (mem_kinds a) b (mem_kinds b)) h

def Key.kind : Key → Kind
  | .refresh _ => .refresh
  | .reuse _ => .reuse
  | .family .. => .family
  | .sessions _ => .sessions
  | .code purpose _ => .code purpose
  | .cooldown purpose _ => .cooldown purpose
  | .oauthNonce .. => .oauthNonce
  | .throttle scope _ => .throttle scope
  | .emailFilter | .emailFilterMeta | .emailFilterLock => .emailFilter

def Key.rest : Key → String
  | .refresh digest => digest
  | .reuse digest => digest
  | .family user familyId => userText user ++ ":" ++ familyId
  | .sessions user => userText user
  | .code _ email => email
  | .cooldown _ email => email
  | .oauthNonce provider nonce => provider.text ++ ":" ++ nonce
  | .throttle _ digest => digest
  | .emailFilter => ""
  | .emailFilterMeta => ":meta"
  | .emailFilterLock => ":rebuild"

theorem append_joined (a b c d : String) : a ++ b ++ c ++ d = a ++ (b ++ c ++ d) := by
  simp only [String.append_assoc]

theorem text_split (k : Key) : k.text = k.kind.text ++ k.rest := by
  cases k with
  | family user familyId => exact append_joined _ _ _ _
  | oauthNonce provider nonce => exact append_joined _ _ _ _
  | emailFilter | emailFilterMeta | emailFilterLock => decide +kernel
  | _ => rfl

/-! ## Arguments -/

theorem userText_colon (user : UUID) : ':' ∉ (userText user).toList := by
  rw [userText, String.toList_ofList]
  exact str_not_mem (by decide) (by decide)

theorem userText_inj {user user' : UUID} (h : userText user = userText user') : user = user' :=
  str_inj (String.ofList_inj.mp h)

theorem split_first_colon {a b c d : List Char} (ha : ':' ∉ a) (hc : ':' ∉ c)
    (h : a ++ ':' :: b = c ++ ':' :: d) : a = c ∧ b = d := by
  rcases List.append_eq_append_iff.mp h with ⟨more, rfl, hmore⟩ | ⟨more, rfl, hmore⟩
  · cases more with
    | nil => exact ⟨by simp, List.tail_eq_of_cons_eq hmore⟩
    | cons x more =>
      obtain ⟨rfl, -⟩ := List.cons.inj hmore
      exact absurd (by simp) hc
  · cases more with
    | nil => exact ⟨by simp, (List.tail_eq_of_cons_eq hmore).symm⟩
    | cons x more =>
      obtain ⟨rfl, -⟩ := List.cons.inj hmore
      exact absurd (by simp) ha

theorem colon_inj {a b c d : String} (ha : ':' ∉ a.toList) (hc : ':' ∉ c.toList)
    (h : a ++ ":" ++ b = c ++ ":" ++ d) : a = c ∧ b = d := by
  have hlist := congrArg String.toList h
  have hcolon : ":".toList = [':'] := rfl
  simp only [String.toList_append, List.append_assoc, hcolon, List.singleton_append] at hlist
  obtain ⟨hac, hbd⟩ := split_first_colon ha hc hlist
  exact ⟨String.toList_injective hac, String.toList_injective hbd⟩

theorem provider_text_colon (provider : Provider) : ':' ∉ provider.text.toList := by
  cases provider <;> decide +kernel

theorem provider_text_inj {p q : Provider} (h : p.text = q.text) : p = q := by
  cases p <;> cases q <;> first | rfl | exact absurd h (by decide +kernel)

theorem text_inj {k k' : Key} (h : k.text = k'.text) : k = k' := by
  rw [text_split, text_split] at h
  obtain ⟨hkind, hrest⟩ := kind_unique h
  have hmeta : ":meta" ≠ "" ∧ ":rebuild" ≠ "" ∧ ":meta" ≠ ":rebuild" := by decide
  cases k with
  | refresh digest => cases k' with
    | refresh digest' => exact congrArg _ hrest
    | _ => cases hkind
  | reuse digest => cases k' with
    | reuse digest' => exact congrArg _ hrest
    | _ => cases hkind
  | family user familyId => cases k' with
    | family user' familyId' =>
      obtain ⟨huser, rfl⟩ := colon_inj (userText_colon user) (userText_colon user') hrest
      rw [userText_inj huser]
    | _ => cases hkind
  | sessions user => cases k' with
    | sessions user' => rw [userText_inj hrest]
    | _ => cases hkind
  | code purpose email => cases k' with
    | code purpose' email' =>
      cases hkind
      exact congrArg _ hrest
    | _ => cases hkind
  | cooldown purpose email => cases k' with
    | cooldown purpose' email' =>
      cases hkind
      exact congrArg _ hrest
    | _ => cases hkind
  | oauthNonce provider nonce => cases k' with
    | oauthNonce provider' nonce' =>
      obtain ⟨hprovider, rfl⟩ :=
        colon_inj (provider_text_colon provider) (provider_text_colon provider') hrest
      rw [provider_text_inj hprovider]
    | _ => cases hkind
  | throttle scope digest => cases k' with
    | throttle scope' digest' =>
      cases hkind
      exact congrArg _ hrest
    | _ => cases hkind
  | emailFilter => cases k' with
    | emailFilter => rfl
    | emailFilterMeta => exact absurd hrest.symm hmeta.1
    | emailFilterLock => exact absurd hrest.symm hmeta.2.1
    | _ => cases hkind
  | emailFilterMeta => cases k' with
    | emailFilter => exact absurd hrest hmeta.1
    | emailFilterMeta => rfl
    | emailFilterLock => exact absurd hrest hmeta.2.2
    | _ => cases hkind
  | emailFilterLock => cases k' with
    | emailFilter => exact absurd hrest hmeta.2.1
    | emailFilterMeta => exact absurd hrest.symm hmeta.2.2
    | emailFilterLock => rfl
    | _ => cases hkind

/-- The texts a login is sent spell a challenge or nothing that is stored, and a challenge that
was created in one way only. -/
theorem nonceKey_text {provider nonce : String} {k : Key} (h : nonceKey provider nonce = k.text) :
    ∃ p n, k = .oauthNonce p n ∧ (urlSafe n = true → provider = p.text ∧ nonce = n) := by
  have hsplit : Kind.oauthNonce.text ++ (provider ++ ":" ++ nonce) = k.kind.text ++ k.rest := by
    rw [← text_split, ← h]
    exact (append_joined _ _ _ _).symm
  obtain ⟨hkind, -⟩ := kind_unique hsplit
  cases k with
  | oauthNonce p n =>
    refine ⟨p, n, rfl, fun hn => ?_⟩
    obtain ⟨hp, hnonce⟩ := nonceKey_inj (provider_text_colon p) (urlSafe_colon hn) h.symm
    exact ⟨hp.symm, hnonce.symm⟩
  | _ => cases hkind

/-! ## One keyspace -/

/-- What a caller does to the store: commands on one key each, chosen by what the commands
before have read, and a reply. -/
inductive Script (K V A : Type) where
  | reply (a : A)
  | command (k : K) (f : Option (Entry V) → Option (Entry V))
      (next : Option (Entry V) → Script K V A)

namespace Script
variable {K V A : Type}

def run [DecidableEq K] : Script K V A → Store K V → A × Store K V
  | .reply a, s => (a, s)
  | .command k f next, s => (next (s k)).run (Function.update s k (f (s k)))

/-- Whatever is read, the commands keep to these keys. -/
def Within (P : K → Prop) : Script K V A → Prop
  | .reply _ => True
  | .command k _ next => P k ∧ ∀ e, (next e).Within P

def spelled : Script Key V A → Script String V A
  | .reply a => .reply a
  | .command k f next => .command k.text f (fun e => (next e).spelled)

theorem run_frame [DecidableEq K] {P : K → Prop} {script : Script K V A} (h : script.Within P)
    {k : K} (hk : ¬ P k) (s : Store K V) : (script.run s).2 k = s k := by
  induction script generalizing s with
  | reply a => rfl
  | command k' f next ih =>
    have hne : k ≠ k' := fun he => hk (he ▸ h.1)
    rw [run, ih (s k') (h.2 (s k')), Function.update_of_ne hne]

theorem run_congr [DecidableEq K] {P : K → Prop} {script : Script K V A} (h : script.Within P)
    {s t : Store K V} (hst : ∀ k, P k → s k = t k) :
    (script.run s).1 = (script.run t).1 ∧ ∀ k, P k → (script.run s).2 k = (script.run t).2 k := by
  induction script generalizing s t with
  | reply a => exact ⟨rfl, hst⟩
  | command k' f next ih =>
    rw [run, run, hst k' h.1]
    apply ih (t k') (h.2 (t k'))
    intro k hk
    rcases eq_or_ne k k' with rfl | hne
    · rw [Function.update_self, Function.update_self]
    · rw [Function.update_of_ne hne, Function.update_of_ne hne, hst k hk]

/-- Redis is a store for every kind of key. -/
theorem run_spelled (script : Script Key V A) (redis : Store String V) :
    (script.spelled.run redis).1 = (script.run (fun k => redis k.text)).1 ∧
    ∀ k : Key, (script.spelled.run redis).2 k.text = (script.run (fun k => redis k.text)).2 k := by
  induction script generalizing redis with
  | reply a => exact ⟨rfl, fun _ => rfl⟩
  | command k' f next ih =>
    have hupdate : (fun k : Key => Function.update redis k'.text (f (redis k'.text)) k.text) =
        Function.update (fun k : Key => redis k.text) k' (f (redis k'.text)) :=
      Function.update_comp_eq_of_injective redis (fun _ _ h => text_inj h) k' _
    have hnext := ih (redis k'.text) (Function.update redis k'.text (f (redis k'.text)))
    rw [hupdate] at hnext
    exact hnext

end Script

/-! ## Session values -/

theorem parseSession_value (transform : List Char → List Char) (user : UUID) {familyId : String}
    (h : familyId ≠ "") :
    parseSession transform (sessionValue user familyId) = some (user, familyId) := by
  have hspan : (sessionValue user familyId).toList.span (· ≠ ':') =
      (user.str, ':' :: familyId.toList) := by
    have hcolon : ":".toList = [':'] := rfl
    have huser : ∀ c ∈ user.str, decide (c ≠ ':') = true := by
      rintro c hc
      rw [decide_eq_true_eq]
      rintro rfl
      exact str_not_mem (by decide) (by decide) hc
    rw [sessionValue, userText, String.toList_append, String.toList_append, String.toList_ofList,
      hcolon, List.append_assoc, List.singleton_append, List.span_eq_takeWhile_dropWhile,
      List.takeWhile_append_of_pos huser, List.dropWhile_append_of_pos huser,
      List.takeWhile_cons_of_neg (by decide), List.dropWhile_cons_of_neg (by decide),
      List.append_nil]
  have hne : familyId.toList ≠ [] := by
    intro he
    exact h (String.toList_injective he)
  rw [parseSession, hspan]
  dsimp only
  rw [if_neg hne, parse_str, Option.map_some, String.ofList_toList]

/-- The keys of Redis never collide, what keeps to some of them neither reads nor changes
what is under the others, and a session is read as it was written. -/
theorem keys_separate (transform : List Char → List Char) :
    (∀ k k' : Key, k.text = k'.text ↔ k = k') ∧
    (∀ (V A : Type) (P : Key → Prop) (script : Script Key V A), script.Within P →
      ∀ redis : Store String V,
      (∀ k, ¬ P k → (script.spelled.run redis).2 k.text = redis k.text) ∧
      ∀ redis' : Store String V, (∀ k, P k → redis k.text = redis' k.text) →
        (script.spelled.run redis).1 = (script.spelled.run redis').1 ∧
        ∀ k, P k → (script.spelled.run redis).2 k.text = (script.spelled.run redis').2 k.text) ∧
    (∀ provider nonce k, nonceKey provider nonce = Key.text k →
      ∃ p n, k = .oauthNonce p n ∧ (urlSafe n = true → provider = p.text ∧ nonce = n)) ∧
    ∀ (user : UUID) (familyId : String), familyId ≠ "" →
      parseSession transform (sessionValue user familyId) = some (user, familyId) := by
  refine ⟨fun k k' => ⟨text_inj, fun h => h ▸ rfl⟩, fun V A P script h redis => ⟨?_, ?_⟩,
    fun _ _ _ h => nonceKey_text h, fun user familyId h => ?_⟩
  · intro k hk
    rw [(script.run_spelled redis).2, Script.run_frame h hk]
  · intro redis' hagree
    obtain ⟨hreply, hkeys⟩ := Script.run_congr h hagree
    obtain ⟨h₁, h₂⟩ := script.run_spelled redis
    obtain ⟨h₁', h₂'⟩ := script.run_spelled redis'
    exact ⟨h₁.trans (hreply.trans h₁'.symm),
      fun k hk => (h₂ k).trans ((hkeys k hk).trans (h₂' k).symm)⟩
  · exact parseSession_value transform user h

end Gamely.RedisKeys
