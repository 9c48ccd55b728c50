import Gamely.AccountMoves

/-!
# Accounts and their credentials

Every committed account goes back to the row one request created, and keeps its id,
its address and whether it has a password. A reset code is stored only for an
address whose account has one, so resetting gives no account its first password.
-/

set_option autoImplicit false

namespace Gamely.Credentials
open Gamely.Calls Gamely.Stores Gamely.EmailJobs Gamely.ExpiringStore Gamely.Services
open Gamely.AuthService Gamely.Requests Gamely.Interleaving Gamely.SessionMoves
open Gamely.AccountContract Gamely.AccountMoves

/-- One account, up to what a request may change of it. -/
def Same (u row : User) : Prop :=
  u.id = row.id ∧ u.email = row.email ∧ (u.passwordHash = none ↔ row.passwordHash = none)

def Row (v : View) (row : User) : Prop := ∃ u ∈ v.users, Same u row

def HasPassword (v : View) (address : Email) : Prop :=
  ∃ u ∈ v.users, u.email = address ∧ u.passwordHash ≠ none

/-- Where the committed and the flushed rows come from. -/
structure Owned (v : View) (ids : ℕ → Option UserId) (made : ℕ → Option User) : Prop where
  drawn : ∀ j id, ids j = some id → id ∈ v.drawn
  apart : ∀ j k id, ids j = some id → ids k = some id → j = k
  named : ∀ j row, made j = some row → ids j = some row.id
  users : ∀ u ∈ v.users, ∃ j row, made j = some row ∧ Same u row
  flushed : ∀ j row, (j, row) ∈ v.flushed → made j = some row ∧ ∀ u ∈ v.users, u.email ≠ row.email
  rivals : ∀ j k row row', (j, row) ∈ v.flushed → (k, row') ∈ v.flushed →
    row.email = row'.email → j = k
  unique : ∀ u ∈ v.users, ∀ u' ∈ v.users, u.email = u'.email → u.id = u'.id

/-- What a request has read and taken still says something of the accounts. -/
structure Fits (v : View) (g : Hand) : Prop where
  found : ∀ row, g.found = some row → Row v row
  asked : ∀ row a, g.found = some row → g.asked = some a → row.email = a
  sending : ∀ key, g.sending = some key → key.purpose = .reset → HasPassword v key.email
  payload : ∀ key p, g.payload = some (key, p) → key.purpose = .reset → HasPassword v key.email

structure Sound (v : View) (hands : ℕ → Hand) : Prop where
  owned : Owned v (fun j => (hands j).id) (fun j => (hands j).made)
  fits : ∀ j, Fits v (hands j)
  code : ∀ key d, v.code key = some d → key.purpose = .reset → HasPassword v key.email
  credential : ∀ u ∈ v.users, u.passwordHash ≠ none ∨ ∃ x ∈ v.identities, x.userId = u.id

/-! ## Rows -/

theorem same_refl (u : User) : Same u u := ⟨rfl, rfl, Iff.rfl⟩

theorem same_symm {u u' : User} (h : Same u u') : Same u' u := ⟨h.1.symm, h.2.1.symm, h.2.2.symm⟩

theorem same_trans {u u' u'' : User} (h : Same u u') (h' : Same u' u'') : Same u u'' :=
  ⟨h.1.trans h'.1, h.2.1.trans h'.2.1, h.2.2.trans h'.2.2⟩

variable {v v' : View} {hands : ℕ → Hand} {ids : ℕ → Option UserId} {made : ℕ → Option User}
  {i : ℕ}

/-- No account is lost. -/
def Kept (v v' : View) : Prop := ∀ u ∈ v.users, ∃ u' ∈ v'.users, Same u' u

theorem row_kept (h : Kept v v') {row : User} (hr : Row v row) : Row v' row := by
  obtain ⟨u, hu, hs⟩ := hr
  obtain ⟨u', hu', hs'⟩ := h u hu
  exact ⟨u', hu', same_trans hs' hs⟩

theorem hasPassword_kept (h : Kept v v') {a : Email} (hp : HasPassword v a) : HasPassword v' a := by
  obtain ⟨u, hu, he, hn⟩ := hp
  obtain ⟨u', hu', -, he', hn'⟩ := h u hu
  exact ⟨u', hu', he'.trans he, fun h => hn (hn'.mp h)⟩

theorem fits_kept (h : Kept v v') {g : Hand} (hf : Fits v g) : Fits v' g where
  found := fun row hr => row_kept h (hf.found row hr)
  asked := hf.asked
  sending := fun key hk hp => hasPassword_kept h (hf.sending key hk hp)
  payload := fun key p hk hp => hasPassword_kept h (hf.payload key p hk hp)

theorem rowsOf_iff (u : User) : u ∈ rowsOf v i ↔ (i, u) ∈ v.flushed := by
  simp [rowsOf]

theorem made_of_mem (h : Owned v ids made) {u : User} (hu : u ∈ v.users ++ rowsOf v i) :
    ∃ j row, made j = some row ∧ Same u row := by
  rcases List.mem_append.mp hu with hu | hu
  · exact h.users u hu
  · exact ⟨i, u, (h.flushed i u ((rowsOf_iff u).mp hu)).1, same_refl u⟩

/-- A row with the id of one a request made is that account. -/
theorem same_of_made (h : Owned v ids made) {u row : User} {k : ℕ}
    (hu : u ∈ v.users ++ rowsOf v i) (hk : made k = some row) (he : u.id = row.id) :
    Same u row := by
  obtain ⟨j, row', hj, hs⟩ := made_of_mem h hu
  have hids : ids k = some row'.id := by
    rw [h.named k row hk, ← he, hs.1]
  obtain rfl := h.apart j k row'.id (h.named j row' hj) hids
  rw [hj] at hk
  cases hk
  exact hs

theorem same_of_id (h : Owned v ids made) {u u' : User} (hu : u ∈ v.users ++ rowsOf v i)
    (hu' : u' ∈ v.users ++ rowsOf v i) (he : u.id = u'.id) : Same u u' := by
  obtain ⟨k, row, hk, hs⟩ := made_of_mem h hu'
  exact same_trans (same_of_made h hu hk (he.trans hs.1)) (same_symm hs)

/-! ## Commits -/

/-- The account a change gives a password has one. -/
def Harmless (users : List User) : Change → Prop
  | .passwordHash user _ => ∀ u ∈ users, u.id = user → u.passwordHash ≠ none
  | _ => True

theorem same_onUser {users : List User} {u u' : User} {change : Change} (hu : u ∈ users)
    (hs : Same u' u) (hc : Harmless users change) : Same (onUser u' change) u := by
  cases change with
  | passwordHash user h =>
    simp only [onUser]
    split
    case isTrue he =>
      have hn : u.passwordHash ≠ none := hc u hu (hs.1.symm.trans he)
      exact ⟨hs.1, hs.2.1, by simp [hn]⟩
    case isFalse => exact hs
  | emailVerifiedAt user t =>
    simp only [onUser]
    split
    · exact hs
    · exact hs
  | identity row => exact hs

theorem same_changes {users : List User} {u : User} (hu : u ∈ users) (changes : List Change)
    (hc : ∀ change ∈ changes, Harmless users change) (u' : User) (hs : Same u' u) :
    Same (changes.foldl onUser u') u := by
  induction changes generalizing u' with
  | nil => exact hs
  | cons change changes ih =>
    apply ih (fun c hm => hc c (List.mem_cons_of_mem _ hm))
    exact same_onUser hu hs (hc change List.mem_cons_self)

theorem mem_committed {changes : List Change}
    (hc : ∀ change ∈ changes, Harmless (v.users ++ rowsOf v i) change) {u' : User}
    (hu : u' ∈ (v.committed i changes).users) : ∃ u ∈ v.users ++ rowsOf v i, Same u' u := by
  obtain ⟨u, hm, rfl⟩ := List.mem_map.mp hu
  exact ⟨u, hm, same_changes hm changes hc u (same_refl u)⟩

theorem kept_committed {changes : List Change}
    (hc : ∀ change ∈ changes, Harmless (v.users ++ rowsOf v i) change) :
    Kept v (v.committed i changes) := by
  intro u hu
  have hm : u ∈ v.users ++ rowsOf v i := List.mem_append_left _ hu
  exact ⟨_, List.mem_map_of_mem hm, same_changes hm changes hc u (same_refl u)⟩

theorem owned_committed (h : Owned v ids made) {changes : List Change}
    (hc : ∀ change ∈ changes, Harmless (v.users ++ rowsOf v i) change) :
    Owned (v.committed i changes) ids made where
  drawn := h.drawn
  apart := h.apart
  named := h.named
  users := by
    intro u' hu'
    obtain ⟨u, hu, hs⟩ := mem_committed hc hu'
    obtain ⟨j, row, hj, hrow⟩ := made_of_mem h hu
    exact ⟨j, row, hj, same_trans hs hrow⟩
  flushed := by
    intro j row hm
    obtain ⟨hm, hj⟩ := List.mem_filter.mp hm
    apply And.intro (h.flushed j row hm).1
    intro u' hu' he
    obtain ⟨u, hu, hs⟩ := mem_committed hc hu'
    rcases List.mem_append.mp hu with hu | hu
    · exact (h.flushed j row hm).2 u hu (hs.2.1.symm.trans he)
    · have := h.rivals i j u row ((rowsOf_iff u).mp hu) hm (hs.2.1.symm.trans he)
      simp [this] at hj
  rivals := fun j k row row' hj hk =>
    h.rivals j k row row' (List.mem_of_mem_filter hj) (List.mem_of_mem_filter hk)
  unique := by
    intro u' hu' w' hw' he
    obtain ⟨u, hu, hs⟩ := mem_committed hc hu'
    obtain ⟨w, hw, ht⟩ := mem_committed hc hw'
    have hemail : u.email = w.email := hs.2.1.symm.trans (he.trans ht.2.1)
    rw [hs.1, ht.1]
    rcases List.mem_append.mp hu with hu | hu
    · rcases List.mem_append.mp hw with hw | hw
      · exact h.unique u hu w hw hemail
      · exact absurd hemail ((h.flushed i w ((rowsOf_iff w).mp hw)).2 u hu)
    · rcases List.mem_append.mp hw with hw | hw
      · exact absurd hemail.symm ((h.flushed i u ((rowsOf_iff u).mp hu)).2 w hw)
      · have hi := (h.flushed i u ((rowsOf_iff u).mp hu)).1
        rw [(h.flushed i w ((rowsOf_iff w).mp hw)).1] at hi
        cases hi
        rfl

theorem harmless_of_justified {lib : Libraries} {settings : Settings} {q : Request} {g : Hand}
    (h : Owned v ids made) (hg : Fits v g) {change : Change}
    (hj : Justified lib settings q g change) : Harmless (v.users ++ rowsOf v i) change := by
  cases change with
  | passwordHash user hash =>
    obtain ⟨row, hrow, rfl, hgrounds⟩ := hj
    obtain ⟨u, hu, hs⟩ := hg.found row hrow
    have hpassword : ∃ w ∈ v.users, w.id = row.id ∧ w.passwordHash ≠ none := by
      rcases hgrounds with hn | ⟨p, hp⟩
      · exact ⟨u, hu, hs.1, fun hnone => hn (hs.2.2.mp hnone)⟩
      · obtain ⟨w, hw, he, hn⟩ := hg.payload _ p hp rfl
        exact ⟨w, hw, (h.unique w hw u hu (he.trans hs.2.1.symm)).trans hs.1, hn⟩
    obtain ⟨w, hw, hid, hn⟩ := hpassword
    intro u' hu' hid' hnone
    have := same_of_id h hu' (List.mem_append_left _ hw) (hid'.trans hid.symm)
    exact hn (this.2.2.mp hnone)
  | _ => trivial

/-! ## Moves -/

theorem proj_update {T : Type} (f : Hand → T) {g' : Hand} (h : f g' = f (hands i)) :
    (fun j => f (Function.update hands i g' j)) = fun j => f (hands j) := by
  funext j
  by_cases hj : j = i
  · subst hj
    rw [Function.update_self, h]
  · rw [Function.update_of_ne hj]

theorem forall_update {P : Hand → Prop} {g' : Hand} (hg : P g') (h : ∀ j, P (hands j)) (j : ℕ) :
    P (Function.update hands i g' j) := by
  by_cases hj : j = i
  · subst hj
    rwa [Function.update_self]
  · rw [Function.update_of_ne hj]
    exact h j

theorem sound_hand (h : Sound v hands) {g' : Hand} (hid : g'.id = (hands i).id)
    (hmade : g'.made = (hands i).made) (hfits : Fits v g') :
    Sound v (Function.update hands i g') where
  owned := by
    rw [proj_update Hand.id hid, proj_update Hand.made hmade]
    exact h.owned
  fits := forall_update hfits h.fits
  code := h.code
  credential := h.credential

theorem sound_draw (h : Sound v hands) (id : UserId) (new : id ∉ v.drawn)
    (first : (hands i).id = none) :
    Sound { v with drawn := id :: v.drawn }
      (Function.update hands i { hands i with id := some id }) where
  owned := by
    have hids : (fun j => (Function.update hands i { hands i with id := some id } j).id) =
        Function.update (fun j => (hands j).id) i (some id) := by
      funext j
      by_cases hj : j = i
      · subst hj
        simp
      · simp [Function.update_of_ne hj]
    have ids : ∀ j d, Function.update (fun j => (hands j).id) i (some id) j = some d →
        (j = i ∧ d = id) ∨ (hands j).id = some d := by
      intro j d hd
      by_cases hj : j = i
      · subst hj
        left
        simpa [eq_comm] using hd
      · right
        rwa [Function.update_of_ne hj] at hd
    have old : ∀ j, (hands j).id ≠ some id := fun j hj => new (h.owned.drawn j id hj)
    have hmade : (fun j => (Function.update hands i { hands i with id := some id } j).made) =
        fun j => (hands j).made := proj_update Hand.made rfl
    rw [hids, hmade]
    constructor
    · intro j d hd
      rcases ids j d hd with ⟨-, rfl⟩ | hd
      · exact List.mem_cons_self
      · exact List.mem_cons_of_mem _ (h.owned.drawn j d hd)
    · intro j k d hj hk
      rcases ids j d hj with ⟨rfl, rfl⟩ | hj'
      · rcases ids k d hk with ⟨rfl, -⟩ | hk'
        · rfl
        · exact absurd hk' (old k)
      · rcases ids k d hk with ⟨-, rfl⟩ | hk'
        · exact absurd hj' (old j)
        · exact h.owned.apart j k d hj' hk'
    · intro j row hrow
      have hj : j ≠ i := by
        rintro rfl
        cases first.symm.trans (h.owned.named j row hrow)
      rw [Function.update_of_ne hj]
      exact h.owned.named j row hrow
    · exact h.owned.users
    · exact h.owned.flushed
    · exact h.owned.rivals
    · exact h.owned.unique
  fits := by
    have fits : ∀ {g : Hand}, Fits v g → Fits { v with drawn := id :: v.drawn } g :=
      fun hf => ⟨hf.found, hf.asked, hf.sending, hf.payload⟩
    have hi : Fits v { hands i with id := some id } :=
      ⟨(h.fits i).found, (h.fits i).asked, (h.fits i).sending, (h.fits i).payload⟩
    exact forall_update (fits hi) (fun j => fits (h.fits j))
  code := h.code
  credential := h.credential

theorem sound_create (h : Sound v hands) (row : User) (named : (hands i).id = some row.id)
    (first : (hands i).made = none) (free : ∀ u ∈ v.users, u.email ≠ row.email)
    (alone : ∀ x ∈ v.flushed, x.2.email = row.email → x.1 = i) :
    Sound { v with flushed := v.flushed ++ [(i, row)] }
      (Function.update hands i { hands i with made := some row }) where
  owned := by
    have hmade : (fun j => (Function.update hands i { hands i with made := some row } j).made) =
        Function.update (fun j => (hands j).made) i (some row) := by
      funext j
      by_cases hj : j = i
      · subst hj
        simp
      · simp [Function.update_of_ne hj]
    have earlier : ∀ j row', (hands j).made = some row' →
        Function.update (fun j => (hands j).made) i (some row) j = some row' := by
      intro j row' hj
      rw [Function.update_of_ne]
      · exact hj
      · rintro rfl
        cases first.symm.trans hj
    have flushed : ∀ j row', (j, row') ∈ v.flushed ++ [(i, row)] →
        (j, row') ∈ v.flushed ∨ (j = i ∧ row' = row) := by
      intro j row' hm
      rcases List.mem_append.mp hm with hm | hm
      · exact Or.inl hm
      · right
        simpa using hm
    have hids : (fun j => (Function.update hands i { hands i with made := some row } j).id) =
        fun j => (hands j).id := proj_update Hand.id rfl
    rw [hmade, hids]
    constructor
    · exact h.owned.drawn
    · exact h.owned.apart
    · intro j row' hrow
      by_cases hj : j = i
      · subst hj
        rw [Function.update_self] at hrow
        cases hrow
        exact named
      · rw [Function.update_of_ne hj] at hrow
        exact h.owned.named j row' hrow
    · intro u hu
      obtain ⟨j, row', hj, hs⟩ := h.owned.users u hu
      exact ⟨j, row', earlier j row' hj, hs⟩
    · intro j row' hm
      rcases flushed j row' hm with hm | ⟨rfl, rfl⟩
      · exact ⟨earlier j row' (h.owned.flushed j row' hm).1, (h.owned.flushed j row' hm).2⟩
      · exact ⟨Function.update_self .., free⟩
    · intro j k row₁ row₂ hj hk he
      rcases flushed j row₁ hj with hj' | ⟨rfl, rfl⟩
      · rcases flushed k row₂ hk with hk' | ⟨rfl, rfl⟩
        · exact h.owned.rivals j k row₁ row₂ hj' hk' he
        · exact alone (j, row₁) hj' he
      · rcases flushed k row₂ hk with hk' | ⟨rfl, rfl⟩
        · exact (alone (k, row₂) hk' he.symm).symm
        · rfl
    · exact h.owned.unique
  fits := by
    have fits : ∀ {g : Hand}, Fits v g → Fits { v with flushed := v.flushed ++ [(i, row)] } g :=
      fun hf => ⟨hf.found, hf.asked, hf.sending, hf.payload⟩
    have hi : Fits v { hands i with made := some row } :=
      ⟨(h.fits i).found, (h.fits i).asked, (h.fits i).sending, (h.fits i).payload⟩
    exact forall_update (fits hi) (fun j => fits (h.fits j))
  code := h.code
  credential := h.credential

theorem sound_commit {lib : Libraries} {settings : Settings} {q : Request} (h : Sound v hands)
    {changes : List Change}
    (credential : ∀ row, (hands i).made = some row → row.passwordHash = none →
      ∃ provider subject, .identity ⟨row.id, provider, subject⟩ ∈ changes)
    (justified : ∀ change ∈ changes, Justified lib settings q (hands i) change) :
    Sound (v.committed i changes) hands := by
  have harmless : ∀ change ∈ changes, Harmless (v.users ++ rowsOf v i) change :=
    fun change hm => harmless_of_justified h.owned (h.fits i) (justified change hm)
  have hkept : Kept v (v.committed i changes) := kept_committed harmless
  constructor
  · exact owned_committed h.owned harmless
  · exact fun j => fits_kept hkept (h.fits j)
  · exact fun key d hd hp => hasPassword_kept hkept (h.code key d hd hp)
  · intro u' hu'
    obtain ⟨u, hu, hs⟩ := mem_committed harmless hu'
    rw [hs.1]
    rcases List.mem_append.mp hu with hu | hu
    · rcases h.credential u hu with hn | ⟨x, hx, hid⟩
      · exact Or.inl (fun hnone => hn (hs.2.2.mp hnone))
      · exact Or.inr ⟨x, List.mem_append_left _ hx, hid⟩
    · by_cases hn : u.passwordHash = none
      · obtain ⟨provider, subject, hm⟩ :=
          credential u (h.owned.flushed i u ((rowsOf_iff u).mp hu)).1 hn
        exact Or.inr ⟨_, List.mem_append_right _ (List.mem_filterMap.mpr ⟨_, hm, rfl⟩), rfl⟩
      · exact Or.inl (fun hnone => hn (hs.2.2.mp hnone))

/-- Codes may go away, and a reset code may come where the account has a password. -/
theorem sound_code (h : Sound v hands) (key : CodeKey) (d : Option Digest)
    (hd : d ≠ none → key.purpose = .reset → HasPassword v key.email) :
    Sound { v with code := Function.update v.code key d } hands where
  owned := ⟨h.owned.drawn, h.owned.apart, h.owned.named, h.owned.users, h.owned.flushed,
    h.owned.rivals, h.owned.unique⟩
  fits := fun j => ⟨(h.fits j).found, (h.fits j).asked, (h.fits j).sending, (h.fits j).payload⟩
  code := by
    intro key' d' hd' hp
    dsimp only at hd'
    by_cases hk : key' = key
    · subst hk
      rw [Function.update_self] at hd'
      exact hd (by simp [hd']) hp
    · rw [Function.update_of_ne hk] at hd'
      exact h.code key' d' hd' hp
  credential := h.credential

theorem sound_move {lib : Libraries} {settings : Settings} {q : Request} {c : Command}
    {reply : Except Failure (Reply c)} {g' : Hand} (h : Sound v hands)
    (hm : Moves lib settings i q v (hands i) c reply v' g') :
    Sound v' (Function.update hands i g') := by
  have hf := h.fits i
  cases hm with
  | draw id new first => exact sound_draw h id new first
  | number n => exact sound_hand h rfl rfl ⟨hf.found, hf.asked, hf.sending, hf.payload⟩
  | cool key grounds =>
    refine sound_hand h rfl rfl ⟨hf.found, hf.asked, ?_, hf.payload⟩
    rintro _ ⟨⟩ hp
    obtain ⟨row, hrow, he, hn⟩ := grounds hp
    obtain ⟨u, hu, hs⟩ := hf.found row hrow
    exact ⟨u, hu, hs.2.1.trans he, fun hnone => hn (hs.2.2.mp hnone)⟩
  | readCode key payload seen =>
    refine sound_hand h rfl rfl ⟨hf.found, hf.asked, hf.sending, ?_⟩
    intro key' p hp hreset
    obtain ⟨p', hp', he⟩ := Option.map_eq_some_iff.mp hp
    cases he
    exact h.code key _ (seen p hp') hreset
  | writeCode key payload ttl grounds =>
    rw [Function.update_eq_self]
    apply sound_code h
    intro _ hp
    rcases grounds with ⟨hk, -⟩ | ⟨p, hk, -⟩
    · exact hf.sending key hk hp
    · exact hf.payload key p hk hp
  | dropCode c reply key =>
    rw [Function.update_eq_self]
    exact sound_code h key none (fun hn => absurd rfl hn)
  | look c reply asked found row =>
    refine sound_hand h rfl rfl ⟨?_, ?_, hf.sending, hf.payload⟩
    · intro u hu
      exact ⟨u, (row u hu).1, same_refl u⟩
    · exact fun u a hu ha => (row u hu).2 a ha
  | create row named first vouched free alone => exact sound_create h row named first free alone
  | commit changes credential justified =>
    rw [Function.update_eq_self]
    exact sound_commit h credential justified
  | close c reply flushed fewer =>
    rw [Function.update_eq_self]
    refine ⟨⟨h.owned.drawn, h.owned.apart, h.owned.named, h.owned.users, ?_, ?_,
      h.owned.unique⟩, ?_, h.code, h.credential⟩
    · exact fun j row hm => h.owned.flushed j row (fewer hm)
    · exact fun j k row row' hj hk => h.owned.rivals j k row row' (fewer hj) (fewer hk)
    · exact fun j => ⟨(h.fits j).found, (h.fits j).asked, (h.fits j).sending, (h.fits j).payload⟩
  | check jwksUrl clientId idToken claims =>
    exact sound_hand h rfl rfl ⟨hf.found, hf.asked, hf.sending, hf.payload⟩
  | other c reply drawn more =>
    rw [Function.update_eq_self]
    refine ⟨⟨?_, h.owned.apart, h.owned.named, h.owned.users, h.owned.flushed, h.owned.rivals,
      h.owned.unique⟩, ?_, h.code, h.credential⟩
    · exact fun j id hj => more (h.owned.drawn j id hj)
    · exact fun j => ⟨(h.fits j).found, (h.fits j).asked, (h.fits j).sending, (h.fits j).payload⟩

theorem sound_passed (d : Passing) (w : World) (h : Sound (view w) hands) :
    Sound (view (passed d w)) hands := by
  rcases view_passed d w with he | ⟨key, he⟩
  · rwa [he]
  · rw [he]
    exact sound_code h key none (fun hn => absurd rfl hn)

/-! ## Runs -/

theorem sound_fresh (now : ℕ) :
    Sound (view (World.fresh now noAccounts)) (fun _ => Hand.empty) where
  owned := {
    drawn := fun _ _ h => by cases h
    apart := fun _ _ _ h => by cases h
    named := fun _ _ h => by cases h
    users := fun _ h => by cases h
    flushed := fun _ _ h => by cases h
    rivals := fun _ _ _ _ h => by cases h
    unique := fun _ h => by cases h }
  fits := fun _ => {
    found := fun _ h => by cases h
    asked := fun _ _ h => by cases h
    sending := fun _ h => by cases h
    payload := fun _ _ h => by cases h }
  code := fun _ _ h => by cases h
  credential := fun _ h => by cases h

/-- The insert of a row was answered; whether it was committed is another matter. -/
def Created (h : Past) (row : User) : Prop :=
  ∃ j q session, (⟨j, q, .database (.createUser session row), .ok ()⟩ :
    Event Command Reply Failure Request) ∈ h

variable (lib : Libraries) (settings : Settings)

structure Credentialed (w : World) (h : Past) : Prop where
  sound : Sound (view w) (ghost (contract lib settings) h)
  created : ∀ row, Created h row → ∃ j, (ghost (contract lib settings) h j).made = some row

theorem made_next {q : Request} {g : Hand} {c : Command} {row : User}
    (reply : Except Failure (Reply c)) (ha : allows lib settings i q g c)
    (h : g.made = some row) : (next q g c reply).made = some row := by
  cases reply with
  | error e => rwa [next_error]
  | ok r =>
    cases c with
    | code c =>
      cases c with
      | setCooldown key ttl =>
        cases r with
        | true => exact h
        | false => exact h
      | _ => exact h
    | database c =>
      cases c with
      | createUser session row' => cases ha.2.2.1.symm.trans h
      | _ => exact h
    | idToken jwksUrl clientId idToken =>
      cases r with
      | none => exact h
      | some claims => exact h
    | _ => exact h

theorem preserved : Preserved (service lib settings) (contract lib settings) (fun _ _ => True)
    (Credentialed lib settings) where
  call := by
    intro s i x q c reply w hi _ ha hp _
    constructor
    · rw [ghost_append]
      exact sound_move hi.sound (moves_of_perform c x reply ha hp)
    · rintro row ⟨j, q', session, hm⟩
      rw [ghost_append]
      rcases List.mem_append.mp hm with hm | hm
      · obtain ⟨k, hk⟩ := hi.created row ⟨j, q', session, hm⟩
        by_cases hki : k = i
        · subst hki
          refine ⟨k, ?_⟩
          rw [Function.update_self]
          exact made_next lib settings reply ha hk
        · exact ⟨k, by rwa [Function.update_of_ne hki]⟩
      · cases List.mem_singleton.mp hm
        exact ⟨i, by rw [Function.update_self]; rfl⟩
  pass := fun s d hi _ => ⟨sound_passed d s.world hi.sound, hi.created⟩

theorem credentialed_run (now : ℕ) (ls : List (Label Request Choice Passing)) :
    let s := run (service lib settings) ls (initial (World.fresh now noAccounts))
    Credentialed lib settings s.world s.history :=
  invariant_run (obeys lib settings) (preserved lib settings) ls _ (following_initial _)
    ⟨sound_fresh now, fun _ h => by obtain ⟨_, _, _, hm⟩ := h; cases hm⟩ (meets_trivial ls _)

/-- Every account has a password or an identity, a live reset code belongs to an account
with a password, and an account created without one never acquires one. -/
theorem credentials_consistent (now : ℕ) (ls : List (Label Request Choice Passing)) :
    let s := run (service lib settings) ls (initial (World.fresh now noAccounts))
    let db := s.world.database
    (∀ u ∈ db.users, u.passwordHash ≠ none ∨ ∃ x ∈ db.identities, x.userId = u.id) ∧
    (∀ a p, get s.world.now s.world.codes.code ⟨a, .reset⟩ = some p →
      (∃ u ∈ db.users, u.email = a) ∧ ∀ u ∈ db.users, u.email = a → u.passwordHash ≠ none) ∧
    ∀ row, Created s.history row → row.passwordHash = none →
      ∀ u ∈ db.users, u.id = row.id → u.passwordHash = none := by
  intro s db
  obtain ⟨hs, hcreated⟩ := credentialed_run lib settings now ls
  have member : ∀ {u : User}, u ∈ db.users → u ∈ (view s.world).users ++ rowsOf (view s.world) 0 :=
    fun hu => List.mem_append_left _ hu
  refine ⟨hs.credential, ?_, ?_⟩
  · intro a p hp
    obtain ⟨e, he, -, -⟩ := (get_eq_some _ _ _ _).mp hp
    obtain ⟨w, hw, hemail, hn⟩ := hs.code ⟨a, .reset⟩ e.value.digest
      (by simp [view, digestAt, s, he]) rfl
    refine ⟨⟨w, hw, hemail⟩, ?_⟩
    intro u hu hu' hnone
    have hid := hs.owned.unique u hu w hw (hu'.trans hemail.symm)
    exact hn ((same_of_id hs.owned (member hu) (member hw) hid).2.2.mp hnone)
  · intro row hrow hnone u hu hid
    obtain ⟨k, hk⟩ := hcreated row hrow
    exact (same_of_made hs.owned (member hu) hk hid).2.2.mpr hnone

end Gamely.Credentials
