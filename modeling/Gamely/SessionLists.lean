import Gamely.TokenFamilies

/-!
# The lists of a session

A live token is reached through the digests of its family and the families of
its user. Both lists are read in one step and deleted in a later one, so a token
issued in between can lose its place in them. What a list may have lost is read
off the schedule alone; every other live token is where a reader looks for it.
-/

set_option autoImplicit false

namespace Gamely.SessionLists
open Gamely.Calls Gamely.Stores Gamely.EmailJobs Gamely.Services Gamely.TokenService
open Gamely.Requests Gamely.Interleaving Gamely.ExpiringStore
open Gamely.SessionContract Gamely.SessionMoves Gamely.TokenFamilies

/-! ## Tokens usable after a step -/

theorem get_passed (d : Passing) (w : World) (k : Digest) (session : Session)
    (h : get (passed d w).now (passed d w).sessions.refresh k = some session) :
    get w.now w.sessions.refresh k = some session := by
  obtain ⟨e, he, hl, hv⟩ := (get_eq_some _ _ _ _).mp h
  refine (get_eq_some _ _ _ _).mpr ⟨e, (passed_sessions d w).2.1 k e he, ?_, hv⟩
  refine live_antitone e ?_ hl
  cases d with
  | elapse ms => exact Nat.le_add_right _ _
  | _ => exact Nat.le_refl _

theorem get_issued (s : SessionStore) (now : ℕ) (digest d : Digest) (session t : Session)
    (ttl : ℕ) (h : get now (issued now s digest session ttl).refresh d = some t) :
    get now s.refresh d = some t ∨ t = session := by
  obtain ⟨e, he, hl, hv⟩ := (get_eq_some _ _ _ _).mp h
  rcases (set_eq_some _ _ _ _ _ _).mp he with ⟨-, rfl⟩ | ⟨-, he⟩
  · exact Or.inr hv.symm
  · exact Or.inl ((get_eq_some _ _ _ _).mpr ⟨e, he, hl, hv⟩)

theorem get_rotated (s : SessionStore) (now : ℕ) (digest d : Digest) (session : Session)
    (h : get now (del s.refresh digest) d = some session) :
    get now s.refresh d = some session := by
  obtain ⟨e, he, hl, hv⟩ := (get_eq_some _ _ _ _).mp h
  exact (get_eq_some _ _ _ _).mpr ⟨e, ((del_eq_some _ _ _ _).mp he).2, hl, hv⟩

theorem get_revoked (s : SessionStore) (now : ℕ) (digests : List Digest) (session t : Session)
    (d : Digest) (h : get now (revoked now s digests session).refresh d = some t) :
    get now s.refresh d = some t ∧ d ∉ digests := by
  obtain ⟨e, he, hl, hv⟩ := (get_eq_some _ _ _ _).mp h
  obtain ⟨hd, he⟩ := (delAll_eq_some _ _ _ _).mp he
  exact ⟨(get_eq_some _ _ _ _).mpr ⟨e, he, hl, hv⟩, hd⟩

/-! ## The index -/

def Outlives {V V' : Type} (f : Entry V) (e : Entry V') : Prop :=
  ∀ t, e.live t = true → f.live t = true

/-- Every live token is listed in its family unless its session is unfiled, its
family is listed for its user unless it is unlisted, and both lists outlive it. -/
structure Indexed (settings : Settings) (unfiled unlisted : Session → Prop) (w : World) :
    Prop where
  bounded : ∀ d e, w.sessions.refresh d = some e →
    ∃ t, e.deadline = some t ∧ t ≤ w.now+1000*refreshTtl settings
  family : ∀ d e, w.sessions.refresh d = some e → e.live w.now = true → ¬ unfiled e.value →
    ∃ f, w.sessions.family e.value = some f ∧ d ∈ f.value ∧ Outlives f e
  sessions : ∀ d e, w.sessions.refresh d = some e → e.live w.now = true → ¬ unlisted e.value →
    ∃ f, w.sessions.sessions e.value.user = some f ∧ e.value.family ∈ f.value ∧ Outlives f e

variable {lib : Libraries} {settings : Settings} {unfiled unlisted : Session → Prop}
variable {w w' : World}

theorem indexed_mono {unfiled' unlisted' : Session → Prop} (h : Indexed settings unfiled unlisted w)
    (hf : ∀ d e, w.sessions.refresh d = some e → unfiled e.value → unfiled' e.value)
    (hl : ∀ d e, w.sessions.refresh d = some e → unlisted e.value → unlisted' e.value) :
    Indexed settings unfiled' unlisted' w where
  bounded := h.bounded
  family := fun d e he hlive hn => h.family d e he hlive (fun hu => hn (hf d e he hu))
  sessions := fun d e he hlive hn => h.sessions d e he hlive (fun hu => hn (hl d e he hu))

theorem filed_of_indexed (h : Indexed settings unfiled unlisted w) (d : Digest)
    (session : Session) (hd : get w.now w.sessions.refresh d = some session)
    (hn : ¬ unfiled session) : d ∈ members w.now w.sessions.family session := by
  obtain ⟨e, he, hl, rfl⟩ := (get_eq_some _ _ _ _).mp hd
  obtain ⟨f, hf, hdf, ho⟩ := h.family d e he hl hn
  rwa [members_of_live _ _ _ f hf (ho _ hl)]

theorem listed_of_indexed (h : Indexed settings unfiled unlisted w) (d : Digest)
    (session : Session) (hd : get w.now w.sessions.refresh d = some session)
    (hn : ¬ unlisted session) :
    session.family ∈ members w.now w.sessions.sessions session.user := by
  obtain ⟨e, he, hl, rfl⟩ := (get_eq_some _ _ _ _).mp hd
  obtain ⟨f, hf, hdf, ho⟩ := h.sessions d e he hl hn
  rwa [members_of_live _ _ _ f hf (ho _ hl)]

/-- Renewing a list keeps the members of a live list and outlives every token. -/
theorem renewed {K M : Type} [DecidableEq K] [DecidableEq M] (now later : ℕ)
    (s : Store K (List M)) (k j : K) (x y : M) (e : Entry Session)
    (he : ∃ t, e.deadline = some t ∧ t ≤ later) (hl : e.live now = true)
    (h : ∃ f, s j = some f ∧ y ∈ f.value ∧ Outlives f e) :
    ∃ f, expire now (sadd now s k x) k later j = some f ∧ y ∈ f.value ∧ Outlives f e := by
  obtain ⟨f, hf, hy, ho⟩ := h
  rw [expire_sadd]
  by_cases hj : j = k
  · subst hj
    refine ⟨_, set_self .., ?_, ?_⟩
    · rw [members_of_live now s j f hf (ho now hl)]
      exact List.mem_insert_of_mem hy
    · obtain ⟨t, ht, hle⟩ := he
      intro u hu
      simp only [Entry.live, ht, decide_eq_true_eq] at hu ⊢
      omega
  · exact ⟨f, by rw [set_ne _ _ _ _ hj, hf], hy, ho⟩

theorem indexed_issued (h : Indexed settings unfiled unlisted w) (digest : Digest)
    (session : Session) :
    Indexed settings unfiled unlisted
      { w with sessions := issued w.now w.sessions digest session (refreshTtl settings) } := by
  have newest : ∃ t, (⟨session, ex w.now (refreshTtl settings)⟩ : Entry Session).deadline = some t ∧
      t ≤ w.now+1000*refreshTtl settings := ⟨_, rfl, Nat.le_refl _⟩
  constructor
  · intro d e he
    rcases (set_eq_some _ _ _ _ _ _).mp he with ⟨-, rfl⟩ | ⟨-, he⟩
    · exact newest
    · exact h.bounded d e he
  · intro d e he hl hn
    rcases (set_eq_some _ _ _ _ _ _).mp he with ⟨rfl, rfl⟩ | ⟨-, he⟩
    · refine ⟨⟨(members w.now w.sessions.family session).insert d, ex w.now (refreshTtl settings)⟩,
        ?_, ?_, fun t ht => ht⟩
      · simp only [issued, expire_sadd, set_self, ex]
      · exact List.mem_insert_self ..
    · exact renewed _ _ _ _ _ _ _ e (h.bounded d e he) hl (h.family d e he hl hn)
  · intro d e he hl hn
    rcases (set_eq_some _ _ _ _ _ _).mp he with ⟨rfl, rfl⟩ | ⟨-, he⟩
    · refine ⟨⟨(members w.now w.sessions.sessions session.user).insert session.family,
        ex w.now (refreshTtl settings)⟩, ?_, ?_, fun t ht => ht⟩
      · simp only [issued, expire_sadd, set_self, ex]
      · exact List.mem_insert_self ..
    · exact renewed _ _ _ _ _ _ _ e (h.bounded d e he) hl (h.sessions d e he hl hn)

theorem indexed_revoked (h : Indexed settings unfiled unlisted w) (digests : List Digest)
    (session : Session)
    (covered : ∀ d, get w.now w.sessions.refresh d = some session →
      d ∈ digests ∨ (unfiled session ∧ unlisted session)) :
    Indexed settings unfiled unlisted
      { w with sessions := revoked w.now w.sessions digests session } := by
  have other : ∀ d e, (revoked w.now w.sessions digests session).refresh d = some e →
      e.live w.now = true → w.sessions.refresh d = some e ∧
        (e.value = session → unfiled session ∧ unlisted session) := by
    intro d e he hl
    obtain ⟨hd, he⟩ := (delAll_eq_some _ _ _ _).mp he
    exact ⟨he, fun hv => (covered d ((get_eq_some _ _ _ _).mpr ⟨e, he, hl, hv⟩)).resolve_left hd⟩
  constructor
  · exact fun d e he => h.bounded d e ((delAll_eq_some _ _ _ _).mp he).2
  · intro d e he hl hn
    obtain ⟨he, hlost⟩ := other d e he hl
    obtain ⟨f, hf, hd, ho⟩ := h.family d e he hl hn
    have hne : e.value ≠ session := fun hv => hn (hv ▸ (hlost hv).1)
    exact ⟨f, (del_ne _ _ hne).trans hf, hd, ho⟩
  · intro d e he hl hn
    obtain ⟨he, hlost⟩ := other d e he hl
    obtain ⟨f, hf, hm, ho⟩ := h.sessions d e he hl hn
    have hne : e.value ≠ session := fun hv => hn (hv ▸ (hlost hv).2)
    have hkey : e.value.user ≠ session.user ∨ e.value.family ≠ session.family := by
      by_contra hn
      rw [not_or, not_not, not_not] at hn
      exact hne (by cases hv : e.value; cases session; simp_all)
    obtain ⟨f', hf', hm', hdl⟩ := srem_keeps w.now w.sessions.sessions session.user e.value.user
      session.family e.value.family f hf (ho _ hl) hm hkey
    refine ⟨f', hf', hm', fun t ht => ?_⟩
    have := ho t ht
    simpa only [Entry.live, hdl] using this

theorem indexed_shrink (h : Indexed settings unfiled unlisted w) (hn : w.now ≤ w'.now)
    (hr : ∀ d e, w'.sessions.refresh d = some e → w.sessions.refresh d = some e)
    (hf : w'.sessions.family = w.sessions.family)
    (hs : ∀ d e, w'.sessions.refresh d = some e → e.live w'.now = true → ¬ unlisted e.value →
      w'.sessions.sessions e.value.user = w.sessions.sessions e.value.user) :
    Indexed settings unfiled unlisted w' := by
  constructor
  · intro d e he
    obtain ⟨t, ht, hle⟩ := h.bounded d e (hr d e he)
    exact ⟨t, ht, by omega⟩
  · intro d e he hl
    rw [hf]
    exact h.family d e (hr d e he) (live_antitone e hn hl)
  · intro d e he hl hu
    rw [hs d e he hl hu]
    exact h.sessions d e (hr d e he) (live_antitone e hn hl) hu

/-- Lists go away only by their TTL or by a command. -/
def listsExpire : Label Request Choice Passing → Bool
  | .pass (.evictFamily _) | .pass (.evictSessions _) => false
  | _ => true

theorem indexed_passed (h : Indexed settings unfiled unlisted w) (d : Passing)
    (hd : listsExpire (.pass d) = true) : Indexed settings unfiled unlisted (passed d w) := by
  refine indexed_shrink h ?_ (passed_sessions d w).2.1 ?_ ?_
  · cases d with
    | elapse ms => exact Nat.le_add_right _ _
    | _ => exact Nat.le_refl _
  · cases d with
    | evictFamily session => cases hd
    | _ => rfl
  · cases d with
    | evictSessions user => cases hd
    | _ => exact fun k e he hl hn => rfl

theorem indexed_fresh (now : ℕ) (database : Database) :
    Indexed settings unfiled unlisted (World.fresh now database) := by
  constructor <;> exact fun d e he => by cases he

/-! ## What the schedule does to the lists -/

/-- A thread is late when a token was issued into the session after the thread last
read a list of it. A late thread that deletes a list leaves it without that
token, until the next one is issued. -/
structure Listing where
  late : ℕ → Bool
  unfiled : Bool
  unlisted : Bool

def Listing.start : Listing := ⟨fun _ => false, false, false⟩

def Listing.issue : Listing := ⟨fun _ => true, false, false⟩

def Listing.read (l : Listing) (i : ℕ) : Listing :=
  { l with late := Function.update l.late i false }

def Listing.revoke (l : Listing) (i : ℕ) : Listing :=
  { l with unfiled := l.unfiled || l.late i, unlisted := l.unlisted || l.late i }

def Listing.drop (l : Listing) (i : ℕ) : Listing := { l with unlisted := l.unlisted || l.late i }

theorem Listing.read_late_of_ne (l : Listing) {i j : ℕ} (h : j ≠ i) :
    (l.read i).late j = l.late j :=
  Function.update_of_ne h ..

/-- What one answered call does to the lists of a session. -/
def Listing.next (session : Session) (l : Listing) (i : ℕ) :
    (c : Command) → Except Failure (Reply c) → Listing
  | .session (.issue _ t _), .ok _ => if t = session then .issue else l
  | .session (.familyMembers t), .ok _ => if t = session then l.read i else l
  | .session (.userFamilies user), .ok _ => if user = session.user then l.read i else l
  | .session (.revoke _ t), .ok _ => if t = session then l.revoke i else l
  | .session (.dropSessions user), .ok _ => if user = session.user then l.drop i else l
  | _, _ => l

def listingOf (h : Past) (session : Session) : Listing :=
  h.foldl (fun l e => l.next session e.thread e.command e.reply) .start

@[simp] theorem listingOf_append (h : Past) (e : Occurrence) (session : Session) :
    listingOf (h ++ [e]) session =
      (listingOf h session).next session e.thread e.command e.reply := by
  simp [listingOf, List.foldl_append]

theorem listing_next_cases (session : Session) (l : Listing) (i : ℕ) (c : Command)
    (reply : Except Failure (Reply c)) :
    l.next session i c reply = .issue ∨ l.next session i c reply = l.read i ∨
      l.next session i c reply = l.revoke i ∨ l.next session i c reply = l.drop i ∨
      l.next session i c reply = l := by
  unfold Listing.next
  split <;> first | (split <;> simp) | simp

/-- A family whose list was lost is not listed for its user either. -/
theorem unlisted_of_unfiled (h : Past) (session : Session)
    (hu : (listingOf h session).unfiled = true) : (listingOf h session).unlisted = true := by
  induction h using List.reverseRecOn with
  | nil => cases hu
  | append_singleton h e ih =>
    rw [listingOf_append] at hu ⊢
    rcases listing_next_cases session (listingOf h session) e.thread e.command e.reply with
      hn | hn | hn | hn | hn <;> rw [hn] at hu ⊢
    · cases hu
    · exact ih hu
    · rcases Bool.or_eq_true_iff.mp hu with hu | hu
      · exact Bool.or_eq_true_iff.mpr (Or.inl (ih hu))
      · exact Bool.or_eq_true_iff.mpr (Or.inr hu)
    · exact Bool.or_eq_true_iff.mpr (Or.inl (ih hu))
    · exact ih hu

theorem listing_next_other (session : Session) (l : Listing) (i : ℕ) {c : Command}
    {reply : Except Failure (Reply c)} (h : onLists c reply = false) :
    l.next session i c reply = l := by
  unfold onLists at h
  split at h <;> cases h
  unfold Listing.next
  split <;> first | rfl | (exfalso; solve_by_elim)

/-! ## What requests have read -/

/-- The lists hold every token they cannot have lost, and what a request has read
of them covers every live token it is not late for. -/
structure Listed (settings : Settings) (w : World) (hand : ℕ → Hand) (l : Session → Listing) :
    Prop where
  index : Indexed settings (fun s => (l s).unfiled = true) (fun s => (l s).unlisted = true) w
  read : ∀ i s digests, (hand i).read = some (s, digests) →
    ∀ d, get w.now w.sessions.refresh d = some s →
      d ∈ digests ∨ (l s).late i = true ∨ (l s).unfiled = true
  sweep : ∀ i user left, (hand i).sweep = some (user, left) →
    ∀ d s, get w.now w.sessions.refresh d = some s → s.user = user →
      s.family ∈ left ∨ (l s).late i = true ∨ (l s).unlisted = true

variable {hand : ℕ → Hand} {i : ℕ} {l : Session → Listing}

/-- A token that thread `j` may miss in one listing it may miss in the other. -/
structure Listing.Within (l l' : Listing) (j : ℕ) : Prop where
  late : l.late j = true → l'.late j = true
  unfiled : l.unfiled = true → l'.unfiled = true
  unlisted : l.unlisted = true → l'.unlisted = true

theorem Listing.within_refl (l : Listing) (j : ℕ) : l.Within l j := ⟨id, id, id⟩

theorem Listing.within_read (l : Listing) {j : ℕ} (h : j ≠ i) : l.Within (l.read i) j where
  late := fun hl => (l.read_late_of_ne h).trans hl
  unfiled := id
  unlisted := id

theorem Listing.within_revoke (l : Listing) (j : ℕ) : l.Within (l.revoke i) j where
  late := id
  unfiled := fun hu => Bool.or_eq_true_iff.mpr (Or.inl hu)
  unlisted := fun hu => Bool.or_eq_true_iff.mpr (Or.inl hu)

theorem Listing.within_drop (l : Listing) (j : ℕ) : l.Within (l.drop i) j where
  late := id
  unfiled := id
  unlisted := fun hu => Bool.or_eq_true_iff.mpr (Or.inl hu)

/-- A step of thread `i`: the lists and what it has read are right again, and every
other thread is late for each token it has not seen. -/
theorem listed_update {g : Hand} {l' : Session → Listing} (h : Listed settings w hand l)
    (index : Indexed settings (fun s => (l' s).unfiled = true) (fun s => (l' s).unlisted = true) w')
    (read : ∀ s digests, g.read = some (s, digests) →
      ∀ d, get w'.now w'.sessions.refresh d = some s →
        d ∈ digests ∨ (l' s).late i = true ∨ (l' s).unfiled = true)
    (sweep : ∀ user left, g.sweep = some (user, left) →
      ∀ d s, get w'.now w'.sessions.refresh d = some s → s.user = user →
        s.family ∈ left ∨ (l' s).late i = true ∨ (l' s).unlisted = true)
    (others : ∀ j, j ≠ i → ∀ d s, get w'.now w'.sessions.refresh d = some s →
      (l' s).late j = true ∨
        (get w.now w.sessions.refresh d = some s ∧ (l s).Within (l' s) j)) :
    Listed settings w' (Function.update hand i g) l' := by
  refine ⟨index, fun j s digests hj d hd => ?_, fun j user left hj d s hd hu => ?_⟩
  · by_cases hji : j = i
    · subst hji
      rw [Function.update_self] at hj
      exact read s digests hj d hd
    · rw [Function.update_of_ne hji] at hj
      rcases others j hji d s hd with hlate | ⟨hold, hw⟩
      · exact Or.inr (Or.inl hlate)
      · exact (h.read j s digests hj d hold).imp_right (Or.imp hw.late hw.unfiled)
  · by_cases hji : j = i
    · subst hji
      rw [Function.update_self] at hj
      exact sweep user left hj d s hd hu
    · rw [Function.update_of_ne hji] at hj
      rcases others j hji d s hd with hlate | ⟨hold, hw⟩
      · exact Or.inr (Or.inl hlate)
      · exact (h.sweep j user left hj d s hold hu).imp_right (Or.imp hw.late hw.unlisted)

theorem listed_carry {g : Hand} {l' : Session → Listing} (h : Listed settings w hand l)
    (hl : ∀ s, l' s = l s) (hread : g.read = (hand i).read) (hsweep : g.sweep = (hand i).sweep)
    (index : Indexed settings (fun s => (l s).unfiled = true) (fun s => (l s).unlisted = true) w')
    (ht : ∀ d s, get w'.now w'.sessions.refresh d = some s →
      get w.now w.sessions.refresh d = some s) :
    Listed settings w' (Function.update hand i g) l' := by
  obtain rfl : l' = l := funext hl
  refine listed_update h index ?_ ?_ ?_
  · exact fun s digests hj d hd => h.read i s digests (hread ▸ hj) d (ht d s hd)
  · exact fun user left hj d s hd => h.sweep i user left (hsweep ▸ hj) d s (ht d s hd)
  · exact fun j _ d s hd => Or.inr ⟨ht d s hd, (l' s).within_refl j⟩

theorem listed_issued {g : Hand} {l' : Session → Listing} (h : Listed settings w hand l)
    (digest : Digest) (session : Session)
    (vacant : ∀ d e, w.sessions.refresh d = some e → e.value ≠ session)
    (hl : ∀ s, l' s = if session = s then .issue else l s)
    (hread : g.read = (hand i).read) (hsweep : g.sweep = (hand i).sweep) :
    Listed settings
      { w with sessions := issued w.now w.sessions digest session (refreshTtl settings) }
      (Function.update hand i g) l' := by
  have hsame : ∀ s, s ≠ session → l' s = l s := fun s hs => by rw [hl, if_neg (Ne.symm hs)]
  have cases_issued : ∀ d s,
      get w.now (issued w.now w.sessions digest session (refreshTtl settings)).refresh d = some s →
      (∀ j, (l' s).late j = true) ∨ (get w.now w.sessions.refresh d = some s ∧ l' s = l s) := by
    intro d s hd
    by_cases hs : s = session
    · subst hs
      rw [hl, if_pos rfl]
      exact Or.inl (fun j => rfl)
    · exact Or.inr ⟨(get_issued _ _ _ _ _ _ _ hd).resolve_right hs, hsame s hs⟩
  have index : Indexed settings (fun s => (l' s).unfiled = true)
      (fun s => (l' s).unlisted = true) w := by
    refine indexed_mono h.index (fun d e he hu => ?_) (fun d e he hu => ?_)
    · rwa [hsame _ (vacant d e he)]
    · rwa [hsame _ (vacant d e he)]
  refine listed_update h (indexed_issued index digest session) ?_ ?_ ?_
  · intro s digests hj d hd
    rcases cases_issued d s hd with hlate | ⟨hold, hs⟩
    · exact Or.inr (Or.inl (hlate i))
    · rw [hs]
      exact h.read i s digests (hread ▸ hj) d hold
  · intro user left hj d s hd hu
    rcases cases_issued d s hd with hlate | ⟨hold, hs⟩
    · exact Or.inr (Or.inl (hlate i))
    · rw [hs]
      exact h.sweep i user left (hsweep ▸ hj) d s hold hu
  · intro j _ d s hd
    rcases cases_issued d s hd with hlate | ⟨hold, hs⟩
    · exact Or.inl (hlate j)
    · exact Or.inr ⟨hold, hs ▸ (l s).within_refl j⟩

theorem listed_look {g : Hand} {l' : Session → Listing} (h : Listed settings w hand l)
    (hl : ∀ s, l' s = l s ∨ l' s = (l s).read i)
    (read : ∀ s digests, g.read = some (s, digests) →
      ∀ d, get w.now w.sessions.refresh d = some s →
        d ∈ digests ∨ (l' s).late i = true ∨ (l s).unfiled = true)
    (sweep : ∀ user left, g.sweep = some (user, left) →
      ∀ d s, get w.now w.sessions.refresh d = some s → s.user = user →
        s.family ∈ left ∨ (l' s).late i = true ∨ (l s).unlisted = true) :
    Listed settings w (Function.update hand i g) l' := by
  have lost : ∀ s, (l' s).unfiled = (l s).unfiled ∧ (l' s).unlisted = (l s).unlisted := by
    intro s
    rcases hl s with hs | hs <;> rw [hs] <;> exact ⟨rfl, rfl⟩
  refine listed_update h ?_ ?_ ?_ ?_
  · simp only [lost]
    exact h.index
  · simpa only [lost] using read
  · simpa only [lost] using sweep
  · intro j hj d s hd
    refine Or.inr ⟨hd, ?_⟩
    rcases hl s with hs | hs <;> rw [hs]
    · exact (l s).within_refl j
    · exact (l s).within_read hj

theorem listed_revoked {g : Hand} {l' : Session → Listing} (h : Listed settings w hand l)
    (lost : ∀ s, (l s).unfiled = true → (l s).unlisted = true) (digests : List Digest)
    (session : Session) (seen : (hand i).read = some (session, digests))
    (next : ∀ s, (hand i).sweep = some s →
      s.1 = session.user ∧ ∃ rest, s.2 = session.family :: rest)
    (hl : ∀ s, l' s = if session = s then (l s).revoke i else l s) (hread : g.read = none)
    (hsweep : g.sweep = (hand i).sweep.map (fun s => (s.1, s.2.tail))) :
    Listed settings { w with sessions := revoked w.now w.sessions digests session }
      (Function.update hand i g) l' := by
  have within : ∀ s j, (l s).Within (l' s) j := by
    intro s j
    rw [hl]
    split
    · exact (l s).within_revoke j
    · exact (l s).within_refl j
  have missed : ∀ d, get w.now w.sessions.refresh d = some session → d ∉ digests →
      (l' session).unfiled = true ∧ (l' session).unlisted = true := by
    intro d hd hnot
    rw [hl, if_pos rfl]
    rcases (h.read i session digests seen d hd).resolve_left hnot with hlate | hu
    · exact ⟨Bool.or_eq_true_iff.mpr (Or.inr hlate), Bool.or_eq_true_iff.mpr (Or.inr hlate)⟩
    · exact ⟨Bool.or_eq_true_iff.mpr (Or.inl hu), Bool.or_eq_true_iff.mpr (Or.inl (lost _ hu))⟩
  refine listed_update h (indexed_revoked ?_ digests session ?_) ?_ ?_ ?_
  · exact indexed_mono h.index (fun d e _ => (within e.value 0).unfiled)
      (fun d e _ => (within e.value 0).unlisted)
  · exact fun d hd => or_iff_not_imp_left.mpr (missed d hd)
  · intro s ds hj
    rw [hread] at hj
    cases hj
  · intro user left hj d s hd hu
    obtain ⟨hold, hnot⟩ := get_revoked _ _ _ _ _ _ hd
    rw [hsweep] at hj
    obtain ⟨⟨u, families⟩, hs, heq⟩ := Option.map_eq_some_iff.mp hj
    obtain ⟨rfl, rest, rfl⟩ := next _ hs
    simp only [Prod.mk.injEq, List.tail_cons] at heq
    obtain ⟨rfl, rfl⟩ := heq
    rcases h.sweep i _ _ hs d s hold hu with hm | hlate | hlost
    · rcases List.mem_cons.mp hm with hf | hm
      · obtain rfl : s = session := by
          cases s
          cases session
          simp_all
        exact Or.inr (Or.inr (missed d hold hnot).2)
      · exact Or.inl hm
    · exact Or.inr (Or.inl ((within s i).late hlate))
    · exact Or.inr (Or.inr ((within s i).unlisted hlost))
  · exact fun j _ d s hd => Or.inr ⟨(get_revoked _ _ _ _ _ _ hd).1, within s j⟩

theorem listed_dropped {g : Hand} {l' : Session → Listing} (h : Listed settings w hand l)
    (user : UserId) (swept : (hand i).sweep = some (user, []))
    (hl : ∀ s, l' s = if user = s.user then (l s).drop i else l s)
    (hread : g.read = (hand i).read) (hsweep : g.sweep = (hand i).sweep) :
    Listed settings
      { w with sessions := { w.sessions with sessions := del w.sessions.sessions user } }
      (Function.update hand i g) l' := by
  have within : ∀ s j, (l s).Within (l' s) j := by
    intro s j
    rw [hl]
    split
    · exact (l s).within_drop j
    · exact (l s).within_refl j
  have index : Indexed settings (fun s => (l' s).unfiled = true)
      (fun s => (l' s).unlisted = true) w :=
    indexed_mono h.index (fun d e _ => (within e.value 0).unfiled)
      (fun d e _ => (within e.value 0).unlisted)
  refine listed_update h (indexed_shrink index (Nat.le_refl _) ?_ rfl ?_) ?_ ?_ ?_
  · exact fun d e he => he
  · intro d e he hlive hn
    refine del_ne _ _ (fun hu => hn ?_)
    have hd : get w.now w.sessions.refresh d = some e.value :=
      (get_eq_some _ _ _ _).mpr ⟨e, he, hlive, rfl⟩
    rcases (h.sweep i user [] swept d _ hd hu).resolve_left List.not_mem_nil with hlate | hlost
    · rw [hl, if_pos hu.symm]
      exact Bool.or_eq_true_iff.mpr (Or.inr hlate)
    · exact (within e.value i).unlisted hlost
  · exact fun s ds hj d hd => (h.read i s ds (hread ▸ hj) d hd).imp_right
      (Or.imp (within s i).late (within s i).unfiled)
  · exact fun u left hj d s hd hu => (h.sweep i u left (hsweep ▸ hj) d s hd hu).imp_right
      (Or.imp (within s i).late (within s i).unlisted)
  · exact fun j _ d s hd => Or.inr ⟨hd, within s j⟩

theorem listed_of_move {q : Request} {c : Command} {reply : Except Failure (Reply c)} {g : Hand}
    {h : Past} (hn : Names lib w hand) (ho : OneSeat w.sessions hand)
    (hl : Listed settings w hand (listingOf h)) (hm : Moves lib settings w (hand i) c reply w' g) :
    Listed settings w' (Function.update hand i g) (listingOf (h ++ [⟨i, q, c, reply⟩])) := by
  have hvacant : ∀ d session, issueOf c reply = some (d, session) → ∀ k e,
      w.sessions.refresh k = some e → e.value ≠ session :=
    fun d session hi => vacant_of_issue hn ho hm hi
  have hnext := fun s => listingOf_append h ⟨i, q, c, reply⟩ s
  cases hm with
  | begin session value held fresh =>
    exact listed_issued hl _ session (hvacant _ _ rfl) hnext rfl rfl
  | renew session value held fresh =>
    exact listed_issued hl _ session (hvacant _ _ rfl) hnext rfl rfl
  | rotate digest session held usable =>
    refine listed_carry hl hnext rfl rfl ?_ (fun d s hd => get_rotated _ _ _ _ _ hd)
    exact indexed_shrink hl.index (Nat.le_refl _) (fun d e he => ((del_eq_some _ _ _ _).mp he).2)
      rfl (fun d e he _ _ => rfl)
  | read session next =>
    refine listed_look hl (fun s => ?_) ?_ ?_
    · rw [hnext]
      simp only [Listing.next]
      split <;> simp
    · rintro s digests hj d hd
      cases hj
      by_cases hu : (listingOf h session).unfiled = true
      · exact Or.inr (Or.inr hu)
      · exact Or.inl (filed_of_indexed hl.index d session hd hu)
    · intro user left hj d s hd hu
      rcases hl.sweep i user left hj d s hd hu with hm | hlate | hlost
      · exact Or.inl hm
      · by_cases hs : session = s
        · subst hs
          obtain ⟨-, rest, rfl⟩ := next _ hj
          exact Or.inl List.mem_cons_self
        · refine Or.inr (Or.inl ?_)
          rwa [hnext, Listing.next, if_neg hs]
      · exact Or.inr (Or.inr hlost)
  | revoke session digests seen next =>
    exact listed_revoked hl (unlisted_of_unfiled h) digests session seen next hnext rfl rfl
  | list user unread own =>
    refine listed_look hl (fun s => ?_) ?_ ?_
    · rw [hnext]
      simp only [Listing.next]
      split <;> simp
    · intro s digests hj
      rw [unread] at hj
      cases hj
    · rintro u left hj d s hd hu
      cases hj
      by_cases hlost : (listingOf h s).unlisted = true
      · exact Or.inr (Or.inr hlost)
      · exact Or.inl (hu ▸ listed_of_indexed hl.index d s hd hlost)
  | order user families ordered sweep perm =>
    refine listed_look hl (fun s => Or.inl (hnext s)) ?_ ?_
    · rw [funext hnext]
      exact hl.read i
    · rintro u left hj d s hd hu
      cases hj
      rw [perm.mem_iff, hnext]
      exact hl.sweep i _ _ sweep d s hd hu
  | drop user swept => exact listed_dropped hl user swept hnext rfl rfl
  | other c reply w' sessions now drawn exchange issue replacement lists =>
    refine listed_carry hl (fun s => (hnext s).trans (listing_next_other _ _ _ lists)) rfl rfl ?_ ?_
    · exact indexed_shrink hl.index (by rw [now]) (fun d e he => by rwa [sessions] at he)
        (by rw [sessions]) (fun d e _ _ _ => by rw [sessions])
    · exact fun d s hd => by rwa [sessions, now] at hd
  | _ =>
    refine listed_carry hl hnext rfl rfl ?_ (fun d s hd => hd)
    exact indexed_shrink hl.index (Nat.le_refl _) (fun d e he => he) rfl (fun d e _ _ _ => rfl)

/-! ## Runs -/

/-- The names, the seats and the lists are right in one state. -/
structure Reliable (lib : Libraries) (settings : Settings) (w : World) (h : Past) : Prop where
  names : Names lib w (ghost (contract lib settings) h)
  oneSeat : OneSeat w.sessions (ghost (contract lib settings) h)
  listed : Listed settings w (ghost (contract lib settings) h) (listingOf h)

theorem reliable_preserved (lib : Libraries) (settings : Settings) :
    Preserved (service lib settings) (contract lib settings) (fun _ l => listsExpire l = true)
      (Reliable lib settings) where
  call := by
    intro s i x q c reply w hr hu ha hp _
    have hm := moves_of_perform lib settings _ _ _ c x reply ha hp
    constructor <;> rw [ghost_append]
    · exact names_of_move hr.names hm
    · exact oneSeat_of_move hr.names hr.oneSeat hm
    · exact listed_of_move hr.names hr.oneSeat hr.listed hm
  pass := by
    intro s d hr hd
    refine ⟨names_passed hr.names d, oneSeat_passed hr.oneSeat d, ?_, ?_, ?_⟩
    · exact indexed_passed hr.listed.index d hd
    · exact fun i t digests hi k hk => hr.listed.read i t digests hi k (get_passed d _ k t hk)
    · exact fun i user left hi k t hk => hr.listed.sweep i user left hi k t (get_passed d _ k t hk)

theorem reliable_fresh (lib : Libraries) (settings : Settings) (now : ℕ) (database : Database) :
    Reliable lib settings (World.fresh now database) [] where
  names := names_fresh now database
  oneSeat := oneSeat_fresh now database
  listed := by
    refine ⟨indexed_fresh now database, fun i s digests hi => ?_, fun i user left hi => ?_⟩
    · cases hi
    · cases hi

end Gamely.SessionLists
