import Gamely.SessionMoves
import Mathlib.Data.Set.Card

/-!
# Token families

A family occupies at most one seat: a stored refresh token, or a request that
has rotated one and not issued its successor. The seats are counted over raw
entries, so keys may expire or be evicted at any time.
-/

set_option autoImplicit false

namespace Gamely.TokenFamilies
open Gamely.Calls Gamely.Stores Gamely.EmailJobs Gamely.Services Gamely.TokenService
open Gamely.Requests Gamely.Interleaving Gamely.ExpiringStore
open Gamely.SessionContract Gamely.SessionMoves

/-! ## Names -/

/-- A drawn name no request still has in hand. -/
def Used (w : World) (hand : ℕ → Hand) (v : String) : Prop :=
  v ∈ w.drawn ∧ ∀ i, v ∉ (hand i).fresh

def Stored (t : SessionStore) (s : Session) : Prop :=
  (∃ d e, t.refresh d = some e ∧ e.value = s) ∨ ∃ d e, t.reuse d = some e ∧ e.value = s

def InHand (g : Hand) (s : Session) : Prop :=
  g.held = some s ∨ g.caught = some s ∨ s ∈ g.detected

/-- Names in hand are distinct and belong to one request; every token stored and
every family stored or in hand has a name nobody can use again. -/
structure Names (lib : Libraries) (w : World) (hand : ℕ → Hand) : Prop where
  drawn : ∀ i v, v ∈ (hand i).fresh → v ∈ w.drawn
  nodup : ∀ i, (hand i).fresh.Nodup
  apart : ∀ i j v, v ∈ (hand i).fresh → v ∈ (hand j).fresh → i = j
  token : ∀ d e, w.sessions.refresh d = some e → ∃ v, d = lib.digest v ∧ Used w hand v
  stored : ∀ s, Stored w.sessions s → Used w hand s.family
  inHand : ∀ i s, InHand (hand i) s → Used w hand s.family

variable {lib : Libraries} {settings : Settings} {w w' : World} {hand : ℕ → Hand} {i : ℕ}

theorem names_fresh (now : ℕ) (database : Database) :
    Names lib (World.fresh now database) (fun _ => Hand.empty) where
  drawn := by simp [Hand.empty]
  nodup := by simp [Hand.empty]
  apart := by simp [Hand.empty]
  token := by simp [World.fresh, ExpiringStore.empty]
  stored := by simp [Stored, World.fresh, ExpiringStore.empty]
  inHand := by simp [InHand, Hand.empty]

/-- A step of one request that draws no name, and stores and takes in hand only
sessions that were stored or in its hand before. -/
theorem names_carry {g : Hand} (hn : Names lib w hand) (hd : w.drawn ⊆ w'.drawn)
    (hf : g.fresh = (hand i).fresh)
    (ht : ∀ d e, w'.sessions.refresh d = some e → w.sessions.refresh d = some e)
    (hs : ∀ s, Stored w'.sessions s → Stored w.sessions s)
    (hg : ∀ s, InHand g s → InHand (hand i) s ∨ Stored w.sessions s) :
    Names lib w' (Function.update hand i g) := by
  have fresh : ∀ j, (Function.update hand i g j).fresh = (hand j).fresh := by
    intro j
    by_cases hj : j = i
    · subst hj
      simpa using hf
    · rw [Function.update_of_ne hj]
  have used : ∀ v, Used w hand v → Used w' (Function.update hand i g) v :=
    fun v hv => ⟨hd hv.1, fun j => by rw [fresh j]; exact hv.2 j⟩
  constructor
  · intro j v hv
    rw [fresh j] at hv
    exact hd (hn.drawn j v hv)
  · intro j
    rw [fresh j]
    exact hn.nodup j
  · intro j k v hj hk
    rw [fresh j] at hj
    rw [fresh k] at hk
    exact hn.apart j k v hj hk
  · intro d e h
    obtain ⟨v, hv, hu⟩ := hn.token d e (ht d e h)
    exact ⟨v, hv, used v hu⟩
  · exact fun s h => used _ (hn.stored s (hs s h))
  · intro j s h
    by_cases hj : j = i
    · subst hj
      rw [Function.update_self] at h
      rcases hg s h with h | h
      · exact used _ (hn.inHand j s h)
      · exact used _ (hn.stored s h)
    · rw [Function.update_of_ne hj] at h
      exact used _ (hn.inHand j s h)

theorem names_draw (hn : Names lib w hand) (name : String) (new : name ∉ w.drawn) :
    Names lib { w with drawn := name :: w.drawn }
      (Function.update hand i { hand i with fresh := name :: (hand i).fresh }) := by
  have fresh : ∀ j v, v ∈ (Function.update hand i
      { hand i with fresh := name :: (hand i).fresh } j).fresh →
      (j = i ∧ v = name) ∨ v ∈ (hand j).fresh := by
    intro j v hv
    by_cases hj : j = i
    · subst hj
      rw [Function.update_self] at hv
      rcases List.mem_cons.mp hv with h | h
      · exact Or.inl ⟨rfl, h⟩
      · exact Or.inr h
    · rw [Function.update_of_ne hj] at hv
      exact Or.inr hv
  have used : ∀ v, Used w hand v → Used { w with drawn := name :: w.drawn }
      (Function.update hand i { hand i with fresh := name :: (hand i).fresh }) v := by
    rintro v ⟨hv, hnot⟩
    refine ⟨List.mem_cons_of_mem _ hv, fun j hj => ?_⟩
    rcases fresh j v hj with ⟨-, rfl⟩ | h
    · exact new hv
    · exact hnot j h
  constructor
  · intro j v hv
    rcases fresh j v hv with ⟨-, rfl⟩ | h
    · exact List.mem_cons_self
    · exact List.mem_cons_of_mem _ (hn.drawn j v h)
  · intro j
    by_cases hj : j = i
    · subst hj
      rw [Function.update_self]
      exact List.nodup_cons.mpr ⟨fun h => new (hn.drawn j name h), hn.nodup j⟩
    · rw [Function.update_of_ne hj]
      exact hn.nodup j
  · intro j k v hj hk
    rcases fresh j v hj with ⟨rfl, rfl⟩ | hj' <;> rcases fresh k v hk with ⟨rfl, hv⟩ | hk'
    · rfl
    · exact absurd (hn.drawn k v hk') new
    · exact absurd (hv ▸ hn.drawn j v hj') new
    · exact hn.apart j k v hj' hk'
  · intro d e h
    obtain ⟨v, hv, hu⟩ := hn.token d e h
    exact ⟨v, hv, used v hu⟩
  · exact fun s h => used _ (hn.stored s h)
  · intro j s h
    by_cases hj : j = i
    · subst hj
      rw [Function.update_self] at h
      exact used _ (hn.inHand j s h)
    · rw [Function.update_of_ne hj] at h
      exact used _ (hn.inHand j s h)

theorem names_issue (hn : Names lib w hand) (session : Session) (value : Token) (ttl : ℕ)
    (hv : value ∈ (hand i).fresh)
    (hs : session.family ∈ (hand i).fresh ∨ Used w hand session.family) :
    Names lib { w with sessions := issued w.now w.sessions (lib.digest value) session ttl }
      (Function.update hand i { hand i with fresh := [], held := none }) := by
  have used : ∀ v, Used w hand v ∨ v ∈ (hand i).fresh →
      Used { w with sessions := issued w.now w.sessions (lib.digest value) session ttl }
        (Function.update hand i { hand i with fresh := [], held := none }) v := by
    rintro v (⟨hv, hnot⟩ | hv)
    · refine ⟨hv, fun j => ?_⟩
      by_cases hj : j = i
      · subst hj
        simp
      · rw [Function.update_of_ne hj]
        exact hnot j
    · refine ⟨hn.drawn i v hv, fun j => ?_⟩
      by_cases hj : j = i
      · subst hj
        simp
      · rw [Function.update_of_ne hj]
        exact fun h => hj (hn.apart j i v h hv)
  constructor
  · intro j v h
    by_cases hj : j = i
    · subst hj
      simp at h
    · rw [Function.update_of_ne hj] at h
      exact hn.drawn j v h
  · intro j
    by_cases hj : j = i
    · subst hj
      simp
    · rw [Function.update_of_ne hj]
      exact hn.nodup j
  · intro j k v hj hk
    by_cases hji : j = i
    · subst hji
      simp at hj
    · by_cases hki : k = i
      · subst hki
        simp at hk
      · rw [Function.update_of_ne hji] at hj
        rw [Function.update_of_ne hki] at hk
        exact hn.apart j k v hj hk
  · intro d e h
    rcases (set_eq_some _ _ _ _ _ _).mp h with ⟨rfl, -⟩ | ⟨-, h⟩
    · exact ⟨value, rfl, used _ (Or.inr hv)⟩
    · obtain ⟨v, hd, hu⟩ := hn.token d e h
      exact ⟨v, hd, used v (Or.inl hu)⟩
  · rintro s (⟨d, e, h, rfl⟩ | h)
    · rcases (set_eq_some _ _ _ _ _ _).mp h with ⟨-, rfl⟩ | ⟨-, h⟩
      · exact used _ hs.symm
      · exact used _ (Or.inl (hn.stored _ (Or.inl ⟨d, e, h, rfl⟩)))
    · exact used _ (Or.inl (hn.stored s (Or.inr h)))
  · intro j s h
    by_cases hj : j = i
    · subst hj
      rw [Function.update_self] at h
      refine used _ (Or.inl (hn.inHand j s ?_))
      rcases h with h | h
      · cases h
      · exact Or.inr h
    · rw [Function.update_of_ne hj] at h
      exact used _ (Or.inl (hn.inHand j s h))

theorem names_of_move {c : Command} {reply : Except Failure (Reply c)} {g : Hand}
    (hn : Names lib w hand) (hm : Moves lib settings w (hand i) c reply w' g) :
    Names lib w' (Function.update hand i g) := by
  have all : ∀ {l : List String}, l ⊆ l := fun h => h
  cases hm with
  | draw name new => exact names_draw hn name new
  | begin session value held fresh =>
    exact names_issue hn session value _ (by simp [fresh]) (Or.inl (by simp [fresh]))
  | renew session value held fresh =>
    exact names_issue hn session value _ (by simp [fresh])
      (Or.inr (hn.inHand i session (Or.inl held)))
  | rotate digest session held usable =>
    obtain ⟨e, he, hv⟩ := raw_of_get _ _ _ _ usable
    have hold : Stored w.sessions session := Or.inl ⟨digest, e, he, hv⟩
    refine names_carry hn all rfl (fun d e h => ((del_eq_some _ _ _ _).mp h).2) ?_ ?_
    · rintro s (⟨d, e, h, rfl⟩ | ⟨d, e, h, rfl⟩)
      · exact Or.inl ⟨d, e, ((del_eq_some _ _ _ _).mp h).2, rfl⟩
      · rcases (set_eq_some _ _ _ _ _ _).mp h with ⟨-, rfl⟩ | ⟨-, h⟩
        · exact hold
        · exact Or.inr ⟨d, e, h, rfl⟩
    · rintro s (h | h)
      · cases h
        exact Or.inr hold
      · exact Or.inl (Or.inr h)
  | reuse digest session used =>
    obtain ⟨e, he, hv⟩ := raw_of_get _ _ _ _ used
    refine names_carry hn all rfl (fun d e h => h) ?_ ?_
    · rintro s (h | ⟨d, e, h, rfl⟩)
      · exact Or.inl h
      · exact Or.inr ⟨d, e, ((del_eq_some _ _ _ _).mp h).2, rfl⟩
    · rintro s (h | h | h)
      · exact Or.inl (Or.inl h)
      · cases h
        exact Or.inr (Or.inr ⟨digest, e, he, hv⟩)
      · exact Or.inl (Or.inr (Or.inr h))
  | revoke session digests seen next =>
    refine names_carry hn all rfl (fun d e h => ((delAll_eq_some _ _ _ _).mp h).2) ?_ ?_
    · rintro s (⟨d, e, h, rfl⟩ | ⟨d, e, h, rfl⟩)
      · exact Or.inl ⟨d, e, ((delAll_eq_some _ _ _ _).mp h).2, rfl⟩
      · exact Or.inr ⟨d, e, ((delAll_eq_some _ _ _ _).mp h).2, rfl⟩
    · rintro s (h | h | h)
      · exact Or.inl (Or.inl h)
      · exact Or.inl (Or.inr (Or.inl h))
      · dsimp only at h
        split at h
        · rename_i hc
          rcases List.mem_cons.mp h with rfl | h
          · exact Or.inl (Or.inr (Or.inl hc))
          · exact Or.inl (Or.inr (Or.inr h))
        · exact Or.inl (Or.inr (Or.inr h))
  | other c reply w' sessions now drawn =>
    exact names_carry hn drawn rfl (fun d e h => by rwa [sessions] at h)
      (fun s h => by rwa [sessions] at h) (fun s h => Or.inl h)
  | _ => exact names_carry hn all rfl (fun d e h => h) (fun s h => h) (fun s h => Or.inl h)

/-! ## Entries that go away -/

/-- Time passing and evictions only remove entries. -/
theorem passed_sessions (d : Passing) (w : World) :
    (passed d w).drawn = w.drawn ∧
    (∀ k e, (passed d w).sessions.refresh k = some e → w.sessions.refresh k = some e) ∧
    ∀ k e, (passed d w).sessions.reuse k = some e → w.sessions.reuse k = some e := by
  cases d with
  | evictRefresh k => exact ⟨rfl, fun j e h => ((del_eq_some _ k j e).mp h).2, fun j e h => h⟩
  | evictReuse k => exact ⟨rfl, fun j e h => h, fun j e h => ((del_eq_some _ k j e).mp h).2⟩
  | _ => exact ⟨rfl, fun j e h => h, fun j e h => h⟩

theorem names_passed (hn : Names lib w hand) (d : Passing) : Names lib (passed d w) hand := by
  obtain ⟨hd, hr, hu⟩ := passed_sessions d w
  have hs : ∀ s, Stored (passed d w).sessions s → Stored w.sessions s := by
    rintro s (⟨k, e, h, rfl⟩ | ⟨k, e, h, rfl⟩)
    · exact Or.inl ⟨k, e, hr k e h, rfl⟩
    · exact Or.inr ⟨k, e, hu k e h, rfl⟩
  have h : Names lib (passed d w) (Function.update hand 0 (hand 0)) :=
    names_carry hn (by rw [hd]; exact fun _ h => h) rfl hr hs (fun s h => Or.inl h)
  rwa [Function.update_eq_self] at h

/-! ## Seats -/

inductive Seat where
  | token (digest : Digest)
  | request (thread : ℕ)

/-- The session a seat is taken for. -/
def seated (t : SessionStore) (hand : ℕ → Hand) : Seat → Option Session
  | .token digest => (t.refresh digest).map Entry.value
  | .request i => (hand i).held

def OneSeat (t : SessionStore) (hand : ℕ → Hand) : Prop :=
  ∀ a b s s', seated t hand a = some s → seated t hand b = some s' → s.family = s'.family → a = b

theorem oneSeat_mono {t t' : SessionStore} {hand' : ℕ → Hand} (h : OneSeat t hand)
    (hs : ∀ a s, seated t' hand' a = some s → seated t hand a = some s) : OneSeat t' hand' :=
  fun a b s s' ha hb => h a b s s' (hs a s ha) (hs b s' hb)

/-- One seat is given up and one taken for the same session, or for a session
nobody was seated for. -/
theorem oneSeat_exchange {t t' : SessionStore} {hand' : ℕ → Hand} (h : OneSeat t hand)
    (new : Seat) (session : Session)
    (hs : ∀ a s, seated t' hand' a = some s →
      (a = new ∧ s = session) ∨ (seated t hand a = some s ∧ s.family ≠ session.family)) :
    OneSeat t' hand' := by
  intro a b s s' ha hb hf
  rcases hs a s ha with ⟨rfl, rfl⟩ | ⟨ha', hsa⟩ <;> rcases hs b s' hb with ⟨rfl, rfl⟩ | ⟨hb', hsb⟩
  · rfl
  · exact absurd hf.symm hsb
  · exact absurd hf hsa
  · exact h a b s s' ha' hb' hf

theorem seated_inUse (hn : Names lib w hand) (a : Seat) (s : Session)
    (h : seated w.sessions hand a = some s) : Used w hand s.family := by
  cases a with
  | token d =>
    obtain ⟨e, he, hv⟩ := Option.map_eq_some_iff.mp h
    exact hn.stored s (Or.inl ⟨d, e, he, hv⟩)
  | request j => exact hn.inHand j s (Or.inl h)

theorem held_of_update {g : Hand} {j : ℕ} {s : Session}
    (h : (Function.update hand i g j).held = some s) :
    (j = i ∧ g.held = some s) ∨ (j ≠ i ∧ (hand j).held = some s) := by
  by_cases hj : j = i
  · subst hj
    exact Or.inl ⟨rfl, by simpa using h⟩
  · exact Or.inr ⟨hj, by simpa [Function.update_of_ne hj] using h⟩

theorem oneSeat_issue {g : Hand} (h : OneSeat w.sessions hand) (digest : Digest)
    (session : Session) (ttl : ℕ) (hg : g.held = none)
    (own : ∀ a s, seated w.sessions hand a = some s → s.family = session.family →
      a = .request i) :
    OneSeat (issued w.now w.sessions digest session ttl) (Function.update hand i g) := by
  refine oneSeat_exchange h (.token digest) session ?_
  rintro (d | j) s hs
  · obtain ⟨e, he, hv⟩ := Option.map_eq_some_iff.mp hs
    rcases (set_eq_some _ _ _ _ _ _).mp he with ⟨rfl, rfl⟩ | ⟨-, he⟩
    · exact Or.inl ⟨rfl, hv.symm⟩
    · have hd : seated w.sessions hand (.token d) = some s := Option.map_eq_some_iff.mpr ⟨e, he, hv⟩
      refine Or.inr ⟨hd, fun hf => ?_⟩
      cases own _ s hd hf
  · rcases held_of_update hs with ⟨-, hs⟩ | ⟨hj, hs⟩
    · rw [hg] at hs
      cases hs
    · refine Or.inr ⟨hs, fun hf => hj ?_⟩
      cases own (.request j) s hs hf
      rfl

theorem oneSeat_shrink {t : SessionStore} {g : Hand} (h : OneSeat w.sessions hand)
    (hg : g.held = (hand i).held)
    (ht : ∀ d e, t.refresh d = some e → w.sessions.refresh d = some e) :
    OneSeat t (Function.update hand i g) := by
  refine oneSeat_mono h ?_
  rintro (d | j) s hs
  · obtain ⟨e, he, hv⟩ := Option.map_eq_some_iff.mp hs
    exact Option.map_eq_some_iff.mpr ⟨e, ht d e he, hv⟩
  · rcases held_of_update hs with ⟨rfl, held⟩ | ⟨-, held⟩
    · exact hg.symm.trans held
    · exact held

/-- Nobody but the request that issues into a family is seated for it. -/
theorem own_of_issue {c : Command} {reply : Except Failure (Reply c)} {g : Hand}
    {digest : Digest} {session : Session} (hn : Names lib w hand) (h : OneSeat w.sessions hand)
    (hm : Moves lib settings w (hand i) c reply w' g)
    (hi : issueOf c reply = some (digest, session)) (a : Seat) (s : Session)
    (ha : seated w.sessions hand a = some s) (hf : s.family = session.family) :
    a = .request i := by
  cases hm with
  | begin session value held fresh =>
    cases hi
    have hu := (seated_inUse hn a s ha).2 i
    rw [hf, fresh] at hu
    exact absurd List.mem_cons_self hu
  | renew session value held fresh =>
    cases hi
    exact h a (.request i) s session ha held hf
  | other c reply w' sessions now drawn exchange issue =>
    rw [issue] at hi
    cases hi
  | _ => cases hi

theorem vacant_of_issue {c : Command} {reply : Except Failure (Reply c)} {g : Hand}
    {digest : Digest} {session : Session} (hn : Names lib w hand) (h : OneSeat w.sessions hand)
    (hm : Moves lib settings w (hand i) c reply w' g)
    (hi : issueOf c reply = some (digest, session)) (d : Digest) (e : Entry Session)
    (he : w.sessions.refresh d = some e) : e.value ≠ session := by
  intro hv
  have hseat : seated w.sessions hand (.token d) = some session :=
    Option.map_eq_some_iff.mpr ⟨e, he, hv⟩
  cases own_of_issue hn h hm hi _ _ hseat rfl

theorem oneSeat_of_move {c : Command} {reply : Except Failure (Reply c)} {g : Hand}
    (hn : Names lib w hand) (h : OneSeat w.sessions hand)
    (hm : Moves lib settings w (hand i) c reply w' g) :
    OneSeat w'.sessions (Function.update hand i g) := by
  have hown : ∀ d session, issueOf c reply = some (d, session) → ∀ a s,
      seated w.sessions hand a = some s → s.family = session.family → a = .request i :=
    fun d session hi => own_of_issue hn h hm hi
  cases hm with
  | begin session value held fresh => exact oneSeat_issue h _ session _ rfl (hown _ _ rfl)
  | renew session value held fresh => exact oneSeat_issue h _ session _ rfl (hown _ _ rfl)
  | rotate digest session held usable =>
    obtain ⟨e, he, hv⟩ := raw_of_get _ _ _ _ usable
    have hseat : seated w.sessions hand (.token digest) = some session :=
      Option.map_eq_some_iff.mpr ⟨e, he, hv⟩
    refine oneSeat_exchange h (.request i) session ?_
    rintro (d | j) s hs
    · obtain ⟨e, he, hv⟩ := Option.map_eq_some_iff.mp hs
      obtain ⟨hd, he⟩ := (del_eq_some _ _ _ _).mp he
      have hs' : seated w.sessions hand (.token d) = some s :=
        Option.map_eq_some_iff.mpr ⟨e, he, hv⟩
      refine Or.inr ⟨hs', fun hf => hd ?_⟩
      cases h _ _ _ _ hs' hseat hf
      rfl
    · rcases held_of_update hs with ⟨rfl, hs⟩ | ⟨-, hs⟩
      · cases hs
        exact Or.inl ⟨rfl, rfl⟩
      · refine Or.inr ⟨hs, fun hf => ?_⟩
        cases h (.request j) _ _ _ hs hseat hf
  | revoke session digests seen next =>
    refine oneSeat_shrink h rfl ?_
    exact fun d e he => ((delAll_eq_some _ _ _ _).mp he).2
  | other c reply w' sessions =>
    refine oneSeat_shrink h rfl ?_
    exact fun d e he => by rwa [sessions] at he
  | _ =>
    refine oneSeat_shrink h rfl ?_
    exact fun d e he => he

theorem oneSeat_passed (h : OneSeat w.sessions hand) (d : Passing) :
    OneSeat (passed d w).sessions hand := by
  refine oneSeat_mono h ?_
  rintro (k | j) t ht
  · obtain ⟨e, he, hv⟩ := Option.map_eq_some_iff.mp ht
    exact Option.map_eq_some_iff.mpr ⟨e, (passed_sessions d w).2.1 k e he, hv⟩
  · exact ht

theorem oneSeat_fresh (now : ℕ) (database : Database) :
    OneSeat (World.fresh now database).sessions (fun _ => Hand.empty) := by
  rintro (d | j) b s s' ha
  · cases ha
  · cases ha

/-! ## Exchanges -/

def exchanges (h : Past) (digest : Digest) : ℕ :=
  h.countP (fun e => (exchangeOf e.command e.reply).map Prod.fst = some digest)

/-- An exchanged token is gone, its name is used and it was exchanged once. -/
structure Spent (lib : Libraries) (w : World) (hand : ℕ → Hand) (h : Past) : Prop where
  gone : ∀ d, exchanges h d ≠ 0 → w.sessions.refresh d = none
  used : ∀ d, exchanges h d ≠ 0 → ∃ v, d = lib.digest v ∧ Used w hand v
  once : ∀ d, exchanges h d ≤ 1

theorem exchanges_append (h : Past) (e : Occurrence) (d : Digest) :
    exchanges (h ++ [e]) d = exchanges h d +
      if (exchangeOf e.command e.reply).map Prod.fst = some d then 1 else 0 := by
  rw [exchanges, List.countP_append, List.countP_singleton]
  simp only [exchanges, decide_eq_true_eq]

theorem exchanges_other (h : Past) {q : Request} {c : Command} {reply : Except Failure (Reply c)}
    (he : exchangeOf c reply = none) (d : Digest) :
    exchanges (h ++ [⟨i, q, c, reply⟩]) d = exchanges h d := by
  simp [exchanges_append, he]

theorem spent_carry {g : Hand} {h h' : Past} (hs : Spent lib w hand h)
    (he : ∀ d, exchanges h' d = exchanges h d) (hd : w.drawn ⊆ w'.drawn)
    (hf : ∀ v, v ∈ g.fresh → v ∈ (hand i).fresh ∨ v ∉ w.drawn)
    (ht : ∀ d e, w'.sessions.refresh d = some e →
      w.sessions.refresh d = some e ∨ ∃ v ∈ (hand i).fresh, d = lib.digest v) :
    Spent lib w' (Function.update hand i g) h' := by
  constructor
  · intro d h
    rw [he d] at h
    rcases hr : w'.sessions.refresh d with _ | e
    · rfl
    · rcases ht d e hr with h' | ⟨v, hv, rfl⟩
      · rw [hs.gone d h] at h'
        cases h'
      · obtain ⟨u, hu, hused⟩ := hs.used _ h
        exact absurd (lib.digest_injective hu ▸ hv) (hused.2 i)
  · intro d h
    rw [he d] at h
    obtain ⟨v, hv, hu, hnot⟩ := hs.used d h
    refine ⟨v, hv, hd hu, fun j hj => ?_⟩
    by_cases hji : j = i
    · subst hji
      rw [Function.update_self] at hj
      rcases hf v hj with h | h
      · exact hnot j h
      · exact h hu
    · rw [Function.update_of_ne hji] at hj
      exact hnot j hj
  · intro d
    rw [he d]
    exact hs.once d

theorem spent_of_move {q : Request} {c : Command} {reply : Except Failure (Reply c)} {g : Hand}
    {h : Past} (hn : Names lib w hand) (hs : Spent lib w hand h)
    (hm : Moves lib settings w (hand i) c reply w' g) :
    Spent lib w' (Function.update hand i g) (h ++ [⟨i, q, c, reply⟩]) := by
  cases hm with
  | draw name new =>
    refine spent_carry hs (exchanges_other h rfl) (List.subset_cons_self _ _) ?_
      (fun d e he => Or.inl he)
    intro v hv
    rcases List.mem_cons.mp hv with rfl | hv
    · exact Or.inr new
    · exact Or.inl hv
  | begin session value held fresh =>
    refine spent_carry hs (exchanges_other h rfl) (fun _ hv => hv) (fun v hv => by cases hv) ?_
    intro d e he
    rcases (set_eq_some _ _ _ _ _ _).mp he with ⟨rfl, -⟩ | ⟨-, he⟩
    · exact Or.inr ⟨value, by simp [fresh], rfl⟩
    · exact Or.inl he
  | renew session value held fresh =>
    refine spent_carry hs (exchanges_other h rfl) (fun _ hv => hv) (fun v hv => by cases hv) ?_
    intro d e he
    rcases (set_eq_some _ _ _ _ _ _).mp he with ⟨rfl, -⟩ | ⟨-, he⟩
    · exact Or.inr ⟨value, by simp [fresh], rfl⟩
    · exact Or.inl he
  | rotate digest session held usable =>
    obtain ⟨e, he, -⟩ := raw_of_get _ _ _ _ usable
    have hzero : exchanges h digest = 0 := by
      by_contra hne
      rw [hs.gone digest hne] at he
      cases he
    have hcount : ∀ d, exchanges (h ++ [⟨i, q, .session (.rotate digest (refreshTtl settings)),
        .ok (RotateReply.rotated session)⟩]) d =
        exchanges h d + if d = digest then 1 else 0 := by
      intro d
      rw [exchanges_append]
      simp only [exchangeOf, Option.map_some, Option.some.injEq, eq_comm]
    have fresh : ∀ j, (Function.update hand i { hand i with held := some session } j).fresh =
        (hand j).fresh := by
      intro j
      by_cases hj : j = i
      · subst hj
        simp
      · rw [Function.update_of_ne hj]
    constructor
    · intro d hd
      rw [hcount] at hd
      by_cases hdd : d = digest
      · subst hdd
        exact del_self _ _
      · rw [if_neg hdd, Nat.add_zero] at hd
        exact (del_ne _ _ hdd).trans (hs.gone d hd)
    · intro d hd
      have hused : ∃ v, d = lib.digest v ∧ Used w hand v := by
        rw [hcount] at hd
        by_cases hdd : d = digest
        · subst hdd
          exact hn.token d e he
        · rw [if_neg hdd, Nat.add_zero] at hd
          exact hs.used d hd
      obtain ⟨v, hv, hu, hnot⟩ := hused
      exact ⟨v, hv, hu, fun j => by rw [fresh j]; exact hnot j⟩
    · intro d
      rw [hcount]
      by_cases hdd : d = digest
      · subst hdd
        simp [hzero]
      · simpa [hdd] using hs.once d
  | revoke session digests seen next =>
    refine spent_carry hs (exchanges_other h rfl) (fun _ hv => hv) (fun v hv => Or.inl hv) ?_
    exact fun d e he => Or.inl ((delAll_eq_some _ _ _ _).mp he).2
  | other c reply w' sessions now drawn exchange =>
    refine spent_carry hs (exchanges_other h exchange) drawn (fun v hv => Or.inl hv) ?_
    exact fun d e he => Or.inl (by rwa [sessions] at he)
  | _ =>
    refine spent_carry hs (exchanges_other h rfl) (fun _ hv => hv) (fun v hv => Or.inl hv) ?_
    exact fun d e he => Or.inl he

/-! ## A family never forks -/

def Unforked (lib : Libraries) (settings : Settings) (w : World) (h : Past) : Prop :=
  Names lib w (ghost (contract lib settings) h) ∧
  OneSeat w.sessions (ghost (contract lib settings) h) ∧
  Spent lib w (ghost (contract lib settings) h) h

theorem unforked_preserved (lib : Libraries) (settings : Settings) :
    Preserved (service lib settings) (contract lib settings) (fun _ _ => True)
      (Unforked lib settings) where
  call := by
    rintro s i x q c reply w ⟨hn, ho, hs⟩ - ha hp -
    have hm := moves_of_perform lib settings _ _ _ c x reply ha hp
    unfold Unforked
    rw [ghost_append]
    exact ⟨names_of_move hn hm, oneSeat_of_move hn ho hm, spent_of_move hn hs hm⟩
  pass := by
    rintro s d ⟨hn, ho, hs⟩ -
    obtain ⟨hd, hr, -⟩ := passed_sessions d s.world
    refine ⟨names_passed hn d, oneSeat_passed ho d, ?_⟩
    have h : Spent lib (passed d s.world)
        (Function.update (ghost (contract lib settings) s.history)
        0 (ghost (contract lib settings) s.history 0)) s.history :=
      spent_carry hs (fun _ => rfl) (by rw [hd]; exact fun _ h => h) (fun v h => Or.inl h)
        (fun k e h => Or.inl (hr k e h))
    rwa [Function.update_eq_self] at h

theorem unforked_run (lib : Libraries) (settings : Settings) (now : ℕ)
    (database : Database) (ls : List (Label Request Choice Passing)) :
    Unforked lib settings (run (service lib settings) ls (initial (World.fresh now database))).world
      (run (service lib settings) ls (initial (World.fresh now database))).history := by
  refine invariant_run (obeys lib settings) (unforked_preserved lib settings) ls _
    (following_initial _) ?_ (meets_trivial ls _)
  refine ⟨names_fresh now database, oneSeat_fresh now database, ?_⟩
  exact ⟨fun d h => rfl, fun d h => absurd rfl h, fun d => Nat.zero_le 1⟩

/-- The refresh tokens of a family that a request could exchange now. -/
def usableTokens (s : Service) (family : FamilyId) : Set Digest :=
  {d | ∃ user, get s.world.now s.world.sessions.refresh d = some ⟨user, family⟩}

/-- The requests that have rotated a token of the family and not issued its successor. -/
def rotatedRequests (lib : Libraries) (settings : Settings) (s : Service) (family : FamilyId) :
    Set ℕ :=
  {i | ∃ user, (ghost (contract lib settings) s.history i).held = some ⟨user, family⟩}

theorem family_never_forks (lib : Libraries) (settings : Settings) (now : ℕ)
    (database : Database) (ls : List (Label Request Choice Passing)) :
    let s := run (service lib settings) ls (initial (World.fresh now database))
    (∀ family,
      (usableTokens s family).encard + (rotatedRequests lib settings s family).encard ≤ 1) ∧
    ∀ value, exchanges s.history (lib.digest value) ≤ 1 := by
  intro s
  obtain ⟨-, ho, hs⟩ := unforked_run lib settings now database ls
  refine ⟨fun family => ?_, fun value => hs.once _⟩
  have usable : ∀ d ∈ usableTokens s family, ∃ user,
      seated s.world.sessions (ghost (contract lib settings) s.history) (.token d) =
        some ⟨user, family⟩ := by
    rintro d ⟨user, h⟩
    obtain ⟨e, he, hv⟩ := raw_of_get _ _ _ _ h
    exact ⟨user, Option.map_eq_some_iff.mpr ⟨e, he, hv⟩⟩
  rcases (rotatedRequests lib settings s family).eq_empty_or_nonempty with hempty | ⟨i, u, hi⟩
  · rw [hempty, Set.encard_empty, add_zero, Set.encard_le_one_iff]
    intro a b ha hb
    obtain ⟨ua, hua⟩ := usable a ha
    obtain ⟨ub, hub⟩ := usable b hb
    cases ho _ _ _ _ hua hub rfl
    rfl
  · have hnone : usableTokens s family = ∅ := by
      refine Set.eq_empty_of_forall_notMem (fun d hd => ?_)
      obtain ⟨ud, hud⟩ := usable d hd
      cases ho _ (.request i) _ _ hud hi rfl
    rw [hnone, Set.encard_empty, zero_add, Set.encard_le_one_iff]
    rintro a b ⟨ua, ha⟩ ⟨ub, hb⟩
    cases ho (.request a) (.request b) _ _ ha hb rfl
    rfl

end Gamely.TokenFamilies
