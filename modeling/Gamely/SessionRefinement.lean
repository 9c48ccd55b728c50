import Gamely.SessionIndex
import Gamely.SessionMachine

/-!
# The token service refines the session machine

Four kinds of keys with deadlines of their own carry the tickets. A refresh key
is live exactly for a usable ticket and a reuse key exactly for a replayable
one; both lists that lead to a live ticket outlive it. Between the two halves of
an exchange the lists of one session are due to be renewed.
-/

set_option autoImplicit false

namespace Gamely.SessionRefinement
open Gamely.Calls Gamely.Stores Gamely.EmailJobs Gamely.Services Gamely.TokenService
open Gamely.AuthService Gamely.Requests Gamely.ExpiringStore Gamely.Sequential Gamely.SessionMachine
open Gamely.SessionIndex Gamely.ReuseDetection

abbrev Tickets := Machine UserId FamilyId Token

abbrev Entitled := Ticket UserId FamilyId Token

def session (t : Entitled) : Session := ⟨t.user, t.family⟩

/-- The lifetime in milliseconds. -/
def lifetime (settings : Settings) : ℕ := 1000*refreshTtl settings

/-- A list that has the member and outlives the ticket, unless it is due. -/
def Leads {M : Type} (settings : Settings) (m : Tickets) (due : Option Session) (t : Entitled)
    (x : M) (entry : Option (Entry (List M))) : Prop :=
  ∃ xs deadline, entry = some ⟨xs, some deadline⟩ ∧ x ∈ xs ∧
    (t.expiry (lifetime settings) ≤ deadline ∨ (due = some (session t) ∧ m.now < deadline))

structure Refines (lib : Libraries) (settings : Settings) (due : Option Session) (m : Tickets)
    (w : World) : Prop where
  now : w.now = m.now
  past : ∀ t ∈ m.tickets, t.exchanged.getD t.issued ≤ m.now
  distinct : ∀ t ∈ m.tickets, ∀ t' ∈ m.tickets, t.token = t'.token → t = t'
  drawn : ∀ t ∈ m.tickets, t.token ∈ w.drawn ∧ t.family ∈ w.drawn
  ended : ∀ s ∈ m.ended, s.2 ∈ w.drawn
  refresh : ∀ d e, peek w.now w.sessions.refresh d = some e ↔
    ∃ t ∈ m.tickets, Usable (lifetime settings) m t ∧ d = lib.digest t.token ∧
      e = ⟨session t, some (t.expiry (lifetime settings))⟩
  reuse : ∀ d e, peek w.now w.sessions.reuse d = some e ↔
    ∃ t ∈ m.tickets, Replayable (lifetime settings) m t ∧ d = lib.digest t.token ∧
      e = ⟨session t, some (t.expiry (lifetime settings))⟩
  family : ∀ t ∈ m.tickets, Live (lifetime settings) m t →
    Leads settings m due t (lib.digest t.token) (w.sessions.family (session t))
  sessions : ∀ t ∈ m.tickets, Live (lifetime settings) m t →
    Leads settings m due t t.family (w.sessions.sessions t.user)
  members : ∀ s f, w.sessions.family s = some f → ∀ d ∈ f.value,
    ∃ t ∈ m.tickets, d = lib.digest t.token ∧ session t = s
  listed : ∀ u f, w.sessions.sessions u = some f → ∀ x ∈ f.value, x ∈ w.drawn
  users : ∀ t ∈ m.tickets, (w.database.users.find? (fun u => u.id = t.user)).isSome = true

variable {lib : Libraries} {settings : Settings} {m : Tickets} {w : World} {due : Option Session}

/-! ## What a presented token finds -/

theorem get_refresh (h : Refines lib settings due m w) (token : Token) (s : Session) :
    get w.now w.sessions.refresh (lib.digest token) = some s ↔
      ∃ t ∈ m.tickets, t.token = token ∧ Usable (lifetime settings) m t ∧ s = session t := by
  simp only [ExpiringStore.get, Option.map_eq_some_iff, h.refresh]
  constructor
  · rintro ⟨e, ⟨t, ht, hu, hd, rfl⟩, rfl⟩
    exact ⟨t, ht, (lib.digest_injective hd).symm, hu, rfl⟩
  · rintro ⟨t, ht, rfl, hu, rfl⟩
    exact ⟨_, ⟨t, ht, hu, rfl, rfl⟩, rfl⟩

theorem get_reuse (h : Refines lib settings due m w) (token : Token) (s : Session) :
    get w.now w.sessions.reuse (lib.digest token) = some s ↔
      ∃ t ∈ m.tickets, t.token = token ∧ Replayable (lifetime settings) m t ∧ s = session t := by
  simp only [ExpiringStore.get, Option.map_eq_some_iff, h.reuse]
  constructor
  · rintro ⟨e, ⟨t, ht, hu, hd, rfl⟩, rfl⟩
    exact ⟨t, ht, (lib.digest_injective hd).symm, hu, rfl⟩
  · rintro ⟨t, ht, rfl, hu, rfl⟩
    exact ⟨_, ⟨t, ht, hu, rfl, rfl⟩, rfl⟩

theorem live_lists {M : Type} {t : Entitled} {x : M} {entry : Option (Entry (List M))}
    (hl : Live (lifetime settings) m t) (h : Leads settings m due t x entry) :
    ∃ xs deadline, entry = some ⟨xs, some deadline⟩ ∧ x ∈ xs ∧ m.now < deadline := by
  obtain ⟨xs, deadline, he, hx, hd⟩ := h
  refine ⟨xs, deadline, he, hx, ?_⟩
  rcases hd with hd | ⟨-, hd⟩
  · exact lt_of_lt_of_le hl.1 hd
  · exact hd

theorem mem_members (h : Refines lib settings due m w) (t : Entitled) (ht : t ∈ m.tickets)
    (hl : Live (lifetime settings) m t) :
    lib.digest t.token ∈ members w.now w.sessions.family (session t) := by
  obtain ⟨xs, deadline, he, hx, hd⟩ := live_lists hl (h.family t ht hl)
  rw [members_of_live w.now w.sessions.family (session t) _ he (by simp [Entry.live, h.now, hd])]
  exact hx

theorem members_own (h : Refines lib settings due m w) (s : Session) (t : Entitled)
    (ht : t ∈ m.tickets) (hd : lib.digest t.token ∈ members w.now w.sessions.family s) :
    session t = s := by
  rcases hp : get w.now w.sessions.family s with _ | xs
  · simp [members, hp] at hd
  · obtain ⟨e, he, -, rfl⟩ := (get_eq_some _ _ _ _).mp hp
    have hd' : lib.digest t.token ∈ e.value := by simpa [members, hp] using hd
    obtain ⟨t', ht', htok, hs⟩ := h.members s e he _ hd'
    rw [h.distinct t ht t' ht' (lib.digest_injective htok)]
    exact hs

/-! ## Issuing -/

theorem peek_set {K V : Type} [DecidableEq K] (now : ℕ) (s : Store K V) (k j : K) (v : V)
    (deadline : ℕ) (h : now < deadline) (e : Entry V) :
    peek now (set s k v (some deadline)) j = some e ↔
      (j = k ∧ e = ⟨v, some deadline⟩) ∨ (j ≠ k ∧ peek now s j = some e) := by
  rw [peek_eq_some, set_eq_some, peek_eq_some]
  constructor
  · rintro ⟨⟨rfl, rfl⟩ | ⟨hj, he⟩, hl⟩
    · exact Or.inl ⟨rfl, rfl⟩
    · exact Or.inr ⟨hj, he, hl⟩
  · rintro (⟨rfl, rfl⟩ | ⟨hj, he, hl⟩)
    · exact ⟨Or.inl ⟨rfl, rfl⟩, by simp [Entry.live, h]⟩
    · exact ⟨Or.inr ⟨hj, he⟩, hl⟩

theorem lifetime_pos (settings : Settings) : 0 < lifetime settings := by
  have := settings.authRefreshTokenDays_pos
  simp only [lifetime, refreshTtl]
  omega

/-- A renewed list leads to the new member and to every member it led to, until
one lifetime from now. -/
theorem leads_renewed {K M : Type} [DecidableEq K] [DecidableEq M] (now : ℕ)
    (st : Store K (List M)) (k j : K) (x y : M) (t : Entitled) (hn : now = m.now)
    (hpast : t.exchanged.getD t.issued ≤ m.now)
    (hold : (y = x ∧ j = k) ∨ ∃ xs deadline, st j = some ⟨xs, some deadline⟩ ∧ y ∈ xs ∧
      m.now < deadline ∧ (t.expiry (lifetime settings) ≤ deadline ∨ j = k)) :
    Leads settings m none t y
      (expire now (sadd now st k x) k (now+1000*refreshTtl settings) j) := by
  rw [expire_sadd]
  by_cases hj : j = k
  · subst hj
    refine ⟨_, _, set_self .., ?_, Or.inl ?_⟩
    · rcases hold with ⟨rfl, -⟩ | ⟨xs, deadline, he, hy, hd, -⟩
      · exact List.mem_insert_self ..
      · rw [members_of_live now st j _ he (by simp [Entry.live, hn, hd])]
        exact List.mem_insert_of_mem hy
    · simp only [Ticket.expiry, lifetime]
      omega
  · rcases hold with ⟨-, h⟩ | ⟨xs, deadline, he, hy, hd, hx⟩
    · exact absurd h hj
    · exact ⟨xs, deadline, by rw [set_ne _ _ _ _ hj, he], hy, Or.inl (hx.resolve_right hj)⟩

theorem members_renewed {K M : Type} [DecidableEq K] [DecidableEq M] (now : ℕ)
    (st : Store K (List M)) (k j : K) (x y : M) (later : ℕ) (f : Entry (List M))
    (hf : expire now (sadd now st k x) k later j = some f) (hy : y ∈ f.value) :
    (j = k ∧ y = x) ∨ ∃ f', st j = some f' ∧ y ∈ f'.value := by
  rw [expire_sadd] at hf
  rcases (set_eq_some _ _ _ _ _ _).mp hf with ⟨rfl, rfl⟩ | ⟨-, hf⟩
  · rcases List.mem_insert_iff.mp hy with rfl | hy
    · exact Or.inl ⟨rfl, rfl⟩
    · rcases hg : get now st j with _ | xs
      · simp [members, hg] at hy
      · obtain ⟨e, he, -, rfl⟩ := (get_eq_some _ _ _ _).mp hg
        exact Or.inr ⟨e, he, by simpa [members, hg] using hy⟩
  · exact Or.inr ⟨f, hf, hy⟩

theorem refines_issue (h : Refines lib settings due m w) (value : Token) (s : Session)
    (hdue : ∀ p, due = some p → p = s) (new : ∀ t ∈ m.tickets, t.token ≠ value)
    (hv : value ∈ w.drawn) (hf : s.family ∈ w.drawn) (open' : (s.user, s.family) ∉ m.ended)
    (hu : (w.database.users.find? (fun u => u.id = s.user)).isSome = true) :
    Refines lib settings none (m.add ⟨value, s.user, s.family, m.now, none⟩)
      { w with sessions :=
          issued w.now w.sessions (lib.digest value) s (refreshTtl settings) } := by
  have hlater : w.now < w.now+1000*refreshTtl settings := by
    have := lifetime_pos settings
    simp only [lifetime] at this
    omega
  have hdeadline : w.now+1000*refreshTtl settings = m.now+lifetime settings := by
    rw [h.now, lifetime]
  have fresh : ∀ t ∈ m.tickets, lib.digest t.token ≠ lib.digest value :=
    fun t ht hd => new t ht (lib.digest_injective hd)
  have lists : ∀ {M : Type} {t : Entitled} {x : M} {entry : Option (Entry (List M))},
      Live (lifetime settings) m t → Leads settings m due t x entry →
      ∃ xs deadline, entry = some ⟨xs, some deadline⟩ ∧ x ∈ xs ∧ m.now < deadline ∧
        (t.expiry (lifetime settings) ≤ deadline ∨ session t = s) := by
    intro M t x entry hl hlead
    obtain ⟨xs, deadline, he, hx, hd⟩ := live_lists hl hlead
    obtain ⟨xs', deadline', he', hx', hd'⟩ := hlead
    cases he.symm.trans he'
    refine ⟨xs, deadline, he, hx, hd, ?_⟩
    rcases hd' with hd' | ⟨hp, -⟩
    · exact Or.inl hd'
    · exact Or.inr (hdue _ hp)
  constructor
  · exact h.now
  · intro t ht
    rcases List.mem_cons.mp ht with rfl | ht
    · exact Nat.le_refl _
    · exact h.past t ht
  · intro t ht t' ht' htok
    rcases List.mem_cons.mp ht with rfl | ht <;> rcases List.mem_cons.mp ht' with rfl | ht'
    · rfl
    · exact absurd htok.symm (new t' ht')
    · exact absurd htok (new t ht)
    · exact h.distinct t ht t' ht' htok
  · intro t ht
    rcases List.mem_cons.mp ht with rfl | ht
    · exact ⟨hv, hf⟩
    · exact h.drawn t ht
  · exact h.ended
  · intro d e
    refine (peek_set _ _ _ _ _ _ hlater e).trans ?_
    constructor
    · rintro (⟨rfl, rfl⟩ | ⟨hd, hp⟩)
      · refine ⟨_, List.mem_cons_self, ⟨rfl, ?_, open'⟩, rfl, ?_⟩
        · have := lifetime_pos settings
          simp only [Machine.add, Ticket.expiry, Option.getD_none]
          omega
        · simp only [session, Ticket.expiry, Option.getD_none, hdeadline]
      · obtain ⟨t, ht, hu', hd', he⟩ := (h.refresh d e).mp hp
        exact ⟨t, List.mem_cons_of_mem _ ht, hu', hd', he⟩
    · rintro ⟨t, ht, hu', rfl, rfl⟩
      rcases List.mem_cons.mp ht with rfl | ht
      · exact Or.inl ⟨rfl, by simp only [session, Ticket.expiry, Option.getD_none, hdeadline]⟩
      · exact Or.inr ⟨fresh t ht, (h.refresh _ _).mpr ⟨t, ht, hu', rfl, rfl⟩⟩
  · intro d e
    refine (h.reuse d e).trans ?_
    constructor
    · rintro ⟨t, ht, hr, hd, he⟩
      exact ⟨t, List.mem_cons_of_mem _ ht, hr, hd, he⟩
    · rintro ⟨t, ht, hr, hd, he⟩
      rcases List.mem_cons.mp ht with rfl | ht
      · exact absurd rfl hr.1
      · exact ⟨t, ht, hr, hd, he⟩
  · intro t ht hl
    rcases List.mem_cons.mp ht with rfl | ht
    · exact leads_renewed _ _ _ _ _ _ _ h.now (Nat.le_refl _) (Or.inl ⟨rfl, rfl⟩)
    · exact leads_renewed _ _ _ _ _ _ _ h.now (h.past t ht)
        (Or.inr (lists hl (h.family t ht hl)))
  · intro t ht hl
    rcases List.mem_cons.mp ht with rfl | ht
    · exact leads_renewed _ _ _ _ _ _ _ h.now (Nat.le_refl _) (Or.inl ⟨rfl, rfl⟩)
    · obtain ⟨xs, deadline, he, hx, hd, hs⟩ := lists hl (h.sessions t ht hl)
      refine leads_renewed _ _ _ _ _ _ _ h.now (h.past t ht)
        (Or.inr ⟨xs, deadline, he, hx, hd, hs.imp_right (fun hs => ?_)⟩)
      rw [← hs]
      rfl
  · intro s' f hf' d hd
    rcases members_renewed _ _ _ _ _ _ _ _ hf' hd with ⟨rfl, rfl⟩ | ⟨f', hf', hd⟩
    · exact ⟨_, List.mem_cons_self, rfl, rfl⟩
    · obtain ⟨t, ht, hd', hs⟩ := h.members s' f' hf' d hd
      exact ⟨t, List.mem_cons_of_mem _ ht, hd', hs⟩
  · intro u f hf' x hx
    rcases members_renewed _ _ _ _ _ _ _ _ hf' hx with ⟨rfl, rfl⟩ | ⟨f', hf', hx⟩
    · exact hf
    · exact h.listed u f' hf' x hx
  · intro t ht
    rcases List.mem_cons.mp ht with rfl | ht
    · exact hu
    · exact h.users t ht

/-! ## The other moves -/

theorem refines_draw (h : Refines lib settings due m w) (name : String) :
    Refines lib settings due m { w with drawn := name :: w.drawn } where
  now := h.now
  past := h.past
  distinct := h.distinct
  drawn := fun t ht => ⟨List.mem_cons_of_mem _ (h.drawn t ht).1,
    List.mem_cons_of_mem _ (h.drawn t ht).2⟩
  ended := fun s hs => List.mem_cons_of_mem _ (h.ended s hs)
  refresh := h.refresh
  reuse := h.reuse
  family := h.family
  sessions := h.sessions
  members := h.members
  listed := fun u f hf x hx => List.mem_cons_of_mem _ (h.listed u f hf x hx)
  users := h.users

theorem peek_del {K V : Type} [DecidableEq K] (now : ℕ) (s : Store K V) (k j : K) (e : Entry V) :
    peek now (del s k) j = some e ↔ j ≠ k ∧ peek now s j = some e := by
  rw [peek_eq_some, del_eq_some, peek_eq_some, and_assoc]

theorem peek_delAll {K V : Type} [DecidableEq K] (now : ℕ) (s : Store K V) (ks : List K) (j : K)
    (e : Entry V) : peek now (delAll s ks) j = some e ↔ j ∉ ks ∧ peek now s j = some e := by
  rw [peek_eq_some, delAll_eq_some, peek_eq_some, and_assoc]

/-- The first half of an exchange: the ticket is marked and its lists are due. -/
theorem refines_rotate (h : Refines lib settings none m w) (t : Entitled) (ht : t ∈ m.tickets)
    (hu : Usable (lifetime settings) m t) :
    Refines lib settings (some (session t)) (m.exchange t.token)
      { w with sessions := { w.sessions with
          refresh := del w.sessions.refresh (lib.digest t.token)
          reuse := set w.sessions.reuse (lib.digest t.token) (session t)
            (ex w.now (refreshTtl settings)) } } := by
  have hlater : w.now < w.now+1000*refreshTtl settings := by
    have := lifetime_pos settings
    simp only [lifetime] at this
    omega
  have hdeadline : w.now+1000*refreshTtl settings = m.now+lifetime settings := by
    rw [h.now, lifetime]
  have only : ∀ t' ∈ m.tickets, t'.token = t.token → t' = t :=
    fun t' ht' htok => h.distinct t' ht' t ht htok
  have digests : ∀ t' : Entitled, lib.digest t'.token ≠ lib.digest t.token ↔ t'.token ≠ t.token :=
    fun t' => not_congr ⟨fun hd => lib.digest_injective hd, fun hd => by rw [hd]⟩
  have hmarked :
      Live (lifetime settings) (m.exchange t.token) { t with exchanged := some m.now } := by
    refine ⟨?_, hu.2.2⟩
    have := lifetime_pos settings
    simp only [Machine.exchange, Ticket.expiry, Option.getD_some]
    omega
  have carry : ∀ {M : Type} {t' : Entitled} {x : M} {entry : Option (Entry (List M))},
      t' ∈ m.tickets → Leads settings m none t' x entry →
      Leads settings (m.exchange t.token) (some (session t)) t' x entry := by
    rintro M t' x entry - ⟨xs, deadline, he, hx, hd⟩
    refine ⟨xs, deadline, he, hx, ?_⟩
    rcases hd with hd | ⟨hd, -⟩
    · exact Or.inl hd
    · cases hd
  have due' : ∀ {M : Type} {x : M} {entry : Option (Entry (List M))},
      Leads settings m none t x entry →
      Leads settings (m.exchange t.token) (some (session t)) { t with exchanged := some m.now }
        x entry := by
    intro M x entry hlead
    obtain ⟨xs, deadline, he, hx, hd⟩ := live_lists hu.2 hlead
    exact ⟨xs, deadline, he, hx, Or.inr ⟨rfl, hd⟩⟩
  constructor
  · exact h.now
  · intro t' ht'
    rcases (mem_exchange _ _ _).mp ht' with ⟨ht', -⟩ | ⟨t0, -, -, rfl⟩
    · exact h.past t' ht'
    · exact Nat.le_refl _
  · intro t1 ht1 t2 ht2 htok
    rcases (mem_exchange _ _ _).mp ht1 with ⟨ht1, hne1⟩ | ⟨t1', ht1', htok1, rfl⟩ <;>
    rcases (mem_exchange _ _ _).mp ht2 with ⟨ht2, hne2⟩ | ⟨t2', ht2', htok2, rfl⟩
    · exact h.distinct t1 ht1 t2 ht2 htok
    · exact absurd (htok.trans htok2) hne1
    · exact absurd (htok.symm.trans htok1) hne2
    · rw [only t1' ht1' htok1, only t2' ht2' htok2]
  · intro t' ht'
    rcases (mem_exchange _ _ _).mp ht' with ⟨ht', -⟩ | ⟨t0, ht0, -, rfl⟩
    · exact h.drawn t' ht'
    · exact h.drawn t0 ht0
  · exact h.ended
  · intro d e
    refine (peek_del _ _ _ _ e).trans ?_
    rw [h.refresh]
    constructor
    · rintro ⟨hd, t', ht', hu', rfl, rfl⟩
      exact ⟨t', (mem_exchange _ _ _).mpr (Or.inl ⟨ht', (digests t').mp hd⟩), hu', rfl, rfl⟩
    · rintro ⟨t', ht', hu', rfl, rfl⟩
      rcases (mem_exchange _ _ _).mp ht' with ⟨ht', hne⟩ | ⟨t0, -, -, rfl⟩
      · exact ⟨(digests t').mpr hne, t', ht', hu', rfl, rfl⟩
      · cases hu'.1
  · intro d e
    refine (peek_set _ _ _ _ _ _ hlater e).trans ?_
    rw [h.reuse]
    constructor
    · rintro (⟨rfl, rfl⟩ | ⟨hd, t', ht', hr, rfl, rfl⟩)
      · refine ⟨_, (mem_exchange _ _ _).mpr (Or.inr ⟨t, ht, rfl, rfl⟩), ⟨by simp, hmarked⟩, rfl, ?_⟩
        simp only [session, Ticket.expiry, Option.getD_some, hdeadline]
      · exact ⟨t', (mem_exchange _ _ _).mpr (Or.inl ⟨ht', (digests t').mp hd⟩), hr, rfl, rfl⟩
    · rintro ⟨t', ht', hr, rfl, rfl⟩
      rcases (mem_exchange _ _ _).mp ht' with ⟨ht', hne⟩ | ⟨t0, ht0, htok, rfl⟩
      · exact Or.inr ⟨(digests t').mpr hne, t', ht', hr, rfl, rfl⟩
      · refine Or.inl ⟨by rw [htok], ?_⟩
        rw [only t0 ht0 htok]
        simp only [session, Ticket.expiry, Option.getD_some, hdeadline]
  · intro t' ht' hl
    rcases (mem_exchange _ _ _).mp ht' with ⟨ht', -⟩ | ⟨t0, ht0, htok, rfl⟩
    · exact carry ht' (h.family t' ht' hl)
    · obtain rfl := only t0 ht0 htok
      exact due' (h.family t0 ht0 hu.2)
  · intro t' ht' hl
    rcases (mem_exchange _ _ _).mp ht' with ⟨ht', -⟩ | ⟨t0, ht0, htok, rfl⟩
    · exact carry ht' (h.sessions t' ht' hl)
    · obtain rfl := only t0 ht0 htok
      exact due' (h.sessions t0 ht0 hu.2)
  · intro s f hf d hd
    obtain ⟨t', ht', hd', hs⟩ := h.members s f hf d hd
    by_cases htok : t'.token = t.token
    · exact ⟨_, (mem_exchange _ _ _).mpr (Or.inr ⟨t', ht', htok, rfl⟩), hd', hs⟩
    · exact ⟨t', (mem_exchange _ _ _).mpr (Or.inl ⟨ht', htok⟩), hd', hs⟩
  · exact h.listed
  · intro t' ht'
    rcases (mem_exchange _ _ _).mp ht' with ⟨ht', -⟩ | ⟨t0, ht0, -, rfl⟩
    · exact h.users t' ht'
    · exact h.users t0 ht0

theorem live_endFamily (t : Entitled) (s : Session) :
    Live (lifetime settings) (m.endFamily (s.user, s.family)) t ↔
      Live (lifetime settings) m t ∧ session t ≠ s := by
  have hs : t.session = (s.user, s.family) ↔ session t = s := by
    cases s
    simp [Ticket.session, session]
  simp only [Live, Machine.endFamily, List.mem_cons, not_or, hs]
  tauto

/-- A revocation of the members it reads ends the family and touches no other. -/
theorem refines_revoked (h : Refines lib settings none m w) (s : Session)
    (hs : s.family ∈ w.drawn) :
    Refines lib settings none (m.endFamily (s.user, s.family))
      { w with sessions :=
          revoked w.now w.sessions (members w.now w.sessions.family s) s } := by
  have stays : ∀ t ∈ m.tickets, Live (lifetime settings) m t →
      (lib.digest t.token ∉ members w.now w.sessions.family s ↔ session t ≠ s) := by
    intro t ht hl
    constructor
    · rintro hd rfl
      exact hd (mem_members h t ht hl)
    · exact fun hne hd => hne (members_own h s t ht hd)
  constructor
  · exact h.now
  · exact h.past
  · exact h.distinct
  · exact h.drawn
  · intro s' hs'
    rcases List.mem_cons.mp hs' with rfl | hs'
    · exact hs
    · exact h.ended s' hs'
  · intro d e
    refine (peek_delAll _ _ _ _ e).trans ?_
    rw [h.refresh]
    constructor
    · rintro ⟨hd, t, ht, hu, rfl, rfl⟩
      exact ⟨t, ht, ⟨hu.1, (live_endFamily t s).mpr ⟨hu.2, (stays t ht hu.2).mp hd⟩⟩, rfl, rfl⟩
    · rintro ⟨t, ht, hu, rfl, rfl⟩
      obtain ⟨hl, hne⟩ := (live_endFamily t s).mp hu.2
      exact ⟨(stays t ht hl).mpr hne, t, ht, ⟨hu.1, hl⟩, rfl, rfl⟩
  · intro d e
    refine (peek_delAll _ _ _ _ e).trans ?_
    rw [h.reuse]
    constructor
    · rintro ⟨hd, t, ht, hu, rfl, rfl⟩
      exact ⟨t, ht, ⟨hu.1, (live_endFamily t s).mpr ⟨hu.2, (stays t ht hu.2).mp hd⟩⟩, rfl, rfl⟩
    · rintro ⟨t, ht, hu, rfl, rfl⟩
      obtain ⟨hl, hne⟩ := (live_endFamily t s).mp hu.2
      exact ⟨(stays t ht hl).mpr hne, t, ht, ⟨hu.1, hl⟩, rfl, rfl⟩
  · intro t ht hl
    obtain ⟨hl, hne⟩ := (live_endFamily t s).mp hl
    obtain ⟨xs, deadline, he, hx, hd⟩ := h.family t ht hl
    exact ⟨xs, deadline, (del_ne _ _ hne).trans he, hx, hd⟩
  · intro t ht hl
    obtain ⟨hl, hne⟩ := (live_endFamily t s).mp hl
    obtain ⟨xs, deadline, he, hx, hd⟩ := h.sessions t ht hl
    have hkey : t.user ≠ s.user ∨ t.family ≠ s.family := by
      by_contra hn
      rw [not_or, not_not, not_not] at hn
      exact hne (by cases s; simp only [session, hn])
    obtain ⟨xs', deadline', he', -, hlive⟩ := live_lists hl (h.sessions t ht hl)
    cases he.symm.trans he'
    obtain ⟨f, hf, hm, hdl⟩ := srem_keeps w.now w.sessions.sessions s.user t.user s.family t.family
      _ he (by simp [Entry.live, h.now, hlive]) hx hkey
    obtain ⟨ys, d⟩ := f
    obtain rfl : d = some deadline := hdl
    exact ⟨ys, deadline, hf, hm, hd⟩
  · intro s' f hf d hd
    exact h.members s' f ((del_eq_some _ _ _ _).mp hf).2 d hd
  · intro u f hf x hx
    obtain ⟨f', hf', -, hsub⟩ := srem_subset _ _ _ _ _ _ hf
    exact h.listed u f' hf' x (hsub x hx)
  · exact h.users

theorem refines_elapse (h : Refines lib settings none m w) (milliseconds : ℕ) :
    Refines lib settings none { m with now := m.now+milliseconds }
      (passed (.elapse milliseconds) w) := by
  have hlive : ∀ t : Entitled,
      Live (lifetime settings) { m with now := m.now+milliseconds } t ↔
        Live (lifetime settings) m t ∧ m.now+milliseconds < t.expiry (lifetime settings) := by
    intro t
    simp only [Live]
    constructor
    · rintro ⟨hn, he⟩
      exact ⟨⟨by omega, he⟩, hn⟩
    · rintro ⟨⟨-, he⟩, hn⟩
      exact ⟨hn, he⟩
  have hpeek : ∀ (st : Store Digest Session) (d : Digest) (e : Entry Session),
      peek (w.now+milliseconds) st d = some e ↔
        peek w.now st d = some e ∧ e.live (w.now+milliseconds) = true := by
    intro st d e
    rw [peek_eq_some, peek_eq_some]
    constructor
    · rintro ⟨he, hl⟩
      exact ⟨⟨he, live_antitone e (Nat.le_add_right _ _) hl⟩, hl⟩
    · rintro ⟨⟨he, -⟩, hl⟩
      exact ⟨he, hl⟩
  have hentry : ∀ t : Entitled,
      (⟨session t, some (t.expiry (lifetime settings))⟩ : Entry Session).live (w.now+milliseconds) =
        true ↔ m.now+milliseconds < t.expiry (lifetime settings) := by
    intro t
    simp [Entry.live, h.now]
  have lists : ∀ {M : Type} {t : Entitled} {x : M} {entry : Option (Entry (List M))},
      Leads settings m none t x entry →
      Leads settings { m with now := m.now+milliseconds } none t x entry := by
    rintro M t x entry ⟨xs, deadline, he, hx, hd⟩
    refine ⟨xs, deadline, he, hx, ?_⟩
    rcases hd with hd | ⟨hd, -⟩
    · exact Or.inl hd
    · cases hd
  constructor
  · simp only [passed, h.now]
  · intro t ht
    have := h.past t ht
    dsimp only
    omega
  · exact h.distinct
  · exact h.drawn
  · exact h.ended
  · intro d e
    refine (hpeek w.sessions.refresh d e).trans ?_
    rw [h.refresh]
    constructor
    · rintro ⟨⟨t, ht, hu, rfl, rfl⟩, hl⟩
      exact ⟨t, ht, ⟨hu.1, (hlive t).mpr ⟨hu.2, (hentry t).mp hl⟩⟩, rfl, rfl⟩
    · rintro ⟨t, ht, hu, rfl, rfl⟩
      obtain ⟨hl, hn⟩ := (hlive t).mp hu.2
      exact ⟨⟨t, ht, ⟨hu.1, hl⟩, rfl, rfl⟩, (hentry t).mpr hn⟩
  · intro d e
    refine (hpeek w.sessions.reuse d e).trans ?_
    rw [h.reuse]
    constructor
    · rintro ⟨⟨t, ht, hu, rfl, rfl⟩, hl⟩
      exact ⟨t, ht, ⟨hu.1, (hlive t).mpr ⟨hu.2, (hentry t).mp hl⟩⟩, rfl, rfl⟩
    · rintro ⟨t, ht, hu, rfl, rfl⟩
      obtain ⟨hl, hn⟩ := (hlive t).mp hu.2
      exact ⟨⟨t, ht, ⟨hu.1, hl⟩, rfl, rfl⟩, (hentry t).mpr hn⟩
  · exact fun t ht hl => lists (h.family t ht ((hlive t).mp hl).1)
  · exact fun t ht hl => lists (h.sessions t ht ((hlive t).mp hl).1)
  · exact h.members
  · exact h.listed
  · exact h.users

/-- Ending families that no live ticket is in changes nothing. -/
theorem refines_endUser {ended : List (UserId × FamilyId)} (user : UserId)
    (h : Refines lib settings none { m with ended := ended } w)
    (hsub : ∀ s ∈ m.ended, s ∈ ended) (hown : ∀ s ∈ ended, s ∈ m.ended ∨ s.1 = user)
    (hnone : ∀ t ∈ m.tickets, t.user = user →
      ¬ Live (lifetime settings) { m with ended := ended } t) :
    Refines lib settings none (m.endUser user) w := by
  have hlive : ∀ t ∈ m.tickets, (Live (lifetime settings) (m.endUser user) t ↔
      Live (lifetime settings) { m with ended := ended } t) := by
    intro t ht
    have hiff : m.now < t.expiry (lifetime settings) →
        (t.session ∈ (m.endUser user).ended ↔ t.session ∈ ended) := by
      intro hn
      simp only [Machine.endUser, List.mem_append, List.mem_map, List.mem_filter]
      constructor
      · rintro (⟨t', ⟨ht', hu'⟩, hs⟩ | hs)
        · by_contra hnot
          have huser : t.user = user := by
            have : t'.user = t.user := congrArg Prod.fst hs
            rw [← this]
            simpa using hu'
          exact hnone t ht huser ⟨hn, hnot⟩
        · exact hsub _ hs
      · intro hs
        rcases hown _ hs with hs | hs
        · exact Or.inr hs
        · exact Or.inl ⟨t, ⟨ht, by simpa [Ticket.session] using hs⟩, rfl⟩
    constructor
    · exact fun hl => ⟨hl.1, fun hs => hl.2 ((hiff hl.1).mpr hs)⟩
    · exact fun hl => ⟨hl.1, fun hs => hl.2 ((hiff hl.1).mp hs)⟩
  constructor
  · exact h.now
  · exact h.past
  · exact h.distinct
  · exact h.drawn
  · intro s hs
    rcases List.mem_append.mp hs with hs | hs
    · obtain ⟨t, ht, rfl⟩ := List.mem_map.mp hs
      exact (h.drawn t (List.mem_of_mem_filter ht)).2
    · exact h.ended s (hsub s hs)
  · intro d e
    refine (h.refresh d e).trans ⟨?_, ?_⟩
    · rintro ⟨t, ht, hu, hd, he⟩
      exact ⟨t, ht, ⟨hu.1, (hlive t ht).mpr hu.2⟩, hd, he⟩
    · rintro ⟨t, ht, hu, hd, he⟩
      exact ⟨t, ht, ⟨hu.1, (hlive t ht).mp hu.2⟩, hd, he⟩
  · intro d e
    refine (h.reuse d e).trans ⟨?_, ?_⟩
    · rintro ⟨t, ht, hu, hd, he⟩
      exact ⟨t, ht, ⟨hu.1, (hlive t ht).mpr hu.2⟩, hd, he⟩
    · rintro ⟨t, ht, hu, hd, he⟩
      exact ⟨t, ht, ⟨hu.1, (hlive t ht).mp hu.2⟩, hd, he⟩
  · exact fun t ht hl => h.family t ht ((hlive t ht).mp hl)
  · exact fun t ht hl => h.sessions t ht ((hlive t ht).mp hl)
  · exact h.members
  · exact h.listed
  · exact h.users

/-! ## Operations of the token service -/

abbrev Asked := Operation UserId Token

/-- The code behind an operation; time passes by itself. -/
def operate (lib : Libraries) (settings : Settings) : Asked → Act (Outcome Token)
  | .issue user => .issued <$> issueRefresh lib settings user none
  | .present token => (fun g => .exchanged g.refresh) <$> AuthService.refresh lib settings token
  | .logout token => do
    revokeRefresh lib token
    return .done
  | .logoutAll user => do
    revokeAll user
    return .done
  | .elapse _ => return .done

/-- A result as an outcome: a rejection is an `UnauthorizedError`. -/
def Heard (r : Except Failure (Outcome Token)) (o : Outcome Token) : Prop :=
  r = .ok o ∨ (o = .rejected ∧ ∃ message, r = .error (.unauthorized message))

def execute (lib : Libraries) (settings : Settings) (op : Asked) (w : World)
    (post : Outcome Token → World → Prop) : Prop :=
  match op with
  | .elapse milliseconds => post .done (passed (.elapse milliseconds) w)
  | op => Alone (perform lib) noFault (operate lib settings op) w
      (fun r w' => ∃ o, Heard r o ∧ post o w')

theorem execute_mono (op : Asked) (w : World) (post weaker : Outcome Token → World → Prop)
    (h : ∀ o w, post o w → weaker o w) (he : execute lib settings op w post) :
    execute lib settings op w weaker := by
  cases op with
  | elapse milliseconds => exact h _ _ he
  | _ =>
    refine alone_mono ?_ he
    rintro r w' ⟨o, ho, hp⟩
    exact ⟨o, ho, h o w' hp⟩

theorem exists_fresh (drawn : List String) : ∃ name, name ∉ drawn ∧ urlSafe name = true := by
  have hinj : Function.Injective (fun n : ℕ => String.ofList (List.replicate n 'a')) := by
    intro n m h
    have hlen := congrArg (fun s => s.toList.length) h
    simpa using hlen
  obtain ⟨name, ⟨n, rfl⟩, hname⟩ :=
    (Set.infinite_range_of_injective hinj).exists_notMem_finset drawn.toFinset
  exact ⟨_, by simpa using hname, by simp [urlSafe]⟩

theorem alone_tokenUrlsafe {post : Except Failure String → World → Prop}
    (h : ∀ name, name ∉ w.drawn → post (.ok name) { w with drawn := name :: w.drawn }) :
    Alone (perform lib) noFault tokenUrlsafe w post := by
  obtain ⟨name, hname', hsafe⟩ := exists_fresh w.drawn
  refine alone_invoke ⟨{ name := name }, (.ok name, { w with drawn := name :: w.drawn }), rfl, ?_⟩
    (fun x reply w' hx hp => ?_)
  · simp [perform, answer, hname', hsafe]
  · simp only [perform, Command.isLocal, Bool.true_eq_false, and_false, if_false, answer] at hp
    split at hp
    · cases hp
    · rename_i hn
      cases hp
      exact h x.name (fun hx => hn (Or.inl hx))

theorem alone_utcnow {post : Except Failure ℕ → World → Prop} (h : post (.ok w.now) w) :
    Alone (perform lib) noFault utcnow w post :=
  alone_answer (fun _ => rfl) h

theorem alone_requireUser {user : UserId} {post : Except Failure User → World → Prop}
    (hu : (w.database.users.find? (fun u => u.id = user)).isSome = true)
    (h : ∀ row : User, row.id = user → post (.ok row) w) :
    Alone (perform lib) noFault (requireUser user) w post := by
  obtain ⟨row, hrow⟩ := Option.isSome_iff_exists.mp hu
  have hid : row.id = user := by simpa using List.find?_some hrow
  have hc : ∀ x, answer lib x w (.database (.byId user)) = some (.ok (some row), w) := by
    intro x
    simp only [answer, DatabaseCall.perform, Option.map_some, hrow]
  exact alone_bind (alone_answer hc (h row hid))

/-- Issuing into a given session ends the exchange that made its lists due. -/
theorem alone_issueRefresh (h : Refines lib settings due m w) (s : Session)
    (hdue : ∀ p, due = some p → p = s) (hf : s.family ∈ w.drawn)
    (open' : (s.user, s.family) ∉ m.ended)
    (hu : (w.database.users.find? (fun u => u.id = s.user)).isSome = true) :
    Alone (perform lib) noFault (issueRefresh lib settings s.user (some s.family)) w
      (fun r w' => ∃ value, r = .ok value ∧ w'.database = w.database ∧
        Refines lib settings none (m.add ⟨value, s.user, s.family, m.now, none⟩) w') := by
  refine alone_bind (alone_tokenUrlsafe (fun value hv => alone_bind (alone_pure _ ?_)))
  refine alone_bind (alone_redis (alone_pure _ ⟨value, rfl, rfl, ?_⟩))
  exact refines_issue (refines_draw h value) value s hdue
    (fun t ht htok => hv (htok ▸ (h.drawn t ht).1)) List.mem_cons_self
    (List.mem_cons_of_mem _ hf) open' hu

theorem simulates_issue (h : Refines lib settings none m w) (user : UserId)
    (hu : (w.database.users.find? (fun u => u.id = user)).isSome = true) :
    Alone (perform lib) noFault (issueRefresh lib settings user none) w
      (fun r w' => ∃ n : Names FamilyId Token, r = .ok n.token ∧ w'.database = w.database ∧
        Refines lib settings none (m.add ⟨n.token, user, n.family, m.now, none⟩) w') := by
  refine alone_bind (alone_tokenUrlsafe (fun value hv => alone_bind (alone_tokenUrlsafe
    (fun family hfam => ?_))))
  refine alone_bind (alone_redis (alone_pure _ ⟨⟨value, family⟩, rfl, rfl, ?_⟩))
  refine refines_issue (refines_draw (refines_draw h value) family) value ⟨user, family⟩
    (fun p hp => by cases hp) (fun t ht htok => hv (htok ▸ (h.drawn t ht).1))
    (List.mem_cons_of_mem _ List.mem_cons_self) List.mem_cons_self (fun hs => hfam ?_) hu
  exact List.mem_cons_of_mem _ (h.ended _ hs)

theorem rotated_usable (h : Refines lib settings none m w) (t : Entitled) (ht : t ∈ m.tickets)
    (hu : Usable (lifetime settings) m t) :
    rotated w.now w.sessions (lib.digest t.token) (refreshTtl settings) =
      (.rotated (session t), { w.sessions with
        refresh := del w.sessions.refresh (lib.digest t.token)
        reuse := set w.sessions.reuse (lib.digest t.token) (session t)
          (ex w.now (refreshTtl settings)) }) := by
  simp only [rotated, (get_refresh h t.token (session t)).mpr ⟨t, ht, rfl, hu, rfl⟩]

theorem refresh_none (h : Refines lib settings none m w) (token : Token)
    (hn : ∀ t ∈ m.tickets, t.token = token → ¬ Usable (lifetime settings) m t) :
    get w.now w.sessions.refresh (lib.digest token) = none := by
  rcases hg : get w.now w.sessions.refresh (lib.digest token) with _ | s
  · rfl
  · obtain ⟨t, ht, htok, hu, -⟩ := (get_refresh h token s).mp hg
    exact absurd hu (hn t ht htok)

theorem reuse_none (h : Refines lib settings none m w) (token : Token)
    (hn : ∀ t ∈ m.tickets, t.token = token → ¬ Replayable (lifetime settings) m t) :
    get w.now w.sessions.reuse (lib.digest token) = none := by
  rcases hg : get w.now w.sessions.reuse (lib.digest token) with _ | s
  · rfl
  · obtain ⟨t, ht, htok, hu, -⟩ := (get_reuse h token s).mp hg
    exact absurd hu (hn t ht htok)

theorem simulates_exchange (h : Refines lib settings none m w) (t : Entitled)
    (ht : t ∈ m.tickets) (hu : Usable (lifetime settings) m t) :
    Alone (perform lib) noFault (AuthService.refresh lib settings t.token) w
      (fun r w' => ∃ g, r = .ok g ∧ w'.database = w.database ∧
        Refines lib settings none
          ((m.exchange t.token).add ⟨g.refresh, t.user, t.family, m.now, none⟩) w') := by
  refine alone_bind (alone_bind (alone_redis ?_))
  simp only [SessionCall.perform, rotated_usable h t ht hu]
  refine alone_pure _ (alone_bind (alone_requireUser (h.users t ht) (fun row hrow => ?_)))
  refine alone_bind (alone_bind (alone_utcnow (alone_pure _ ?_)))
  have hid : row.id = (session t).user := hrow
  rw [hid]
  refine alone_bind (alone_mono ?_ (alone_issueRefresh (refines_rotate h t ht hu) (session t)
    (fun p hp => (Option.some.inj hp).symm) (h.drawn t ht).2 hu.2.2 (h.users t ht)))
  rintro r w' ⟨value, rfl, hdb, hr⟩
  exact alone_pure _ ⟨_, rfl, hdb, hr⟩

theorem simulates_replay (h : Refines lib settings none m w) (t : Entitled)
    (ht : t ∈ m.tickets) (hr : Replayable (lifetime settings) m t) :
    Alone (perform lib) noFault (AuthService.refresh lib settings t.token) w
      (fun r w' => (∃ message, r = .error (.unauthorized message)) ∧ w'.database = w.database ∧
        Refines lib settings none (m.endFamily t.session) w') := by
  have hnone : get w.now w.sessions.refresh (lib.digest t.token) = none := by
    refine refresh_none h t.token (fun t' ht' htok hu => hr.1 ?_)
    rw [← h.distinct t' ht' t ht htok]
    exact hu.1
  have hsome := (get_reuse h t.token (session t)).mpr ⟨t, ht, rfl, hr, rfl⟩
  have hmem := mem_members h t ht hr.2
  refine alone_bind (alone_bind (alone_redis ?_))
  simp only [SessionCall.perform, rotated, hnone, hsome]
  refine alone_bind (alone_revokeFamily (alone_throw _ ⟨⟨_, rfl⟩, rfl, ?_⟩))
  have hsame : ∀ ds : List Digest, lib.digest t.token ∈ ds →
      delAll (del w.sessions.reuse (lib.digest t.token)) ds = delAll w.sessions.reuse ds := by
    intro ds hds
    funext k
    by_cases hk : k ∈ ds
    · simp [delAll, hk]
    · have hne : k ≠ lib.digest t.token := fun h => hk (h ▸ hds)
      simp [delAll, hk, del_ne _ _ hne]
  simp only [revoked, hsame _ hmem]
  exact refines_revoked h (session t) (h.drawn t ht).2

theorem simulates_rejection (h : Refines lib settings none m w) (token : Token)
    (hn : ∀ t ∈ m.tickets, t.token = token →
      ¬ Usable (lifetime settings) m t ∧ ¬ Replayable (lifetime settings) m t) :
    Alone (perform lib) noFault (AuthService.refresh lib settings token) w
      (fun r w' => (∃ message, r = .error (.unauthorized message)) ∧ w' = w) := by
  refine alone_bind (alone_bind (alone_redis ?_))
  simp only [SessionCall.perform, rotated, refresh_none h token (fun t ht htok => (hn t ht htok).1),
    reuse_none h token (fun t ht htok => (hn t ht htok).2)]
  exact alone_throw _ ⟨⟨_, rfl⟩, rfl⟩

theorem simulates_logout (h : Refines lib settings none m w) (token : Token) :
    Alone (perform lib) noFault (revokeRefresh lib token) w
      (fun r w' => r = .ok () ∧ w'.database = w.database ∧
        Refines lib settings none (logout (lifetime settings) m token).2 w') := by
  refine alone_bind (alone_redis ?_)
  by_cases hu : ∃ t ∈ m.tickets, t.token = token ∧ Usable (lifetime settings) m t
  · obtain ⟨t, ht, rfl, hu⟩ := hu
    simp only [SessionCall.perform, (get_refresh h t.token (session t)).mpr ⟨t, ht, rfl, hu, rfl⟩,
      logout_usable (find_of_mem m h.distinct t ht) hu]
    exact alone_revokeFamily ⟨rfl, rfl, refines_revoked h (session t) (h.drawn t ht).2⟩
  · have hnot : ∀ t ∈ m.tickets, t.token = token → ¬ Usable (lifetime settings) m t :=
      fun t ht htok hus => hu ⟨t, ht, htok, hus⟩
    have hfind : ∀ t, m.find token = some t → ¬ Usable (lifetime settings) m t := by
      intro t hf
      obtain ⟨ht, htok⟩ := find_eq_some m token t hf
      exact hnot t ht htok
    simp only [SessionCall.perform, refresh_none h token hnot, logout_other token hfind]
    exact alone_pure _ ⟨rfl, rfl, h⟩

theorem simulates_logoutAll (h : Refines lib settings none m w) (user : UserId) :
    Alone (perform lib) noFault (revokeAll user) w
      (fun r w' => r = .ok () ∧ w'.database = w.database ∧
        Refines lib settings none (m.endUser user) w') := by
  have hlisted : ∀ x ∈ members w.now w.sessions.sessions user, x ∈ w.drawn := by
    intro x hx
    rcases hg : get w.now w.sessions.sessions user with _ | xs
    · simp [members, hg] at hx
    · obtain ⟨e, he, -, rfl⟩ := (get_eq_some _ _ _ _).mp hg
      exact h.listed user e he x (by simpa [members, hg] using hx)
  refine alone_bind (alone_redis (alone_bind (alone_iterate (fun families hperm => ?_))))
  refine alone_bind (alone_mono ?_ (alone_forM _ (fun families w' =>
    w'.database = w.database ∧ (∀ x ∈ families, x ∈ w'.drawn) ∧
    ∃ ended, Refines lib settings none { m with ended := ended } w' ∧
      (∀ s ∈ m.ended, s ∈ ended) ∧ (∀ s ∈ ended, s ∈ m.ended ∨ s.1 = user) ∧
      ∀ t ∈ m.tickets, t.user = user → Live (lifetime settings) { m with ended := ended } t →
        t.family ∈ families) families w ?_ ?_))
  · rintro r w' ⟨rfl, hdb, -, ended, hr, hsub, hown, hnone⟩
    refine alone_redis ⟨rfl, hdb, ?_⟩
    have hdead : ∀ t ∈ m.tickets, t.user = user →
        ¬ Live (lifetime settings) { m with ended := ended } t :=
      fun t ht hu hl => List.not_mem_nil (hnone t ht hu hl)
    refine refines_endUser user ?_ hsub hown hdead
    refine { hr with sessions := ?_, listed := ?_ }
    · intro t ht hl
      obtain ⟨xs, deadline, he, hx⟩ := hr.sessions t ht hl
      exact ⟨xs, deadline, (del_ne _ _ (fun hu => hdead t ht hu hl)).trans he, hx⟩
    · exact fun u f hf => hr.listed u f ((del_eq_some _ _ _ _).mp hf).2
  · refine ⟨rfl, fun x hx => hlisted x (hperm.mem_iff.mp hx), m.ended, h, fun s hs => hs,
      fun s hs => Or.inl hs, ?_⟩
    rintro t ht rfl hl
    obtain ⟨xs, deadline, he, hx, hd⟩ := live_lists hl (h.sessions t ht hl)
    refine hperm.mem_iff.mpr ?_
    change t.family ∈ members w.now w.sessions.sessions t.user
    rw [members_of_live w.now w.sessions.sessions t.user _ he (by simp [Entry.live, h.now, hd])]
    exact hx
  · rintro family rest w' ⟨hdb, hdrawn, ended, hr, hsub, hown, hleft⟩
    refine alone_revokeFamily ⟨rfl, hdb, fun x hx => hdrawn x (List.mem_cons_of_mem _ hx),
      (user, family) :: ended, refines_revoked hr ⟨user, family⟩ (hdrawn family List.mem_cons_self),
      fun s hs => List.mem_cons_of_mem _ (hsub s hs), ?_, ?_⟩
    · intro s hs
      rcases List.mem_cons.mp hs with rfl | hs
      · exact Or.inr rfl
      · exact hown s hs
    · intro t ht hu hl
      obtain ⟨hl', hne⟩ := (live_endFamily (m := { m with ended := ended }) t ⟨user, family⟩).mp hl
      rcases List.mem_cons.mp (hleft t ht hu hl') with hf | hf
      · exact absurd (by simp only [session, hu, hf]) hne
      · exact hf

/-! ## Sequences -/

/-- A user of the database may log in; every other operation is open to anyone. -/
def registered (database : Database) : Asked → Prop
  | .issue user => (database.users.find? (fun u => u.id = user)).isSome = true
  | _ => True

def Represents (lib : Libraries) (settings : Settings) (database : Database) (m : Tickets)
    (w : World) : Prop :=
  Refines lib settings none m w ∧ w.database = database

theorem simulates_step (database : Database) (op : Asked) (m : Tickets) (w : World)
    (hv : registered database op) (h : Represents lib settings database m w) :
    execute lib settings op w (fun o w' => ∃ n, o = (step (lifetime settings) m op n).1 ∧
      Represents lib settings database (step (lifetime settings) m op n).2 w') := by
  obtain ⟨hr, rfl⟩ := h
  have none' : Names FamilyId Token := ⟨"", ""⟩
  cases op with
  | issue user =>
    refine alone_map (alone_mono ?_ (simulates_issue hr user hv))
    rintro r w' ⟨n, rfl, hdb, hr'⟩
    exact ⟨_, Or.inl rfl, n, rfl, hr', hdb⟩
  | present token =>
    by_cases hu : ∃ t ∈ m.tickets, t.token = token ∧ Usable (lifetime settings) m t
    · obtain ⟨t, ht, rfl, hu⟩ := hu
      refine alone_map (alone_mono ?_ (simulates_exchange hr t ht hu))
      rintro r w' ⟨g, rfl, hdb, hr'⟩
      refine ⟨_, Or.inl rfl, ⟨g.refresh, ""⟩, ?_⟩
      simp only [step, present_usable _ (find_of_mem m hr.distinct t ht) hu]
      exact ⟨trivial, hr', hdb⟩
    · by_cases hp : ∃ t ∈ m.tickets, t.token = token ∧ Replayable (lifetime settings) m t
      · obtain ⟨t, ht, rfl, hp⟩ := hp
        refine alone_map (alone_mono ?_ (simulates_replay hr t ht hp))
        rintro r w' ⟨⟨message, rfl⟩, hdb, hr'⟩
        refine ⟨_, Or.inr ⟨rfl, message, rfl⟩, none', ?_⟩
        simp only [step, present_replayable _ (find_of_mem m hr.distinct t ht) hp]
        exact ⟨trivial, hr', hdb⟩
      · have hneither : ∀ t ∈ m.tickets, t.token = token →
            ¬ Usable (lifetime settings) m t ∧ ¬ Replayable (lifetime settings) m t :=
          fun t ht htok => ⟨fun hus => hu ⟨t, ht, htok, hus⟩, fun hre => hp ⟨t, ht, htok, hre⟩⟩
        refine alone_map (alone_mono ?_ (simulates_rejection hr token hneither))
        rintro r w' ⟨⟨message, rfl⟩, rfl⟩
        refine ⟨_, Or.inr ⟨rfl, message, rfl⟩, none', ?_⟩
        have hfind : ∀ t, m.find token = some t →
            ¬ Usable (lifetime settings) m t ∧ ¬ Replayable (lifetime settings) m t := by
          intro t hf
          obtain ⟨ht, htok⟩ := find_eq_some m token t hf
          exact hneither t ht htok
        simp only [step, present_other _ _ hfind]
        exact ⟨trivial, hr, rfl⟩
  | logout token =>
    refine alone_bind (alone_mono ?_ (simulates_logout hr token))
    rintro r w' ⟨rfl, hdb, hr'⟩
    refine alone_pure _ ⟨.done, Or.inl rfl, none', ?_, hr', hdb⟩
    simp only [step, logout]
    split <;> first | rfl | (split <;> rfl)
  | logoutAll user =>
    refine alone_bind (alone_mono ?_ (simulates_logoutAll hr user))
    rintro r w' ⟨rfl, hdb, hr'⟩
    exact alone_pure _ ⟨.done, Or.inl rfl, none', rfl, hr', hdb⟩
  | elapse milliseconds => exact ⟨none', rfl, refines_elapse hr milliseconds, rfl⟩

theorem refines_start (now : ℕ) (database : Database) :
    Refines lib settings none (Machine.start now) (World.fresh now database) := by
  have hpeek : ∀ (d : Digest) (e : Entry Session),
      ¬ peek now (ExpiringStore.empty : Store Digest Session) d = some e := by
    intro d e
    simp [peek, ExpiringStore.empty]
  constructor
  · rfl
  · exact fun t ht => by cases ht
  · exact fun t ht => by cases ht
  · exact fun t ht => by cases ht
  · exact fun s hs => by cases hs
  · refine fun d e => ⟨fun h => absurd h (hpeek d e), ?_⟩
    rintro ⟨t, ht, -⟩
    cases ht
  · refine fun d e => ⟨fun h => absurd h (hpeek d e), ?_⟩
    rintro ⟨t, ht, -⟩
    cases ht
  · exact fun t ht => by cases ht
  · exact fun t ht => by cases ht
  · exact fun s f hf => by cases hf
  · exact fun u f hf => by cases hf
  · exact fun t ht => by cases ht

/-- Every sequence of operations has the outcomes of a run of the machine, which
the keys then represent. -/
theorem sessions_refine_machine (lib : Libraries) (settings : Settings) (now : ℕ)
    (database : Database) (ops : List Asked) (hops : ∀ op ∈ ops, registered database op) :
    Sequence (execute lib settings) ops (World.fresh now database) (fun outcomes w =>
      ∃ names, names.length = ops.length ∧
        outcomes = (trace (step (lifetime settings)) (Machine.start now) (ops.zip names)).1 ∧
        Represents lib settings database
          (trace (step (lifetime settings)) (Machine.start now) (ops.zip names)).2 w) :=
  sequence_simulates execute_mono (fun op m w hv h => simulates_step database op m w hv h) ops
    (Machine.start now) (World.fresh now database) hops ⟨refines_start now database, rfl⟩

theorem sessions_refine_machine_replay :
    Sequence (execute plainLibraries plainSettings)
      [.issue "user", .elapse 1000, .present "t", .present "t", .logoutAll "user"]
      (World.fresh 0 oneAccount) (fun outcomes w => ∃ names, names.length = 5 ∧
        outcomes = (trace (step (lifetime plainSettings)) (Machine.start 0)
          (List.zip [.issue "user", .elapse 1000, .present "t", .present "t", .logoutAll "user"]
            names)).1 ∧
        Represents plainLibraries plainSettings oneAccount (trace (step (lifetime plainSettings))
          (Machine.start 0)
          (List.zip [.issue "user", .elapse 1000, .present "t", .present "t", .logoutAll "user"]
            names)).2 w) :=
  sessions_refine_machine plainLibraries plainSettings 0 oneAccount
    [.issue "user", .elapse 1000, .present "t", .present "t", .logoutAll "user"]
    (by simp [registered, oneAccount])

end Gamely.SessionRefinement
