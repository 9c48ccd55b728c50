import Gamely.CodeBook
import Gamely.SessionRefinement

/-!
# Stored codes refine the book of codes

One string in Redis packs the digest of a code with the wrong codes counted so
far, and its TTL is read and written back on every wrong one. It is there with a
count below four exactly while the code of the book is usable.
-/

set_option autoImplicit false

namespace Gamely.CodeLifetime
open Gamely.Calls Gamely.Stores Gamely.EmailJobs Gamely.Services Gamely.AuthService
open Gamely.ExpiringStore Gamely.Sequential Gamely.CodeBook Gamely.SessionIndex
open Gamely.SessionRefinement Gamely.Requests

abbrev Codes := Book CodeKey String

abbrev tries : ℕ := 4

/-- The lifetime of a code in milliseconds. -/
def lifetime (settings : Settings) : ℕ := 60000*settings.authCodeMinutes

inductive Operation where
  | send (key : CodeKey)
  | consume (key : CodeKey) (code : String)
  | elapse (milliseconds : ℕ)
  deriving DecidableEq

inductive Outcome where
  | sent (r : Except Failure Unit)
  | consumed (accepted : Bool)
  | elapsed

def about (key : CodeKey) : Operation → Bool
  | .send k => k = key
  | .consume k _ => k = key
  | .elapse _ => true

/-- Each operation runs alone, at one instant, and no call of it fails. -/
def execute (lib : Libraries) (settings : Settings) (op : Operation) (w : World)
    (post : Outcome → World → Prop) : Prop :=
  match op with
  | .send key => Alone (perform lib) noFault (sendCode lib settings key.email key.purpose) w
      (fun r w' => post (.sent r) w')
  | .consume key code => Alone (perform lib) noFault (consumeCode lib key.email key.purpose code) w
      (fun r w' => ∃ accepted, r = .ok accepted ∧ post (.consumed accepted) w')
  | .elapse milliseconds => post .elapsed (passed (.elapse milliseconds) w)

def jobFields (key : CodeKey) (number : ℕ) (expiresAt : DateTimes.DateTime) : JobFields :=
  { recipient := key.email, template := key.purpose.text, code := sixDigits number,
    expiresAt := expiresAt }

/-- A code is issued unless the key is quiet, its lifetime passes the last date or the
address is none. -/
def send (settings : Settings) (key : CodeKey) (number : ℕ) (b : Codes) :
    Except Failure Unit × Codes :=
  if b.now < b.quiet key then
    (.error (.badRequest "Please wait before requesting another code."), b)
  else match later b.now settings.authCodeMinutes with
    | .error e => (.error e, b.hush key (b.now+60000))
    | .ok expiresAt => match EmailJob.make (jobFields key number expiresAt) with
      | .error e => (.error e, b.hush key b.now)
      | .ok _ => (.ok (),
          (b.hush key (b.now+60000)).issue (lifetime settings) key (sixDigits number))

def step (settings : Settings) (b : Codes) : Operation → ℕ → Outcome × Codes
  | .send key, number => (.sent (send settings key number b).1, (send settings key number b).2)
  | .consume key code, _ => (.consumed (b.accepts tries key code), b.present tries key code)
  | .elapse milliseconds, _ => (.elapsed, b.elapse milliseconds)

/-! ## What the keys hold -/

def entry (lib : Libraries) (i : Issue String) : Entry CodePayload :=
  ⟨⟨lib.sha256 i.code, i.wrong⟩, some i.deadline⟩

def sentTo (key : CodeKey) (job : EmailJob) : Bool :=
  job.fields.recipient = key.email && job.fields.template = key.purpose.text

/-- The latest job published for exactly this address and purpose. -/
def latestJob (key : CodeKey) (jobs : List EmailJob) : Option EmailJob :=
  (jobs.filter (sentTo key)).getLast?

/-- The entries a code is still accepted from, and the issues they stand for. -/
def Kept (lib : Libraries) (b : Codes) (w : World) (key : CodeKey) : Prop :=
  ∀ e, (peek w.now w.codes.code key = some e ∧ e.value.attempts < tries) ↔
    ∃ i, b.latest key = some i ∧ i.Usable tries b.now ∧ e = entry lib i

def Cooling (b : Codes) (w : World) (key : CodeKey) : Prop :=
  ∀ e, peek w.now w.codes.cooldown key = some e ↔
    b.now < b.quiet key ∧ e = ⟨(), some (b.quiet key)⟩

def Delivered (b : Codes) (w : World) (key : CodeKey) : Prop :=
  (latestJob key w.published).map (fun job => job.fields.code) = (b.latest key).map Issue.code

structure Represents (lib : Libraries) (b : Codes) (w : World) : Prop where
  now : w.now = b.now
  kept : ∀ key, Kept lib b w key
  cooling : ∀ key, Cooling b w key
  delivered : ∀ key, Delivered b w key

variable {lib : Libraries} {settings : Settings} {b : Codes} {w : World} {key : CodeKey}

/-! ## Stores over time -/

section Stores
variable {K V : Type}

theorem peek_later {now later : ℕ} (h : now ≤ later) (s : Store K V) (k : K) (e : Entry V) :
    peek later s k = some e ↔ peek now s k = some e ∧ e.live later = true := by
  rw [peek_eq_some, peek_eq_some]
  constructor
  · rintro ⟨hs, hl⟩
    exact ⟨⟨hs, live_antitone e h hl⟩, hl⟩
  · rintro ⟨⟨hs, -⟩, hl⟩
    exact ⟨hs, hl⟩

theorem peek_congr {now : ℕ} {s s' : Store K V} {k : K} (h : s' k = s k) :
    peek now s' k = peek now s k := by
  rw [peek, peek, h]

end Stores

theorem represents_start (now : ℕ) (database : Database) :
    Represents lib (Book.start now) (World.fresh now database) where
  now := rfl
  kept := by
    intro key e
    simp [World.fresh, Book.start, peek, ExpiringStore.empty]
  cooling := by
    intro key e
    simp [World.fresh, Book.start, peek, ExpiringStore.empty]
  delivered := fun key => rfl

theorem represents_elapse (h : Represents lib b w) (milliseconds : ℕ) :
    Represents lib (b.elapse milliseconds) (passed (.elapse milliseconds) w) where
  now := congrArg (·+milliseconds) h.now
  kept := by
    intro key e
    have hle : w.now ≤ w.now+milliseconds := Nat.le_add_right _ _
    have hpeek := peek_later hle w.codes.code key e
    simp only [passed, Book.elapse]
    rw [hpeek]
    constructor
    · rintro ⟨⟨hp, hl⟩, ha⟩
      obtain ⟨i, hi, hu, rfl⟩ := (h.kept key e).mp ⟨hp, ha⟩
      have hlt : w.now+milliseconds < i.deadline := by simpa [Entry.live, entry] using hl
      rw [h.now] at hlt
      exact ⟨i, hi, ⟨hu.1, hu.2.1, hlt⟩, rfl⟩
    · rintro ⟨i, hi, hu, rfl⟩
      have hbefore := usable_antitone (Nat.le_add_right b.now milliseconds) hu
      obtain ⟨hp, ha⟩ := (h.kept key _).mpr ⟨i, hi, hbefore, rfl⟩
      have hlt : w.now+milliseconds < i.deadline := h.now ▸ hu.2.2
      exact ⟨⟨hp, by simpa [Entry.live, entry] using hlt⟩, ha⟩
  cooling := by
    intro key e
    have hle : w.now ≤ w.now+milliseconds := Nat.le_add_right _ _
    have hpeek := peek_later hle w.codes.cooldown key e
    simp only [passed, Book.elapse]
    rw [hpeek, h.cooling key e, ← h.now]
    constructor
    · rintro ⟨⟨-, rfl⟩, hl⟩
      exact ⟨by simpa [Entry.live] using hl, rfl⟩
    · rintro ⟨hlt, rfl⟩
      exact ⟨⟨by omega, rfl⟩, by simpa [Entry.live] using hlt⟩
  delivered := h.delivered

/-! ## Presenting a code -/

/-- What happens to the stored code of one key leaves the others to the book. -/
theorem represents_present (h : Represents lib b w) (code : String)
    (s : Store CodeKey CodePayload) (hs : ∀ k, k ≠ key → s k = w.codes.code k)
    (hkept : Kept lib (b.present tries key code) { w with codes := ⟨s, w.codes.cooldown⟩ } key) :
    Represents lib (b.present tries key code) { w with codes := ⟨s, w.codes.cooldown⟩ } where
  now := h.now
  kept := by
    intro k
    by_cases hk : k = key
    · rw [hk]
      exact hkept
    · intro e
      rw [present_other _ _ _ _ hk, peek_congr (hs k hk)]
      exact h.kept k e
  cooling := h.cooling
  delivered := by
    intro k
    have hcode : ∀ i : Issue String, (i.presented tries b.now code).code = i.code := by
      intro i
      unfold Issue.presented
      split <;> rfl
    by_cases hk : k = key
    · have hd := h.delivered k
      rw [hk] at hd ⊢
      unfold Delivered at hd ⊢
      rw [hd]
      rw [present_self, Option.map_map]
      congr 1
      funext i
      exact (hcode i).symm
    · have hd := h.delivered k
      unfold Delivered at hd ⊢
      rw [hd]
      rw [present_other _ _ _ _ hk]

theorem kept_closed (h : ∀ i, b.latest key = some i → ¬ i.Usable tries b.now) (code : String)
    (hs : ∀ e, peek w.now w.codes.code key = some e → ¬ e.value.attempts < tries) :
    Kept lib (b.present tries key code) w key := by
  intro e
  constructor
  · rintro ⟨hp, ha⟩
    exact absurd ha (hs e hp)
  · rintro ⟨i', hi', hu, -⟩
    rw [present_self, Option.map_eq_some_iff] at hi'
    obtain ⟨i, hi, rfl⟩ := hi'
    exact absurd (presented_usable.mp hu).2.1 (h i hi)

theorem closed_of_kept (h : Kept lib b w key)
    (hs : ∀ e, peek w.now w.codes.code key = some e → ¬ e.value.attempts < tries) :
    ∀ i, b.latest key = some i → ¬ i.Usable tries b.now := by
  intro i hi hu
  obtain ⟨hp, ha⟩ := (h (entry lib i)).mpr ⟨i, hi, hu, rfl⟩
  exact hs _ hp ha

theorem ttl_usable {i : Issue String} (hnow : w.now = b.now) (hu : i.Usable tries b.now)
    (hp : peek w.now w.codes.code key = some (entry lib i)) :
    (max (ExpiringStore.ttl w.now w.codes.code key) 1).toNat = renewal (i.deadline-b.now) := by
  have hd := hu.2.2
  rw [hnow] at hp ⊢
  simp only [ExpiringStore.ttl, hp, entry, renewal]
  omega

/-! ## Operations -/

theorem alone_codes (c : CodeCall) {post : Except Failure c.Reply → World → Prop}
    (h : post (.ok (c.perform w.now w.codes).1) { w with codes := (c.perform w.now w.codes).2 }) :
    Alone (perform lib) noFault (codes c) w post :=
  alone_answer (fun _ => rfl) h

theorem kept_missed {i : Issue String} {code : String}
    (hi : b.latest key = some i) (hu : i.Usable tries b.now) (hne : code ≠ i.code)
    (hnow : w.now = b.now) :
    Kept lib (b.present tries key code)
      { w with codes := ⟨ExpiringStore.set w.codes.code key ⟨lib.sha256 i.code, i.wrong+1⟩
        (ex w.now (renewal (i.deadline-b.now))), w.codes.cooldown⟩ } key := by
  have hpresented : i.presented tries b.now code = i.missed tries b.now := if_neg hne
  have hentry : entry lib (i.missed tries b.now) =
      ⟨⟨lib.sha256 i.code, i.wrong+1⟩, ex w.now (renewal (i.deadline-b.now))⟩ := by
    simp only [entry, Issue.missed, if_pos hu, ex, hnow]
  have hlt := lt_renewed b.now (i.deadline-b.now)
  intro e
  rw [present_self, hi, Option.map_some, hpresented]
  dsimp only
  constructor
  · rintro ⟨hp, ha⟩
    obtain ⟨hs, -⟩ := (peek_eq_some _ _ _ _).mp hp
    rw [set_self, Option.some.injEq] at hs
    subst hs
    exact ⟨_, rfl, missed_usable.mpr ⟨hu, ha⟩, hentry.symm⟩
  · rintro ⟨i', hi', hu', rfl⟩
    cases hi'
    rw [hentry]
    constructor
    · rw [peek_eq_some, set_self]
      exact ⟨rfl, by simpa [Entry.live, ex, hnow] using hlt⟩
    · exact (missed_usable.mp hu').2

theorem simulates_consume (hsha : Function.Injective lib.sha256) (h : Represents lib b w)
    (key : CodeKey) (code : String) :
    Alone (perform lib) noFault (consumeCode lib key.email key.purpose code) w (fun r w' =>
      r = .ok (b.accepts tries key code) ∧ Represents lib (b.present tries key code) w') := by
  have hkey : (⟨key.email, key.purpose⟩ : CodeKey) = key := rfl
  apply alone_bind
  apply alone_codes
  simp only [CodeCall.perform, hkey]
  cases hp : peek w.now w.codes.code key with
  | none =>
    have hget : get w.now w.codes.code key = none := by rw [ExpiringStore.get, hp, Option.map_none]
    have hnone : ∀ e, peek w.now w.codes.code key = some e → ¬ e.value.attempts < tries := by
      intro e he
      rw [hp] at he
      cases he
    have hclosed := closed_of_kept (h.kept key) hnone
    rw [hget]
    apply alone_pure
    rw [accepts_closed hclosed]
    exact ⟨rfl, represents_present h code w.codes.code (fun _ _ => rfl)
      (kept_closed hclosed code hnone)⟩
  | some e =>
    have hget : get w.now w.codes.code key = some e.value := by
      rw [ExpiringStore.get, hp, Option.map_some]
    rw [hget]
    dsimp only
    split
    case isTrue hmany =>
      -- Locked out: the entry goes, and the book has no usable code for it.
      have hfull : ∀ e', peek w.now w.codes.code key = some e' → ¬ e'.value.attempts < tries := by
        intro e' he'
        rw [hp] at he'
        cases he'
        exact Nat.not_lt.mpr hmany
      have hclosed := closed_of_kept (h.kept key) hfull
      apply alone_bind
      apply alone_codes
      apply alone_pure
      rw [accepts_closed hclosed]
      refine ⟨rfl, represents_present h code _ (fun k hk => del_ne _ _ hk) ?_⟩
      apply kept_closed hclosed code
      intro e' he'
      simp [peek] at he'
    case isFalse hfew =>
      obtain ⟨i, hi, hu, rfl⟩ := (h.kept key e).mp ⟨hp, Nat.not_le.mp hfew⟩
      split
      case isTrue hdigest =>
        have hne : code ≠ i.code := by
          intro hc
          exact hdigest (congrArg lib.sha256 hc.symm)
        apply alone_bind
        apply alone_codes
        apply alone_bind
        apply alone_codes
        apply alone_pure
        rw [accepts_eq hi, decide_eq_false (fun hc => hne hc.1)]
        refine ⟨rfl, ?_⟩
        simp only [CodeCall.perform, hkey, ttl_usable h.now hu hp]
        exact represents_present h code _ (fun k hk => set_ne _ _ _ _ hk)
          (kept_missed hi hu hne h.now)
      case isFalse hdigest =>
        have hc : code = i.code := (hsha (not_not.mp hdigest)).symm
        apply alone_bind
        apply alone_codes
        apply alone_pure
        rw [accepts_eq hi, decide_eq_true ⟨hc, hu⟩]
        refine ⟨rfl, represents_present h code _ (fun k hk => del_ne _ _ hk) ?_⟩
        intro e
        constructor
        · rintro ⟨hp', -⟩
          simp [peek] at hp'
        · rintro ⟨i', hi', hu', -⟩
          rw [present_self, hi, Option.map_some] at hi'
          cases hi'
          exact absurd hc (presented_usable.mp hu').1

/-! ## Sending a code -/

theorem alone_randbelow {post : Except Failure ℕ → World → Prop}
    (h : ∀ n, n < 1000000 → post (.ok n) w) :
    Alone (perform lib) noFault (invoke (Command.randbelow 1000000)) w post := by
  apply alone_invoke
  · exact ⟨{}, (.ok 0, w), rfl, by simp [perform, answer, Command.isLocal]⟩
  · intro x reply w' hx hp
    simp only [perform, Command.isLocal, Bool.true_eq_false, and_false, if_false, answer] at hp
    split at hp
    case isTrue hn =>
      cases hp
      exact h x.number hn
    case isFalse => cases hp

theorem alone_publish (job : EmailJob) {post : Except Failure Unit → World → Prop}
    (h : post (.ok ()) { w with published := w.published ++ [job] }) :
    Alone (perform lib) noFault (invoke (Command.publish job)) w post :=
  alone_answer (fun _ => rfl) h

theorem sentTo_iff {key k : CodeKey} {number : ℕ} {expiresAt : DateTimes.DateTime} {job : EmailJob}
    (h : job.fields = jobFields key number expiresAt) : sentTo k job = true ↔ k = key := by
  have htext : key.purpose.text = k.purpose.text ↔ key.purpose = k.purpose := by
    cases key.purpose <;> cases k.purpose <;> decide
  have hto : sentTo k job = true ↔ key.email = k.email ∧ key.purpose = k.purpose := by
    unfold sentTo
    rw [h, Bool.and_eq_true, decide_eq_true_eq, decide_eq_true_eq, ← htext]
    exact Iff.rfl
  rw [hto]
  constructor
  · rintro ⟨he, hp⟩
    cases k
    cases key
    cases he
    cases hp
    rfl
  · rintro rfl
    exact ⟨rfl, rfl⟩

/-- An address that was sent a job once can be sent another. -/
theorem deliverable (h : Delivered b w key) {i : Issue String} (hi : b.latest key = some i)
    {number : ℕ} (hn : number < 1000000) {expiresAt : DateTimes.DateTime} {minutes now : ℕ}
    (ht : later now minutes = .ok expiresAt) :
    postInit (jobFields key number expiresAt) = .ok () := by
  unfold Delivered at h
  rw [hi, Option.map_some, Option.map_eq_some_iff] at h
  obtain ⟨job, hjob, -⟩ := h
  have hmem : job ∈ w.published.filter (sentTo key) := List.mem_of_getLast? hjob
  have hto : sentTo key job = true := (List.mem_filter.mp hmem).2
  simp only [sentTo, Bool.and_eq_true, decide_eq_true_eq] at hto
  have haddress := ((postInit_ok _).mp job.valid).1
  rw [hto.1] at haddress
  exact postInit_drawn key.purpose haddress hn ht

theorem represents_hush (h : Represents lib b w) (till : ℕ) (c : CodeStore)
    (hcode : ∀ k, Kept lib b { w with codes := c } k)
    (hother : ∀ k, k ≠ key → c.cooldown k = w.codes.cooldown k)
    (hkey : ∀ e, peek w.now c.cooldown key = some e ↔ b.now < till ∧ e = ⟨(), some till⟩) :
    Represents lib (b.hush key till) { w with codes := c } where
  now := h.now
  kept := hcode
  cooling := by
    intro k e
    by_cases hk : k = key
    · rw [hk, hush_self]
      exact hkey e
    · rw [hush_other _ _ _ hk, peek_congr (hother k hk)]
      exact h.cooling k e
  delivered := h.delivered

def cooled (now : ℕ) (key : CodeKey) (s : CodeStore) : CodeStore :=
  ⟨s.code, ExpiringStore.set s.cooldown key () (ex now 60)⟩

def coded (lib : Libraries) (settings : Settings) (now : ℕ) (key : CodeKey) (number : ℕ)
    (s : CodeStore) : CodeStore where
  code := ExpiringStore.set s.code key ⟨lib.sha256 (sixDigits number), 0⟩
    (ex now (60*settings.authCodeMinutes))
  cooldown := s.cooldown

theorem represents_cooled (h : Represents lib b w) (key : CodeKey) :
    Represents lib (b.hush key (b.now+60000))
      { w with codes := cooled w.now key w.codes } := by
  apply represents_hush h
  · exact h.kept
  · intro k hk
    exact set_ne _ _ _ _ hk
  · intro e
    have hlt : w.now < w.now+1000*60 := by omega
    simp only [cooled, ex]
    rw [peek_set _ _ _ _ _ _ hlt, ← h.now]
    constructor
    · rintro (⟨-, rfl⟩ | ⟨hne, -⟩)
      · exact ⟨hlt, rfl⟩
      · exact absurd rfl hne
    · rintro ⟨-, rfl⟩
      exact Or.inl ⟨rfl, rfl⟩

theorem represents_undone (h : Represents lib b w) (hnone : b.latest key = none)
    (s : Store CodeKey CodePayload) (t : Store CodeKey Unit)
    (hs : ∀ k, k ≠ key → s k = w.codes.code k)
    (ht : ∀ k, k ≠ key → t k = w.codes.cooldown k) :
    Represents lib (b.hush key b.now) { w with codes := ⟨del s key, del t key⟩ } := by
  apply represents_hush h
  · intro k e
    by_cases hk : k = key
    · rw [hk]
      constructor
      · rintro ⟨hp, -⟩
        simp [peek] at hp
      · rintro ⟨i, hi, -⟩
        rw [hnone] at hi
        cases hi
    · have hsame : del s key k = w.codes.code k := (del_ne _ _ hk).trans (hs k hk)
      rw [peek_congr hsame]
      exact h.kept k e
  · intro k hk
    exact (del_ne _ _ hk).trans (ht k hk)
  · intro e
    simp [peek]

theorem represents_issue (h : Represents lib b w) (number : ℕ) {expiresAt : DateTimes.DateTime}
    {job : EmailJob} (hjob : job.fields = jobFields key number expiresAt) :
    Represents lib (b.issue (lifetime settings) key (sixDigits number))
      { w with
        codes := coded lib settings w.now key number w.codes
        published := w.published ++ [job] } where
  now := h.now
  kept := by
    intro k e
    have hpos := settings.authCodeMinutes_pos
    have hlt : w.now < w.now+1000*(60*settings.authCodeMinutes) := by omega
    have hdeadline : w.now+1000*(60*settings.authCodeMinutes) = b.now+lifetime settings := by
      rw [h.now, lifetime]
      omega
    simp only [coded, ex]
    rw [peek_set _ _ _ _ _ _ hlt]
    by_cases hk : k = key
    · subst hk
      rw [issue_self, hdeadline]
      constructor
      · rintro ⟨⟨-, rfl⟩ | ⟨hne, -⟩, -⟩
        · have hopen : b.now < b.now+lifetime settings := by rwa [← hdeadline, ← h.now]
          exact ⟨_, rfl, ⟨rfl, Nat.zero_lt_succ 3, hopen⟩, rfl⟩
        · exact absurd rfl hne
      · rintro ⟨i, hi, -, rfl⟩
        obtain rfl := Option.some.inj hi
        exact ⟨Or.inl ⟨rfl, rfl⟩, Nat.zero_lt_succ 3⟩
    · rw [issue_other _ _ _ _ hk]
      have hrest := h.kept k e
      constructor
      · rintro ⟨⟨rfl, -⟩ | ⟨-, hp⟩, ha⟩
        · exact absurd rfl hk
        · exact hrest.mp ⟨hp, ha⟩
      · intro hi
        exact ⟨Or.inr ⟨hk, (hrest.mpr hi).1⟩, (hrest.mpr hi).2⟩
  cooling := h.cooling
  delivered := by
    intro k
    unfold Delivered latestJob
    simp only [List.filter_append]
    by_cases hk : k = key
    · have hto : sentTo k job = true := (sentTo_iff hjob).mpr hk
      rw [List.filter_cons_of_pos hto, List.filter_nil, List.getLast?_concat, Option.map_some,
        hjob, hk, issue_self]
      rfl
    · have hto : ¬ sentTo k job = true := fun ht => hk ((sentTo_iff hjob).mp ht)
      rw [List.filter_cons_of_neg hto, List.filter_nil, List.append_nil, issue_other _ _ _ _ hk]
      exact h.delivered k

theorem simulates_send (h : Represents lib b w) (key : CodeKey) :
    Alone (perform lib) noFault (sendCode lib settings key.email key.purpose) w (fun r w' =>
      ∃ number, r = (send settings key number b).1 ∧
        Represents lib (send settings key number b).2 w') := by
  have hkey : (⟨key.email, key.purpose⟩ : CodeKey) = key := rfl
  have hcooling := h.cooling key
  unfold send
  apply alone_bind
  apply alone_codes
  simp only [CodeCall.perform, hkey]
  cases hp : peek w.now w.codes.cooldown key with
  | some e =>
    have hget : get w.now w.codes.cooldown key = some () := by
      rw [ExpiringStore.get, hp, Option.map_some]
    have hquiet := ((hcooling e).mp hp).1
    rw [hget]
    apply alone_throw
    exact ⟨0, by rw [if_pos hquiet], by rw [if_pos hquiet]; exact h⟩
  | none =>
    have hget : get w.now w.codes.cooldown key = none := by
      rw [ExpiringStore.get, hp, Option.map_none]
    have hquiet : ¬ b.now < b.quiet key := by
      intro hlt
      have hsome := (hcooling ⟨(), some (b.quiet key)⟩).mpr ⟨hlt, rfl⟩
      rw [hp] at hsome
      cases hsome
    simp only [hget, if_neg hquiet]
    have hcool := represents_cooled h key
    apply alone_bind
    apply alone_map
    apply alone_randbelow
    intro number hn
    apply alone_bind
    apply alone_utcnow
    apply alone_bind
    apply alone_ofResult
    have hlater : later w.now settings.authCodeMinutes = later b.now settings.authCodeMinutes :=
      congrArg (later · settings.authCodeMinutes) h.now
    dsimp only
    rw [hlater]
    cases ht : later b.now settings.authCodeMinutes with
    | error e => exact ⟨number, rfl, hcool⟩
    | ok expiresAt =>
      apply alone_tryCatch
      apply alone_bind
      apply alone_codes
      apply alone_bind
      apply alone_ofResult
      have hfields : (⟨key.email, key.purpose.text, sixDigits number, expiresAt, 0, ""⟩ :
          JobFields) = jobFields key number expiresAt := rfl
      rw [hfields]
      dsimp only
      cases hmake : EmailJob.make (jobFields key number expiresAt) with
      | error e =>
        -- No code of this key was ever published: the address is none.
        have hnone : b.latest key = none := by
          cases hl : b.latest key with
          | none => rfl
          | some i =>
            have hvalid := deliverable (h.delivered key) hl hn ht
            rw [make_valid hvalid] at hmake
            cases hmake
        apply alone_bind
        apply alone_codes
        apply alone_throw
        refine ⟨number, by rw [hmake], ?_⟩
        rw [hmake]
        exact represents_undone h hnone _ _ (fun k hk => set_ne _ _ _ _ hk)
          (fun k hk => set_ne _ _ _ _ hk)
      | ok job =>
        apply alone_publish
        refine ⟨number, by rw [hmake], ?_⟩
        rw [hmake]
        exact represents_issue hcool number (make_fields hmake)

/-! ## Every run -/

/-- The deadline is the lifetime after the issue until a wrong code, and near it after any. -/
def OnTime (settings : Settings) (i : Issue String) : Prop :=
  (i.wrong = 0 → i.deadline = i.issued+lifetime settings) ∧
    i.issued+lifetime settings < i.deadline+2000 ∧
    i.deadline < i.issued+lifetime settings+4000

theorem onTime_of_punctual {i : Issue String} (h : i.Punctual (lifetime settings) tries) :
    OnTime settings i := by
  unfold Issue.Punctual tries at h
  unfold OnTime
  omega

theorem execute_mono (op : Operation) (w : World) (post weaker : Outcome → World → Prop)
    (h : ∀ o w, post o w → weaker o w) (he : execute lib settings op w post) :
    execute lib settings op w weaker := by
  cases op with
  | send key => exact alone_mono (fun r w' => h (.sent r) w') he
  | consume key code =>
    apply alone_mono _ he
    rintro r w' ⟨accepted, hr, hp⟩
    exact ⟨accepted, hr, h _ w' hp⟩
  | elapse milliseconds => exact h _ _ he

theorem simulates_step (hsha : Function.Injective lib.sha256) (op : Operation) (b : Codes)
    (w : World) (h : Represents lib b w) :
    execute lib settings op w (fun o w' => ∃ number, o = (step settings b op number).1 ∧
      Represents lib (step settings b op number).2 w') := by
  cases op with
  | send key =>
    apply alone_mono _ (simulates_send h key)
    rintro r w' ⟨number, rfl, hrep⟩
    exact ⟨number, rfl, hrep⟩
  | consume key code =>
    apply alone_mono _ (simulates_consume hsha h key code)
    rintro r w' ⟨rfl, hrep⟩
    exact ⟨_, rfl, 0, rfl, hrep⟩
  | elapse milliseconds => exact ⟨0, rfl, represents_elapse h milliseconds⟩

theorem punctual_send (key : CodeKey) (number : ℕ) (h : b.Punctual (lifetime settings) tries) :
    (send settings key number b).2.Punctual (lifetime settings) tries := by
  unfold send
  split
  · exact h
  · split
    · exact h
    · split
      · exact h
      · exact punctual_issue h

theorem punctual_step (op : Operation) (number : ℕ) (h : b.Punctual (lifetime settings) tries) :
    (step settings b op number).2.Punctual (lifetime settings) tries := by
  cases op with
  | send key => exact punctual_send key number h
  | consume key code => exact punctual_present h
  | elapse milliseconds => exact h

theorem punctual_trace (xs : List (Operation × ℕ)) (h : b.Punctual (lifetime settings) tries) :
    (trace (step settings) b xs).2.Punctual (lifetime settings) tries := by
  induction xs generalizing b with
  | nil => exact h
  | cons x xs ih => exact ih (punctual_step x.1 x.2 h)

theorem page_other (op : Operation) (number : ℕ) (b : Codes) (h : about key op = false) :
    (step settings b op number).2.page key = b.page key := by
  cases op with
  | send k =>
    have hk : key ≠ k := by
      rintro rfl
      simp [about] at h
    simp only [step, send]
    split
    · rfl
    · split
      · exact page_hush_other _ hk
      · split
        · exact page_hush_other _ hk
        · exact (page_issue_other _ _ hk).trans (page_hush_other _ hk)
  | consume k code =>
    have hk : key ≠ k := by
      rintro rfl
      simp [about] at h
    exact page_present_other _ _ hk
  | elapse milliseconds => cases h

theorem page_shown (op : Operation) (number : ℕ) (b b' : Codes) (ha : about key op = true)
    (h : b.page key = b'.page key) :
    (step settings b op number).1 = (step settings b' op number).1 ∧
      (step settings b op number).2.page key = (step settings b' op number).2.page key := by
  cases op with
  | send k =>
    have hk : k = key := of_decide_eq_true ha
    subst hk
    obtain ⟨hn, -, hq⟩ := page_eq.mp h
    simp only [step, send, hn, hq]
    split
    · exact ⟨rfl, h⟩
    · split
      · exact ⟨rfl, page_hush _ h⟩
      · split
        · exact ⟨rfl, page_hush _ h⟩
        · exact ⟨rfl, page_issue _ _ (page_hush _ h)⟩
  | consume k code =>
    have hk : k = key := of_decide_eq_true ha
    subst hk
    obtain ⟨haccepts, hpage⟩ := page_present tries code h
    exact ⟨congrArg Outcome.consumed haccepts, hpage⟩
  | elapse milliseconds => exact ⟨rfl, page_elapse milliseconds h⟩

/-- What a run of operations with the numbers drawn in each leaves in the book. -/
abbrev bookRun (settings : Settings) (now : ℕ) (ops : List Operation) (numbers : List ℕ) :
    List Outcome × Codes :=
  trace (step settings) (Book.start now) (ops.zip numbers)

/-- Every sequence of operations has the outcomes of a run of the book of codes, which the
keys and the published jobs then represent; no deadline has moved far, and the outcomes on
one key are those of the run without the operations on other keys. -/
theorem codes_refine_book (lib : Libraries) (settings : Settings)
    (hsha : Function.Injective lib.sha256) (now : ℕ) (database : Database)
    (ops : List Operation) :
    Sequence (execute lib settings) ops (World.fresh now database) (fun outcomes w =>
      ∃ numbers, numbers.length = ops.length ∧
        outcomes = (bookRun settings now ops numbers).1 ∧
        Represents lib (bookRun settings now ops numbers).2 w ∧
        (∀ key i, (bookRun settings now ops numbers).2.latest key = some i → OnTime settings i) ∧
        ∀ key, (((ops.zip numbers).zip outcomes).filter (fun x => about key x.1.1)).map Prod.snd =
          (trace (step settings) (Book.start now)
            ((ops.zip numbers).filter (fun x => about key x.1))).1) := by
  apply sequence_mono execute_mono _ (sequence_simulates execute_mono
    (fun op b w (_ : True) h => simulates_step hsha op b w h) ops (Book.start now)
    (World.fresh now database) (fun _ _ => trivial) (represents_start now database))
  rintro outcomes w ⟨numbers, hlength, rfl, hrep⟩
  have hpunctual : (bookRun settings now ops numbers).2.Punctual (lifetime settings) tries :=
    punctual_trace _ (punctual_start now)
  refine ⟨numbers, hlength, rfl, hrep, ?_, ?_⟩
  · intro key i hi
    exact onTime_of_punctual (hpunctual key i hi)
  · intro key
    exact (trace_filter (Book.page key) page_other page_shown _ _ _ rfl).1

/-- A wrong code 14 minutes in, another key, and the right code in time. -/
def sampleOps : List Operation :=
  [.send ⟨"a@b", .verify⟩, .elapse 840000, .consume ⟨"a@b", .verify⟩ "none",
    .send ⟨"a@b", .reset⟩, .elapse 59000, .consume ⟨"a@b", .verify⟩ "000000"]

theorem codes_refine_book_sample :
    Sequence (execute plainLibraries plainSettings) sampleOps (World.fresh 0 oneAccount)
      (fun outcomes w => ∃ numbers, numbers.length = sampleOps.length ∧
        outcomes = (bookRun plainSettings 0 sampleOps numbers).1 ∧
        Represents plainLibraries (bookRun plainSettings 0 sampleOps numbers).2 w ∧
        (∀ key i, (bookRun plainSettings 0 sampleOps numbers).2.latest key = some i →
          OnTime plainSettings i) ∧
        ∀ key, (((sampleOps.zip numbers).zip outcomes).filter
            (fun x => about key x.1.1)).map Prod.snd =
          (trace (step plainSettings) (Book.start 0)
            ((sampleOps.zip numbers).filter (fun x => about key x.1))).1) :=
  codes_refine_book plainLibraries plainSettings Function.injective_id 0 oneAccount sampleOps

end Gamely.CodeLifetime
