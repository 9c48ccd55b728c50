import Gamely.FilterTrust
import Gamely.Replays

/-!
# What requests are told by the filter

A lookup answers a miss only when its membership test excluded the address under
the marker it had read before. Signup and the availability endpoint go by that
answer, and by the database after a hit.
-/

set_option autoImplicit false

namespace Gamely.FilterLookups
open Gamely.Calls Gamely.Stores Gamely.EmailJobs Gamely.Services Gamely.TokenService
open Gamely.EmailFilter Gamely.AuthService Gamely.Requests Gamely.Interleaving Gamely.Pasts
open Gamely.Replays Gamely.FilterContract Gamely.FilterMoves

variable (lib : Libraries) (settings : Settings)

/-- In entries from `start` on the thread ran a part of its request, on the filter of
its replica, which returned the value. -/
def Told {A : Type} (part : FilterSettings → Act A) (h : Past) (start i : ℕ) (a : A) : Prop :=
  ∃ f es, es <:+: calls (h.drop start) i ∧ (∀ e ∈ es, filterOf e.request = some f) ∧
    Returns (part f) (es.map Step.of) (.ok a)

/-- Whoever looks the address up from entry `start` on is told that it is taken. -/
structure Seen (s : Service) (start : ℕ) (a : Email) : Prop where
  mightExist : ∀ i hit, Told (fun f => mightExist f a) s.history start i hit → hit = true
  emailTaken : ∀ i taken, Told (fun f => emailTaken f a) s.history start i taken → taken = true
  isAvailable : ∀ i value client free, normalizeEmail lib value = .ok a →
    Told (fun f => isAvailable lib settings f value client) s.history start i free → free = false
  answered : ∀ i f value client free, normalizeEmail lib value = .ok a →
    (∀ e ∈ s.history.take start, e.thread ≠ i) →
    returned s i = some (.emailAvailable f value client, .available free) → free = false

def deniedAt (h : Past) (n : ℕ) : Option (ℕ × Email) :=
  match h[n]? with
  | some e => (denial e.request (ghost (contract lib) (h.take n) e.thread) e.command e.reply).map
      (fun a => (e.thread, a))
  | none => none

def asks (c : Command) (reply : Except Failure (Reply c)) : Bool :=
  match c, reply with
  | .filter .getMarker, .ok _ => true
  | _, _ => false

def asked (h : Past) (i : ℕ) : Bool := h.any (fun e => e.thread = i && asks e.command e.reply)

/-- The address the database has no account of. -/
def missing (c : Command) (reply : Except Failure (Reply c)) : Option Email :=
  match c, reply with
  | .database (.byEmail email), .ok none => some email
  | _, _ => none

variable {lib settings} {h : Past} {start i : ℕ} {a : Email}
variable {es : List (Step Command Reply Failure)}

/-! ## One lookup -/

theorem returns_mightExist {f : FilterSettings}
    (hr : Returns (mightExist f a) es (.ok false)) :
    es = [⟨.filter .getMarker, .ok (some f.params.fingerprint)⟩,
      ⟨.filter (.exists a), .ok false⟩] := by
  unfold mightExist at hr
  split at hr
  case isTrue => cases hr.2
  case isFalse =>
    rcases (returns_tryCatch _ _ _).mp hr with ⟨hit, hbody, hhit⟩ | ⟨_, _, _, -, -, -, hh⟩
    · clear hr
      cases hhit
      obtain ⟨marker, rest, rfl, hlook⟩ := hbody
      cases marker with
      | error e => cases hlook.2
      | ok marker =>
        obtain ⟨found, rest, rfl, hend⟩ := hlook
        cases found with
        | error e => cases hend.2
        | ok found =>
          obtain ⟨rfl, hfound⟩ := hend
          have hhit : (if marker ≠ some f.params.fingerprint then none else some found).getD true =
              false := (Except.ok.inj hfound).symm
          by_cases hm : marker = some f.params.fingerprint
          · rw [if_neg (not_not.mpr hm)] at hhit
            rw [hm, show found = false from hhit]
          · rw [if_pos hm] at hhit
            cases hhit
    · cases hh

variable (lib) in
/-- A lookup that was told a miss has excluded the address under a marker it had read. -/
theorem denied_of_told (ht : Told (fun f => mightExist f a) h start i false) :
    ∃ n, start ≤ n ∧ deniedAt lib h n = some (i, a) ∧
      asked ((h.take n).drop start) i = true := by
  obtain ⟨f, es, ⟨before, after, hes⟩, hf, hr⟩ := ht
  obtain ⟨ask, rest, rfl, hask, hrest⟩ := List.map_eq_cons_iff.mp (returns_mightExist hr)
  obtain ⟨look, rest, rfl, hlook, hrest⟩ := List.map_eq_cons_iff.mp hrest
  obtain rfl := List.map_eq_nil_iff.mp hrest
  have hcalls : calls (h.drop start) i = (before ++ [ask]) ++ look :: after := by
    rw [← hes]
    simp
  obtain ⟨n, hn, hi, hbefore⟩ := calls_split hcalls
  rw [List.getElem?_drop] at hn
  have htake : (h.take (start+n)).drop start = (h.drop start).take n := by
    rw [List.drop_take, Nat.add_sub_cancel_left]
  have hlast : calls (h.take (start+n)) i = calls (h.take start) i ++ before ++ [ask] := by
    have hsplit : h.take (start+n) = h.take start ++ (h.drop start).take n := List.take_add
    rw [hsplit, calls, List.filter_append, List.append_assoc, ← hbefore]
    rfl
  have hmem : ask ∈ calls ((h.drop start).take n) i := by
    rw [hbefore]
    exact List.mem_append_right _ (List.mem_singleton.mpr rfl)
  obtain ⟨hin, hthread⟩ := List.mem_filter.mp hmem
  refine ⟨start+n, Nat.le_add_right _ _, ?_, ?_⟩
  · have hvouch : filterOf look.request = some f := hf look (by simp)
    obtain ⟨g, hg⟩ := @ghost_last _ _ _ _ _ _ (contract lib) _ _ _ _ hlast
    obtain ⟨j, q, c, reply⟩ := ask
    obtain ⟨k, q', c', reply'⟩ := look
    cases hask
    cases hlook
    obtain rfl : k = i := hi
    have hmarker : (ghost (contract lib) (h.take (start+n)) k).marker =
        some f.params.fingerprint := by rw [hg]; rfl
    have hvouched : vouched q' (ghost (contract lib) (h.take (start+n)) k) = true := by
      simp only [vouched, hmarker, hvouch, Option.any_some, decide_true]
    rw [deniedAt, hn]
    simp [denial, hvouched]
  · rw [htake, asked, List.any_eq_true]
    refine ⟨ask, hin, ?_⟩
    obtain ⟨j, q, c, reply⟩ := ask
    cases hask
    simpa [asks] using hthread

/-! ## Parts of parts -/

/-- What a part was told it was told by its own parts, one after the other. -/
theorem told_bind {A B : Type} {part : FilterSettings → Act A} {rest : FilterSettings → A → Act B}
    {b : B} (ht : Told (fun f => part f >>= rest f) h start i b) :
    ∃ a, Told part h start i a ∧ Told (fun f => rest f a) h start i b := by
  obtain ⟨f, es, hes, hf, hr⟩ := ht
  rcases (returns_bind _ _ _).mp hr with ⟨a, first, last, hsplit, hpart, hrest⟩ | ⟨_, -, he⟩
  · obtain ⟨l, l', rfl, rfl, rfl⟩ := List.map_eq_append_iff.mp hsplit
    refine ⟨a, ⟨f, l, (List.prefix_append l l').isInfix.trans hes, ?_, hpart⟩,
      ⟨f, l', (List.suffix_append l l').isInfix.trans hes, ?_, hrest⟩⟩
    · exact fun e he => hf e (List.mem_append_left _ he)
    · exact fun e he => hf e (List.mem_append_right _ he)
  · cases he

theorem told_pure {A : Type} {a b : A} (ht : Told (fun _ => pure a) h start i b) : b = a := by
  obtain ⟨_, _, -, -, hr⟩ := ht
  exact Except.ok.inj hr.2

theorem told_throw {A : Type} {e : Failure} {b : A}
    (ht : Told (fun _ => (throw e : Act A)) h start i b) : False := by
  obtain ⟨_, _, -, -, hr⟩ := ht
  cases hr.2

theorem told_map {A B : Type} {g : A → B} {part : FilterSettings → Act A} {b : B}
    (ht : Told (fun f => g <$> part f) h start i b) : ∃ a, Told part h start i a ∧ b = g a := by
  obtain ⟨f, es, hes, hf, hr⟩ := ht
  obtain ⟨result, hr, hresult⟩ := (returns_map _ _ _).mp hr
  cases result with
  | error e => cases hresult
  | ok a => exact ⟨a, ⟨f, es, hes, hf, hr⟩, Except.ok.inj hresult⟩

theorem told_tryCatch {A : Type} {part : FilterSettings → Act A} {handler : Failure → Act A}
    {b : A} (ht : Told (fun f => tryCatchThe Failure (part f) handler) h start i b) :
    Told part h start i b ∨ ∃ e, Told (fun _ => handler e) h start i b := by
  obtain ⟨f, es, hes, hf, hr⟩ := ht
  rcases (returns_tryCatch _ _ _).mp hr with ⟨a, hr, ha⟩ | ⟨e, first, last, hsplit, -, hr⟩
  · rw [Except.ok.inj ha]
    exact Or.inl ⟨f, es, hes, hf, hr⟩
  · obtain ⟨l, l', rfl, -, rfl⟩ := List.map_eq_append_iff.mp hsplit
    exact Or.inr ⟨e, f, l', (List.suffix_append l l').isInfix.trans hes,
      fun e he => hf e (List.mem_append_right _ he), hr⟩

/-! ## What follows for the requests -/

/-- No lookup that began from entry `start` on has excluded the address, and the
database always had it. -/
structure Known (lib : Libraries) (h : Past) (start : ℕ) (a : Email) : Prop where
  begun : start ≤ h.length
  silent : ∀ n j, start ≤ n → deniedAt lib h n = some (j, a) →
    asked ((h.take n).drop start) j = false
  rows : ∀ e ∈ h.drop start, missing e.command e.reply ≠ some a

variable {q : Request} {c : Command} {reply : Except Failure (Reply c)}

theorem deniedAt_append {e : Occurrence} {n : ℕ} (hn : n < h.length) :
    deniedAt lib (h ++ [e]) n = deniedAt lib h n := by
  simp only [deniedAt, List.getElem?_append_left hn,
    List.take_append_of_le_length (Nat.le_of_lt hn)]

theorem deniedAt_length {e : Occurrence} : deniedAt lib (h ++ [e]) h.length =
    (denial e.request (ghost (contract lib) h e.thread) e.command e.reply).map
      (fun a => (e.thread, a)) := by
  simp [deniedAt]

theorem asked_append (hs : start ≤ h.length) (j : ℕ) :
    asked ((h ++ [(⟨i, q, c, reply⟩ : Occurrence)]).drop start) j =
      (asked (h.drop start) j || (i = j && asks c reply)) := by
  rw [List.drop_append_of_le_length hs, asked, List.any_append]
  simp [asked]

theorem known_now (h : Past) (a : Email) : Known lib h h.length a where
  begun := Nat.le_refl _
  silent := by
    intro n j hn hden
    rw [deniedAt, List.getElem?_eq_none_iff.mpr hn] at hden
    cases hden
  rows := by
    rw [List.drop_length]
    exact fun e he => by cases he

theorem known_append (hk : Known lib h start a)
    (hd : denial q (ghost (contract lib) h i) c reply = some a → asked (h.drop start) i = false)
    (hr : missing c reply ≠ some a) : Known lib (h ++ [⟨i, q, c, reply⟩]) start a where
  begun := by
    have := hk.begun
    rw [List.length_append]
    omega
  silent := by
    intro n j hn hden
    rcases Nat.lt_trichotomy n h.length with hlt | rfl | hgt
    · rw [deniedAt_append hlt] at hden
      rw [List.take_append_of_le_length (Nat.le_of_lt hlt)]
      exact hk.silent n j hn hden
    · rw [deniedAt_length] at hden
      obtain ⟨b, hb, heq⟩ := Option.map_eq_some_iff.mp hden
      obtain ⟨rfl, rfl⟩ := Prod.mk.inj heq
      rw [List.take_left]
      exact hd hb
    · have hnone : (h ++ [(⟨i, q, c, reply⟩ : Occurrence)])[n]? = none := by
        rw [List.getElem?_eq_none_iff, List.length_append, List.length_singleton]
        omega
      rw [deniedAt, hnone] at hden
      cases hden
  rows := by
    intro e he
    rw [List.drop_append_of_le_length hk.begun] at he
    rcases List.mem_append.mp he with he | he
    · exact hk.rows e he
    · rw [List.mem_singleton.mp he]
      exact hr

theorem missing_of_perform {x : Choice} {w w' : World}
    (hp : perform lib c x w = some (reply, w')) (hm : missing c reply = some a) :
    a ∉ (view w).accounts := by
  unfold missing at hm
  split at hm
  case h_1 email =>
    cases hm
    unfold perform at hp
    split at hp
    · cases hp
    · simp only [answer, DatabaseCall.perform, Option.map_some, Option.some.injEq,
        Prod.mk.injEq, Except.ok.injEq] at hp
      obtain ⟨hnone, -⟩ := hp
      intro hmem
      obtain ⟨u, hu, rfl⟩ := List.mem_map.mp hmem
      exact absurd (List.find?_eq_none.mp hnone u hu) (by simp)
  case h_2 => cases hm

theorem mightExist_known (hk : Known lib h start a) {hit : Bool}
    (ht : Told (fun f => mightExist f a) h start i hit) : hit = true := by
  by_contra hmiss
  rw [Bool.not_eq_true] at hmiss
  subst hmiss
  obtain ⟨n, hn, hd, hasked⟩ := denied_of_told lib ht
  rw [hk.silent n i hn hd] at hasked
  cases hasked

theorem byEmail_known (hk : Known lib h start a) {found : Option User}
    (ht : Told (fun _ => byEmail a) h start i found) : found.isSome = true := by
  obtain ⟨f, es, hes, -, hr⟩ := ht
  obtain ⟨e, rest, rfl, he, -⟩ := List.map_eq_cons_iff.mp ((returns_invoke _ _).mp hr)
  have hmem : e ∈ h.drop start := List.mem_of_mem_filter (hes.mem List.mem_cons_self)
  have hrow := hk.rows e hmem
  obtain ⟨j, q, c, reply⟩ := e
  cases he
  cases found with
  | none => exact absurd rfl hrow
  | some user => rfl

theorem emailTaken_known (hk : Known lib h start a) {taken : Bool}
    (ht : Told (fun f => emailTaken f a) h start i taken) : taken = true := by
  obtain ⟨hit, hhit, ht⟩ := told_bind ht
  obtain rfl : hit = true := mightExist_known hk hhit
  obtain ⟨found, hfound, ht⟩ := told_bind ht
  rw [told_pure ht]
  exact byEmail_known hk hfound

theorem isAvailable_known (hk : Known lib h start a) {value client : String} {free : Bool}
    (hn : normalizeEmail lib value = .ok a)
    (ht : Told (fun f => isAvailable lib settings f value client) h start i free) :
    free = false := by
  obtain ⟨_, -, ht⟩ := told_bind ht
  obtain ⟨address, haddress, ht⟩ := told_bind ht
  obtain rfl : a = address := by
    obtain ⟨_, _, -, -, hr⟩ := haddress
    exact Except.ok.inj (hn.symm.trans ((returns_ofResult _ _).mp hr).2.symm)
  obtain ⟨hit, hhit, ht⟩ := told_bind ht
  obtain rfl : hit = true := mightExist_known hk hhit
  obtain ⟨found, hfound, ht⟩ := told_bind ht
  rw [told_pure ht, Option.isNone_eq_false_iff]
  exact byEmail_known hk hfound

/-- The answer to an availability request is what its lookup was told. -/
theorem told_of_answered {s : Service} (hp : Played (service lib settings) s)
    {f : FilterSettings} {value client : String} {free : Bool}
    (hfresh : ∀ e ∈ s.history.take start, e.thread ≠ i)
    (hr : returned s i = some (.emailAvailable f value client, .available free)) :
    Told (fun f => isAvailable lib settings f value client) s.history start i free := by
  have hplay : Returns (serve lib settings i (.emailAvailable f value client))
    ((calls s.history i).map Step.of) (.ok (.available free)) := returns_of_returned hp hr rfl
  have hwhole : calls s.history i = calls (s.history.drop start) i := by
    have happ : calls (s.history.take start ++ s.history.drop start) i =
        calls (s.history.take start) i ++ calls (s.history.drop start) i := List.filter_append _ _
    rwa [List.take_append_drop, calls_unspawned hfresh, List.nil_append] at happ
  have hrequest : ∀ e ∈ calls s.history i, filterOf e.request = some f := by
    intro e he
    obtain ⟨hmem, hi⟩ := List.mem_filter.mp he
    have hq := hp.asked e hmem
    rw [of_decide_eq_true hi, thread_of_returned hr] at hq
    rw [← Option.some.inj hq]
    rfl
  rw [hwhole] at hplay hrequest
  have htold : Told (fun f => serve lib settings i (.emailAvailable f value client)) s.history
      start i (.available free) := ⟨f, _, List.infix_rfl, hrequest, hplay⟩
  obtain ⟨answer, hanswer, hend⟩ := told_bind htold
  obtain ⟨_, -, hend⟩ := told_bind hend
  obtain rfl := told_pure hend
  rcases told_tryCatch hanswer with hanswer | ⟨e, hraised⟩
  · obtain ⟨b, hb, heq⟩ := told_map hanswer
    rwa [Answer.available.inj heq]
  · obtain ⟨_, -, hraised⟩ := told_bind hraised
    exact absurd hraised told_throw

theorem seen_of_known {s : Service} (hp : Played (service lib settings) s)
    (hk : Known lib s.history start a) : Seen lib settings s start a where
  mightExist := fun _ _ ht => mightExist_known hk ht
  emailTaken := fun _ _ ht => emailTaken_known hk ht
  isAvailable := fun _ _ _ _ hn ht => isAvailable_known hk hn ht
  answered := fun _ _ _ _ _ hn hfresh hr => isAvailable_known hk hn (told_of_answered hp hfresh hr)

/-! ## Answers of a run -/

def valueOf : Request → Option String
  | .emailAvailable _ value _ => some value
  | _ => none

/-- What a thread that has returned asked for, and its answer. -/
def answerOf (s : Service) (i : ℕ) : Option (Option String × Answer) :=
  (returned s i).map (fun r => (valueOf r.1, r.2))

theorem returned_of_answer {s : Service} {value : String} {answer : Answer}
    (h : answerOf s i = some (some value, answer)) :
    ∃ f client, returned s i = some (.emailAvailable f value client, answer) := by
  obtain ⟨⟨q, answer'⟩, hr, heq⟩ := Option.map_eq_some_iff.mp h
  obtain ⟨hvalue, rfl⟩ := Prod.mk.inj heq
  cases q with
  | emailAvailable f value' client =>
    obtain rfl : value' = value := Option.some.inj hvalue
    exact ⟨f, client, hr⟩
  | _ => cases hvalue

end Gamely.FilterLookups
