import Gamely.Services
import Gamely.Windows

/-!
# The rate limiter over time

Calls of the limiter on any keys, at any times in order, are run on one store.
The calls on one key fall into windows: the first finds no counter alive, the
others find the counter of the first with the deadline the first has set.
-/

set_option autoImplicit false

namespace Gamely.RateLimiter
open Gamely.ExpiringStore Gamely.Stores Gamely.Services Gamely.Windows

variable {K : Type} [DecidableEq K]

/-- `RedisRateLimiter.hit`. The script replies with an integer, which `_count` returns. -/
def hit (now : ℕ) (s : Store K ℕ) (key : K) (limit window : ℕ) : Bool × Store K ℕ :=
  (decide ((windowCount now s key window).1 ≤ limit), (windowCount now s key window).2)

structure Call (K : Type) where
  time : ℕ
  key : K
  limit : ℕ
  deriving DecidableEq, Repr

/-- A call with its answer, and the deadline of the counter it found alive. -/
structure Record (K : Type) where
  call : Call K
  counting : Option (Option ℕ)
  allowed : Bool
  deriving DecidableEq, Repr

variable (window : ℕ)

def record (s : Store K ℕ) (c : Call K) : Record K :=
  ⟨c, (peek c.time s c.key).map Entry.deadline, (hit c.time s c.key c.limit window).1⟩

def after (s : Store K ℕ) (c : Call K) : Store K ℕ := (hit c.time s c.key c.limit window).2

def records : Store K ℕ → List (Call K) → List (Record K)
  | _, [] => []
  | s, c::cs => record window s c :: records (after window s c) cs

theorem records_append (s : Store K ℕ) (cs ds : List (Call K)) :
    records window s (cs ++ ds) =
      records window s cs ++ records window (cs.foldl (after window) s) ds := by
  induction cs generalizing s with
  | nil => rfl
  | cons c cs ih => rw [List.cons_append, records, records, ih, List.cons_append, List.foldl_cons]

/-! ## One call -/

abbrev CallWindow (K : Type) (window : ℕ) := Window (Call.time (K := K)) (1000*window)

variable {window}

/-- What the calls of a window are answered. -/
def answers (w : CallWindow K window) : List (Record K) :=
  w.events.mapIdx (fun n c =>
    ⟨c, if n = 0 then none else some (some w.closes), decide (n+1 ≤ c.limit)⟩)

/-- The counter of an open window. -/
def counter (w : CallWindow K window) : Entry ℕ := ⟨w.events.length, some w.closes⟩

omit [DecidableEq K] in
theorem answers_extend (w : CallWindow K window) (c : Call K) (h : w.opened ≤ c.time)
    (h' : c.time < w.closes) : answers (w.extend c h h') =
      answers w ++ [⟨c, some (some w.closes), decide (w.events.length+1 ≤ c.limit)⟩] := by
  have hne : w.events.length ≠ 0 := by simp [Window.events]
  unfold answers
  rw [Window.events_extend, List.mapIdx_concat, if_neg hne]
  rfl

variable {s : Store K ℕ} {c : Call K}

variable (window) in
theorem call_starts (h : peek c.time s c.key = none) :
    [record window s c] = answers (Window.start c : CallWindow K window) ∧
      after window s c = Function.update s c.key
        (some (counter (Window.start c : CallWindow K window))) := by
  constructor
  · simp only [record, hit, windowCount, h]
    rfl
  · simp only [after, hit, windowCount, h]
    rfl

theorem call_extends (w : CallWindow K window) (hs : s c.key = some (counter w))
    (h' : c.time < w.closes) :
    record window s c =
        ⟨c, some (some w.closes), decide (w.events.length+1 ≤ c.limit)⟩ ∧
      after window s c = set s c.key (w.events.length+1) (some w.closes) := by
  have hp : peek c.time s c.key = some (counter w) := by
    rw [peek_eq_some]
    exact ⟨hs, by simpa [Entry.live, counter] using h'⟩
  constructor
  · simp only [record, hit, windowCount, hp]
    rfl
  · simp only [after, hit, windowCount, hp]
    rfl

theorem after_other {k : K} (hk : c.key ≠ k) : after window s c k = s k := by
  unfold after hit windowCount
  split
  · exact set_ne s c.key _ _ hk.symm
  · exact set_ne s c.key _ _ hk.symm

/-! ## All calls -/

/-- The windows of the calls on one key, and the counter that the last has left. -/
structure Split (k : K) (s : Store K ℕ) (calls : List (Call K))
    (windows : List (CallWindow K window)) : Prop where
  successive : Successive windows
  events : calls.filter (·.key = k) = windows.flatMap Window.events
  answered : (records window s calls).filter (·.call.key = k) = windows.flatMap answers
  counted : calls.foldl (after window) s k = windows.getLast?.map counter

theorem split_other {k : K} {calls : List (Call K)} {windows : List (CallWindow K window)}
    (h : Split k s calls windows) (hk : c.key ≠ k) : Split k s (calls ++ [c]) windows where
  successive := h.successive
  events := by simp [List.filter_append, hk, h.events]
  answered := by
    rw [records_append, List.filter_append, h.answered]
    simp [records, record, hk]
  counted := by rw [List.foldl_append, List.foldl_cons, List.foldl_nil, after_other hk, h.counted]

theorem split_start {calls : List (Call K)} {windows : List (CallWindow K window)}
    (h : Split c.key s calls windows) (hclosed : ∀ w ∈ windows.getLast?, w.closes ≤ c.time) :
    Split c.key s (calls ++ [c]) (windows ++ [Window.start c]) := by
  have hp : peek c.time (calls.foldl (after window) s) c.key = none := by
    unfold peek
    rw [h.counted]
    cases hw : windows.getLast? with
    | none => rfl
    | some w =>
      have hle : ¬ c.time < w.closes := not_lt.mpr (hclosed w hw)
      simp [counter, Entry.live, hle, Option.filter]
  obtain ⟨hrecord, hafter⟩ := call_starts window hp
  constructor
  · exact successive_start hclosed h.successive
  · simp [List.filter_append, h.events, Window.events_start]
  · rw [records_append, List.filter_append, h.answered, List.flatMap_append,
      List.flatMap_singleton, ← hrecord]
    simp [records, record]
  · rw [List.foldl_append, List.foldl_cons, List.foldl_nil, hafter, Function.update_self,
      List.getLast?_concat, Option.map_some]

theorem split_extend {calls : List (Call K)} {windows : List (CallWindow K window)}
    {w : CallWindow K window} (h : Split c.key s calls (windows ++ [w]))
    (hle : w.opened ≤ c.time) (hlt : c.time < w.closes) :
    Split c.key s (calls ++ [c]) (windows ++ [w.extend c hle hlt]) := by
  have hs : calls.foldl (after window) s c.key = some (counter w) := by
    rw [h.counted, List.getLast?_concat, Option.map_some]
  obtain ⟨hrecord, hafter⟩ := call_extends w hs hlt
  constructor
  · exact successive_extend hle hlt h.successive
  · simp [List.filter_append, h.events, Window.events_extend]
  · rw [records_append, List.filter_append, h.answered, List.flatMap_append,
      List.flatMap_append, List.flatMap_singleton, List.flatMap_singleton,
      answers_extend w c hle hlt, ← hrecord, List.append_assoc]
    simp [records, record]
  · rw [List.foldl_append, List.foldl_cons, List.foldl_nil, hafter, set_self,
      List.getLast?_concat, Option.map_some, counter, Window.events_extend]
    simp
    rfl

variable (window) in
/-- The calls on a key fall into windows, whatever calls on other keys come between. -/
theorem split_calls (k : K) (hs : s k = none) (calls : List (Call K))
    (hcalls : calls.Pairwise (fun c d => c.time ≤ d.time)) :
    ∃ windows : List (CallWindow K window), Split k s calls windows := by
  induction calls using List.reverseRecOn with
  | nil => exact ⟨[], List.Pairwise.nil, rfl, rfl, hs⟩
  | append_singleton calls c ih =>
    rw [List.pairwise_append] at hcalls
    have hbefore : ∀ d ∈ calls, d.time ≤ c.time :=
      fun d hd => hcalls.2.2 d hd c (List.mem_singleton_self c)
    obtain ⟨windows, h⟩ := ih hcalls.1
    by_cases hk : c.key = k
    · subst hk
      rcases List.eq_nil_or_concat' windows with rfl | ⟨ws, w, rfl⟩
      · exact ⟨_, split_start h (by simp)⟩
      · by_cases hclosed : w.closes ≤ c.time
        · exact ⟨_, split_start h (by simpa using hclosed)⟩
        · have hfirst : w.first ∈ calls.filter (·.key = c.key) := by
            rw [h.events]
            exact List.mem_flatMap.mpr ⟨w, by simp, List.mem_cons_self⟩
          have hle : w.opened ≤ c.time := hbefore _ (List.mem_of_mem_filter hfirst)
          exact ⟨_, split_extend h hle (not_le.mp hclosed)⟩
    · exact ⟨windows, split_other h hk⟩

variable (window) in
/-- A call sees and changes nothing but the entry of its key. -/
theorem after_agree {k : K} {s s' : Store K ℕ} (h : s k = s' k) (hk : c.key = k) :
    record window s c = record window s' c ∧ after window s c k = after window s' c k := by
  subst hk
  have hp : peek c.time s c.key = peek c.time s' c.key := by rw [peek, peek, h]
  have hcount : (windowCount c.time s c.key window).1 =
      (windowCount c.time s' c.key window).1 := by
    unfold windowCount
    rw [hp]
    cases peek c.time s' c.key <;> rfl
  constructor
  · simp only [record, hit, hp, hcount]
  · simp only [after, hit, windowCount, hp]
    cases peek c.time s' c.key with
    | none => simp
    | some e => simp

theorem records_filter (k : K) {s s' : Store K ℕ} (h : s k = s' k) (calls : List (Call K)) :
    (records window s calls).filter (·.call.key = k) =
      records window s' (calls.filter (·.key = k)) := by
  induction calls generalizing s s' with
  | nil => rfl
  | cons c calls ih =>
    by_cases hk : c.key = k
    · obtain ⟨hrecord, hafter⟩ := after_agree window h hk
      have hkey : (record window s c).call.key = k := hk
      rw [records, List.filter_cons_of_pos (by simpa using hkey),
        List.filter_cons_of_pos (by simpa using hk), records, ih hafter, hrecord]
    · have hkey : (record window s c).call.key ≠ k := hk
      rw [records, List.filter_cons_of_neg (by simpa using hkey),
        List.filter_cons_of_neg (by simpa using hk)]
      exact ih (by rw [after_other hk, h])

/-! ## Allowed calls -/

/-- Calls that were let through between `x` and one window length later. -/
def allowedIn (window x : ℕ) (rs : List (Record K)) : List (Record K) :=
  rs.filter (fun r => r.allowed && decide (x ≤ r.call.time ∧ r.call.time < x+1000*window))

section Answers
omit [DecidableEq K]

theorem mem_answers {w : CallWindow K window} {r : Record K} (h : r ∈ answers w) :
    r.call ∈ w.events ∧ ∃ n, r.counting = (if n = 0 then none else some (some w.closes)) ∧
      r.allowed = decide (n+1 ≤ r.call.limit) := by
  obtain ⟨n, hn, rfl⟩ := List.mem_mapIdx.mp h
  exact ⟨List.getElem_mem _, n, rfl, rfl⟩

theorem filter_mapIdx_length {A B : Type} (f : ℕ → A → B) (p : B → Bool) (bound : ℕ) (l : List A)
    (h : ∀ n, ∀ a ∈ l, p (f n a) = true → n < bound) :
    ((l.mapIdx f).filter p).length ≤ bound := by
  induction l using List.reverseRecOn with
  | nil => exact Nat.zero_le _
  | append_singleton l a ih =>
    have hl := ih (fun n b hb => h n b (by simp [hb]))
    rw [List.mapIdx_concat, List.filter_append, List.length_append]
    by_cases hp : p (f l.length a) = true
    · have hlt := h l.length a (by simp) hp
      have hle := List.length_filter_le p (l.mapIdx f)
      rw [List.length_mapIdx] at hle
      rw [List.filter_cons_of_pos hp, List.filter_nil, List.length_singleton]
      omega
    · rw [List.filter_cons_of_neg hp, List.filter_nil]
      exact hl

theorem allowed_le (w : CallWindow K window) (limit x : ℕ)
    (h : ∀ c ∈ w.events, c.limit = limit) : (allowedIn window x (answers w)).length ≤ limit := by
  unfold allowedIn answers
  apply filter_mapIdx_length
  intro n c hc hp
  rw [Bool.and_eq_true] at hp
  have hn : n+1 ≤ c.limit := of_decide_eq_true hp.1
  rw [h c hc] at hn
  exact hn

theorem allowed_early (hwindow : 1 ≤ window) (w : CallWindow K window) (x : ℕ)
    (h : w.closes ≤ x) : (allowedIn window x (answers w)).length = 0 := by
  rw [List.length_eq_zero_iff, allowedIn, List.filter_eq_nil_iff]
  intro r hr hp
  have hlt := w.lt_closes (by omega) (mem_answers hr).1
  simp only [Bool.and_eq_true, decide_eq_true_eq] at hp
  omega

theorem allowed_late (w : CallWindow K window) (x : ℕ) (h : x+1000*window ≤ w.opened) :
    (allowedIn window x (answers w)).length = 0 := by
  rw [List.length_eq_zero_iff, allowedIn, List.filter_eq_nil_iff]
  intro r hr hp
  have hle := w.opened_le (mem_answers hr).1
  simp only [Bool.and_eq_true, decide_eq_true_eq] at hp
  omega

theorem allowed_interval (hwindow : 1 ≤ window) (windows : List (CallWindow K window))
    (hs : Successive windows) (limit : ℕ)
    (h : ∀ c ∈ windows.flatMap Window.events, c.limit = limit) (x : ℕ) :
    (allowedIn window x (windows.flatMap answers)).length ≤ 2*limit := by
  have hbound : ∀ w ∈ windows, (allowedIn window x (answers w)).length ≤ limit :=
    fun w hw => allowed_le w limit x (fun c hc => h c (List.mem_flatMap.mpr ⟨w, hw, hc⟩))
  have hsum := sum_interval (fun w => allowed_early hwindow w x)
    (fun w => allowed_late w x) windows hbound hs
  unfold allowedIn at hsum ⊢
  rw [List.filter_flatMap, List.length_flatMap]
  exact hsum

/-- A refused call came before the window closed, and left the deadline as it was. -/
theorem refused_inside (hwindow : 1 ≤ window) {w : CallWindow K window} {r : Record K}
    (hr : r ∈ answers w) (hrefused : r.allowed = false) (hlimit : 1 ≤ r.call.limit) :
    r.call.time < w.closes ∧ r.counting = some (some w.closes) := by
  obtain ⟨hmem, n, hcounting, hallowed⟩ := mem_answers hr
  refine ⟨w.lt_closes (by omega) hmem, ?_⟩
  rw [hrefused] at hallowed
  have hn : ¬ n+1 ≤ r.call.limit := of_decide_eq_false hallowed.symm
  rw [hcounting, if_neg (by omega)]

end Answers

/-- The calls on a key split into windows of the full length; in each, the first call finds
no live counter and the `n`-th is allowed up to its limit. -/
theorem fixed_window_exact (hwindow : 1 ≤ window) (calls : List (Call K))
    (hcalls : calls.Pairwise (fun c d => c.time ≤ d.time)) (k : K) (s : Store K ℕ)
    (hs : s k = none) :
    ∃ windows : List (CallWindow K window), Successive windows ∧
      calls.filter (·.key = k) = windows.flatMap Window.events ∧
      (records window s calls).filter (·.call.key = k) = windows.flatMap answers ∧
      (∀ w ∈ windows, ∀ r ∈ answers w, r.allowed = false → 1 ≤ r.call.limit →
        r.call.time < w.closes ∧ r.counting = some (some w.closes)) ∧
      (records window s calls).filter (·.call.key = k) =
        records window s (calls.filter (·.key = k)) ∧
      (∀ limit, (∀ c ∈ calls, c.key = k → c.limit = limit) → ∀ x,
        (allowedIn window x ((records window s calls).filter (·.call.key = k))).length ≤
          2*limit) := by
  obtain ⟨windows, h⟩ := split_calls window k hs calls hcalls
  refine ⟨windows, h.successive, h.events, h.answered, ?_, records_filter k rfl calls, ?_⟩
  · intro w _ r hr hrefused hlimit
    exact refused_inside hwindow hr hrefused hlimit
  · intro limit hlimit x
    rw [h.answered]
    apply allowed_interval hwindow windows h.successive limit
    intro c hc
    rw [← h.events, List.mem_filter] at hc
    exact hlimit c hc.1 (of_decide_eq_true hc.2)

def sampleCalls : List (Call ℕ) :=
  [⟨0, 1, 1⟩, ⟨0, 2, 1⟩, ⟨500, 1, 1⟩, ⟨999, 1, 2⟩, ⟨1001, 1, 1⟩]

theorem fixed_window_sample : ∃ windows : List (CallWindow ℕ 1), Successive windows ∧
    sampleCalls.filter (·.key = 1) = windows.flatMap Window.events ∧
    (records 1 ExpiringStore.empty sampleCalls).filter (·.call.key = 1) =
      windows.flatMap answers := by
  obtain ⟨windows, hs, hevents, hanswers, -⟩ :=
    fixed_window_exact (le_refl 1) sampleCalls (by decide) 1 ExpiringStore.empty rfl
  exact ⟨windows, hs, hevents, hanswers⟩

end Gamely.RateLimiter
