import Mathlib.Algebra.Order.BigOperators.Group.List
import Mathlib.Algebra.Order.Ring.Nat
import Mathlib.Data.Int.Notation
import Mathlib.Data.List.Nodup
import Mathlib.Data.List.Perm.Basic

/-!
# A message broker

Queues are bound to one direct exchange. A delivery stays with the task it was
given to until the task acknowledges or rejects it; a rejected message and one
that has outlived its queue's TTL go where the queue dead-letters them, and what
a lost connection held goes back to its queue. Queues are read in any order.
-/

set_option autoImplicit false

namespace Gamely.Broker

structure Queue where
  name : String
  bindingKey : String
  messageTtl : Option ℕ
  deadLetterKey : Option String
  deriving DecidableEq, Repr

variable {M : Type}

/-- A queued message and the time, in milliseconds, it has been there since. -/
structure Stored (M : Type) where
  queue : Queue
  message : M
  since : ℕ
  deriving DecidableEq, Repr

structure Unacked (M : Type) where
  task : ℕ
  entry : Stored M
  deriving DecidableEq, Repr

structure Messages (M : Type) where
  queued : List (Stored M)
  unacked : List (Unacked M)
  deriving DecidableEq, Repr

def empty : Messages M := ⟨[], []⟩

variable (topology : List Queue)

def routes (key : String) : List Queue := topology.filter (fun q => q.bindingKey = key)

def copies (now : ℕ) (key : String) (m : M) : List (Stored M) :=
  (routes topology key).map (fun q => ⟨q, m, now⟩)

/-- A mandatory publish: an unroutable message is returned. -/
def publish (now : ℕ) (key : String) (m : M) (b : Messages M) : Option (Messages M) :=
  if routes topology key = [] then none
  else some { b with queued := b.queued ++ copies topology now key m }

/-- Without a dead-letter key the message is discarded. -/
def deadLetter (now : ℕ) (s : Stored M) : List (Stored M) :=
  match s.queue.deadLetterKey with
  | some key => copies topology now key s.message
  | none => []

def take (name : String) (n task : ℕ) (b : Messages M) : Option (M × Messages M) :=
  match b.queued[n]? with
  | some s =>
    if s.queue.name = name then some (s.message, ⟨b.queued.eraseIdx n, ⟨task, s⟩ :: b.unacked⟩)
    else none
  | none => none

def heldBy (b : Messages M) (task : ℕ) : Option (Unacked M) :=
  b.unacked.find? (fun u => u.task = task)

def settled (b : Messages M) (task : ℕ) : List (Unacked M) :=
  b.unacked.eraseP (fun u => u.task = task)

def ack (task : ℕ) (b : Messages M) : Messages M := { b with unacked := settled b task }

/-- `reject(requeue=False)`. -/
def reject (now : ℕ) (u : Unacked M) (b : Messages M) : Messages M :=
  ⟨b.queued ++ deadLetter topology now u.entry, settled b u.task⟩

def ripe (now : ℕ) (s : Stored M) : Bool :=
  match s.queue.messageTtl with
  | some ttl => s.since+ttl ≤ now
  | none => false

def expire (now n : ℕ) (b : Messages M) : Messages M :=
  match b.queued[n]? with
  | some s =>
    if ripe now s then { b with queued := b.queued.eraseIdx n ++ deadLetter topology now s } else b
  | none => b

/-- The connections of these tasks are lost. -/
def lose (tasks : List ℕ) (b : Messages M) : Messages M :=
  ⟨b.queued ++ (b.unacked.filter (fun u => u.task ∈ tasks)).map Unacked.entry,
    b.unacked.filter (fun u => u.task ∉ tasks)⟩

/-! ## What is where -/

variable {topology}

theorem mem_take {name : String} {n task : ℕ} {b b' : Messages M} {m : M}
    (h : take name n task b = some (m, b')) : ∃ s, m = s.message ∧ s.queue.name = name ∧
      b.queued.Perm (s :: b'.queued) ∧ b'.unacked = ⟨task, s⟩ :: b.unacked := by
  unfold take at h
  split at h
  case h_2 => cases h
  case h_1 s hs =>
    split at h
    case isFalse => cases h
    case isTrue hname =>
      cases h
      obtain ⟨hn, rfl⟩ := List.getElem?_eq_some_iff.mp hs
      refine ⟨_, rfl, hname, ?_, rfl⟩
      exact (List.getElem_cons_eraseIdx_perm hn).symm

theorem task_of_heldBy {b : Messages M} {task : ℕ} {u : Unacked M} (h : heldBy b task = some u) :
    u ∈ b.unacked ∧ u.task = task := by
  constructor
  · exact List.mem_of_find?_eq_some h
  · simpa using List.find?_some h

theorem settled_perm {b : Messages M} {task : ℕ} {u : Unacked M} (h : heldBy b task = some u) :
    b.unacked.Perm (u :: settled b task) := by
  have split : ∀ l : List (Unacked M), l.find? (fun u => u.task = task) = some u →
      l.Perm (u :: l.eraseP (fun u => u.task = task)) := by
    intro l
    induction l with
    | nil => exact fun h => by cases h
    | cons v l ih =>
      intro h
      by_cases hv : v.task = task
      · simp only [List.find?_cons, hv, decide_true, Option.some.injEq] at h
        subst h
        simp [hv]
      · simp only [List.find?_cons, hv, decide_false] at h
        rw [List.eraseP_cons_of_neg (by simpa using hv)]
        exact ((ih h).cons v).trans (List.Perm.swap u v _)
  exact split _ h

/-- Every task holds at most one delivery. -/
def Single (b : Messages M) : Prop := (b.unacked.map Unacked.task).Nodup

theorem single_settled {b : Messages M} (hb : Single b) {task : ℕ} {u : Unacked M}
    (h : heldBy b task = some u) :
    ((settled b task).map Unacked.task).Nodup ∧ ∀ v ∈ settled b task, v.task ≠ task := by
  have hp : ((u :: settled b task).map Unacked.task).Nodup :=
    ((settled_perm h).map Unacked.task).nodup_iff.mp hb
  obtain ⟨hu, hn⟩ := List.nodup_cons.mp hp
  constructor
  · exact hn
  · intro v hv he
    have hm : v.task ∈ (settled b task).map Unacked.task := List.mem_map_of_mem hv
    rw [he] at hm
    rw [(task_of_heldBy h).2] at hu
    exact hu hm

theorem heldBy_eq_none {b : Messages M} {task : ℕ} (h : ∀ u ∈ b.unacked, u.task ≠ task) :
    heldBy b task = none := by
  simpa [heldBy, List.find?_eq_none] using h

theorem heldBy_of_mem {b : Messages M} (hb : Single b) {u : Unacked M} (hu : u ∈ b.unacked) :
    heldBy b u.task = some u := by
  cases hh : heldBy b u.task with
  | none =>
    have := List.find?_eq_none.mp hh u hu
    simp at this
  | some v =>
    obtain ⟨hv, ht⟩ := task_of_heldBy hh
    rw [List.inj_on_of_nodup_map hb hv hu ht]

theorem heldBy_cons (b : Messages M) (queued : List (Stored M)) (u : Unacked M) (task : ℕ) :
    heldBy ⟨queued, u :: b.unacked⟩ task = if u.task = task then some u else heldBy b task := by
  by_cases h : u.task = task <;> simp [heldBy, h]

theorem heldBy_settled {b : Messages M} (hb : Single b) {task : ℕ} {u : Unacked M}
    (h : heldBy b task = some u) (queued : List (Stored M)) (other : ℕ) :
    heldBy ⟨queued, settled b task⟩ other = if other = task then none else heldBy b other := by
  split
  case isTrue he =>
    subst he
    exact heldBy_eq_none (single_settled hb h).2
  case isFalse hne =>
    have hp : ∀ l : List (Unacked M), (l.eraseP (fun u => u.task = task)).find?
        (fun u => u.task = other) = l.find? (fun u => u.task = other) := by
      intro l
      induction l with
      | nil => rfl
      | cons v l ih =>
        by_cases hv : v.task = task
        · have ho : v.task ≠ other := by
            rw [hv]
            exact Ne.symm hne
          simp [hv, Ne.symm hne]
        · rw [List.eraseP_cons_of_neg (by simpa using hv), List.find?_cons, List.find?_cons, ih]
    exact hp _

theorem heldBy_lose (tasks : List ℕ) (b : Messages M) (task : ℕ) :
    heldBy (lose tasks b) task = if task ∈ tasks then none else heldBy b task := by
  split
  case isTrue h =>
    apply heldBy_eq_none
    intro u hu he
    have := (List.mem_filter.mp hu).2
    rw [he] at this
    simp [h] at this
  case isFalse h =>
    unfold heldBy lose
    rw [List.find?_filter]
    congr 1
    funext u
    by_cases hu : u.task = task <;> simp [hu, h]

theorem expire_cases (now n : ℕ) (b : Messages M) : expire topology now n b = b ∨
    ∃ s rest, b.queued.Perm (s::rest) ∧ ripe now s = true ∧
      expire topology now n b = { b with queued := rest ++ deadLetter topology now s } := by
  unfold expire
  split
  case h_2 => exact Or.inl rfl
  case h_1 s hs =>
    split
    case isFalse => exact Or.inl rfl
    case isTrue hr =>
      obtain ⟨hn, rfl⟩ := List.getElem?_eq_some_iff.mp hs
      exact Or.inr ⟨_, _, (List.getElem_cons_eraseIdx_perm hn).symm, hr, rfl⟩

/-! ## Contents -/

def contents (b : Messages M) : List M :=
  b.queued.map Stored.message ++ b.unacked.map (fun u => u.entry.message)

theorem mem_contents {b : Messages M} {m : M} : m ∈ contents b ↔
    (∃ s ∈ b.queued, s.message = m) ∨ ∃ u ∈ b.unacked, u.entry.message = m := by
  simp only [contents, List.mem_append, List.mem_map]

theorem message_of_copies {now : ℕ} {key : String} {m : M} {s : Stored M}
    (h : s ∈ copies topology now key m) : s.message = m := by
  obtain ⟨q, -, rfl⟩ := List.mem_map.mp h
  rfl

theorem message_of_deadLetter {now : ℕ} {s s' : Stored M}
    (h : s' ∈ deadLetter topology now s) : s'.message = s.message := by
  unfold deadLetter at h
  split at h
  · exact message_of_copies h
  · cases h

theorem contents_publish {now : ℕ} {key : String} {m : M} {b b' : Messages M}
    (h : publish topology now key m b = some b') : contents b' ⊆ m :: contents b := by
  unfold publish at h
  split at h
  · cases h
  · cases h
    intro m' hm
    rcases mem_contents.mp hm with ⟨s, hs, rfl⟩ | hu
    · rcases List.mem_append.mp hs with hs | hs
      · exact List.mem_cons_of_mem _ (mem_contents.mpr (Or.inl ⟨s, hs, rfl⟩))
      · rw [message_of_copies hs]
        exact List.mem_cons_self
    · exact List.mem_cons_of_mem _ (mem_contents.mpr (Or.inr hu))

theorem contents_take {name : String} {n task : ℕ} {b b' : Messages M} {m : M}
    (h : take name n task b = some (m, b')) : m ∈ contents b ∧ contents b' ⊆ contents b := by
  obtain ⟨s, rfl, -, hqueued, hunacked⟩ := mem_take h
  have hs : s ∈ b.queued := hqueued.mem_iff.mpr List.mem_cons_self
  refine ⟨mem_contents.mpr (Or.inl ⟨s, hs, rfl⟩), fun m hm => ?_⟩
  rcases mem_contents.mp hm with ⟨s', hs', rfl⟩ | ⟨u, hu, rfl⟩
  · exact mem_contents.mpr
      (Or.inl ⟨s', hqueued.mem_iff.mpr (List.mem_cons_of_mem _ hs'), rfl⟩)
  · rw [hunacked] at hu
    rcases List.mem_cons.mp hu with rfl | hu
    · exact mem_contents.mpr (Or.inl ⟨s, hs, rfl⟩)
    · exact mem_contents.mpr (Or.inr ⟨u, hu, rfl⟩)

theorem contents_ack (task : ℕ) (b : Messages M) : contents (ack task b) ⊆ contents b := by
  intro m hm
  rcases mem_contents.mp hm with hs | ⟨u, hu, rfl⟩
  · exact mem_contents.mpr (Or.inl hs)
  · exact mem_contents.mpr (Or.inr ⟨u, List.mem_of_mem_eraseP hu, rfl⟩)

theorem contents_reject {now task : ℕ} {b : Messages M} {u : Unacked M}
    (h : heldBy b task = some u) : contents (reject topology now u b) ⊆ contents b := by
  intro m hm
  rcases mem_contents.mp hm with ⟨s, hs, rfl⟩ | ⟨v, hv, rfl⟩
  · rcases List.mem_append.mp hs with hs | hs
    · exact mem_contents.mpr (Or.inl ⟨s, hs, rfl⟩)
    · rw [message_of_deadLetter hs]
      exact mem_contents.mpr (Or.inr ⟨u, (task_of_heldBy h).1, rfl⟩)
  · exact mem_contents.mpr (Or.inr ⟨v, List.mem_of_mem_eraseP hv, rfl⟩)

theorem contents_expire (now n : ℕ) (b : Messages M) :
    contents (expire topology now n b) ⊆ contents b := by
  rcases expire_cases now n b with he | ⟨s, rest, hperm, -, he⟩
  · rw [he]
    exact fun _ hm => hm
  · rw [he]
    intro m hm
    rcases mem_contents.mp hm with ⟨s', hs', rfl⟩ | hu
    · rcases List.mem_append.mp hs' with hs' | hs'
      · exact mem_contents.mpr
          (Or.inl ⟨s', hperm.mem_iff.mpr (List.mem_cons_of_mem _ hs'), rfl⟩)
      · rw [message_of_deadLetter hs']
        exact mem_contents.mpr (Or.inl ⟨s, hperm.mem_iff.mpr List.mem_cons_self, rfl⟩)
    · exact mem_contents.mpr (Or.inr hu)

theorem contents_lose (tasks : List ℕ) (b : Messages M) : contents (lose tasks b) ⊆ contents b := by
  intro m hm
  rcases mem_contents.mp hm with ⟨s, hs, rfl⟩ | ⟨u, hu, rfl⟩
  · rcases List.mem_append.mp hs with hs | hs
    · exact mem_contents.mpr (Or.inl ⟨s, hs, rfl⟩)
    · obtain ⟨u, hu, rfl⟩ := List.mem_map.mp hs
      exact mem_contents.mpr (Or.inr ⟨u, List.mem_of_mem_filter hu, rfl⟩)
  · exact mem_contents.mpr (Or.inr ⟨u, List.mem_of_mem_filter hu, rfl⟩)

/-! ## Weights -/

def weight (stored : Stored M → ℕ) (held : Unacked M → ℕ) (b : Messages M) : ℕ :=
  (b.queued.map stored).sum+(b.unacked.map held).sum

variable (stored : Stored M → ℕ) (held held' : Unacked M → ℕ)

theorem weight_move {b b' : Messages M} {s : Stored M} (h : b.queued.Perm (s :: b'.queued)) :
    (b.queued.map stored).sum = stored s+(b'.queued.map stored).sum := by
  rw [(h.map stored).sum_eq, List.map_cons, List.sum_cons]

theorem weight_settled {b : Messages M} (hb : Single b) {task : ℕ} {u : Unacked M}
    (h : heldBy b task = some u) (same : ∀ v, v.task ≠ task → held' v = held v) :
    (b.unacked.map held).sum = held u+((settled b task).map held').sum ∧
    (b.unacked.map held').sum = held' u+((settled b task).map held').sum := by
  have hs : (settled b task).map held' = (settled b task).map held :=
    List.map_congr_left (fun v hv => same v ((single_settled hb h).2 v hv))
  constructor
  · rw [((settled_perm h).map held).sum_eq, List.map_cons, List.sum_cons, hs]
  · rw [((settled_perm h).map held').sum_eq, List.map_cons, List.sum_cons]

theorem weight_unheld {b : Messages M} {task : ℕ} (h : ∀ u ∈ b.unacked, u.task ≠ task)
    (same : ∀ v, v.task ≠ task → held' v = held v) :
    (b.unacked.map held').sum = (b.unacked.map held).sum := by
  rw [List.map_congr_left (fun v hv => same v (h v hv))]

theorem weight_lose (tasks : List ℕ) (b : Messages M)
    (less : ∀ u ∈ b.unacked, held u ≤ stored u.entry) :
    weight stored held b ≤ weight stored held (lose tasks b) := by
  have hp := List.filter_append_perm (fun u => decide (u.task ∈ tasks)) b.unacked
  have hsum := (hp.map held).sum_eq
  have hle : ((b.unacked.filter (fun u => decide (u.task ∈ tasks))).map held).sum ≤
      (((b.unacked.filter (fun u => decide (u.task ∈ tasks))).map Unacked.entry).map
        stored).sum := by
    rw [List.map_map]
    apply List.sum_le_sum
    intro u hu
    exact less u (List.mem_of_mem_filter hu)
  have hnot : b.unacked.filter (fun u => decide (u.task ∉ tasks)) =
      b.unacked.filter (fun u => !decide (u.task ∈ tasks)) := by
    simp only [decide_not]
  simp only [weight, lose, List.map_append, List.sum_append, hnot] at hsum hle ⊢
  omega

end Gamely.Broker
