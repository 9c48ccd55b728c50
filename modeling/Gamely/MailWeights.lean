import Gamely.MailCopies
import Mathlib.Data.List.Count

/-!
# In how many places a mail job is

Copies are weighed by where they are and what the hand that holds them has
done. One weight counts the places of a job and another the sends left to it.
-/

set_option autoImplicit false

namespace Gamely.MailWeights
open Gamely.Calls Gamely.Broker Gamely.Json Gamely.EmailJobs Gamely.JobCodec
open Gamely.MailWorker Gamely.MailContract Gamely.MailMoves Gamely.MailCopies
open Gamely.Interleaving

/-! ## The worth of copies -/

/-- What a queued copy counts for and what the one in a hand does. -/
structure Worth where
  stored : Stored Mail → ℕ
  held : Hand → ℕ

def total (v : Worth) (b : Messages Mail) (hand : ℕ → Hand) : ℕ :=
  weight v.stored (fun u => v.held (hand u.task)) b

/-- The copies of a job that are neither sent nor republished yet. -/
def live (t : ℕ) : Worth where
  stored s := if s.message.origin = t then 1 else 0
  held g := match g with
    | .holding m | .stale m | .due m | .refused m | .failed m | .stuck m =>
      if m.origin = t then 1 else 0
    | _ => 0

/-- The sends that the copies of a job can still lead to. -/
def budget (t : ℕ) (attempts : ℤ) : Worth where
  stored s := if s.message.origin = t ∧ s.queue ≠ deadQueue
    then spare (attempts+s.message.retry)+1 else 0
  held g := match g with
    | .holding m | .due m => if m.origin = t then spare (attempts+m.retry)+1 else 0
    | .failed m => if m.origin = t then spare (attempts+m.retry) else 0
    | _ => 0

section
variable (v : Worth) (hand : ℕ → Hand) (g' : Hand) {b : Messages Mail} {i : ℕ}

theorem held_update {u : Unacked Mail} (h : u.task ≠ i) :
    v.held (Function.update hand i g' u.task) = v.held (hand u.task) := by
  rw [Function.update_of_ne h]

theorem total_hand (hb : Single b) {u : Unacked Mail} (hu : heldBy b i = some u)
    (more : List (Stored Mail)) :
    total v { b with queued := b.queued ++ more } (Function.update hand i g')+v.held (hand i) =
      total v b hand+v.held g'+(more.map v.stored).sum := by
  have ht := (task_of_heldBy hu).2
  have h := weight_settled (fun u => v.held (hand u.task))
    (fun u => v.held (Function.update hand i g' u.task)) hb hu
    (fun u hne => held_update v hand g' hne)
  simp only [ht, Function.update_self] at h
  simp only [total, weight, List.map_append, List.sum_append]
  omega

theorem total_turn (hb : Single b) {u : Unacked Mail} (hu : heldBy b i = some u) :
    total v b (Function.update hand i g')+v.held (hand i) = total v b hand+v.held g' := by
  have h := total_hand v hand g' hb hu []
  simp only [List.append_nil, List.map_nil, List.sum_nil, Nat.add_zero] at h
  exact h

theorem total_same (h : v.held g' = v.held (hand i)) :
    total v b (Function.update hand i g') = total v b hand := by
  have hv : (fun u : Unacked Mail => v.held (Function.update hand i g' u.task)) =
      fun u => v.held (hand u.task) := by
    funext u
    by_cases hu : u.task = i
    · rw [hu, Function.update_self, h]
    · rw [held_update v hand g' hu]
  rw [total, hv, total]

theorem total_less (h : v.held g' ≤ v.held (hand i)) :
    total v b (Function.update hand i g') ≤ total v b hand := by
  apply Nat.add_le_add_left
  apply List.sum_le_sum
  intro u hu
  by_cases hui : u.task = i
  · simpa only [hui, Function.update_self] using h
  · rw [held_update v hand g' hui]

theorem held_free (hu : heldBy b i = none) :
    (b.unacked.map (fun u => v.held (Function.update hand i g' u.task))).sum =
      (b.unacked.map (fun u => v.held (hand u.task))).sum := by
  have hne : ∀ u ∈ b.unacked, u.task ≠ i := by
    simpa [heldBy, List.find?_eq_none] using hu
  exact weight_unheld _ _ hne (fun u hne => held_update v hand g' hne)

theorem total_free (hu : heldBy b i = none) (more : List (Stored Mail)) :
    total v { b with queued := b.queued ++ more } (Function.update hand i g') =
      total v b hand+(more.map v.stored).sum := by
  simp only [total, weight, List.map_append, List.sum_append, held_free v hand g' hu]
  omega

theorem total_took {b' : Messages Mail} {s : Stored Mail} (hu : heldBy b i = none)
    (moved : b.queued.Perm (s::b'.queued)) (held : b'.unacked = ⟨i, s⟩::b.unacked) :
    total v b' (Function.update hand i g')+v.stored s = total v b hand+v.held g' := by
  have hq := weight_move v.stored moved
  simp only [total, weight, held, List.map_cons, List.sum_cons, Function.update_self,
    held_free v hand g' hu]
  omega

theorem total_settle (hb : Single b) {u : Unacked Mail} (hu : heldBy b i = some u)
    (more : List (Stored Mail)) :
    total v ⟨b.queued ++ more, settled b i⟩ (Function.update hand i g')+v.held (hand i) =
      total v b hand+(more.map v.stored).sum := by
  have ht := (task_of_heldBy hu).2
  have h := weight_settled (fun u => v.held (hand u.task))
    (fun u => v.held (Function.update hand i g' u.task)) hb hu
    (fun u hne => held_update v hand g' hne)
  simp only [ht] at h
  simp only [total, weight, List.map_append, List.sum_append]
  omega

theorem total_expire {s : Stored Mail} {rest more : List (Stored Mail)}
    (moved : b.queued.Perm (s::rest)) :
    total v { b with queued := rest ++ more } hand+v.stored s =
      total v b hand+(more.map v.stored).sum := by
  have hq := ((moved.map v.stored).sum_eq)
  simp only [List.map_cons, List.sum_cons] at hq
  simp only [total, weight, List.map_append, List.sum_append]
  omega

end

/-! ## One move -/

def born : Hand → ℕ
  | .published _ _ => 1
  | _ => 0

/-- The sends a published job has at most. -/
def grant : Hand → ℕ
  | .published job _ => spare job.fields.attempts+1
  | _ => 0

/-- In how many places a job is. -/
def accounted (t : ℕ) (w : World) (hand : ℕ → Hand) : ℕ :=
  total (live t) w.broker hand+w.sent.count t+(w.dropped.map Prod.fst).count t

def sends (t : ℕ) (w : World) : ℕ := (w.attempts.map Attempt.origin).count t

variable {F : Type} {py : Interpreter F} {w w' : World} {hand : ℕ → Hand} {i : ℕ} {g' : Hand}

theorem live_judged (t : ℕ) (m : Mail) (now : ℤ) :
    (live t).held (judged py m now) = (live t).held (.holding m) := by
  unfold judged
  split
  · split <;> rfl
  · rfl

theorem born_judged (m : Mail) (now : ℤ) : born (judged py m now) = 0 := by
  unfold judged
  split
  · split <;> rfl
  · rfl

theorem grant_judged (m : Mail) (now : ℤ) : grant (judged py m now) = 0 := by
  unfold judged
  split
  · split <;> rfl
  · rfl

theorem budget_judged (t : ℕ) (a : ℤ) (m : Mail) (now : ℤ) :
    (budget t a).held (judged py m now) ≤ (budget t a).held (.holding m) := by
  unfold judged
  split
  · split
    · exact Nat.zero_le _
    · exact Nat.le_refl _
  · exact Nat.le_refl _

/-- What a hand counts for stays when its task's new hand counts for the same. -/
theorem counts_update (f : Hand → ℕ) (hand : ℕ → Hand) (i : ℕ) (g' : Hand) (t : ℕ)
    (h : f g' = f (hand i)) : f (Function.update hand i g' t) = f (hand t) := by
  by_cases hti : t = i
  · subst hti
    rw [Function.update_self, h]
  · rw [Function.update_of_ne hti]

theorem any_of_begun (hb : Booked py w hand) (h : (hand i).begun = true) :
    w.attempts.any (fun a => a.task = i) = true := by
  obtain ⟨a, hm, ht⟩ := hb.tried i h
  exact List.any_eq_true.mpr ⟨a, hm, by simp [ht]⟩

theorem any_of_stale (hb : Booked py w hand) {m : Mail} (h : hand i = .stale m) :
    w.attempts.any (fun a => a.task = i) = false := by
  rw [List.any_eq_false]
  intro a hm ht
  have hi : a.task = i := by simpa using ht
  have hbegun := hb.begun a hm
  rw [hi, h] at hbegun
  rcases hbegun with h | h <;> cases h

theorem hop_copies {m : Mail} (hc : Copy py hand m) {job : Job F} {key : String} {body : Bytes}
    (decoded : fromBytes py m.body = .ok job) (hop : Hop py job m.body key body) (now : ℕ)
    (copy : Mail) : ∃ first published q, hand m.origin = .published first published ∧
      copies topology now key copy = [⟨q, copy, now⟩] ∧
      ((key = "dead" ∧ q = deadQueue) ∨
        (key ≠ "dead" ∧ first.fields.attempts+m.retry < retryDelays.length)) := by
  obtain ⟨first, id, published, horigin, hstamp, hreads, hfew⟩ := hc
  rw [hreads] at decoded
  cases decoded
  rcases hop_again hstamp.named hop with ⟨rfl, rfl⟩ | ⟨delay, rfl, hdelay, hlt, -⟩
  · exact ⟨first, published, deadQueue, horigin, copies_dead now copy, Or.inl ⟨rfl, rfl⟩⟩
  · have hmem := delay_mem hdelay
    exact ⟨first, published, retryQueue delay, horigin, copies_retry hmem now copy,
      Or.inr ⟨retry_key_ne hmem, hlt⟩⟩

/-- A job is born in one place and every move keeps the number of its places. -/
theorem accounted_moves (hs : Shelved py w hand) (hb : Booked py w hand)
    (hm : Moves py i w (hand i) w' g') (t : ℕ) :
    accounted t w' (Function.update hand i g')+born (hand t) =
      accounted t w hand+born (Function.update hand i g' t) := by
  have quiet : ∀ {b : Messages Mail}, born g' = born (hand i) →
      (live t).held g' = (live t).held (hand i) →
      total (live t) b (Function.update hand i g')+born (hand t) =
        total (live t) b hand+born (Function.update hand i g' t) := by
    intro b hborn hlive
    rw [total_same _ hand g' hlive, counts_update born hand i g' t hborn]
  unfold accounted
  generalize hg : hand i = g at hm
  cases hm with
  | rest => rw [← hg, Function.update_eq_self]
  | born job id body stamp free =>
    have h := total_free (live t) hand (.published job body) free
      (copies topology w.millis "send" ⟨i, 0, body⟩)
    have hborn : born (Function.update hand i (.published job body) t) =
        born (hand t)+if i = t then 1 else 0 := by
      by_cases hti : i = t
      · subst hti
        rw [Function.update_self, if_pos rfl, hg]
        rfl
      · rw [Function.update_of_ne (Ne.symm hti), if_neg hti, Nat.add_zero]
    have hv : (live t).stored ⟨primaryQueue, ⟨i, 0, body⟩, w.millis⟩ = if i = t then 1 else 0 := rfl
    rw [copies_send] at h
    simp only [List.map_cons, List.map_nil, List.sum_cons, List.sum_nil, hv] at h
    simp only [queue, copies_send]
    omega
  | took s b primary moved held free living =>
    have h := total_took (live t) hand (.holding s.message) free moved held
    have hv : (live t).stored s = (live t).held (.holding s.message) := rfl
    have hborn := counts_update born hand i (.holding s.message) t (by rw [hg]; rfl)
    dsimp only
    omega
  | read m =>
    have h := quiet (b := w.broker) (by rw [hg]; exact born_judged m _)
      (by rw [hg]; exact live_judged t m _)
    omega
  | sent m u held same =>
    have h := total_turn (live t) hand (.sent m) hs.single held
    have hborn := counts_update born hand i (.sent m) t (by rw [hg]; rfl)
    rw [hg] at h
    have hdue : (live t).held (.due m) = if m.origin = t then 1 else 0 := rfl
    have hsent : (live t).held (.sent m) = 0 := rfl
    simp only [tried, List.count_append, List.count_singleton, beq_iff_eq]
    omega
  | unsent m u held same _ how =>
    have h := quiet (b := w.broker) (by rw [hg]; rcases how with rfl | rfl <;> rfl)
      (by rw [hg]; rcases how with rfl | rfl <;> rfl)
    simp only [tried]
    omega
  | hop m u held same job key body decoded hop =>
    obtain ⟨first, published, q, -, hcopies, -⟩ :=
      hop_copies (copy_of_held hs held same) decoded hop w.millis
        ⟨m.origin, if key = "dead" then m.retry else m.retry+1, body⟩
    have h := total_hand (live t) hand (.moved m) hs.single held
      (copies topology w.millis key ⟨m.origin, if key = "dead" then m.retry else m.retry+1, body⟩)
    have hborn := counts_update born hand i (.moved m) t (by rw [hg]; rfl)
    have hv : (live t).stored ⟨q, ⟨m.origin, if key = "dead" then m.retry else m.retry+1, body⟩,
        w.millis⟩ = (live t).held (.failed m) := rfl
    have hmoved : (live t).held (.moved m) = 0 := rfl
    rw [hcopies, hg] at h
    simp only [List.map_cons, List.map_nil, List.sum_cons, List.sum_nil, hv] at h
    simp only [queue, hcopies]
    omega
  | stuck m =>
    have h := quiet (b := w.broker) (by rw [hg]; rfl) (by rw [hg]; rfl)
    omega
  | acked _ m u held same how =>
    have h := total_settle (live t) hand .settled hs.single held []
    have hborn := counts_update born hand i .settled t
      (by rw [hg]; rcases how with rfl | rfl | rfl <;> rfl)
    rw [hg] at h
    simp only [List.append_nil, List.map_nil, List.sum_nil] at h
    simp only [Broker.ack]
    rcases how with rfl | rfl | rfl
    · have hv : (live t).held (.stale m) = if m.origin = t then 1 else 0 := rfl
      rw [any_of_stale hb hg]
      simp only [Bool.false_eq_true, if_false, List.map_append, List.count_append,
        List.map_cons, List.map_nil, List.count_singleton, beq_iff_eq]
      omega
    · have hv : (live t).held (.sent m) = 0 := rfl
      rw [any_of_begun hb (by rw [hg]; rfl), if_pos rfl]
      omega
    · have hv : (live t).held (.moved m) = 0 := rfl
      rw [any_of_begun hb (by rw [hg]; rfl), if_pos rfl]
      omega
  | rejected _ m u held same how =>
    obtain ⟨hmem, htask⟩ := task_of_heldBy held
    have h := total_settle (live t) hand .settled hs.single held
      (deadLetter topology w.millis u.entry)
    have hborn := counts_update born hand i .settled t
      (by rw [hg]; rcases how with ⟨rfl, -⟩ | rfl | rfl | rfl <;> rfl)
    have hv : (live t).held g = if m.origin = t then 1 else 0 := by
      rcases how with ⟨rfl, -⟩ | rfl | rfl | rfl <;> rfl
    have hdead : (live t).stored ⟨deadQueue, u.entry.message, w.millis⟩ =
        if m.origin = t then 1 else 0 := by
      rw [← same]
      rfl
    rw [deadLetter_primary (hs.unacked u hmem).2, hg] at h
    simp only [List.map_cons, List.map_nil, List.sum_cons, List.sum_nil] at h
    simp only [reject, htask, deadLetter_primary (hs.unacked u hmem).2]
    omega

/-- The copy a hop makes has no more sends left than the failed one it replaces. -/
theorem budget_hop {m : Mail} {first : EmailJob} {key : String} {q : Queue} {a : ℤ}
    (t now : ℕ) (body : Bytes) (hattempts : m.origin = t → first.fields.attempts = a)
    (hcase : (key = "dead" ∧ q = deadQueue) ∨
      (key ≠ "dead" ∧ first.fields.attempts+m.retry < retryDelays.length)) :
    (budget t a).stored ⟨q, ⟨m.origin, if key = "dead" then m.retry else m.retry+1, body⟩, now⟩ ≤
      (budget t a).held (.failed m) := by
  by_cases ho : m.origin = t
  · rcases hcase with ⟨-, hq⟩ | ⟨hkey, hlt⟩
    · simp [budget, hq]
    · have hfew : a+m.retry < 4 := by
        rw [← hattempts ho]
        exact hlt
      rw [if_neg hkey]
      simp only [budget, spare, ho, true_and, if_true, retryDelays, List.length_cons,
        List.length_nil, Nat.cast_add, Nat.cast_one]
      split <;> omega
  · simp [budget, ho]

/-- Every send uses up one of those a job is granted, and each hop leaves one less. -/
theorem sends_moves (hs : Shelved py w hand) (hm : Moves py i w (hand i) w' g') (t : ℕ) (a : ℤ)
    (ha : ∀ job body, Function.update hand i g' t = .published job body →
      job.fields.attempts = a) :
    sends t w'+total (budget t a) w'.broker (Function.update hand i g')+grant (hand t) ≤
      sends t w+total (budget t a) w.broker hand+grant (Function.update hand i g' t) := by
  have hk := keeping_moves hm
  have quiet : ∀ {b : Messages Mail}, grant g' = grant (hand i) →
      (budget t a).held g' ≤ (budget t a).held (hand i) →
      total (budget t a) b (Function.update hand i g')+grant (hand t) ≤
        total (budget t a) b hand+grant (Function.update hand i g' t) := by
    intro b hgrant hless
    have h := total_less (budget t a) hand g' (b := b) hless
    have he := counts_update grant hand i g' t hgrant
    omega
  unfold sends
  generalize hg : hand i = g at hm
  cases hm with
  | rest => rw [← hg, Function.update_eq_self]
  | born job id body stamp free =>
    have h := total_free (budget t a) hand (.published job body) free
      (copies topology w.millis "send" ⟨i, 0, body⟩)
    rw [copies_send] at h
    simp only [List.map_cons, List.map_nil, List.sum_cons, List.sum_nil] at h
    simp only [queue, copies_send]
    by_cases hti : t = i
    · subst hti
      rw [Function.update_self] at ha ⊢
      have hattempts := ha job body rfl
      have hv : (budget t a).stored ⟨primaryQueue, ⟨t, 0, body⟩, w.millis⟩ =
          grant (.published job body) := by
        simp [budget, grant, hattempts, primaryQueue, deadQueue]
      have hidle : grant (hand t) = 0 := by
        rw [hg]
        rfl
      omega
    · have hv : (budget t a).stored ⟨primaryQueue, ⟨i, 0, body⟩, w.millis⟩ = 0 :=
        if_neg (fun h => hti h.1.symm)
      rw [Function.update_of_ne hti]
      omega
  | took s b primary moved held free living =>
    have h := total_took (budget t a) hand (.holding s.message) free moved held
    have hgrant := counts_update grant hand i (.holding s.message) t
      (by rw [hg]; rfl)
    have hq : s.queue ≠ deadQueue := by
      rintro he
      rw [he] at primary
      exact absurd primary (by decide)
    have hv : (budget t a).held (.holding s.message) = (budget t a).stored s := by
      simp [budget, hq]
    dsimp only
    omega
  | read m =>
    have h := quiet (b := w.broker) (by rw [hg]; exact grant_judged m _)
      (by rw [hg]; exact budget_judged t a m _)
    omega
  | sent m u held same =>
    have h := total_turn (budget t a) hand (.sent m) hs.single held
    have hgrant := counts_update grant hand i (.sent m) t (by rw [hg]; rfl)
    rw [hg] at h
    have hdue : (budget t a).held (.due m) =
        if m.origin = t then spare (a+m.retry)+1 else 0 := rfl
    have hsent : (budget t a).held (.sent m) = 0 := rfl
    simp only [tried, List.map_append, List.map_cons, List.map_nil, List.count_append,
      List.count_singleton, beq_iff_eq]
    by_cases ho : m.origin = t
    · rw [if_pos ho] at hdue ⊢
      omega
    · rw [if_neg ho] at hdue ⊢
      omega
  | unsent m u held same _ how =>
    have h := total_turn (budget t a) hand g' hs.single held
    have hgrant := counts_update grant hand i g' t
      (by rw [hg]; rcases how with rfl | rfl <;> rfl)
    rw [hg] at h
    have hdue : (budget t a).held (.due m) =
        if m.origin = t then spare (a+m.retry)+1 else 0 := rfl
    have hless : (budget t a).held g' ≤ if m.origin = t then spare (a+m.retry) else 0 := by
      rcases how with rfl | rfl
      · exact Nat.zero_le _
      · exact Nat.le_refl _
    simp only [tried, List.map_append, List.map_cons, List.map_nil, List.count_append,
      List.count_singleton, beq_iff_eq]
    by_cases ho : m.origin = t
    · rw [if_pos ho] at hdue hless ⊢
      omega
    · rw [if_neg ho] at hdue hless ⊢
      omega
  | hop m u held same job key body decoded hop =>
    obtain ⟨first, published, q, horigin, hcopies, hcase⟩ :=
      hop_copies (copy_of_held hs held same) decoded hop w.millis
        ⟨m.origin, if key = "dead" then m.retry else m.retry+1, body⟩
    have h := total_hand (budget t a) hand (.moved m) hs.single held
      (copies topology w.millis key ⟨m.origin, if key = "dead" then m.retry else m.retry+1, body⟩)
    have hgrant := counts_update grant hand i (.moved m) t (by rw [hg]; rfl)
    have hmoved : (budget t a).held (.moved m) = 0 := rfl
    have hless := budget_hop t w.millis body
      (fun ho => ha first published (hk _ _ _ (by rw [← ho]; exact horigin))) hcase
    rw [hcopies, hg] at h
    simp only [List.map_cons, List.map_nil, List.sum_cons, List.sum_nil] at h
    simp only [queue, hcopies]
    omega
  | stuck m =>
    have h := quiet (b := w.broker) (by rw [hg]; rfl) (by rw [hg]; exact Nat.zero_le _)
    omega
  | acked _ m u held same how =>
    have h := total_settle (budget t a) hand .settled hs.single held []
    have hgrant := counts_update grant hand i .settled t
      (by rw [hg]; rcases how with rfl | rfl | rfl <;> rfl)
    simp only [List.append_nil, List.map_nil, List.sum_nil] at h
    simp only [Broker.ack]
    omega
  | rejected _ m u held same how =>
    obtain ⟨hmem, htask⟩ := task_of_heldBy held
    have h := total_settle (budget t a) hand .settled hs.single held
      (deadLetter topology w.millis u.entry)
    have hgrant := counts_update grant hand i .settled t
      (by rw [hg]; rcases how with ⟨rfl, -⟩ | rfl | rfl | rfl <;> rfl)
    have hdead : (budget t a).stored ⟨deadQueue, u.entry.message, w.millis⟩ = 0 :=
      if_neg (fun h => h.2 rfl)
    rw [deadLetter_primary (hs.unacked u hmem).2] at h
    simp only [List.map_cons, List.map_nil, List.sum_cons, List.sum_nil, hdead] at h
    simp only [reject, htask, deadLetter_primary (hs.unacked u hmem).2]
    omega

/-! ## What passes on its own -/

theorem expire_total (hs : Shelved py w hand) (v : Worth) (n : ℕ)
    (same : ∀ s : Stored Mail, s.queue ≠ deadQueue →
      v.stored ⟨primaryQueue, s.message, w.millis⟩ = v.stored s) :
    total v (expire topology w.millis n w.broker) hand = total v w.broker hand := by
  have cases := @expire_cases Mail topology w.millis n w.broker
  rcases cases with h | ⟨s, rest, hp, hr, h⟩
  · rw [h]
  · have hmem : s ∈ w.broker.queued := hp.mem_iff.mpr List.mem_cons_self
    obtain ⟨hq, -, hd⟩ := deadLetter_ripe (hs.placed s hmem) hr
    have ht := @total_expire v hand w.broker s rest (deadLetter topology w.millis s) hp
    have hv := same s hq
    rw [hd] at ht
    rw [h, hd]
    simp only [List.map_cons, List.map_nil, List.sum_cons, List.sum_nil] at ht
    omega

theorem live_mail (t : ℕ) (g : Hand) {m : Mail} (hg : g.mail? = some m) :
    (live t).held g ≤ if m.origin = t then 1 else 0 := by
  cases g with
  | holding | stale | due | refused | failed | stuck =>
    cases hg
    exact Nat.le_refl _
  | idle | published | sent | moved | settled | broken => exact Nat.zero_le _

theorem accounted_passed (hs : Shelved py w hand) (t : ℕ) (d : Passing) :
    accounted t w hand ≤ accounted t (passed d w) hand := by
  cases d with
  | elapse micros => exact Nat.le_refl _
  | expire n =>
    have h := expire_total hs (live t) n (fun s _ => rfl)
    simp only [accounted, passed, h, le_refl]
  | crash tasks =>
    have less : ∀ u ∈ w.broker.unacked, (live t).held (hand u.task) ≤ (live t).stored u.entry := by
      intro u hu
      exact live_mail t _ (mail_of_unacked hs hu)
    have h := weight_lose (live t).stored (fun u => (live t).held (hand u.task)) tasks w.broker less
    show total _ _ _+_+_ ≤ total _ _ _+_+_
    exact Nat.add_le_add_right (Nat.add_le_add_right h _) _

theorem accounted_survived (hs : Shelved py w hand) (t : ℕ) {d : Passing}
    (hd : ∀ tasks, d ≠ .crash tasks) : accounted t (passed d w) hand = accounted t w hand := by
  cases d with
  | elapse micros => rfl
  | expire n =>
    have h := expire_total hs (live t) n (fun s _ => rfl)
    simp only [accounted, passed, h]
  | crash tasks => exact absurd rfl (hd tasks)

theorem sends_survived (hs : Shelved py w hand) (t : ℕ) (a : ℤ) {d : Passing}
    (hd : ∀ tasks, d ≠ .crash tasks) :
    sends t (passed d w)+total (budget t a) (passed d w).broker hand =
      sends t w+total (budget t a) w.broker hand := by
  cases d with
  | elapse micros => rfl
  | expire n =>
    have hne : primaryQueue ≠ deadQueue := by decide
    have h := expire_total hs (budget t a) n (fun s hq => by simp [budget, hq, hne])
    simp only [sends, passed, h]
  | crash tasks => exact absurd rfl (hd tasks)

/-! ## Along a run -/

variable (py) in
/-- The invariant of every run. -/
structure Conserved (w : World) (hand : ℕ → Hand) : Prop where
  shelved : Shelved py w hand
  booked : Booked py w hand
  least : ∀ t, born (hand t) ≤ accounted t w hand

/-- What holds while no process dies. -/
structure Exact (w : World) (hand : ℕ → Hand) : Prop where
  once : ∀ t, accounted t w hand = born (hand t)
  frugal : ∀ t a, (∀ job body, hand t = .published job body → job.fields.attempts = a) →
    sends t w+total (budget t a) w.broker hand ≤ grant (hand t)

theorem conserved_moves (h : Conserved py w hand) (hm : Moves py i w (hand i) w' g') :
    Conserved py w' (Function.update hand i g') where
  shelved := shelved_moves h.shelved hm
  booked := booked_moves h.shelved h.booked hm
  least := by
    intro t
    have hleast := h.least t
    have hacc := accounted_moves h.shelved h.booked hm t
    omega

theorem exact_moves (h : Conserved py w hand) (he : Exact w hand)
    (hm : Moves py i w (hand i) w' g') : Exact w' (Function.update hand i g') where
  once := by
    intro t
    have honce := he.once t
    have hacc := accounted_moves h.shelved h.booked hm t
    omega
  frugal := by
    intro t a ha
    have hold := he.frugal t a (fun job body hp => ha job body (keeping_moves hm t job body hp))
    have hsends := sends_moves h.shelved hm t a ha
    omega

theorem conserved_passed (h : Conserved py w hand) (d : Passing) :
    Conserved py (passed d w) hand where
  shelved := shelved_passed h.shelved d
  booked := booked_passed h.booked d
  least := fun t => le_trans (h.least t) (accounted_passed h.shelved t d)

theorem exact_passed (h : Conserved py w hand) (he : Exact w hand) {d : Passing}
    (hd : ∀ tasks, d ≠ .crash tasks) : Exact (passed d w) hand where
  once := fun t => (accounted_survived h.shelved t hd).trans (he.once t)
  frugal := by
    intro t a ha
    rw [sends_survived h.shelved t a hd]
    exact he.frugal t a ha

theorem conserved_fresh (now : ℕ) : Conserved py (World.fresh now) (fun _ => .idle) where
  shelved := {
    single := List.nodup_nil
    held := fun i _ => rfl
    gone := fun i h => by cases h
    placed := fun s h => by cases h
    queued := fun s h => by cases h
    unacked := fun u h => by cases h }
  booked := {
    whole := fun i h => by cases h
    begun := fun a h => by cases h
    tried := fun i h => by cases h
    late := fun i m h => by cases h
    dropped := fun d h => by cases h
    origins := fun t h => by cases h }
  least := fun t => Nat.zero_le _

theorem exact_fresh (now : ℕ) : Exact (World.fresh now) (fun _ => .idle) where
  once := fun _ => rfl
  frugal := fun _ _ _ => Nat.le_refl _

end Gamely.MailWeights
