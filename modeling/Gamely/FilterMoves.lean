import Gamely.FilterContract
import Gamely.SessionMoves

/-!
# What one call does to the filter and the accounts

The moves act on a view of the world: the items of the filter key, the marker
beside it, the committed addresses and the addresses flushed by transactions
that have not ended.
-/

set_option autoImplicit false

namespace Gamely.FilterMoves
open Gamely.Calls Gamely.Stores Gamely.EmailJobs Gamely.Services Gamely.TokenService
open Gamely.EmailFilter Gamely.Requests Gamely.Interleaving Gamely.FilterContract

structure View where
  items : List String
  marker : Option String
  accounts : List Email
  pending : List (ℕ × Email)

def itemsOf (s : FilterStore) : List String :=
  match s.filter with
  | some f => f.items
  | none => []

def view (w : World) : View where
  items := itemsOf w.filter
  marker := w.filter.marker
  accounts := w.database.users.map User.email
  pending := w.database.flushed.map (fun x => (x.1, x.2.email))

/-- The thread of the last drop, and the threads that inserted into the filter or
read its marker since. -/
structure Watch where
  dropper : Option ℕ
  since : List ℕ
  readers : List ℕ
  deriving DecidableEq, Repr

def Watch.step (t : Watch) (i : ℕ) : (c : Command) → Except Failure (Reply c) → Watch
  | .filter .drop, .ok _ => ⟨some i, [], []⟩
  | .filter (.insert ..), .ok _ => { t with since := i :: t.since }
  | .filter .getMarker, .ok _ => { t with readers := i :: t.readers }
  | _, _ => t

def watched (h : List Occurrence) : Watch :=
  h.foldl (fun t e => t.step e.thread e.command e.reply) ⟨none, [], []⟩

theorem watched_append (h : List Occurrence) (e : Occurrence) :
    watched (h ++ [e]) = (watched h).step e.thread e.command e.reply := List.foldl_concat ..

variable (lib : Libraries) (i : ℕ) (q : Request)

/-- `x` settles whether the call fails and which items an insert refuses. -/
inductive Moves (x : Choice) (v : View) (g : Hand) :
    (c : Command) → Except Failure (Reply c) → View → Hand → Prop where
  | insert (items : List String) (capacity : ℕ)
      (allowed : allows lib i q g (.filter (.insert items capacity))) :
      Moves x v g (.filter (.insert items capacity)) (.ok (insertReplies x.refused items))
        { v with items := v.items ++ stored x.refused items }
        { g with role := g.role.inserted (insertReplies x.refused items) items }
  | miss (items : List String) (capacity : ℕ) (e : Failure) (failed : x.fail = true) :
      Moves x v g (.filter (.insert items capacity)) (.error e) v { g with role := g.role.missed }
  | mark (fingerprint : String) (short : Bool) (complete : g.role = .loading [] short) :
      Moves x v g (.filter (.setMarker fingerprint)) (.ok ())
        { v with marker := some fingerprint } g
  | unmark : Moves x v g (.filter .delMarker) (.ok ()) { v with marker := none } g
  | drop (free : g.role = .free) :
      Moves x v g (.filter .drop) (.ok ()) { v with items := [], marker := none } g.dropped
  | snapshot (dropped : g.role = .dropped) :
      Moves x v g (.database .emails) (.ok v.accounts) v
        { g with role := .loading v.accounts false }
  | ask : Moves x v g (.filter .getMarker) (.ok v.marker) v { g with marker := v.marker }
  | look (item : String) (hit : Bool) (certain : item ∈ v.items → hit = true) :
      Moves x v g (.filter (.exists item)) (.ok hit) v
        { g with denied := (denial q g (.filter (.exists item)) (.ok hit)).or g.denied }
  | flush (row : User) (free : g.role = .free)
      (normal : normalizeEmail lib row.email = .ok row.email) :
      Moves x v g (.database (.createUser i row)) (.ok ())
        { v with pending := v.pending ++ [(i, row.email)] }
        { g with role := .flushed row.email .pending }
  | commit (changes : List Change)
      (remembered : ∀ email, enabled q = true → g.role ≠ .flushed email .pending) :
      Moves x v g (.database (.commit i changes)) (.ok ())
        { v with
          accounts := v.accounts ++ (v.pending.filter (fun x => x.1 = i)).map Prod.snd
          pending := v.pending.filter (fun x => x.1 ≠ i) }
        g.ended
  | close (c : DatabaseCall) (reply : Except Failure (Reply (.database c)))
      (ends : c = .rollback i ∨ ∃ changes, c = .commit i changes) :
      Moves x v g (.database c) reply
        { v with pending := v.pending.filter (fun x => x.1 ≠ i) } g.ended
  | other (c : Command) (reply : Except Failure (Reply c)) (denied : denial q g c reply = none)
      (quiet : ∀ t : Watch, t.step i c reply = t) : Moves x v g c reply v g

/-- A call that fails loses an insert and does nothing else. -/
theorem moves_failed (x : Choice) (hx : x.fail = true) (v : View) (g : Hand) (c : Command) :
    Moves lib i q x v g c (.error .external) v (next q g c (.error .external)) := by
  have quiet : ∀ t : Watch, t.step i c (.error .external) = t := by
    intro t
    unfold Watch.step
    split <;> first | rfl | contradiction
  have denied : denial q g c (.error .external) = none := by
    unfold denial
    split <;> first | rfl | contradiction
  cases c with
  | filter c =>
    cases c with
    | insert items capacity => exact .miss items capacity _ hx
    | _ => exact .other _ _ denied quiet
  | database c =>
    cases c with
    | _ => exact .other _ _ denied quiet
  | _ => exact .other _ _ denied quiet

theorem emails_change (db : Database) (change : Change) :
    (change.apply db).users.map User.email = db.users.map User.email ∧
      (change.apply db).flushed = db.flushed := by
  cases change with
  | passwordHash user hash =>
    refine ⟨?_, rfl⟩
    simp only [Change.apply, List.map_map]
    apply List.map_congr_left
    intro u _
    simp only [Function.comp_apply]
    split <;> rfl
  | emailVerifiedAt user t =>
    refine ⟨?_, rfl⟩
    simp only [Change.apply, List.map_map]
    apply List.map_congr_left
    intro u _
    simp only [Function.comp_apply]
    split <;> rfl
  | identity row => exact ⟨rfl, rfl⟩

theorem emails_changes (db : Database) (changes : List Change) :
    (changes.foldl Change.apply db).users.map User.email = db.users.map User.email ∧
      (changes.foldl Change.apply db).flushed = db.flushed := by
  induction changes generalizing db with
  | nil => exact ⟨rfl, rfl⟩
  | cons change changes ih =>
    obtain ⟨hu, hf⟩ := ih (change.apply db)
    exact ⟨hu.trans (emails_change db change).1, hf.trans (emails_change db change).2⟩

theorem view_committed (w : World) (changes : List Change) :
    view { w with database := committed w.database i changes } =
      { view w with
        accounts := (view w).accounts ++ ((view w).pending.filter (fun x => x.1 = i)).map Prod.snd
        pending := (view w).pending.filter (fun x => x.1 ≠ i) } := by
  obtain ⟨hu, hf⟩ := emails_changes { ended w.database i with
    users := w.database.users ++
      (w.database.flushed.filter (fun x => x.1 = i)).map Prod.snd } changes
  simp only [view, View.mk.injEq, true_and]
  refine ⟨?_, ?_⟩
  · rw [committed, hu]
    simp [List.filter_map, Function.comp_def]
  · rw [committed, hf]
    simp [ended, List.filter_map, Function.comp_def]

theorem view_ended (w : World) :
    view { w with database := ended w.database i } =
      { view w with pending := (view w).pending.filter (fun x => x.1 ≠ i) } := by
  simp [view, ended, List.filter_map, Function.comp_def]

theorem moves_filter (w : World) (g : Hand) (c : FilterCall) (x : Choice)
    (ha : allows lib i q g (.filter c)) :
    Moves lib i q x (view w) g (.filter c)
      (.ok (c.perform lib.filterDefaults w.now x.hit x.refused w.filter).1)
      (view { w with filter := (c.perform lib.filterDefaults w.now x.hit x.refused w.filter).2 })
      (next q g (.filter c)
        (.ok (c.perform lib.filterDefaults w.now x.hit x.refused w.filter).1)) := by
  cases c with
  | getMarker => exact .ask
  | «exists» item =>
    apply Moves.look
    intro hi
    simp only [view, itemsOf] at hi
    simp only [FilterCall.perform, contains]
    split
    case h_1 f hf =>
      rw [hf] at hi
      exact if_pos hi
    case h_2 hf =>
      rw [hf] at hi
      cases hi
  | insert items capacity =>
    have hv : view { w with filter :=
        (FilterCall.perform lib.filterDefaults w.now x.hit x.refused (.insert items capacity)
          w.filter).2 } =
        { view w with items := (view w).items ++ stored x.refused items } := by
      simp only [view, FilterCall.perform, itemsOf, inserted]
      split <;> simp_all
    rw [hv]
    exact .insert items capacity ha
  | reserve params =>
    have hv : view { w with filter :=
        (FilterCall.perform lib.filterDefaults w.now x.hit x.refused (.reserve params)
          w.filter).2 } = view w := by
      rcases hf : w.filter.filter with _ | f
      · simp [view, FilterCall.perform, itemsOf, hf]
      · simp [view, FilterCall.perform, itemsOf, hf]
    rw [hv]
    exact .other _ _ rfl (fun _ => rfl)
  | setMarker fingerprint =>
    obtain ⟨short, hs⟩ := ha
    exact .mark fingerprint short hs
  | delMarker => exact .unmark
  | drop => exact .drop ha
  | setLock token ttl =>
    have hv : view { w with filter :=
        (FilterCall.perform lib.filterDefaults w.now x.hit x.refused (.setLock token ttl)
          w.filter).2 } = view w := by
      simp only [FilterCall.perform]
      split <;> rfl
    rw [hv]
    exact .other _ _ rfl (fun _ => rfl)
  | releaseLock token =>
    have hv : view { w with filter :=
        (FilterCall.perform lib.filterDefaults w.now x.hit x.refused (.releaseLock token)
          w.filter).2 } = view w := by
      simp only [FilterCall.perform]
      split <;> rfl
    rw [hv]
    exact .other _ _ rfl (fun _ => rfl)

theorem moves_database (x : Choice) (w : World) (g : Hand) (c : DatabaseCall)
    (reply : Except Failure c.Reply)
    (db : Database) (ha : allows lib i q g (.database c))
    (hp : c.perform w.database = some (reply, db)) :
    Moves lib i q x (view w) g (.database c) reply (view { w with database := db })
      (next q g (.database c) reply) := by
  cases c with
  | byEmail email =>
    cases hp
    exact .other _ _ rfl (fun _ => rfl)
  | byId user =>
    cases hp
    exact .other _ _ rfl (fun _ => rfl)
  | byIdentity provider subject =>
    cases hp
    exact .other _ _ rfl (fun _ => rfl)
  | createUser session row =>
    obtain ⟨rfl, hfree, hnormal⟩ := ha
    simp only [DatabaseCall.perform] at hp
    split at hp
    · cases hp
      exact .other _ _ rfl (fun _ => rfl)
    · split at hp
      · cases hp
      · cases hp
        have hv : view { w with database := { w.database with
            flushed := w.database.flushed ++ [(session, row)] } } =
            { view w with pending := (view w).pending ++ [(session, row.email)] } := by
          simp [view]
        rw [hv]
        exact .flush row hfree hnormal
  | commit session changes =>
    obtain ⟨rfl, hremembered⟩ := ha
    simp only [DatabaseCall.perform] at hp
    split at hp
    · cases hp
      rw [view_ended]
      exact .close _ _ (Or.inr ⟨changes, rfl⟩)
    · cases hp
      rw [view_committed]
      exact .commit changes hremembered
  | rollback session =>
    obtain rfl := ha
    cases hp
    rw [view_ended]
    exact .close _ _ (Or.inl rfl)
  | emails =>
    cases hp
    exact .snapshot ha

theorem moves_of_perform (w w' : World) (g : Hand) (c : Command) (x : Choice)
    (reply : Except Failure (Reply c)) (ha : allows lib i q g c)
    (hp : perform lib c x w = some (reply, w')) :
    Moves lib i q x (view w) g c reply (view w') (next q g c reply) := by
  unfold perform at hp
  split at hp
  · simp only [Option.some.injEq, Prod.mk.injEq] at hp
    obtain ⟨rfl, rfl⟩ := hp
    rename_i hf
    exact moves_failed lib i q x hf.1 _ g c
  · cases c with
    | tokenUrlsafe | uuid4 =>
      simp only [answer] at hp
      split at hp
      · cases hp
      · cases hp
        exact .other _ _ rfl (fun _ => rfl)
    | randbelow bound =>
      simp only [answer] at hp
      split at hp
      · cases hp
        exact .other _ _ rfl (fun _ => rfl)
      · cases hp
    | filter c =>
      simp only [answer, Option.some.injEq, Prod.mk.injEq] at hp
      obtain ⟨rfl, rfl⟩ := hp
      exact moves_filter lib i q w g c x ha
    | database c =>
      simp only [answer, Option.map_eq_some_iff, Prod.mk.injEq] at hp
      obtain ⟨⟨r, db⟩, hr, rfl, rfl⟩ := hp
      exact moves_database lib i q x w g c r db ha hr
    | _ =>
      simp only [answer, Option.some.injEq, Prod.mk.injEq] at hp
      obtain ⟨rfl, rfl⟩ := hp
      exact .other _ _ rfl (fun _ => rfl)

variable {lib i q}

theorem denial_of_move {x : Choice} {v v' : View} {g g' : Hand} {c : Command}
    {reply : Except Failure (Reply c)} {a : Email} (hm : Moves lib i q x v g c reply v' g')
    (hd : denial q g c reply = some a) :
    a ∉ v.items ∧ vouched q g = true ∧ c = .filter (.exists a) := by
  cases hm with
  | look item hit certain =>
    simp only [denial] at hd
    split at hd
    case isTrue hmiss =>
      cases hd
      refine ⟨fun hin => ?_, hmiss.2, rfl⟩
      rw [certain hin] at hmiss
      cases hmiss.1
    case isFalse => cases hd
  | other c reply denied quiet =>
    rw [denied] at hd
    cases hd
  | _ => cases hd

theorem marker_of_vouched {g : Hand} (h : vouched q g = true) : g.marker ≠ none := by
  intro hnone
  simp [vouched, hnone] at h

theorem accounts_of_move {x : Choice} {v v' : View} {g g' : Hand} {c : Command}
    {reply : Except Failure (Reply c)} (hm : Moves lib i q x v g c reply v' g') {a : Email}
    (ha : a ∈ v.accounts) : a ∈ v'.accounts := by
  cases hm with
  | commit changes remembered => exact List.mem_append_left _ ha
  | _ => exact ha

theorem view_passed (d : Passing) (w : World) : view (passed d w) = view w := by
  cases d <;> rfl

end Gamely.FilterMoves
