import Mathlib.Data.List.Basic

/-!
# An abstract session machine

What refresh tokens are for, with no store behind them. A ticket is a token with
the time it was issued and, once it is exchanged, the time of that. Both a
token and the memory of its exchange last one lifetime, and a family ends once.
-/

set_option autoImplicit false

namespace Gamely.SessionMachine

variable {U F T : Type}

structure Ticket (U F T : Type) where
  token : T
  user : U
  family : F
  issued : ℕ
  exchanged : Option ℕ

structure Machine (U F T : Type) where
  now : ℕ
  tickets : List (Ticket U F T)
  ended : List (U × F)

def Machine.start (now : ℕ) : Machine U F T := ⟨now, [], []⟩

def Ticket.session (t : Ticket U F T) : U × F := (t.user, t.family)

/-- The lifetime counts from the exchange, or from the issue before there is one. -/
def Ticket.expiry (lifetime : ℕ) (t : Ticket U F T) : ℕ := t.exchanged.getD t.issued+lifetime

def Live (lifetime : ℕ) (m : Machine U F T) (t : Ticket U F T) : Prop :=
  m.now < t.expiry lifetime ∧ t.session ∉ m.ended

/-- Issued less than a lifetime ago, never exchanged, in a family not ended. -/
def Usable (lifetime : ℕ) (m : Machine U F T) (t : Ticket U F T) : Prop :=
  t.exchanged = none ∧ Live lifetime m t

/-- Exchanged less than a lifetime ago, in a family not ended. -/
def Replayable (lifetime : ℕ) (m : Machine U F T) (t : Ticket U F T) : Prop :=
  t.exchanged ≠ none ∧ Live lifetime m t

def Machine.add (m : Machine U F T) (t : Ticket U F T) : Machine U F T :=
  { m with tickets := t :: m.tickets }

def Machine.endFamily (m : Machine U F T) (session : U × F) : Machine U F T :=
  { m with ended := session :: m.ended }

section Tokens

variable [DecidableEq T]

def marked (now : ℕ) (token : T) (t : Ticket U F T) : Ticket U F T :=
  if t.token = token then { t with exchanged := some now } else t

def Machine.exchange (m : Machine U F T) (token : T) : Machine U F T :=
  { m with tickets := m.tickets.map (marked m.now token) }

def Machine.find (m : Machine U F T) (token : T) : Option (Ticket U F T) :=
  m.tickets.find? (fun t => t.token = token)

theorem find_eq_some (m : Machine U F T) (token : T) (t : Ticket U F T)
    (h : m.find token = some t) : t ∈ m.tickets ∧ t.token = token :=
  ⟨List.mem_of_find?_eq_some h, by simpa using List.find?_some h⟩

theorem find_of_mem (m : Machine U F T)
    (distinct : ∀ t ∈ m.tickets, ∀ t' ∈ m.tickets, t.token = t'.token → t = t')
    (t : Ticket U F T) (h : t ∈ m.tickets) : m.find t.token = some t := by
  rcases hf : m.find t.token with _ | t'
  · have := List.find?_eq_none.mp hf t h
    simp at this
  · obtain ⟨hm, ht⟩ := find_eq_some m t.token t' hf
    rw [distinct t' hm t h ht]

theorem mem_exchange (m : Machine U F T) (token : T) (t : Ticket U F T) :
    t ∈ (m.exchange token).tickets ↔
      (t ∈ m.tickets ∧ t.token ≠ token) ∨
      ∃ t' ∈ m.tickets, t'.token = token ∧ t = { t' with exchanged := some m.now } := by
  simp only [Machine.exchange, List.mem_map, marked]
  constructor
  · rintro ⟨t', ht', rfl⟩
    by_cases h : t'.token = token
    · rw [if_pos h]
      exact Or.inr ⟨t', ht', h, rfl⟩
    · rw [if_neg h]
      exact Or.inl ⟨ht', h⟩
  · rintro (⟨ht, hne⟩ | ⟨t', ht', h, rfl⟩)
    · exact ⟨t, ht, if_neg hne⟩
    · exact ⟨t', ht', if_pos h⟩

end Tokens

variable [DecidableEq U] [DecidableEq F] [DecidableEq T]

instance (lifetime : ℕ) (m : Machine U F T) (t : Ticket U F T) : Decidable (Live lifetime m t) :=
  inferInstanceAs (Decidable (_ ∧ _))

instance (lifetime : ℕ) (m : Machine U F T) (t : Ticket U F T) :
    Decidable (Usable lifetime m t) :=
  inferInstanceAs (Decidable (_ ∧ _))

instance (lifetime : ℕ) (m : Machine U F T) (t : Ticket U F T) :
    Decidable (Replayable lifetime m t) :=
  inferInstanceAs (Decidable (_ ∧ _))

def Machine.endUser (m : Machine U F T) (user : U) : Machine U F T :=
  { m with ended := (m.tickets.filter (fun t => t.user = user)).map Ticket.session ++ m.ended }

inductive Operation (U T : Type) where
  | issue (user : U)
  | present (token : T)
  | logout (token : T)
  | logoutAll (user : U)
  | elapse (milliseconds : ℕ)
  deriving DecidableEq

inductive Outcome (T : Type) where
  | issued (token : T)
  | exchanged (token : T)
  | rejected
  | done
  deriving DecidableEq

/-- The token and the family an operation names if it has to. -/
structure Names (F T : Type) where
  token : T
  family : F

def present (lifetime : ℕ) (m : Machine U F T) (token new : T) : Outcome T × Machine U F T :=
  match m.find token with
  | some t =>
    if Usable lifetime m t then
      (.exchanged new, (m.exchange token).add ⟨new, t.user, t.family, m.now, none⟩)
    else if Replayable lifetime m t then (.rejected, m.endFamily t.session)
    else (.rejected, m)
  | none => (.rejected, m)

def logout (lifetime : ℕ) (m : Machine U F T) (token : T) : Outcome T × Machine U F T :=
  match m.find token with
  | some t => if Usable lifetime m t then (.done, m.endFamily t.session) else (.done, m)
  | none => (.done, m)

def step (lifetime : ℕ) (m : Machine U F T) : Operation U T → Names F T →
    Outcome T × Machine U F T
  | .issue user, names =>
    (.issued names.token, m.add ⟨names.token, user, names.family, m.now, none⟩)
  | .present token, names => present lifetime m token names.token
  | .logout token, _ => logout lifetime m token
  | .logoutAll user, _ => (.done, m.endUser user)
  | .elapse milliseconds, _ => (.done, { m with now := m.now+milliseconds })

/-! ## What one operation does -/

variable {lifetime : ℕ} {m : Machine U F T} {t : Ticket U F T}

theorem present_usable (new : T) (hf : m.find t.token = some t) (hu : Usable lifetime m t) :
    present lifetime m t.token new =
      (.exchanged new, (m.exchange t.token).add ⟨new, t.user, t.family, m.now, none⟩) := by
  simp only [present, hf, if_pos hu]

theorem present_replayable (new : T) (hf : m.find t.token = some t)
    (hr : Replayable lifetime m t) :
    present lifetime m t.token new = (.rejected, m.endFamily t.session) := by
  simp only [present, hf, if_neg (fun hu : Usable lifetime m t => hr.1 hu.1), if_pos hr]

theorem present_other (token new : T)
    (hn : ∀ t, m.find token = some t → ¬ Usable lifetime m t ∧ ¬ Replayable lifetime m t) :
    present lifetime m token new = (.rejected, m) := by
  unfold present
  rcases hf : m.find token with _ | t
  · rfl
  · simp only [if_neg (hn t hf).1, if_neg (hn t hf).2]

theorem logout_usable (hf : m.find t.token = some t) (hu : Usable lifetime m t) :
    logout lifetime m t.token = (.done, m.endFamily t.session) := by
  simp only [logout, hf, if_pos hu]

theorem logout_other (token : T) (hn : ∀ t, m.find token = some t → ¬ Usable lifetime m t) :
    logout lifetime m token = (.done, m) := by
  unfold logout
  rcases hf : m.find token with _ | t
  · rfl
  · simp only [if_neg (hn t hf)]

end Gamely.SessionMachine
