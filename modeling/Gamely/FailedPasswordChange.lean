import Gamely.FailedRefresh

/-!
# Password changes that fail half-way

A reset or a change is run alone and one of its calls fails. What is left depends
on where: before the commit nothing has changed, at the commit of a reset the code
is gone, and after it only the families already swept are signed out.
-/

set_option autoImplicit false

namespace Gamely.FailedPasswordChange
open Gamely.Calls Gamely.Sequential Gamely.ExpiringStore Gamely.Stores Gamely.EmailJobs
open Gamely.Services Gamely.TokenService Gamely.EmailFilter Gamely.AuthService
open Gamely.SessionIndex Gamely.FailedRefresh Gamely.Footprints

variable (lib : Libraries)

/-- Call number `n` fails; the hash is made with this salt and the sweep goes over the
families in this order. -/
def failing (salt : String) (order : List String) (n k : ℕ) : Choice :=
  { name := salt, order := order, fail := k = n }

/-- A call that replaces a password. -/
inductive Replacing where
  | change (user : UserId) (current new : String)
  | reset (email code password : String)

def replace (session : ℕ) : Replacing → Act Unit
  | .change user current new => changePassword lib session user current new
  | .reset email code password => resetPassword lib session email code password

def Replacing.password : Replacing → String
  | .change _ _ new => new
  | .reset _ _ password => password

/-- The position of the first call of the sweep. -/
def Replacing.sweepFrom : Replacing → ℕ
  | .change .. => 3
  | .reset .. => 5

def account (w : World) : Replacing → Option User
  | .change user _ _ => w.database.users.find? (fun u => u.id = user)
  | .reset email _ _ => match normalizeEmail lib email with
    | .ok email => w.database.users.find? (fun u => u.email = email)
    | .error _ => none

/-- `_consume_code` would accept the code. -/
def acceptable (w : World) (email : Email) (code : String) : Bool :=
  match ExpiringStore.get w.now w.codes.code ⟨email, .reset⟩ with
  | some ⟨digest, attempts⟩ => attempts < 4 && digest = lib.sha256 code
  | none => false

/-- The proof that comes with the call is good. -/
def proven (w : World) (row : User) : Replacing → Bool
  | .change _ current _ => passwordMatches lib row current
  | .reset _ code _ => acceptable lib w row.email code

def accepted (w : World) (q : Replacing) : Bool :=
  match checkPassword q.password, account lib w q with
  | .ok _, some row => proven lib w row q
  | _, _ => false

def hashOf (w : World) (user : UserId) : Option Hash :=
  (w.database.users.find? (fun u => u.id = user)).bind User.passwordHash

/-- The code that came with a reset is as good as before. -/
def codeKept (w w' : World) (row : User) : Replacing → Prop
  | .change .. => True
  | .reset _ code _ =>
    acceptable lib w row.email code = true → acceptable lib w' row.email code = true

/-- No partial change: all old, or the new hash and no session from before. -/
def Whole (salt : String) (w w' : World) (q : Replacing) : Prop :=
  ∀ row, account lib w q = some row →
    (hashOf w' row.id = hashOf w row.id ∧ codeKept lib w w' row q) ∨
    (hashOf w' row.id = some (lib.hash q.password salt) ∧ signedOut row.id w')

/-! ## The sweep -/

def iterated (order families : List String) : List String :=
  if order.isPerm families then order else families

/-- Every live token of the user is listed in one of these families. -/
def Listed (w : World) (user : UserId) (families : List FamilyId) : Prop :=
  ∀ d session, ExpiringStore.get w.now w.sessions.refresh d = some session →
    session.user = user →
    ∃ family ∈ families, d ∈ members w.now w.sessions.family ⟨user, family⟩

def endFamily (user : UserId) (w : World) (family : FamilyId) : World :=
  let session : Session := ⟨user, family⟩
  { w with sessions := revoked w.now w.sessions (members w.now w.sessions.family session) session }

def swept (user : UserId) (w : World) (families : List FamilyId) : World :=
  families.foldl (endFamily user) w

/-- The families swept before call number `n`, when the sweep begins at `k`. -/
def sweptBefore (w : World) (user : UserId) (order : List String) (k n : ℕ) : List FamilyId :=
  (iterated order (members w.now w.sessions.sessions user)).take ((n-(k+2))/2)

/-- When the call that fails, number `n`, leaves no partial change: the request was
refused anyway, the new password was not committed or is the old one, or nothing is left
to sweep. -/
inductive Spared (salt : String) (order : List String) (n : ℕ) (w : World) (q : Replacing) : Prop
  | refused (h : accepted lib w q = false)
  | early (h : n ≤ 2)
  | same {user : UserId} {current new : String} (hq : q = .change user current new)
      (h : hashOf w user = some (lib.hash new salt))
  | late {row : User} (h : account lib w q = some row)
      (hn : q.sweepFrom ≤ n ∨ hashOf w row.id = some (lib.hash q.password salt))
      (hl : Listed w row.id (sweptBefore w row.id order q.sweepFrom n))

variable {lib} {w w' : World} {user : UserId} {salt : String} {order : List String} {n m k : ℕ}

theorem swept_now (families : List FamilyId) : (swept user w families).now = w.now := by
  induction families generalizing w with
  | nil => rfl
  | cons family families ih => exact ih

theorem swept_database (families : List FamilyId) :
    (swept user w families).database = w.database := by
  induction families generalizing w with
  | nil => rfl
  | cons family families ih => exact ih

theorem swept_codes (families : List FamilyId) : (swept user w families).codes = w.codes := by
  induction families generalizing w with
  | nil => rfl
  | cons family families ih => exact ih

theorem members_del (now : ℕ) (s : Store Session (List Digest)) (k j : Session) :
    members now (del s k) j = if j = k then [] else members now s j := by
  by_cases h : j = k
  · subst h
    simp [members, ExpiringStore.get, peek]
  · simp [members, ExpiringStore.get, peek, del_ne s k h, h]

/-- A sweep takes away just the digests its families list. -/
theorem swept_refresh (families : List FamilyId) (d : Digest) :
    (swept user w families).sessions.refresh d =
      if ∃ family ∈ families, d ∈ members w.now w.sessions.family ⟨user, family⟩ then none
      else w.sessions.refresh d := by
  induction families generalizing w with
  | nil => simp [swept]
  | cons family families ih =>
    show (swept user (endFamily user w family) families).sessions.refresh d = _
    rw [ih]
    simp only [endFamily, revoked, members_del, delAll]
    by_cases hd : d ∈ members w.now w.sessions.family ⟨user, family⟩
    · simp [hd]
    · have hmem : ∀ f, (d ∈ (if (⟨user, f⟩ : Session) = ⟨user, family⟩ then []
          else members w.now w.sessions.family ⟨user, f⟩)) ↔
          d ∈ members w.now w.sessions.family ⟨user, f⟩ := by
        intro f
        split
        case isTrue h =>
          rw [h]
          simp [hd]
        case isFalse => rfl
      simp only [hmem, List.mem_cons, exists_eq_or_imp, hd, false_or, if_false]

theorem signedOut_swept (families : List FamilyId) :
    signedOut user (swept user w families) ↔ Listed w user families := by
  have hget : ∀ d, ExpiringStore.get w.now (swept user w families).sessions.refresh d =
      if ∃ family ∈ families, d ∈ members w.now w.sessions.family ⟨user, family⟩ then none
      else ExpiringStore.get w.now w.sessions.refresh d := by
    intro d
    simp only [ExpiringStore.get, peek, swept_refresh]
    split <;> rfl
  constructor
  · intro h d session hd hu
    by_contra hn
    refine h d session ?_ hu
    rw [swept_now, hget, if_neg hn]
    exact hd
  · intro h d session hd hu
    rw [swept_now, hget] at hd
    split at hd
    case isTrue => cases hd
    case isFalse hn => exact hn (h d session hd hu)

/-! ## One failing call -/

theorem perform_failing {c : Command} (hc : c.isLocal = false) (k : ℕ) :
    perform lib c (failing salt order n k) w =
      if k = n then some (.error .external, w)
      else answer lib (failing salt order n k) w c := by
  unfold perform
  by_cases h : k = n <;> simp [failing, h, hc]

theorem runOn_redis_failing (c : SessionCall) (k : ℕ) :
    runOn (perform lib) (failing salt order n) k (redis c) w =
      if k = n then some (.error .external, w, k+1)
      else some (.ok (c.perform w.now w.sessions).1,
        { w with sessions := (c.perform w.now w.sessions).2 }, k+1) := by
  rw [redis, runOn_invoke, perform_failing rfl]
  split <;> rfl

theorem runOn_revokeFamily (family : FamilyId) (k : ℕ) :
    runOn (perform lib) (failing salt order n) k (revokeFamily ⟨user, family⟩) w =
      if k = n ∨ k+1 = n then some (.error .external, w, n+1)
      else some (.ok (), endFamily user w family, k+2) := by
  rw [revokeFamily, runOn_bind, runOn_redis_failing]
  by_cases h : k = n
  · simp [h, afterwards]
  · rw [if_neg h, Option.bind_some, afterwards, runOn_redis_failing]
    by_cases h' : k+1 = n
    · subst h'
      simp [SessionCall.perform]
    · simp only [h, h', or_self, if_false]
      rfl

/-- A sweep that fails has ended the families before, two calls for each. -/
theorem runOn_sweep (families : List FamilyId) (k : ℕ) :
    runOn (perform lib) (failing salt order n) k
      (forM families (fun family => revokeFamily ⟨user, family⟩)) w =
      if k ≤ n ∧ n < k+2*families.length then
        some (.error .external, swept user w (families.take ((n-k)/2)), n+1)
      else some (.ok (), swept user w families, k+2*families.length) := by
  induction families generalizing k w with
  | nil =>
    have hn : ¬(k ≤ n ∧ n < k+2*([] : List FamilyId).length) := by
      simp only [List.length_nil]
      omega
    rw [if_neg hn]
    rfl
  | cons family families ih =>
    have hlen : (family::families).length = families.length+1 := rfl
    rw [List.forM_cons, runOn_bind, runOn_revokeFamily, hlen]
    by_cases h : k = n ∨ k+1 = n
    · have hlt : k ≤ n ∧ n < k+2*(families.length+1) := by omega
      have hz : (n-k)/2 = 0 := by omega
      rw [if_pos h, if_pos hlt, hz]
      rfl
    · rw [if_neg h, Option.bind_some, afterwards, ih (k+2)]
      by_cases hlt : k ≤ n ∧ n < k+2*(families.length+1)
      · have hlt' : k+2 ≤ n ∧ n < k+2+2*families.length := by omega
        have hs : (n-k)/2 = (n-(k+2))/2+1 := by omega
        rw [if_pos hlt, if_pos hlt', hs, List.take_succ_cons]
        rfl
      · have hlt' : ¬(k+2 ≤ n ∧ n < k+2+2*families.length) := by omega
        have he : k+2+2*families.length = k+2*(families.length+1) := by omega
        rw [if_neg hlt, if_neg hlt', he]
        rfl

theorem revokeAll_failing {r : Except Failure Unit}
    (h : runOn (perform lib) (failing salt order n) k (revokeAll user) w = some (r, w', m)) :
    (r = .ok () ∧ w'.database = w.database) ∨
      (k ≤ n ∧ r = .error .external ∧ w' = swept user w (sweptBefore w user order k n)) := by
  rw [revokeAll, runOn_bind, runOn_redis_failing] at h
  by_cases hk : k = n
  · have hz : (n-(n+2))/2 = 0 := by omega
    rw [if_pos hk] at h
    cases h
    rw [sweptBefore, hk, hz]
    exact Or.inr ⟨le_rfl, rfl, rfl⟩
  · have hiterate : ∀ xs, runOn (perform lib) (failing salt order n) (k+1) (iterate xs) w =
        some (.ok (iterated order xs), w, k+2) := by
      intro xs
      rw [iterate, runOn_invoke]
      simp only [perform, Command.isLocal, Bool.true_eq_false, and_false, if_false]
      rfl
    rw [if_neg hk, Option.bind_some, afterwards, runOn_bind] at h
    simp only [SessionCall.perform] at h
    rw [hiterate, Option.bind_some, afterwards, runOn_bind, runOn_sweep] at h
    generalize hf : iterated order (members w.now w.sessions.sessions user) = families at h
    by_cases hlt : k+2 ≤ n ∧ n < k+2+2*families.length
    · rw [if_pos hlt] at h
      cases h
      rw [sweptBefore, hf]
      exact Or.inr ⟨by omega, rfl, rfl⟩
    · rw [if_neg hlt, Option.bind_some, afterwards, runOn_redis_failing] at h
      by_cases hn : k+2+2*families.length = n
      · have hall : (n-(k+2))/2 = families.length := by omega
        rw [if_pos hn] at h
        cases h
        rw [sweptBefore, hf, hall, List.take_length]
        exact Or.inr ⟨by omega, rfl, rfl⟩
      · rw [if_neg hn] at h
        cases h
        exact Or.inl ⟨rfl, swept_database families⟩

/-! ## The commit -/

def committedHash (w : World) (session : ℕ) (user : UserId) (h : Hash) : World :=
  { w with database := committed w.database session [.passwordHash user h] }

theorem hashOf_committed {session : ℕ} {h : Hash} (hu : ∃ u ∈ w.database.users, u.id = user) :
    hashOf (committedHash w session user h) user = some h := by
  obtain ⟨u, hm, hid⟩ := hu
  have hfound : (w.database.users.find? (fun u => u.id = user)).isSome = true := by
    rw [List.find?_isSome]
    exact ⟨u, hm, by simp [hid]⟩
  obtain ⟨row, hrow⟩ := Option.isSome_iff_exists.mp hfound
  have hrid : row.id = user := by simpa using List.find?_some hrow
  have hsame : ((fun u : User => decide (u.id = user)) ∘ fun u =>
      if u.id = user then { u with passwordHash := some h } else u) =
      fun u => decide (u.id = user) := by
    funext u
    simp only [Function.comp_apply]
    split <;> rfl
  have hnew : (w.database.users.map (fun u =>
      if u.id = user then { u with passwordHash := some h } else u)).find? (fun u => u.id = user) =
      some { row with passwordHash := some h } := by
    rw [List.find?_map, hsame, hrow, Option.map_some, if_pos hrid]
  simp only [hashOf, committedHash, committed, List.foldl_cons, List.foldl_nil, Change.apply,
    List.map_append, List.find?_append, hnew, Option.some_or, Option.bind_some]

/-- Hashing, committing and sweeping: the commit fails, or the sweep does after it. -/
theorem runOn_replace {session : ℕ} {password : String} {e : Failure}
    (h : runOn (perform lib) (failing salt order n) k (do
      let h ← hash password
      commit session [.passwordHash user h]
      revokeAll user) w = some (.error e, w', m)) :
    (k+1 = n ∧ w' = w) ∨ (k+2 ≤ n ∧
      w' = swept user (committedHash w session user (lib.hash password salt))
        (sweptBefore w user order (k+2) n)) := by
  have hhash : runOn (perform lib) (failing salt order n) k (hash password) w =
      some (.ok (lib.hash password salt), w, k+1) := by
    rw [AuthService.hash, runOn_invoke]
    simp only [perform, Command.isLocal, Bool.true_eq_false, and_false, if_false]
    rfl
  rw [runOn_bind, hhash, Option.bind_some, afterwards, runOn_bind, commit, database, runOn_invoke,
    perform_failing rfl] at h
  by_cases hn : k+1 = n
  · rw [if_pos hn] at h
    cases h
    exact Or.inl ⟨hn, rfl⟩
  · rw [if_neg hn] at h
    have hcommit : answer lib (failing salt order n (k+1)) w
        (.database (.commit session [.passwordHash user (lib.hash password salt)])) =
        some (.ok (), committedHash w session user (lib.hash password salt)) := rfl
    rw [hcommit, Option.map_some, Option.bind_some, afterwards] at h
    rcases revokeAll_failing h with ⟨hr, -⟩ | ⟨hle, -, hw⟩
    · cases hr
    · exact Or.inr ⟨hle, hw⟩

/-! ## The code of a reset -/

theorem runOn_codes_failing (c : CodeCall) (k : ℕ) :
    runOn (perform lib) (failing salt order n) k (AuthService.codes c) w =
      if k = n then some (.error .external, w, k+1)
      else some (.ok (c.perform w.now w.codes).1,
        { w with codes := (c.perform w.now w.codes).2 }, k+1) := by
  rw [AuthService.codes, runOn_invoke, perform_failing rfl]
  split <;> rfl

theorem consume_acceptable {email : Email} {code : String}
    (h : acceptable lib w email code = true) :
    runOn (perform lib) (failing salt order n) k (consumeCode lib email .reset code) w =
      if k = n ∨ k+1 = n then some (.error .external, w, n+1)
      else some (.ok true, { w with codes.code := del w.codes.code ⟨email, .reset⟩ }, k+2) := by
  unfold acceptable at h
  split at h
  case h_2 => cases h
  case h_1 digest attempts hget =>
    obtain ⟨hfew, hdigest⟩ : attempts < 4 ∧ digest = lib.sha256 code := by simpa using h
    rw [consumeCode, runOn_bind, runOn_codes_failing]
    by_cases hk : k = n
    · simp [hk, afterwards]
    · have hmany : ¬4 ≤ attempts := by omega
      rw [if_neg hk, Option.bind_some, afterwards]
      simp only [CodeCall.perform, hget, if_neg hmany, hdigest, ne_eq, not_true, if_false]
      rw [runOn_bind, runOn_codes_failing]
      by_cases hk' : k+1 = n
      · subst hk'
        simp [afterwards]
      · rw [if_neg hk']
        simp only [hk, hk', or_self, if_false]
        rfl

theorem consume_unacceptable {email : Email} {code : String}
    (h : acceptable lib w email code = false) :
    runOn (perform lib) (failing salt order n) k (consumeCode lib email .reset code) w ≠
      some (.ok true, w', m) := by
  intro hrun
  rw [consumeCode, runOn_bind, runOn_codes_failing] at hrun
  by_cases hk : k = n
  · rw [if_pos hk] at hrun
    cases hrun
  · rw [if_neg hk, Option.bind_some, afterwards] at hrun
    simp only [CodeCall.perform] at hrun
    unfold acceptable at h
    split at h
    case h_2 hget =>
      rw [hget] at hrun
      cases hrun
    case h_1 digest attempts hget =>
      rw [hget] at hrun
      dsimp only at hrun
      split at hrun
      case isTrue =>
        rcases runOn_bind_some hrun with ⟨e, he, -⟩ | ⟨u, w₁, j, -, hrest⟩
        · cases he
        · cases hrest
      case isFalse hfew =>
        have hdigest : digest ≠ lib.sha256 code := by
          intro he
          have hlt : attempts < 4 := by omega
          simp [he, hlt] at h
        rw [if_pos hdigest] at hrun
        rcases runOn_bind_some hrun with ⟨e, he, -⟩ | ⟨t, w₁, j, -, hrest⟩
        · cases he
        · rcases runOn_bind_some hrest with ⟨e, he, -⟩ | ⟨u, w₂, j, -, hrest⟩
          · cases he
          · cases hrest

theorem database_of_consume {email : Email} {code : String} {r : Except Failure Bool}
    {schedule : ℕ → Choice}
    (h : runOn (perform lib) schedule k (consumeCode lib email .reset code) w = some (r, w', m)) :
    w'.database = w.database := by
  refine runOn_preserves (I := fun w₁ => w₁.database = w.database) ?_
    (consumeCode_within lib email .reset code) rfl h
  intro c x w₁ r₁ w₂ hc hd hp
  cases c with
  | code c =>
    rcases perform_cases hp with ⟨-, -, -, rfl⟩ | ⟨-, ha⟩
    · exact hd
    · cases ha
      exact hd
  | database c =>
    cases c with
    | commit session changes =>
      simp only [part] at hc
      split at hc <;> simp at hc
    | _ => simp [part] at hc
  | filter c =>
    cases c with
    | _ => simp [part] at hc
  | _ => simp [part] at hc

/-! ## What a failed call leaves -/

/-- The code of this reset has been consumed. -/
def consumed (w : World) (email : Email) : World :=
  { w with codes.code := del w.codes.code ⟨email, .reset⟩ }

theorem hashOf_swept (families : List FamilyId) (u : UserId) :
    hashOf (swept user w families) u = hashOf w u := by
  simp only [hashOf, swept_database]

theorem runOn_read {c : DatabaseCall} {r : Except Failure c.Reply} (k : ℕ)
    (hc : c.perform w.database = some (r, w.database)) :
    runOn (perform lib) (failing salt order n) k (EmailFilter.database c) w =
      if k = n then some (.error .external, w, k+1) else some (r, w, k+1) := by
  rw [EmailFilter.database, runOn_invoke, perform_failing rfl]
  split
  · rfl
  · simp only [answer, hc]
    rfl

theorem change_run {session : ℕ} {current new : String} {e : Failure}
    (h : runOn (perform lib) (failing salt order n) 0
      (changePassword lib session user current new) w =
      some (.error e, w', m)) :
    (w' = w ∧ (accepted lib w (.change user current new) = false ∨ n ≤ 2)) ∨
    ∃ row, account lib w (.change user current new) = some row ∧
      accepted lib w (.change user current new) = true ∧ 3 ≤ n ∧
      w' = swept row.id (committedHash w session row.id (lib.hash new salt))
        (sweptBefore w row.id order 3 n) := by
  rw [changePassword, runOn_bind, runOn_ofResult] at h
  simp only [accepted, Replacing.password, account, proven]
  cases hp : checkPassword new with
  | error e₁ =>
    rw [hp] at h
    cases h
    exact Or.inl ⟨rfl, Or.inl rfl⟩
  | ok u =>
    rw [hp, Option.bind_some, afterwards, runOn_bind, requireUser, runOn_bind,
      runOn_read 0 rfl] at h
    by_cases hn : 0 = n
    · rw [if_pos hn] at h
      cases h
      exact Or.inl ⟨rfl, Or.inr (by omega)⟩
    · rw [if_neg hn, Option.bind_some, afterwards] at h
      cases hrow : w.database.users.find? (fun u => u.id = user) with
      | none =>
        simp only [hrow] at h
        cases h
        exact Or.inl ⟨rfl, Or.inl rfl⟩
      | some row =>
        simp only [hrow] at h
        rw [runOn_pure, Option.bind_some, afterwards] at h
        dsimp only
        cases hm : passwordMatches lib row current with
        | false =>
          rw [hm] at h
          cases h
          exact Or.inl ⟨rfl, Or.inl rfl⟩
        | true =>
          rw [hm, if_pos rfl] at h
          rcases runOn_replace h with ⟨hk, rfl⟩ | ⟨hk, rfl⟩
          · exact Or.inl ⟨rfl, Or.inr (by omega)⟩
          · exact Or.inr ⟨row, rfl, rfl, hk, rfl⟩

theorem reset_run {session : ℕ} {email code password : String} {e : Failure}
    (h : runOn (perform lib) (failing salt order n) 0
      (resetPassword lib session email code password) w = some (.error e, w', m)) :
    (w' = w ∧ (accepted lib w (.reset email code password) = false ∨ n ≤ 2)) ∨
    (w'.database = w.database ∧ ∃ row, account lib w (.reset email code password) = some row ∧
      acceptable lib w row.email code = false) ∨
    ∃ row, account lib w (.reset email code password) = some row ∧
      accepted lib w (.reset email code password) = true ∧
      ((n = 4 ∧ w' = consumed w row.email) ∨
        (5 ≤ n ∧ w' = swept row.id
          (committedHash (consumed w row.email) session row.id (lib.hash password salt))
          (sweptBefore w row.id order 5 n))) := by
  rw [resetPassword, runOn_bind, runOn_ofResult] at h
  simp only [accepted, Replacing.password, account, proven]
  cases hp : checkPassword password with
  | error e₁ =>
    rw [hp] at h
    cases h
    exact Or.inl ⟨rfl, Or.inl rfl⟩
  | ok u =>
    rw [hp, Option.bind_some, afterwards, runOn_bind, runOn_ofResult] at h
    cases ha : normalizeEmail lib email with
    | error e₁ =>
      rw [ha] at h
      cases h
      exact Or.inl ⟨rfl, Or.inl rfl⟩
    | ok address =>
      rw [ha, Option.bind_some, afterwards, runOn_bind, byEmail, runOn_read 0 rfl] at h
      by_cases hn : 0 = n
      · rw [if_pos hn] at h
        cases h
        exact Or.inl ⟨rfl, Or.inr (by omega)⟩
      · rw [if_neg hn, Option.bind_some, afterwards] at h
        dsimp only
        cases hrow : w.database.users.find? (fun u => u.email = address) with
        | none =>
          simp only [hrow] at h
          cases h
          exact Or.inl ⟨rfl, Or.inl rfl⟩
        | some row =>
          simp only [hrow] at h
          dsimp only
          cases hc : acceptable lib w row.email code with
          | false =>
            refine Or.inr (Or.inl ⟨?_, row, rfl, hc⟩)
            rcases runOn_bind_some h with ⟨e₁, -, hr⟩ | ⟨accepted, w₁, j, hr, hrest⟩
            · exact database_of_consume hr
            · rw [← database_of_consume hr]
              cases accepted with
              | true => exact absurd hr (consume_unacceptable hc)
              | false =>
                cases hrest
                rfl
          | true =>
            rw [runOn_bind, consume_acceptable hc] at h
            by_cases hk : 0+1 = n ∨ 0+1+1 = n
            · rw [if_pos hk] at h
              cases h
              exact Or.inl ⟨rfl, Or.inr (by omega)⟩
            · rw [if_neg hk, Option.bind_some, afterwards, if_pos rfl] at h
              refine Or.inr (Or.inr ⟨row, rfl, rfl, ?_⟩)
              rcases runOn_replace h with ⟨hk', rfl⟩ | ⟨hk', rfl⟩
              · exact Or.inl ⟨hk'.symm, rfl⟩
              · exact Or.inr ⟨hk', rfl⟩

theorem whole_same (q : Replacing) : Whole lib salt w w q :=
  fun _ _ => Or.inl ⟨rfl, by cases q <;> simp [codeKept]⟩

/-- Once the new hash is stored, only signing the user out everywhere makes it whole. -/
theorem replaced_iff {q : Replacing} {row : User} {w₁ : World} {session : ℕ}
    {families : List FamilyId}
    (hw : w' = swept row.id (committedHash w₁ session row.id (lib.hash q.password salt)) families)
    (hrow : account lib w q = some row)
    (hu : ∃ u ∈ w.database.users, u.id = row.id) (hd : w₁.database = w.database)
    (hs : w₁.sessions = w.sessions) (hn : w₁.now = w.now) :
    Whole lib salt w w' q ↔
      (hashOf w row.id = some (lib.hash q.password salt) ∧ codeKept lib w w' row q) ∨
        Listed w row.id families := by
  have hnew : hashOf w' row.id = some (lib.hash q.password salt) := by
    rw [hw, hashOf_swept]
    exact hashOf_committed (by rw [hd]; exact hu)
  have hlisted : signedOut row.id w' ↔ Listed w row.id families := by
    rw [hw, signedOut_swept]
    simp only [Listed, committedHash, hs, hn]
  constructor
  · intro h
    rcases h row hrow with ⟨hold, hkept⟩ | ⟨-, hout⟩
    · exact Or.inl ⟨hold ▸ hnew, hkept⟩
    · exact Or.inr (hlisted.mp hout)
  · intro h row' hrow'
    cases hrow.symm.trans hrow'
    rcases h with ⟨hold, hkept⟩ | hl
    · exact Or.inl ⟨hnew.trans hold.symm, hkept⟩
    · exact Or.inr ⟨hnew, hlisted.mpr hl⟩

theorem mem_of_account {q : Replacing} {row : User} (h : account lib w q = some row) :
    ∃ u ∈ w.database.users, u.id = row.id := by
  cases q with
  | change user current new => exact ⟨row, List.mem_of_find?_eq_some h, rfl⟩
  | reset email code password =>
    simp only [account] at h
    split at h
    case h_1 => exact ⟨row, List.mem_of_find?_eq_some h, rfl⟩
    case h_2 => cases h

theorem unacceptable_of_consumed {email : Email} {code : String}
    (h : w'.codes = (consumed w email).codes) : acceptable lib w' email code = false := by
  simp [acceptable, h, consumed, ExpiringStore.get, peek]

theorem acceptable_of_accepted {email code password : String} {row : User}
    (h : accepted lib w (.reset email code password) = true)
    (hrow : account lib w (.reset email code password) = some row) :
    acceptable lib w row.email code = true := by
  simp only [accepted, hrow] at h
  split at h
  case h_1 row' hp he =>
    cases he
    exact h
  case h_2 => cases h

theorem change_whole_iff {session : ℕ} {current new : String} {e : Failure}
    (h : runOn (perform lib) (failing salt order n) 0
      (changePassword lib session user current new) w =
      some (.error e, w', m)) :
    Whole lib salt w w' (.change user current new) ↔
      Spared lib salt order n w (.change user current new) := by
  rcases change_run h with ⟨rfl, hr | hr⟩ | ⟨row, hrow, ha, hn, hw⟩
  · exact iff_of_true (whole_same _) (Spared.refused hr)
  · exact iff_of_true (whole_same _) (Spared.early hr)
  · have hid : row.id = user := by simpa using List.find?_some hrow
    rw [replaced_iff hw hrow (mem_of_account hrow) rfl rfl rfl]
    constructor
    · rintro (⟨hold, -⟩ | hl)
      · exact Spared.same rfl (hid ▸ hold)
      · exact Spared.late hrow (Or.inl hn) hl
    · intro hsp
      cases hsp with
      | refused hr =>
        rw [ha] at hr
        cases hr
      | early he => omega
      | same hq hold =>
        cases hq
        exact Or.inl ⟨hid ▸ hold, trivial⟩
      | late hrow' _ hl =>
        cases hrow.symm.trans hrow'
        exact Or.inr hl

theorem reset_whole_iff {session : ℕ} {email code password : String} {e : Failure}
    (h : runOn (perform lib) (failing salt order n) 0
      (resetPassword lib session email code password) w = some (.error e, w', m)) :
    Whole lib salt w w' (.reset email code password) ↔
      Spared lib salt order n w (.reset email code password) := by
  rcases reset_run h with ⟨rfl, hr | hr⟩ | ⟨hd, row, hrow, hc⟩ |
    ⟨row, hrow, ha, ⟨hn, hw⟩ | ⟨hn, hw⟩⟩
  · exact iff_of_true (whole_same _) (Spared.refused hr)
  · exact iff_of_true (whole_same _) (Spared.early hr)
  · refine iff_of_true ?_ (Spared.refused ?_)
    · intro row' hrow'
      cases hrow.symm.trans hrow'
      refine Or.inl ⟨by simp only [hashOf, hd], fun hgood => ?_⟩
      rw [hc] at hgood
      cases hgood
    · simp only [accepted, hrow, proven]
      split <;> simp_all
  · have hgood := acceptable_of_accepted ha hrow
    have hgone : ¬codeKept lib w w' row (.reset email code password) := by
      intro hkept
      have hnow := hkept hgood
      rw [unacceptable_of_consumed (by rw [hw])] at hnow
      cases hnow
    have hnone : sweptBefore w row.id order 5 n = [] := by
      have hz : (n-(5+2))/2 = 0 := by omega
      simp [sweptBefore, hz]
    have hold : hashOf w' row.id = hashOf w row.id := by
      rw [hw]
      rfl
    have hlisted : signedOut row.id w' ↔ Listed w row.id [] := by
      rw [hw]
      exact signedOut_swept []
    constructor
    · intro hwhole
      rcases hwhole row hrow with ⟨-, hkept⟩ | ⟨hnew, hout⟩
      · exact absurd hkept hgone
      · refine Spared.late hrow (Or.inr (hold ▸ hnew)) ?_
        rw [Replacing.sweepFrom, hnone]
        exact hlisted.mp hout
    · intro hsp
      cases hsp with
      | refused hr =>
        rw [ha] at hr
        cases hr
      | early he => omega
      | same hq => cases hq
      | late hrow' hlate hl =>
        cases hrow.symm.trans hrow'
        rw [Replacing.sweepFrom, hnone] at hl
        have hnew : hashOf w row.id = some (lib.hash password salt) := by
          refine hlate.resolve_left ?_
          simp only [Replacing.sweepFrom]
          omega
        intro row' hrow'
        cases hrow.symm.trans hrow'
        exact Or.inr ⟨hold.trans hnew, hlisted.mpr hl⟩
  · have hgood := acceptable_of_accepted ha hrow
    have hw' : w' = swept row.id (committedHash (consumed w row.email) session row.id
        (lib.hash (Replacing.reset email code password).password salt))
        (sweptBefore w row.id order 5 n) := hw
    rw [replaced_iff hw' hrow (mem_of_account hrow) rfl rfl rfl]
    constructor
    · rintro (⟨-, hkept⟩ | hl)
      · have hnow := hkept hgood
        rw [unacceptable_of_consumed (by rw [hw, swept_codes]; rfl)] at hnow
        cases hnow
      · exact Spared.late hrow (Or.inl hn) hl
    · intro hsp
      cases hsp with
      | refused hr =>
        rw [ha] at hr
        cases hr
      | early he => omega
      | same hq => cases hq
      | late hrow' _ hl =>
        cases hrow.symm.trans hrow'
        exact Or.inr hl

/-- A reset or a change that raises because of one failing call leaves no partial change
just when it is spared. -/
theorem no_partial_change_iff (lib : Libraries) (salt : String) (order : List String) (n m : ℕ)
    (session : ℕ) (q : Replacing) (w w' : World) (e : Failure)
    (h : runOn (perform lib) (failing salt order n) 0 (replace lib session q) w =
      some (.error e, w', m)) :
    Whole lib salt w w' q ↔ Spared lib salt order n w q := by
  cases q with
  | change user current new => exact change_whole_iff h
  | reset email code password => exact reset_whole_iff h

/-! ## A change that fails -/

/-- The account of `oneAccount`, signed in twice. -/
def signedInTwice : World :=
  { signedIn with sessions := issued 0 signedIn.sessions "u" ⟨"user", "g"⟩ 2592000 }

/-- A change of the password whose call number `n` fails. -/
def changeFailing (n : ℕ) : Option (Except Failure Unit × World × ℕ) :=
  runOn (perform Requests.plainLibraries) (failing "" [] n) 0
    (replace Requests.plainLibraries 0 (.change "user" "long password" "another password"))
    signedInTwice

theorem raised_of_changeFailing
    (h : (changeFailing n).map Prod.fst = some (.error .external)) :
    ∃ w' m, changeFailing n = some (.error .external, w', m) := by
  obtain ⟨⟨r, w', m⟩, hr, rfl⟩ := Option.map_eq_some_iff.mp h
  exact ⟨w', m, hr⟩

/-- A failed commit has changed nothing. -/
theorem no_partial_change_at_commit : ∃ w' m, changeFailing 2 = some (.error .external, w', m) ∧
    Whole Requests.plainLibraries "" signedInTwice w'
      (.change "user" "long password" "another password") := by
  obtain ⟨w', m, h⟩ := raised_of_changeFailing (n := 2) (by decide +kernel)
  exact ⟨w', m, h, (no_partial_change_iff _ _ _ _ _ _ _ _ _ _ h).mpr (Spared.early (by decide))⟩

/-- When the first family has been swept, the second is still signed in. -/
theorem partial_change_in_sweep : ∃ w' m, changeFailing 7 = some (.error .external, w', m) ∧
    ¬Whole Requests.plainLibraries "" signedInTwice w'
      (.change "user" "long password" "another password") := by
  obtain ⟨w', m, h⟩ := raised_of_changeFailing (n := 7) (by decide +kernel)
  refine ⟨w', m, h, fun hwhole => ?_⟩
  have hrow : account Requests.plainLibraries signedInTwice
      (.change "user" "long password" "another password") =
      some ⟨"user", "a@b", some "long password", none⟩ := by decide +kernel
  have hold : hashOf signedInTwice "user" ≠ some "another password" := by decide +kernel
  have hlive : ExpiringStore.get signedInTwice.now signedInTwice.sessions.refresh "t" =
      some ⟨"user", "f"⟩ := by decide +kernel
  have hunlisted : ∀ family ∈ sweptBefore signedInTwice "user" [] 3 7,
      "t" ∉ members signedInTwice.now signedInTwice.sessions.family ⟨"user", family⟩ := by
    decide +kernel
  cases (change_whole_iff h).mp hwhole with
  | refused hr => exact absurd hr (by decide +kernel)
  | early he => omega
  | same hq hsame =>
    cases hq
    exact hold hsame
  | late hrow' _ hl =>
    cases hrow.symm.trans hrow'
    obtain ⟨family, hf, ht⟩ := hl "t" _ hlive rfl
    exact hunlisted family hf ht

end Gamely.FailedPasswordChange
