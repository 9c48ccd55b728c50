import Gamely.Calls
import Gamely.Stores

/-!
# Redis

One keyspace of typed values and the commands that work on it. A command runs at one
instant; a script and a MULTI/EXEC pipeline are programs over commands that run at one
instant together. Nothing here knows what the keys are for: a caller that keeps its keys
apart may as well use its own.
-/

set_option autoImplicit false

namespace Gamely.RedisCommands
open Gamely.Calls Gamely.ExpiringStore Gamely.Stores

variable {K J A B : Type}

inductive Value where
  | text (s : String)
  | set (members : List String)
  | cuckoo (f : Cuckoo)
  deriving DecidableEq, Repr

inductive Operation where
  | get
  | set (value : String) (seconds : Option ℕ) (nx : Bool)
  | ttl
  | incr
  | expire (seconds : ℕ)
  | sadd (member : String)
  | srem (member : String)
  | smembers
  | cfReserve (params : FilterParams)
  | cfInsert (items : List String) (capacity : ℕ)
  | cfExists (item : String)
  deriving DecidableEq, Repr

/-- Every command but DEL works on one key. -/
inductive RedisCommand (K : Type) where
  | on (key : K) (op : Operation)
  | del (keys : List K)

inductive Resp where
  | null
  | ok
  | integer (n : ℤ)
  | text (s : String)
  | array (items : List String)
  | integers (ns : List ℤ)
  deriving DecidableEq, Repr

inductive Refusal where
  | wrongType
  | notInteger
  | invalidExpire
  | exists
  deriving DecidableEq, Repr

/-- The instant, the defaults of the filter module, and what its fingerprints happen to do. -/
structure Server where
  now : ℕ
  defaults : FilterParams
  hit : Bool
  refused : List ℕ

def Entry.map {V U : Type} (f : V → U) (e : Entry V) : Entry U := ⟨f e.value, e.deadline⟩

def seen {V : Type} (now : ℕ) (e : Option (Entry V)) : Option (Entry V) := e.filter (·.live now)

theorem peek_eq_seen {V : Type} (now : ℕ) (s : Store K V) (k : K) :
    peek now s k = seen now (s k) := rfl

/-- A text that INCR accepts: the one some integer prints. -/
def readInteger (s : String) : Option ℤ :=
  let n : ℤ := match s.toList with
    | '-'::digits => -Int.ofNat (Nat.ofDigitChars 10 digits 0)
    | digits => Int.ofNat (Nat.ofDigitChars 10 digits 0)
  if toString n = s then some n else none

def remaining {V : Type} (now : ℕ) : Option (Entry V) → ℤ
  | none => -2
  | some ⟨_, none⟩ => -1
  | some ⟨_, some t⟩ => ((t-now+500)/1000 : ℕ)

/-- The reply of a command on a key and what the key holds after it. -/
def Operation.effect (server : Server) :
    Operation → Option (Entry Value) → Except Refusal Resp × Option (Entry Value)
  | .get, e => match seen server.now e with
    | none => (.ok .null, e)
    | some ⟨.text s, _⟩ => (.ok (.text s), e)
    | some _ => (.error .wrongType, e)
  | .set value seconds nx, e =>
    if seconds = some 0 then (.error .invalidExpire, e)
    else if nx = true ∧ (seen server.now e).isSome = true then (.ok .null, e)
    else (.ok .ok, some ⟨.text value, seconds.bind (ex server.now)⟩)
  | .ttl, e => (.ok (.integer (remaining server.now (seen server.now e))), e)
  | .incr, e => match seen server.now e with
    | none => (.ok (.integer 1), some ⟨.text (toString (1 : ℤ)), none⟩)
    | some ⟨.text s, deadline⟩ => match readInteger s with
      | some n => (.ok (.integer (n+1)), some ⟨.text (toString (n+1)), deadline⟩)
      | none => (.error .notInteger, e)
    | some _ => (.error .wrongType, e)
  | .expire seconds, e => match seen server.now e with
    | none => (.ok (.integer 0), e)
    | some ⟨value, _⟩ =>
      if seconds = 0 then (.ok (.integer 1), none)
      else (.ok (.integer 1), some ⟨value, ex server.now seconds⟩)
  | .sadd member, e => match seen server.now e with
    | none => (.ok (.integer 1), some ⟨.set [member], none⟩)
    | some ⟨.set members, deadline⟩ =>
      (.ok (.integer (if member ∈ members then 0 else 1)),
        some ⟨.set (members.insert member), deadline⟩)
    | some _ => (.error .wrongType, e)
  | .srem member, e => match seen server.now e with
    | none => (.ok (.integer 0), e)
    | some ⟨.set members, deadline⟩ =>
      (.ok (.integer (if member ∈ members then 1 else 0)),
        if members.filter (· ≠ member) = [] then none
        else some ⟨.set (members.filter (· ≠ member)), deadline⟩)
    | some _ => (.error .wrongType, e)
  | .smembers, e => match seen server.now e with
    | none => (.ok (.array []), e)
    | some ⟨.set members, _⟩ => (.ok (.array members), e)
    | some _ => (.error .wrongType, e)
  | .cfReserve params, e => match seen server.now e with
    | none => (.ok .ok, some ⟨.cuckoo ⟨params, []⟩, none⟩)
    | some _ => (.error .exists, e)
  | .cfInsert items capacity, e => match seen server.now e with
    | none => (.ok (.integers (insertReplies server.refused items)),
        some ⟨.cuckoo (inserted server.defaults server.refused items capacity none), none⟩)
    | some ⟨.cuckoo f, deadline⟩ => (.ok (.integers (insertReplies server.refused items)),
        some ⟨.cuckoo (inserted server.defaults server.refused items capacity (some f)), deadline⟩)
    | some _ => (.error .wrongType, e)
  | .cfExists item, e => match seen server.now e with
    | none => (.ok (.integer 0), e)
    | some ⟨.cuckoo f, _⟩ =>
      (.ok (.integer (if contains server.hit item (some f) then 1 else 0)), e)
    | some _ => (.error .wrongType, e)

/-- DEL counts the keys it found alive. -/
def delete [DecidableEq K] (now : ℕ) : List K → Store K Value → ℕ × Store K Value
  | [], s => (0, s)
  | k::ks, s => ((delete now ks (del s k)).1 + (if (peek now s k).isSome then 1 else 0),
      (delete now ks (del s k)).2)

def RedisCommand.exec [DecidableEq K] (server : Server) :
    RedisCommand K → Store K Value → Except Refusal Resp × Store K Value
  | .on key op, s => ((op.effect server (s key)).1,
      Function.update s key (op.effect server (s key)).2)
  | .del keys, s => (.ok (.integer (delete server.now keys s).1), (delete server.now keys s).2)

/-! ## Scripts -/

abbrev Script (K A : Type) := Program (RedisCommand K) (fun _ => Resp) Refusal A

/-- `redis.call`, and a command sent alone. -/
def send (c : RedisCommand K) : Script K Resp := invoke c

def atomically [DecidableEq K] (server : Server) :
    Script K A → Store K Value → Except Refusal A × Store K Value
  | .done a, s => (.ok a, s)
  | .raised e, s => (.error e, s)
  | .call c next, s => atomically server (next (c.exec server s).1) (c.exec server s).2

def RedisCommand.Within (P : K → Prop) : RedisCommand K → Prop
  | .on key _ => P key
  | .del keys => ∀ k ∈ keys, P k

/-- A transaction runs all its commands, whatever each is answered. -/
def queued : List (RedisCommand K) → Script K (List (Except Refusal Resp))
  | [] => return []
  | c::cs => .call c (fun reply => (reply :: ·) <$> queued cs)

def firstRefusal : List (Except Refusal Resp) → Except Refusal Unit
  | [] => .ok ()
  | .ok _::replies => firstRefusal replies
  | .error e::_ => .error e

/-- `pipe.execute()`: the first refusal is raised once all commands have run. -/
def execute (cs : List (RedisCommand K)) : Script K Unit := do
  let replies ← queued cs
  ofResult (firstRefusal replies)

theorem atomically_bind [DecidableEq K] (server : Server) (p : Script K A) (f : A → Script K B)
    (s : Store K Value) : atomically server (p >>= f) s =
      match atomically server p s with
      | (.ok a, s') => atomically server (f a) s'
      | (.error e, s') => (.error e, s') := by
  change atomically server (Calls.bind p f) s = _
  induction p generalizing s with
  | done a => rfl
  | raised e => rfl
  | call c next ih => exact ih _ _

theorem atomically_tryCatch [DecidableEq K] (server : Server) (p : Script K A)
    (handler : Refusal → Script K A) (s : Store K Value) :
    atomically server (tryCatchThe Refusal p handler) s =
      match atomically server p s with
      | (.ok a, s') => (.ok a, s')
      | (.error e, s') => atomically server (handler e) s' := by
  change atomically server (Calls.tryCatch p handler) s = _
  induction p generalizing s with
  | done a => rfl
  | raised e => rfl
  | call c next ih => exact ih _ _

theorem atomically_ofResult [DecidableEq K] (server : Server) (r : Except Refusal A)
    (s : Store K Value) : atomically server (ofResult r : Script K A) s = (r, s) := by
  cases r <;> rfl

theorem atomically_send [DecidableEq K] (server : Server) (c : RedisCommand K)
    (s : Store K Value) : atomically server (send c) s = c.exec server s :=
  atomically_ofResult server _ _

/-- The commands of a transaction that are accepted one after the other, and where they lead. -/
inductive Accepted [DecidableEq K] (server : Server) :
    List (RedisCommand K) → Store K Value → Store K Value → Prop where
  | nil (s : Store K Value) : Accepted server [] s s
  | cons {c : RedisCommand K} {cs : List (RedisCommand K)} {s s' s'' : Store K Value} {reply : Resp}
      (first : c.exec server s = (.ok reply, s')) (rest : Accepted server cs s' s'') :
      Accepted server (c::cs) s s''

theorem accepted_append [DecidableEq K] {server : Server} {cs ds : List (RedisCommand K)}
    {s s' s'' : Store K Value} (h : Accepted server cs s s') (h' : Accepted server ds s' s'') :
    Accepted server (cs ++ ds) s s'' := by
  induction h with
  | nil s => exact h'
  | cons first rest ih => exact .cons first (ih h')

theorem atomically_queued [DecidableEq K] {server : Server} {cs : List (RedisCommand K)}
    {s s' : Store K Value} (h : Accepted server cs s s') : ∃ replies,
      atomically server (queued cs) s = (.ok replies, s') ∧ firstRefusal replies = .ok () := by
  induction h with
  | nil s => exact ⟨[], rfl, rfl⟩
  | @cons c cs s s₁ s₂ reply first rest ih =>
    obtain ⟨replies, hrun, hfirst⟩ := ih
    refine ⟨.ok reply::replies, ?_, hfirst⟩
    have hnext : atomically server ((Except.ok reply :: ·) <$> queued cs) s₁ =
        (.ok (.ok reply::replies), s₂) := by
      have hbind := atomically_bind server (queued cs)
        (fun replies => pure (Except.ok reply::replies)) s₁
      rw [hrun] at hbind
      exact hbind
    simp only [queued, atomically, first]
    exact hnext

theorem atomically_execute [DecidableEq K] {server : Server} {cs : List (RedisCommand K)}
    {s s' : Store K Value} (h : Accepted server cs s s') :
    atomically server (execute cs) s = (.ok (), s') := by
  obtain ⟨replies, hrun, hfirst⟩ := atomically_queued h
  rw [execute, atomically_bind, hrun]
  simp only [hfirst]
  rfl

theorem only_queued {P : K → Prop} {cs : List (RedisCommand K)} (h : ∀ c ∈ cs, c.Within P) :
    Only (RedisCommand.Within P) (queued cs) := by
  induction cs with
  | nil => trivial
  | cons c cs ih =>
    refine ⟨h c List.mem_cons_self, fun reply => ?_⟩
    exact only_map _ _ (ih (fun c' hc => h c' (List.mem_cons_of_mem c hc)))

theorem only_execute {P : K → Prop} {cs : List (RedisCommand K)} (h : ∀ c ∈ cs, c.Within P) :
    Only (RedisCommand.Within P) (execute cs) :=
  only_bind _ _ (only_queued h) (fun _ => only_ofResult _)

/-! ## Other names for the keys -/

def RedisCommand.rename (name : K → J) : RedisCommand K → RedisCommand J
  | .on key op => .on (name key) op
  | .del keys => .del (keys.map name)

def renamed (name : K → J) : Script K A → Script J A
  | .done a => .done a
  | .raised e => .raised e
  | .call c next => .call (c.rename name) (fun reply => renamed name (next reply))

/-- These keys have different names. -/
def Apart (name : K → J) (P : K → Prop) : Prop := ∀ j k, P j → P k → name j = name k → j = k

/-- One keyspace under the names of some of its keys, with nothing under any other name. -/
structure Named (name : K → J) (P : K → Prop) (s : Store K Value) (t : Store J Value) : Prop where
  reads : ∀ k, P k → t (name k) = s k
  others : ∀ j, (∀ k, P k → name k ≠ j) → t j = none

section
variable [DecidableEq K] [DecidableEq J] {name : K → J} {P : K → Prop} {s : Store K Value}
  {t : Store J Value}

theorem named_update (hinj : Apart name P) {k : K} (hk : P k)
    (h : Named name P s t) (e : Option (Entry Value)) :
    Named name P (Function.update s k e) (Function.update t (name k) e) := by
  refine ⟨fun j hj => ?_, fun j hj => ?_⟩
  · by_cases hjk : j = k
    · subst hjk
      rw [Function.update_self, Function.update_self]
    · have hne : name j ≠ name k := fun he => hjk (hinj j k hj hk he)
      rw [Function.update_of_ne hne, Function.update_of_ne hjk, h.reads j hj]
  · rw [Function.update_of_ne (hj k hk).symm, h.others j hj]

theorem delete_named (hinj : Apart name P) (now : ℕ) {ks : List K}
    (hks : ∀ k ∈ ks, P k) (h : Named name P s t) :
    (delete now (ks.map name) t).1 = (delete now ks s).1 ∧
      Named name P (delete now ks s).2 (delete now (ks.map name) t).2 := by
  induction ks generalizing s t with
  | nil => exact ⟨rfl, h⟩
  | cons k ks ih =>
    have hk := hks k List.mem_cons_self
    obtain ⟨hcount, hrest⟩ := ih (fun j hj => hks j (List.mem_cons_of_mem k hj))
      (named_update hinj hk h none)
    simp only [List.map_cons, delete, peek_eq_seen, h.reads k hk]
    exact ⟨congrArg (· + _) hcount, hrest⟩

theorem exec_named (hinj : Apart name P) (server : Server) {c : RedisCommand K}
    (hc : c.Within P) (h : Named name P s t) :
    ((c.rename name).exec server t).1 = (c.exec server s).1 ∧
      Named name P (c.exec server s).2 ((c.rename name).exec server t).2 := by
  cases c with
  | on key op =>
    simp only [RedisCommand.rename, RedisCommand.exec, h.reads key hc]
    exact ⟨trivial, named_update hinj hc h _⟩
  | del keys =>
    obtain ⟨hcount, hrest⟩ := delete_named hinj server.now hc h
    simp only [RedisCommand.rename, RedisCommand.exec, hcount]
    exact ⟨trivial, hrest⟩

/-- A script that keeps to keys whose names differ does under the names what it does to the
keys. -/
theorem atomically_named (hinj : Apart name P) (server : Server) {p : Script K A}
    (hp : Only (RedisCommand.Within P) p) (h : Named name P s t) :
    (atomically server (renamed name p) t).1 = (atomically server p s).1 ∧
      Named name P (atomically server p s).2 (atomically server (renamed name p) t).2 := by
  induction p generalizing s t with
  | done a => exact ⟨rfl, h⟩
  | raised e => exact ⟨rfl, h⟩
  | call c next ih =>
    obtain ⟨hreply, hrest⟩ := exec_named hinj server hp.1 h
    simp only [renamed, atomically]
    rw [hreply]
    exact ih _ (hp.2 _) hrest

end

end Gamely.RedisCommands
