import Gamely.RedisClient

/-!
# The stores in Redis

The record of stores is one keyspace: each store has its keys and writes its values as texts,
sets or filters. A command on a key is the operation of the store the key belongs to.
-/

set_option autoImplicit false

namespace Gamely.RedisStores
open Gamely.Calls Gamely.Stores Gamely.EmailJobs Gamely.Services Gamely.ExpiringStore
open Gamely.RedisCommands Gamely.RedisKeys Gamely.UUIDs Gamely.Requests Gamely.RedisClient

/-! ## Keys that differ -/

/-- How the text of a key begins. No beginning goes on as another one. -/
inductive Head where
  | refresh
  | reuse
  | family
  | sessions
  | code (purpose : Purpose)
  | cooldown (purpose : Purpose)
  | oauthNonce
  | throttle
  | emailFilter
  deriving DecidableEq

def Head.text : Head → String
  | .refresh => "auth:refresh:"
  | .reuse => "auth:reuse:"
  | .family => "auth:session:"
  | .sessions => "auth:sessions:"
  | .code purpose => "auth:code:" ++ purpose.text ++ ":"
  | .cooldown purpose => "auth:code:cooldown:" ++ purpose.text ++ ":"
  | .oauthNonce => "auth:oauth-nonce:"
  | .throttle => "auth:throttle:"
  | .emailFilter => "auth:email:filter"

def heads : List Head := [.refresh, .reuse, .family, .sessions, .code .verify, .code .reset,
  .cooldown .verify, .cooldown .reset, .oauthNonce, .throttle, .emailFilter]

theorem mem_heads (a : Head) : a ∈ heads := by
  cases a with
  | code purpose => cases purpose <;> decide
  | cooldown purpose => cases purpose <;> decide
  | _ => decide

theorem heads_apart : ∀ a ∈ heads, ∀ b ∈ heads, a.text.toList <+: b.text.toList → a = b := by
  decide +kernel

theorem head_unique {a b : Head} {s t : String} (h : a.text ++ s = b.text ++ t) :
    a = b ∧ s = t :=
  unique_of_apart (fun a b => heads_apart a (mem_heads a) b (mem_heads b)) h

def head : Slot → Head
  | .refresh _ => .refresh
  | .reuse _ => .reuse
  | .family .. => .family
  | .sessions _ => .sessions
  | .code purpose _ => .code purpose
  | .cooldown purpose _ => .cooldown purpose
  | .oauthNonce _ => .oauthNonce
  | .throttle .. => .throttle
  | .emailFilter | .emailFilterMeta | .emailFilterLock => .emailFilter

def rest : Slot → String
  | .refresh digest => digest
  | .reuse digest => digest
  | .family user familyId => user ++ ":" ++ familyId
  | .sessions user => user
  | .code _ email => email
  | .cooldown _ email => email
  | .oauthNonce name => name
  | .throttle scope digest => scope ++ ":" ++ digest
  | .emailFilter => ""
  | .emailFilterMeta => ":meta"
  | .emailFilterLock => ":rebuild"

theorem text_parts (k : Slot) : k.text = (head k).text ++ rest k := by
  cases k with
  | family user familyId => exact append_joined _ _ _ _
  | throttle scope digest => exact append_joined _ _ _ _
  | emailFilter | emailFilterMeta | emailFilterLock => decide +kernel
  | _ => rfl

theorem text_apart : Apart Slot.text Slot.Proper := by
  intro j k hj hk h
  rw [text_parts, text_parts] at h
  obtain ⟨hhead, hrest⟩ := head_unique h
  have hmeta : ":meta" ≠ "" ∧ ":rebuild" ≠ "" ∧ ":meta" ≠ ":rebuild" := by decide
  cases j with
  | refresh | reuse | sessions | oauthNonce =>
    cases k <;> cases hhead
    exact congrArg _ hrest
  | code | cooldown =>
    cases k <;> cases hhead
    exact congrArg _ hrest
  | family user familyId =>
    cases k <;> cases hhead
    obtain ⟨rfl, rfl⟩ := colon_inj hj hk hrest
    rfl
  | throttle scope digest =>
    cases k <;> cases hhead
    obtain ⟨rfl, rfl⟩ := colon_inj hj hk hrest
    rfl
  | emailFilter =>
    cases k <;> cases hhead
    · rfl
    · exact absurd hrest.symm hmeta.1
    · exact absurd hrest.symm hmeta.2.1
  | emailFilterMeta =>
    cases k <;> cases hhead
    · exact absurd hrest hmeta.1
    · rfl
    · exact absurd hrest hmeta.2.2
  | emailFilterLock =>
    cases k <;> cases hhead
    · exact absurd hrest hmeta.2.1
    · exact absurd hrest.symm hmeta.2.2
    · rfl

/-! ## One keyspace for all stores -/

def flatten (w : World) : Store Slot Value
  | .refresh digest => (w.sessions.refresh digest).map (Entry.map fun s => .text (sessionText s))
  | .reuse digest => (w.sessions.reuse digest).map (Entry.map fun s => .text (sessionText s))
  | .family user familyId => (w.sessions.family ⟨user, familyId⟩).map (Entry.map .set)
  | .sessions user => (w.sessions.sessions user).map (Entry.map .set)
  | .code purpose email => (w.codes.code ⟨email, purpose⟩).map
      (Entry.map fun p => .text (payloadText p))
  | .cooldown purpose email =>
    (w.codes.cooldown ⟨email, purpose⟩).map (Entry.map fun _ => .text "1")
  | .oauthNonce name => (w.nonces ("auth:oauth-nonce:" ++ name)).map (Entry.map fun _ => .text "1")
  | .throttle scope digest => (w.throttles (scope, digest)).map
      (Entry.map fun n => .text (toString n))
  | .emailFilter => w.filter.filter.map (fun f => ⟨.cuckoo f, none⟩)
  | .emailFilterMeta => w.filter.marker.map (fun m => ⟨.text m, none⟩)
  | .emailFilterLock => (w.filter.lock ()).map (Entry.map .text)

/-- A deployment with one Redis and the record of its stores. -/
structure Represents (v : Deployment) (w : World) : Prop where
  now : v.now = w.now
  drawn : v.drawn = w.drawn
  database : v.database = w.database
  published : v.published = w.published
  redis : Named Slot.text Slot.Proper (flatten w) v.redis

/-- Writing an entry of one store writes its key and no other. -/
theorem flatten_update {K V : Type} [DecidableEq K] (s : Store K V) (slot : K → Slot)
    (value : V → Value) {f g : Store Slot Value} (k : K) (e : Option (Entry V))
    (hf : ∀ j, f (slot j) = (s j).map (Entry.map value))
    (hg : ∀ j, g (slot j) = (Function.update s k e j).map (Entry.map value))
    (hrest : ∀ p, (∀ j, p ≠ slot j) → g p = f p) (hinj : Function.Injective slot) :
    g = Function.update f (slot k) (e.map (Entry.map value)) := by
  funext p
  by_cases hp : ∃ j, p = slot j
  · obtain ⟨j, rfl⟩ := hp
    rw [hg]
    by_cases hjk : j = k
    · subst hjk
      rw [Function.update_self, Function.update_self]
    · rw [Function.update_of_ne hjk, Function.update_of_ne (fun h => hjk (hinj h)), hf]
  · have hne : ∀ j, p ≠ slot j := fun j h => hp ⟨j, h⟩
    rw [hrest p hne, Function.update_of_ne (hne k)]

/-- One of the stores: where its entries are and how they are written. -/
structure Part (K V : Type) where
  store : World → Store K V
  write : World → K → Option (Entry V) → World
  slot : K → Slot
  value : V → Value
  reads : ∀ w k, flatten w (slot k) = (store w k).map (Entry.map value)
  writes : ∀ w k e, flatten (write w k e) =
    Function.update (flatten w) (slot k) (e.map (Entry.map value))

def refreshPart : Part Digest Session where
  store := fun w => w.sessions.refresh
  write := fun w k e =>
    { w with sessions := { w.sessions with refresh := Function.update w.sessions.refresh k e } }
  slot := .refresh
  value := fun s => .text (sessionText s)
  reads := fun _ _ => rfl
  writes := by
    intro w k e
    refine flatten_update w.sessions.refresh .refresh _ k e (fun _ => rfl) (fun _ => rfl)
      (fun p hp => ?_) (fun _ _ => by simp)
    cases p with
    | refresh digest => exact absurd rfl (hp digest)
    | _ => rfl

def reusePart : Part Digest Session where
  store := fun w => w.sessions.reuse
  write := fun w k e =>
    { w with sessions := { w.sessions with reuse := Function.update w.sessions.reuse k e } }
  slot := .reuse
  value := fun s => .text (sessionText s)
  reads := fun _ _ => rfl
  writes := by
    intro w k e
    refine flatten_update w.sessions.reuse .reuse _ k e (fun _ => rfl) (fun _ => rfl)
      (fun p hp => ?_) (fun _ _ => by simp)
    cases p with
    | reuse digest => exact absurd rfl (hp digest)
    | _ => rfl

def familyPart : Part Session (List Digest) where
  store := fun w => w.sessions.family
  write := fun w k e =>
    { w with sessions := { w.sessions with family := Function.update w.sessions.family k e } }
  slot := fun s => .family s.user s.family
  value := .set
  reads := fun _ _ => rfl
  writes := by
    intro w k e
    refine flatten_update w.sessions.family (fun s => .family s.user s.family) .set k e
      (fun _ => rfl) (fun _ => rfl)
      (fun p hp => ?_) ?_
    · cases p with
      | family user familyId => exact absurd rfl (hp ⟨user, familyId⟩)
      | _ => rfl
    · rintro ⟨user, family⟩ ⟨user', family'⟩ h
      cases h
      rfl

def sessionsPart : Part UserId (List Stores.FamilyId) where
  store := fun w => w.sessions.sessions
  write := fun w k e =>
    { w with sessions := { w.sessions with sessions := Function.update w.sessions.sessions k e } }
  slot := .sessions
  value := .set
  reads := fun _ _ => rfl
  writes := by
    intro w k e
    refine flatten_update w.sessions.sessions .sessions .set k e (fun _ => rfl) (fun _ => rfl)
      (fun p hp => ?_) (fun _ _ => by simp)
    cases p with
    | sessions user => exact absurd rfl (hp user)
    | _ => rfl

def codePart : Part CodeKey CodePayload where
  store := fun w => w.codes.code
  write := fun w k e =>
    { w with codes := { w.codes with code := Function.update w.codes.code k e } }
  slot := fun key => .code key.purpose key.email
  value := fun p => .text (payloadText p)
  reads := fun _ _ => rfl
  writes := by
    intro w k e
    refine flatten_update w.codes.code (fun key => .code key.purpose key.email)
      (fun p => .text (payloadText p)) k e (fun _ => rfl) (fun _ => rfl)
      (fun p hp => ?_) ?_
    · cases p with
      | code purpose email => exact absurd rfl (hp ⟨email, purpose⟩)
      | _ => rfl
    · rintro ⟨email, purpose⟩ ⟨email', purpose'⟩ h
      cases h
      rfl

def cooldownPart : Part CodeKey Unit where
  store := fun w => w.codes.cooldown
  write := fun w k e =>
    { w with codes := { w.codes with cooldown := Function.update w.codes.cooldown k e } }
  slot := fun key => .cooldown key.purpose key.email
  value := fun _ => .text "1"
  reads := fun _ _ => rfl
  writes := by
    intro w k e
    refine flatten_update w.codes.cooldown (fun key => .cooldown key.purpose key.email)
      (fun _ => .text "1") k e (fun _ => rfl) (fun _ => rfl)
      (fun p hp => ?_) ?_
    · cases p with
      | cooldown purpose email => exact absurd rfl (hp ⟨email, purpose⟩)
      | _ => rfl
    · rintro ⟨email, purpose⟩ ⟨email', purpose'⟩ h
      cases h
      rfl

def noncePart : Part String Unit where
  store := fun w name => w.nonces ("auth:oauth-nonce:" ++ name)
  write := fun w name e =>
    { w with nonces := Function.update w.nonces ("auth:oauth-nonce:" ++ name) e }
  slot := .oauthNonce
  value := fun _ => .text "1"
  reads := fun _ _ => rfl
  writes := by
    intro w k e
    refine flatten_update (fun name => w.nonces ("auth:oauth-nonce:" ++ name)) .oauthNonce _ k e
      (fun _ => rfl)
      (fun name => ?_) (fun p hp => ?_) (fun _ _ => by simp)
    · have hinj : Function.Injective ("auth:oauth-nonce:" ++ ·) := by
        intro a b h
        exact (head_unique (a := .oauthNonce) (b := .oauthNonce) h).2
      exact congrArg (Option.map _)
        (congrFun (Function.update_comp_eq_of_injective w.nonces hinj k e) name)
    · cases p with
      | oauthNonce name => exact absurd rfl (hp name)
      | _ => rfl

def throttlePart : Part (String × String) ℕ where
  store := fun w => w.throttles
  write := fun w k e => { w with throttles := Function.update w.throttles k e }
  slot := fun k => .throttle k.1 k.2
  value := fun n => .text (toString n)
  reads := fun _ _ => rfl
  writes := by
    intro w k e
    refine flatten_update w.throttles (fun k => .throttle k.1 k.2)
      (fun n => .text (toString n)) k e (fun _ => rfl) (fun _ => rfl)
      (fun p hp => ?_) ?_
    · cases p with
      | throttle scope digest => exact absurd rfl (hp (scope, digest))
      | _ => rfl
    · rintro ⟨scope, digest⟩ ⟨scope', digest'⟩ h
      cases h
      rfl

def lockPart : Part Unit String where
  store := fun w => w.filter.lock
  write := fun w k e =>
    { w with filter := { w.filter with lock := Function.update w.filter.lock k e } }
  slot := fun _ => .emailFilterLock
  value := .text
  reads := fun _ _ => rfl
  writes := by
    intro w k e
    refine flatten_update w.filter.lock (fun _ => .emailFilterLock) .text k e
      (fun _ => rfl) (fun _ => rfl)
      (fun p hp => ?_) (fun _ _ _ => rfl)
    cases p with
    | emailFilterLock => exact absurd rfl (hp ())
    | _ => rfl

theorem flatten_filter (w : World) (f : Option Cuckoo) :
    flatten { w with filter := { w.filter with filter := f } } =
      Function.update (flatten w) .emailFilter (f.map fun f => ⟨.cuckoo f, none⟩) := by
  funext p
  by_cases hp : p = .emailFilter
  · subst hp
    rw [Function.update_self]
    rfl
  · rw [Function.update_of_ne hp]
    cases p with
    | emailFilter => exact absurd rfl hp
    | _ => rfl

theorem flatten_marker (w : World) (m : Option String) :
    flatten { w with filter := { w.filter with marker := m } } =
      Function.update (flatten w) .emailFilterMeta (m.map fun m => ⟨.text m, none⟩) := by
  funext p
  by_cases hp : p = .emailFilterMeta
  · subst hp
    rw [Function.update_self]
    rfl
  · rw [Function.update_of_ne hp]
    cases p with
    | emailFilterMeta => exact absurd rfl hp
    | _ => rfl

/-! ## Commands on one store -/

theorem seen_map {V U : Type} (f : V → U) (now : ℕ) (e : Option (Entry V)) :
    seen now (e.map (Entry.map f)) = (seen now e).map (Entry.map f) := by
  rcases e with _ | ⟨v, d⟩
  · rfl
  · have hlive : (Entry.map f ⟨v, d⟩).live now = (Entry.live now ⟨v, d⟩) := rfl
    simp only [seen, Option.map_some, Option.filter_some, hlive]
    split
    · rfl
    · rfl

/-- What SADD, EXPIRE and SREM leave under a key. -/
def saddEntry (now : ℕ) (e : Option (Entry (List String))) (x : String) :
    Option (Entry (List String)) :=
  match seen now e with
  | none => some ⟨[x], none⟩
  | some e => some ⟨e.value.insert x, e.deadline⟩

def expireEntry {V : Type} (now : ℕ) (e : Option (Entry V)) (deadline : ℕ) : Option (Entry V) :=
  match seen now e with
  | none => e
  | some e => some ⟨e.value, some deadline⟩

def sremEntry (now : ℕ) (e : Option (Entry (List String))) (x : String) :
    Option (Entry (List String)) :=
  match seen now e with
  | none => e
  | some e => if e.value.filter (· ≠ x) = [] then none
    else some ⟨e.value.filter (· ≠ x), e.deadline⟩

section
variable {K V : Type} [DecidableEq K]

theorem sadd_eq (now : ℕ) (s : Store K (List String)) (k : K) (x : String) :
    sadd now s k x = Function.update s k (saddEntry now (s k) x) := by
  simp only [sadd, saddEntry, peek_eq_seen]
  split
  case h_1 e he =>
    rw [he]
    rfl
  case h_2 he =>
    rw [he]
    rfl

theorem expire_eq (now : ℕ) (s : Store K V) (k : K) (deadline : ℕ) :
    expire now s k deadline = Function.update s k (expireEntry now (s k) deadline) := by
  simp only [expire, expireEntry, peek_eq_seen]
  split
  case h_1 e he =>
    rw [he]
    rfl
  case h_2 he =>
    rw [he, Function.update_eq_self]

theorem srem_eq (now : ℕ) (s : Store K (List String)) (k : K) (x : String) :
    srem now s k x = Function.update s k (sremEntry now (s k) x) := by
  simp only [srem, sremEntry, peek_eq_seen]
  split
  case h_1 e he =>
    rw [he]
    split_ifs with hx
    · simp only [if_pos hx]
      rfl
    · simp only [if_neg hx]
      rfl
  case h_2 he =>
    rw [he, Function.update_eq_self]

end

section
variable {K V : Type} (server : Server) (P : Part K V) (w : World) (k : K)

theorem exec_part {op : Operation} {r : Except Refusal Resp} {e : Option (Entry V)}
    (h : op.effect server ((P.store w k).map (Entry.map P.value)) =
      (r, e.map (Entry.map P.value))) :
    (RedisCommand.on (P.slot k) op).exec server (flatten w) = (r, flatten (P.write w k e)) := by
  rw [RedisCommand.exec, P.reads, h, P.writes]

theorem exec_read {slot : Slot} {op : Operation} {r : Except Refusal Resp}
    (h : op.effect server (flatten w slot) = (r, flatten w slot)) :
    (RedisCommand.on slot op).exec server (flatten w) = (r, flatten w) := by
  rw [RedisCommand.exec, h]
  simp only [Function.update_eq_self]

/-- The reply to GET for an entry that is written as a text. -/
def gotten (t : V → String) : Option (Entry V) → Resp
  | none => .null
  | some e => .text (t e.value)

theorem exec_get {t : V → String} (ht : P.value = fun v => .text (t v)) :
    (RedisCommand.on (P.slot k) .get).exec server (flatten w) =
      (.ok (gotten t (seen server.now (P.store w k))), flatten w) := by
  apply exec_read
  rw [P.reads]
  simp only [Operation.effect, seen_map, ht]
  rcases seen server.now (P.store w k) with _ | ⟨v, d⟩
  · rfl
  · rfl

theorem exec_set {t : V → String} (ht : P.value = fun v => .text (t v)) (v : V) {seconds : ℕ}
    (hs : 0 < seconds) :
    (RedisCommand.on (P.slot k) (.set (t v) (some seconds) false)).exec server (flatten w) =
      (.ok .ok, flatten (P.write w k (some ⟨v, ex server.now seconds⟩))) := by
  apply exec_part
  have hne : some seconds ≠ some 0 := by
    rw [ne_eq, Option.some.injEq]
    omega
  rw [Operation.effect, if_neg hne, if_neg (fun h => Bool.false_ne_true h.1), ht]
  rfl

theorem exec_setNx {t : V → String} (ht : P.value = fun v => .text (t v)) (v : V) {seconds : ℕ}
    (hs : 0 < seconds) :
    (RedisCommand.on (P.slot k) (.set (t v) (some seconds) true)).exec server (flatten w) =
      if (seen server.now (P.store w k)).isSome then (.ok .null, flatten w)
      else (.ok .ok, flatten (P.write w k (some ⟨v, ex server.now seconds⟩))) := by
  have hne : some seconds ≠ some 0 := by
    rw [ne_eq, Option.some.injEq]
    omega
  have hsome : (seen server.now (flatten w (P.slot k))).isSome =
      (seen server.now (P.store w k)).isSome := by
    rw [P.reads, seen_map, Option.isSome_map]
  split_ifs with h
  · apply exec_read
    rw [Operation.effect, if_neg hne, if_pos ⟨rfl, hsome.trans h⟩]
  · apply exec_part
    rw [Operation.effect, if_neg hne, if_neg, ht]
    · rfl
    · rintro ⟨-, hn⟩
      rw [← P.reads, hsome] at hn
      exact h hn

theorem exec_expire {seconds : ℕ} (hs : 0 < seconds) : ∃ reply,
    (RedisCommand.on (P.slot k) (.expire seconds)).exec server (flatten w) =
      (.ok reply, flatten (P.write w k
        (expireEntry server.now (P.store w k) (server.now+1000*seconds)))) := by
  have hne : seconds ≠ 0 := by omega
  rcases he : seen server.now (P.store w k) with _ | ⟨v, d⟩
  · refine ⟨.integer 0, exec_part server P w k ?_⟩
    simp only [Operation.effect, seen_map, he, Option.map_none, expireEntry]
  · refine ⟨.integer 1, exec_part server P w k ?_⟩
    simp only [Operation.effect, seen_map, he, Option.map_some, expireEntry, Entry.map, if_neg hne]
    rfl

theorem delete_part (ks : List Slot) :
    delete server.now (P.slot k::ks) (flatten w) =
      ((delete server.now ks (flatten (P.write w k none))).1 +
        (if (seen server.now (P.store w k)).isSome then 1 else 0),
      (delete server.now ks (flatten (P.write w k none))).2) := by
  have hwrite : del (flatten w) (P.slot k) = flatten (P.write w k none) :=
    (P.writes w k none).symm
  rw [delete, hwrite, peek_eq_seen, P.reads, seen_map, Option.isSome_map]

theorem exec_del : (RedisCommand.del [P.slot k]).exec server (flatten w) =
    (.ok (.integer (if (seen server.now (P.store w k)).isSome then 1 else 0)),
      flatten (P.write w k none)) := by
  rw [RedisCommand.exec, delete_part]
  rcases seen server.now (P.store w k) with _ | e
  · rfl
  · rfl

end

section
variable {K : Type} (server : Server) (P : Part K (List String)) (w : World) (k : K)

theorem exec_sadd (hset : P.value = .set) (x : String) : ∃ reply,
    (RedisCommand.on (P.slot k) (.sadd x)).exec server (flatten w) =
      (.ok reply, flatten (P.write w k (saddEntry server.now (P.store w k) x))) := by
  rcases he : seen server.now (P.store w k) with _ | ⟨v, d⟩
  · refine ⟨.integer 1, exec_part server P w k ?_⟩
    simp only [Operation.effect, seen_map, he, Option.map_none, saddEntry, hset]
    rfl
  · refine ⟨.integer (if x ∈ v then 0 else 1), exec_part server P w k ?_⟩
    simp only [Operation.effect, seen_map, he, Option.map_some, saddEntry, Entry.map, hset]

theorem exec_srem (hset : P.value = .set) (x : String) : ∃ reply,
    (RedisCommand.on (P.slot k) (.srem x)).exec server (flatten w) =
      (.ok reply, flatten (P.write w k (sremEntry server.now (P.store w k) x))) := by
  rcases he : seen server.now (P.store w k) with _ | ⟨v, d⟩
  · refine ⟨.integer 0, exec_part server P w k ?_⟩
    simp only [Operation.effect, seen_map, he, Option.map_none, sremEntry]
  · refine ⟨.integer (if x ∈ v then 1 else 0), exec_part server P w k ?_⟩
    by_cases hx : v.filter (· ≠ x) = []
    · simp only [Operation.effect, seen_map, he, Option.map_some, sremEntry, Entry.map, hset,
        if_pos hx, Option.map_none]
    · simp only [Operation.effect, seen_map, he, Option.map_some, sremEntry, Entry.map, hset,
        if_neg hx]

theorem exec_smembers (hset : P.value = .set) :
    (RedisCommand.on (P.slot k) .smembers).exec server (flatten w) =
      (.ok (.array (((seen server.now (P.store w k)).map Entry.value).getD [])), flatten w) := by
  apply exec_read
  rw [P.reads]
  simp only [Operation.effect, seen_map, hset]
  rcases seen server.now (P.store w k) with _ | ⟨v, d⟩
  · rfl
  · rfl

end

end Gamely.RedisStores
