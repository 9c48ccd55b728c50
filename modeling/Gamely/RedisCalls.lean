import Gamely.RedisStores

/-!
# Calls on Redis are calls on the stores

What the service sends to one Redis for a call does there what the call does to its store,
and the reply it makes of what Redis answers is the store's.
-/

set_option autoImplicit false

namespace Gamely.RedisCalls
open Gamely.Calls Gamely.Stores Gamely.EmailJobs Gamely.Services Gamely.ExpiringStore
open Gamely.RedisCommands Gamely.RedisKeys Gamely.UUIDs Gamely.Requests Gamely.RedisClient
open Gamely.RedisStores

/-! ## Texts that are read as they were written -/

def UserName (user : UserId) : Prop := ∃ u : UUID, user = userText u

def SessionName (s : Session) : Prop := UserName s.user ∧ s.family ≠ ""

theorem userName_colon {user : UserId} (h : UserName user) : ':' ∉ user.toList := by
  obtain ⟨u, rfl⟩ := h
  exact userText_colon u

variable (transform : List Char → List Char)

theorem session_text {s : Session} (h : SessionName s) :
    session transform (sessionText s) = .ok s := by
  obtain ⟨user, family⟩ := s
  obtain ⟨⟨u, hu⟩, hfamily⟩ := h
  change user = userText u at hu
  subst hu
  have hparse : parseSession transform (sessionText ⟨userText u, family⟩) = some (u, family) :=
    parseSession_value transform u hfamily
  rw [session, hparse]

theorem digit_points :
    ∀ n < 58, 48 ≤ n → Char.ofNat n ∉ ('-' :: '+' :: '_' :: whitespace) := by decide

theorem digit_plain {c : Char} (h : c.isDigit = true) :
    c.toNat < 128 ∧ c ∉ ('-' :: '+' :: '_' :: whitespace) := by
  rw [Char.isDigit, Bool.and_eq_true, decide_eq_true_eq, decide_eq_true_eq] at h
  have hlo : 48 ≤ c.toNat := h.1
  have hhi : c.toNat ≤ 57 := h.2
  have hpoint := digit_points c.toNat (by omega) hlo
  rw [Char.ofNat_toNat] at hpoint
  exact ⟨by omega, hpoint⟩

theorem intText_digits (n : ℕ) : intText transform (Nat.toDigits 10 n) = some (n : ℤ) := by
  have hdigit : ∀ c ∈ Nat.toDigits 10 n, c.isDigit = true := fun c hc => Digits.digits_isDigit hc
  have hplain := fun c hc => digit_plain (hdigit c hc)
  have hascii : (Nat.toDigits 10 n).all (fun c => c.toNat < 128) = true := by
    rw [List.all_eq_true]
    exact fun c hc => decide_eq_true (hplain c hc).1
  have habsent : ∀ c ∈ ('-' :: '+' :: '_' :: whitespace), c ∉ Nat.toDigits 10 n :=
    fun c hc hn => (hplain c hn).2 hc
  have hspace : ∀ c ∈ Nat.toDigits 10 n, c ∉ whitespace := by
    intro c hc hw
    exact habsent c (by simp [hw]) hc
  have hsplit : (Nat.toDigits 10 n).splitOn '_' = [Nat.toDigits 10 n] :=
    List.splitOn_eq_singleton (habsent '_' (by decide))
  have hdecimal : decimalDigits (Nat.toDigits 10 n) = some n := by
    have hne : ¬ ([Nat.toDigits 10 n].any List.isEmpty) = true := by
      rw [List.any_cons, List.any_nil, Bool.or_false, List.isEmpty_iff]
      exact Nat.toDigits_ne_nil
    rw [decimalDigits, hsplit, if_neg hne, List.flatten_singleton,
      if_pos (List.all_eq_true.mpr hdigit), Nat.ofDigitChars_ten_toDigits]
  rw [intText, if_pos hascii, strip_plain hspace]
  split
  case h_1 h => exact absurd (by rw [h]; simp) (habsent '-' (by decide))
  case h_2 h => exact absurd (by rw [h]; simp) (habsent '+' (by decide))
  case h_3 =>
    rw [hdecimal]
    rfl

theorem toString_digits (n : ℕ) : (toString n).toList = Nat.toDigits 10 n := by
  simp [toString, Nat.repr_eq_ofList_toDigits]

theorem span_colon {a b : List Char} (h : ':' ∉ a) :
    (a ++ ':'::b).span (· ≠ ':') = (a, ':'::b) := by
  have hall : ∀ c ∈ a, decide (c ≠ ':') = true := by
    rintro c hc
    rw [decide_eq_true_eq]
    rintro rfl
    exact h hc
  rw [List.span_eq_takeWhile_dropWhile, List.takeWhile_append_of_pos hall,
    List.dropWhile_append_of_pos hall, List.takeWhile_cons_of_neg (by decide),
    List.dropWhile_cons_of_neg (by decide), List.append_nil]

theorem parsePayload_text {p : CodePayload} (h : ':' ∉ p.digest.toList) :
    parsePayload transform (payloadText p) = .ok p := by
  have hcolon : ":".toList = [':'] := rfl
  have hlist : (payloadText p).toList = p.digest.toList ++ ':'::Nat.toDigits 10 p.attempts := by
    rw [payloadText, String.toList_append, String.toList_append, hcolon, toString_digits,
      List.append_assoc, List.singleton_append]
  rw [parsePayload, hlist, span_colon h]
  simp only [intText_digits, String.ofList_toList, Int.toNat_natCast]

theorem readInteger_text (n : ℕ) : readInteger (toString n) = some (n : ℤ) := by
  have hminus : '-' ∉ Nat.toDigits 10 n := fun h =>
    (digit_plain (Digits.digits_isDigit h)).2 (by decide)
  rw [readInteger, toString_digits]
  split
  case h_1 digits hd => exact absurd (by rw [hd]; simp) hminus
  case h_2 =>
    rw [Nat.ofDigitChars_ten_toDigits]
    exact if_pos rfl

/-! ## One call -/

/-- Through any Redis that holds the stores of one world, the reply, and the stores of the
other world after it. -/
def Serves {B : Type} (f : Store String Value → Except Failure B × Store String Value)
    (w w' : World) (r : Except Failure B) : Prop :=
  ∀ redis, Named Slot.text Slot.Proper (flatten w) redis → ∃ redis', f redis = (r, redis') ∧
    Named Slot.text Slot.Proper (flatten w') redis'

variable {transform} {server : Server} {w w' : World}

theorem serves_answeredBy {A B : Type} {script : Script Slot A} {decode : A → Except Failure B}
    {a : A} {r : Except Failure B} (hp : Only (RedisCommand.Within Slot.Proper) script)
    (hs : atomically server script (flatten w) = (.ok a, flatten w')) (hr : decode a = r) :
    Serves (answeredBy server script decode) w w' r := by
  subst hr
  intro redis hredis
  obtain ⟨hreply, hafter⟩ := atomically_named text_apart server hp hredis
  rw [hs] at hreply hafter
  refine ⟨(atomically server (renamed Slot.text script) redis).2, ?_, hafter⟩
  unfold answeredBy
  split
  case h_1 a' redis' h =>
    rw [h] at hreply
    cases hreply
    rw [h]
  case h_2 e redis' h =>
    rw [h] at hreply
    cases hreply

theorem serves_send {B : Type} {c : RedisCommand Slot} {decode : Resp → Except Failure B}
    {reply : Resp} {r : Except Failure B} (hc : c.Within Slot.Proper)
    (hs : c.exec server (flatten w) = (.ok reply, flatten w')) (hr : decode reply = r) :
    Serves (answeredBy server (send c) decode) w w' r :=
  serves_answeredBy (only_invoke c hc) ((atomically_send server c (flatten w)).trans hs) hr

theorem serves_done {c : RedisCommand Slot} {reply : Resp} (hc : c.Within Slot.Proper)
    (hs : c.exec server (flatten w) = (.ok reply, flatten w')) :
    Serves (answeredBy server (send c) (fun _ => (.ok () : Except Failure Unit))) w w' (.ok ()) :=
  serves_send hc hs rfl

theorem within_one {k : Slot} (hk : k.Proper) : (RedisCommand.del [k]).Within Slot.Proper := by
  intro j hj
  rw [List.mem_singleton.mp hj]
  exact hk

/-! ## Refresh sessions -/

theorem accepted_end (h : w = w') : Accepted server [] (flatten w) (flatten w') := h ▸ .nil _

theorem issueRefresh_flatten {digest : Digest} {s : Session} {ttl : ℕ} (ht : 0 < ttl) :
    atomically server (issueRefresh digest s ttl) (flatten w) =
      (.ok (), flatten { w with sessions := issued server.now w.sessions digest s ttl }) := by
  apply atomically_execute
  refine .cons (exec_set server refreshPart w digest rfl s ht) ?_
  obtain ⟨reply₁, hsadd₁⟩ := exec_sadd server familyPart _ s rfl digest
  refine .cons hsadd₁ ?_
  obtain ⟨reply₂, hexpire₁⟩ := exec_expire server familyPart _ s ht
  refine .cons hexpire₁ ?_
  obtain ⟨reply₃, hsadd₂⟩ := exec_sadd server sessionsPart _ s.user rfl s.family
  refine .cons hsadd₂ ?_
  obtain ⟨reply₄, hexpire₂⟩ := exec_expire server sessionsPart _ s.user ht
  refine .cons hexpire₂ (accepted_end ?_)
  simp only [issued, sadd_eq, expire_eq]
  rfl

theorem delAll_cons {K V : Type} [DecidableEq K] (s : Store K V) (k : K) (ks : List K) :
    delAll (del s k) ks = delAll s (k::ks) := by
  funext j
  by_cases hj : j ∈ ks
  · simp [delAll, hj]
  · by_cases hjk : j = k
    · subst hjk
      simp [delAll]
    · simp [delAll, hj, hjk, del_ne s k hjk]

theorem accepted_deletes (digests : List Digest) (w : World) :
    Accepted server (digests.flatMap (fun d => [.del [.refresh d], .del [.reuse d]])) (flatten w)
      (flatten { w with sessions := { w.sessions with
        refresh := delAll w.sessions.refresh digests
        reuse := delAll w.sessions.reuse digests } }) := by
  induction digests generalizing w with
  | nil => exact accepted_end rfl
  | cons d ds ih =>
    rw [List.flatMap_cons]
    refine .cons (exec_del server refreshPart w d) (.cons (exec_del server reusePart _ d) ?_)
    have hrest := ih (reusePart.write (refreshPart.write w d none) d none)
    rw [← delAll_cons w.sessions.refresh, ← delAll_cons w.sessions.reuse]
    exact hrest

theorem revokeFamily_flatten (digests : List Digest) (s : Session) (w : World) :
    atomically server (revokeFamily digests s) (flatten w) =
      (.ok (), flatten { w with sessions := revoked server.now w.sessions digests s }) := by
  apply atomically_execute
  apply accepted_append (accepted_deletes digests w)
  refine .cons (exec_del server familyPart _ s) ?_
  obtain ⟨reply, hsrem⟩ := exec_srem server sessionsPart _ s.user rfl s.family
  refine .cons hsrem (accepted_end ?_)
  simp only [revoked, srem_eq]
  rfl

theorem get_eq_seen {K V : Type} (now : ℕ) (s : Store K V) (k : K) :
    get now s k = (seen now (s k)).map Entry.value := rfl

theorem rotateRefresh_flatten {digest : Digest} {ttl : ℕ} (ht : 0 < ttl) (w : World) :
    ∃ reply, atomically server (rotateRefresh (.refresh digest) (.reuse digest) ttl) (flatten w) =
        (.ok reply, flatten { w with sessions := (rotated server.now w.sessions digest ttl).2 }) ∧
      ((∀ s, get server.now w.sessions.refresh digest = some s → SessionName s) →
        (∀ s, get server.now w.sessions.reuse digest = some s → SessionName s) →
        rotateReply transform reply = .ok (rotated server.now w.sessions digest ttl).1) := by
  have hget : (RedisCommand.on (.refresh digest) .get).exec server (flatten w) =
      (.ok (gotten sessionText (seen server.now (w.sessions.refresh digest))), flatten w) :=
    exec_get server refreshPart w digest rfl
  have hreused : (RedisCommand.on (.reuse digest) .get).exec server (flatten w) =
      (.ok (gotten sessionText (seen server.now (w.sessions.reuse digest))), flatten w) :=
    exec_get server reusePart w digest rfl
  rcases hr : seen server.now (w.sessions.refresh digest) with _ | ⟨s, d⟩
  · rcases hu : seen server.now (w.sessions.reuse digest) with _ | ⟨s, d⟩
    · have hrotated : rotated server.now w.sessions digest ttl = (.missing, w.sessions) := by
        simp only [rotated, get_eq_seen, hr, hu, Option.map_none]
      refine ⟨.array ["missing", ""], ?_, fun _ _ => ?_⟩
      · rw [hrotated, rotateRefresh, atomically_bind, atomically_send, hget, hr]
        simp only [gotten]
        rw [atomically_bind, atomically_send, hreused, hu]
        rfl
      · have hne : ("missing" : String) ≠ "" := by decide
        simp only [hrotated, rotateReply, resultPair, if_neg hne, if_true]
    · have hrotated : rotated server.now w.sessions digest ttl =
          (.reused s, { w.sessions with reuse := del w.sessions.reuse digest }) := by
        simp only [rotated, get_eq_seen, hr, hu, Option.map_none, Option.map_some]
      have hdel : (RedisCommand.del [.reuse digest]).exec server (flatten w) = (.ok (.integer _),
          flatten (reusePart.write w digest none)) := exec_del server reusePart w digest
      refine ⟨.array ["reused", sessionText s], ?_, fun _ hname => ?_⟩
      · rw [hrotated, rotateRefresh, atomically_bind, atomically_send, hget, hr]
        simp only [gotten]
        rw [atomically_bind, atomically_send, hreused, hu]
        simp only [gotten]
        rw [atomically_bind, atomically_send, hdel]
        rfl
      · have hs : SessionName s := hname s (by rw [get_eq_seen, hu]; rfl)
        have hne : ("reused" : String) ≠ "missing" ∧ ("reused" : String) ≠ "" := by decide
        simp only [hrotated, rotateReply, resultPair, if_neg hne.2, if_neg hne.1,
          session_text transform hs, if_true]
  · have hrotated : rotated server.now w.sessions digest ttl = (.rotated s,
        { w.sessions with
          refresh := del w.sessions.refresh digest
          reuse := set w.sessions.reuse digest s (ex server.now ttl) }) := by
      simp only [rotated, get_eq_seen, hr, Option.map_some]
    have hdel : (RedisCommand.del [.refresh digest]).exec server (flatten w) = (.ok (.integer _),
        flatten (refreshPart.write w digest none)) := exec_del server refreshPart w digest
    have hset :
        (RedisCommand.on (.reuse digest) (.set (sessionText s) (some ttl) false)).exec server
        (flatten (refreshPart.write w digest none)) = (.ok .ok, flatten (reusePart.write
          (refreshPart.write w digest none) digest (some ⟨s, ex server.now ttl⟩))) :=
      exec_set server reusePart (refreshPart.write w digest none) digest rfl s ht
    refine ⟨.array ["rotated", sessionText s], ?_, fun hname _ => ?_⟩
    · rw [hrotated, rotateRefresh, atomically_bind, atomically_send, hget, hr]
      simp only [gotten]
      rw [atomically_bind, atomically_send, hdel]
      simp only
      rw [atomically_bind, atomically_send, hset]
      rfl
    · have hs : SessionName s := hname s (by rw [get_eq_seen, hr]; rfl)
      have hne : ("rotated" : String) ≠ "missing" ∧ ("rotated" : String) ≠ "" ∧
        ("rotated" : String) ≠ "reused" := by decide
      simp only [hrotated, rotateReply, resultPair, if_neg hne.2.1, if_neg hne.1,
        session_text transform hs, if_neg hne.2.2, ne_eq, not_true, if_false]

/-! ## Calls of the stores -/

/-- The names a call is made with are those the service makes up, and it lets no key expire
at once. -/
def SessionSpelled : SessionCall → Prop
  | .issue _ s ttl => SessionName s ∧ 0 < ttl
  | .rotate _ ttl => 0 < ttl
  | .familyMembers s => UserName s.user
  | .revoke _ s => UserName s.user
  | _ => True

structure SessionsTidy (s : SessionStore) : Prop where
  refresh : ∀ d e, s.refresh d = some e → SessionName e.value
  reuse : ∀ d e, s.reuse d = some e → SessionName e.value

theorem name_of_get {K : Type} {now : ℕ} {s : Store K Session} {k : K} {v : Session}
    (h : ∀ k e, s k = some e → SessionName e.value) (hg : get now s k = some v) :
    SessionName v := by
  obtain ⟨e, he, rfl⟩ := raw_of_get now s k v hg
  exact h k e he

theorem only_rotateRefresh (digest : Digest) (ttl : ℕ) : Only (RedisCommand.Within Slot.Proper)
    (rotateRefresh (.refresh digest) (.reuse digest) ttl) := by
  refine only_bind _ _ (only_invoke _ trivial) (fun reply => ?_)
  cases reply with
  | text session =>
    refine only_bind _ _ (only_invoke _ (within_one trivial)) (fun _ => ?_)
    exact only_bind _ _ (only_invoke _ trivial) (fun _ => only_pure _)
  | _ =>
    refine only_bind _ _ (only_invoke _ trivial) (fun reply => ?_)
    cases reply with
    | text reused =>
      exact only_bind _ _ (only_invoke _ (within_one trivial)) (fun _ => only_pure _)
    | _ => exact only_pure _

theorem serves_onSession (ht : SessionsTidy w.sessions) (c : SessionCall) (hc : SessionSpelled c) :
    Serves (onSession transform server c) w
      { w with sessions := (c.perform server.now w.sessions).2 }
      (.ok (c.perform server.now w.sessions).1) := by
  cases c with
  | issue digest s ttl =>
    refine serves_answeredBy (only_execute ?_) (issueRefresh_flatten hc.2) rfl
    simp [RedisCommand.Within, Slot.Proper, userName_colon hc.1.1]
  | rotate digest ttl =>
    obtain ⟨reply, hrun, hreply⟩ := rotateRefresh_flatten hc w
    exact serves_answeredBy (only_rotateRefresh digest ttl) hrun
      (hreply (fun s => name_of_get ht.refresh) (fun s => name_of_get ht.reuse))
  | getRefresh digest =>
    refine serves_send (c := .on (.refresh digest) .get) trivial
      (exec_get server refreshPart w digest rfl) ?_
    have hname : ∀ s, get server.now w.sessions.refresh digest = some s → SessionName s :=
      fun s => name_of_get ht.refresh
    simp only [SessionCall.perform, get_eq_seen] at hname ⊢
    change sessionReply transform
      (gotten sessionText (seen server.now (w.sessions.refresh digest))) = _
    rcases he : seen server.now (w.sessions.refresh digest) with _ | ⟨s, d⟩
    · rfl
    · have hs : SessionName s := hname s (by rw [he]; rfl)
      simp only [gotten, sessionReply, textReply, session_text transform hs]
      rfl
  | familyMembers s =>
    exact serves_send (c := .on (.family s.user s.family) .smembers) (userName_colon hc)
      (exec_smembers server familyPart w s rfl) rfl
  | userFamilies user =>
    exact serves_send (c := .on (.sessions user) .smembers) trivial
      (exec_smembers server sessionsPart w user rfl) rfl
  | revoke digests s =>
    refine serves_answeredBy (only_execute ?_) (revokeFamily_flatten digests s w) rfl
    intro c hmem
    rcases List.mem_append.mp hmem with hmem | hmem
    · obtain ⟨d, -, hd⟩ := List.mem_flatMap.mp hmem
      simp only [List.mem_cons, List.not_mem_nil, or_false] at hd
      rcases hd with rfl | rfl
      · exact within_one trivial
      · exact within_one trivial
    · simp only [List.mem_cons, List.not_mem_nil, or_false] at hmem
      rcases hmem with rfl | rfl
      · exact within_one (userName_colon hc)
      · trivial
  | dropSessions user =>
    exact serves_done (within_one (k := .sessions user) trivial)
      (exec_del server sessionsPart w user)

def CodeSpelled : CodeCall → Prop
  | .setCooldown _ ttl => 0 < ttl
  | .setCode _ payload ttl => ':' ∉ payload.digest.toList ∧ 0 < ttl
  | _ => True

def CodesTidy (s : CodeStore) : Prop := ∀ k e, s.code k = some e → ':' ∉ e.value.digest.toList

theorem exec_del_both {K J V U : Type} (server : Server) (P : Part K V) (Q : Part J U) (k : K)
    (j : J) (w : World) : ∃ reply, (RedisCommand.del [P.slot k, Q.slot j]).exec server (flatten w) =
      (.ok reply, flatten (Q.write (P.write w k none) j none)) := by
  rw [RedisCommand.exec, delete_part, delete_part]
  exact ⟨_, rfl⟩

theorem within_both {j k : Slot} (hj : j.Proper) (hk : k.Proper) :
    (RedisCommand.del [j, k]).Within Slot.Proper := by
  intro i hi
  simp only [List.mem_cons, List.not_mem_nil, or_false] at hi
  rcases hi with rfl | rfl
  · exact hj
  · exact hk

theorem remaining_map {V U : Type} (f : V → U) (now : ℕ) (e : Option (Entry V)) :
    remaining now (e.map (Entry.map f)) = remaining now e := by
  rcases e with _ | ⟨v, _ | t⟩
  · rfl
  · rfl
  · rfl

theorem ttl_eq_remaining {K V : Type} (now : ℕ) (s : Store K V) (k : K) :
    ExpiringStore.ttl now s k = remaining now (seen now (s k)) := by
  rw [ExpiringStore.ttl, peek_eq_seen]
  rcases seen now (s k) with _ | ⟨v, _ | t⟩
  · rfl
  · rfl
  · rfl

theorem serves_onCode (ht : CodesTidy w.codes) (c : CodeCall) (hc : CodeSpelled c) :
    Serves (onCode transform server c) w { w with codes := (c.perform server.now w.codes).2 }
      (.ok (c.perform server.now w.codes).1) := by
  cases c with
  | setCooldown key ttl =>
    have hset := exec_setNx server cooldownPart w key (t := fun _ => "1") rfl () hc
    have hget : get server.now w.codes.cooldown key =
        (seen server.now (cooldownPart.store w key)).map Entry.value := rfl
    simp only [CodeCall.perform, hget]
    rcases he : seen server.now (cooldownPart.store w key) with _ | e
    · rw [he] at hset
      exact serves_send (c := .on (.cooldown key.purpose key.email) _) trivial hset rfl
    · rw [he] at hset
      exact serves_send (c := .on (.cooldown key.purpose key.email) _) trivial hset rfl
  | setCode key payload ttl =>
    have hset := exec_set server codePart w key (t := payloadText) rfl payload hc.2
    exact serves_send (c := .on (.code key.purpose key.email) _) trivial hset rfl
  | delCooldownAndCode key =>
    obtain ⟨reply, hdel⟩ := exec_del_both server cooldownPart codePart key key w
    exact serves_done (within_both (j := .cooldown key.purpose key.email)
      (k := .code key.purpose key.email) trivial trivial) hdel
  | getCode key =>
    have hget := exec_get server codePart w key (t := payloadText) rfl
    refine serves_send (c := .on (.code key.purpose key.email) .get) trivial hget ?_
    change payloadReply transform (gotten payloadText (seen server.now (w.codes.code key))) =
      .ok (get server.now w.codes.code key)
    rw [get_eq_seen]
    rcases he : seen server.now (w.codes.code key) with _ | ⟨p, d⟩
    · rfl
    · have hcolon : ':' ∉ p.digest.toList := ht key ⟨p, d⟩ (Option.filter_eq_some_iff.mp he).1
      simp only [gotten, payloadReply, textReply, parsePayload_text transform hcolon]
      rfl
  | ttlCode key =>
    have hread : (RedisCommand.on (.code key.purpose key.email) .ttl).exec server (flatten w) =
        (.ok (.integer (ExpiringStore.ttl server.now w.codes.code key)), flatten w) := by
      apply exec_read
      rw [ttl_eq_remaining, ← remaining_map (fun p => Value.text (payloadText p)), ← seen_map]
      rfl
    exact serves_send (c := .on (.code key.purpose key.email) .ttl) trivial hread rfl
  | delCode key =>
    have hdel := exec_del server codePart w key
    exact serves_done (within_one (k := .code key.purpose key.email) trivial) hdel

theorem nonceKey_eq (provider nonce : String) :
    nonceKey provider nonce = "auth:oauth-nonce:" ++ (provider ++ ":" ++ nonce) :=
  append_joined _ _ _ _

theorem serves_setNonce (provider nonce : String) {ttl : ℕ} (ht : 0 < ttl) :
    Serves (answeredBy server (send (.on (nonceSlot provider nonce) (.set "1" (some ttl) false)))
        (fun _ => (.ok () : Except Failure Unit))) w
      { w with nonces := set w.nonces (nonceKey provider nonce) () (ex server.now ttl) }
      (.ok ()) := by
  have hset := exec_set server noncePart w (provider ++ ":" ++ nonce) (t := fun _ => "1") rfl () ht
  rw [nonceKey_eq]
  exact serves_send (c := .on (nonceSlot provider nonce) _) trivial hset rfl

theorem serves_delNonce (provider nonce : String) :
    Serves (answeredBy server (send (.del [nonceSlot provider nonce]))
        (fun reply => (.ok (truthy reply) : Except Failure Bool))) w
      { w with nonces := del w.nonces (nonceKey provider nonce) }
      (.ok (get server.now w.nonces (nonceKey provider nonce)).isSome) := by
  have hdel := exec_del server noncePart w (provider ++ ":" ++ nonce)
  have hget : get server.now w.nonces ("auth:oauth-nonce:" ++ (provider ++ ":" ++ nonce)) =
      (seen server.now (noncePart.store w (provider ++ ":" ++ nonce))).map Entry.value := rfl
  rw [nonceKey_eq, hget, Option.isSome_map]
  refine serves_send (within_one (k := nonceSlot provider nonce) trivial) hdel ?_
  rcases seen server.now (noncePart.store w (provider ++ ":" ++ nonce)) with _ | e
  · rfl
  · rfl

/-! ## The rate limiter -/

def ThrottlesTidy (s : Store (String × String) ℕ) : Prop := ∀ k e, s k = some e → 0 < e.value

theorem fixedWindow_flatten (ht : ThrottlesTidy w.throttles) (scope client : String) {window : ℕ}
    (hw : 0 < window) :
    atomically server (fixedWindow (.throttle scope client) window) (flatten w) =
      (.ok (.integer (windowCount server.now w.throttles (scope, client) window).1),
        flatten { w with
          throttles := (windowCount server.now w.throttles (scope, client) window).2 }) := by
  have hcount : peek server.now w.throttles (scope, client) =
      seen server.now (w.throttles (scope, client)) := rfl
  rcases he : seen server.now (w.throttles (scope, client)) with _ | ⟨n, d⟩
  · have hincr : (RedisCommand.on (.throttle scope client) .incr).exec server (flatten w) =
        (.ok (.integer 1), flatten (throttlePart.write w (scope, client) (some ⟨1, none⟩))) := by
      apply exec_part server throttlePart w (scope, client)
      have hstore : throttlePart.store w (scope, client) = w.throttles (scope, client) := rfl
      simp only [Operation.effect, seen_map, hstore, he, Option.map_none]
      rfl
    obtain ⟨reply, hexpire⟩ := exec_expire server throttlePart
      (throttlePart.write w (scope, client) (some ⟨1, none⟩)) (scope, client) hw
    have hexpire' : (RedisCommand.on (.throttle scope client) (.expire window)).exec server
        (flatten (throttlePart.write w (scope, client) (some ⟨1, none⟩))) = _ := hexpire
    rw [windowCount, hcount, he, fixedWindow, atomically_bind, atomically_send, hincr]
    simp only [if_true]
    rw [atomically_bind, atomically_send, hexpire']
    have hworld : throttlePart.write (throttlePart.write w (scope, client) (some ⟨1, none⟩))
        (scope, client) (expireEntry server.now (throttlePart.store (throttlePart.write w
          (scope, client) (some ⟨1, none⟩)) (scope, client)) (server.now+1000*window)) =
        { w with throttles := set w.throttles (scope, client) 1 (ex server.now window) } := by
      have hstore : throttlePart.store (throttlePart.write w (scope, client) (some ⟨1, none⟩))
          (scope, client) = some ⟨1, none⟩ := Function.update_self ..
      rw [hstore]
      simp only [throttlePart, Function.update_idem]
      rfl
    rw [hworld]
    rfl
  · have hpos : 0 < n := ht (scope, client) ⟨n, d⟩ (Option.filter_eq_some_iff.mp he).1
    have hincr : (RedisCommand.on (.throttle scope client) .incr).exec server (flatten w) =
        (.ok (.integer ((n : ℤ)+1)),
          flatten (throttlePart.write w (scope, client) (some ⟨n+1, d⟩))) := by
      apply exec_part server throttlePart w (scope, client)
      have hstore : throttlePart.store w (scope, client) = w.throttles (scope, client) := rfl
      have hvalue : Entry.map throttlePart.value ⟨n, d⟩ = ⟨.text (toString n), d⟩ := rfl
      simp only [Operation.effect, seen_map, hstore, he, Option.map_some, hvalue, readInteger_text]
      rfl
    have hne : ¬ (Resp.integer ((n : ℤ)+1)) = .integer 1 := by
      intro h
      injection h with h
      omega
    rw [windowCount, hcount, he, fixedWindow, atomically_bind, atomically_send, hincr]
    simp only [if_neg hne]
    rfl

theorem only_fixedWindow {scope : String} (hs : ':' ∉ scope.toList) (client : String) (window : ℕ) :
    Only (RedisCommand.Within Slot.Proper) (fixedWindow (.throttle scope client) window) := by
  refine only_bind _ _ (only_invoke _ hs) (fun hits => ?_)
  change Only _ (if hits = .integer 1 then _ else _)
  split
  · exact only_bind _ _ (only_invoke _ hs) (fun _ => only_pure _)
  · exact only_pure _

theorem serves_fixedWindow (ht : ThrottlesTidy w.throttles) {scope : String}
    (hs : ':' ∉ scope.toList) (client : String) {window : ℕ} (hw : 0 < window) :
    Serves (answeredBy server (fixedWindow (.throttle scope client) window) hitsReply) w
      { w with throttles := (windowCount server.now w.throttles (scope, client) window).2 }
      (.ok (windowCount server.now w.throttles (scope, client) window).1) :=
  serves_answeredBy (only_fixedWindow hs client window) (fixedWindow_flatten ht scope client hw) rfl

/-! ## The email filter -/

def FilterSpelled : FilterCall → Prop
  | .setLock _ ttl => 0 < ttl
  | _ => True

theorem exec_filter {op : Operation} {r : Except Refusal Resp} {f : Option Cuckoo}
    (h : op.effect server (w.filter.filter.map fun f => ⟨.cuckoo f, none⟩) =
      (r, f.map fun f => ⟨.cuckoo f, none⟩)) :
    (RedisCommand.on .emailFilter op).exec server (flatten w) =
      (r, flatten { w with filter := { w.filter with filter := f } }) := by
  have hread : flatten w .emailFilter = w.filter.filter.map fun f => ⟨.cuckoo f, none⟩ := rfl
  rw [RedisCommand.exec, hread, h]
  exact congrArg (Prod.mk r) (flatten_filter w f).symm

theorem exec_marker {op : Operation} {r : Except Refusal Resp} {m : Option String}
    (h : op.effect server (w.filter.marker.map fun m => ⟨.text m, none⟩) =
      (r, m.map fun m => ⟨.text m, none⟩)) :
    (RedisCommand.on .emailFilterMeta op).exec server (flatten w) =
      (r, flatten { w with filter := { w.filter with marker := m } }) := by
  have hread : flatten w .emailFilterMeta = w.filter.marker.map fun m => ⟨.text m, none⟩ := rfl
  rw [RedisCommand.exec, hread, h]
  exact congrArg (Prod.mk r) (flatten_marker w m).symm

/-- The filter operations in one world of stores. -/
abbrev filtered (server : Server) (c : FilterCall) (w : World) : World :=
  { w with filter := (c.perform server.defaults server.now server.hit server.refused w.filter).2 }

abbrev filterReply (server : Server) (c : FilterCall) (w : World) : c.Reply :=
  (c.perform server.defaults server.now server.hit server.refused w.filter).1

theorem reserve_flatten (params : FilterParams) :
    atomically server (reserve params) (flatten w) =
      (.ok (filterReply server (.reserve params) w),
        flatten (filtered server (.reserve params) w)) := by
  rcases hf : w.filter.filter with _ | f
  · have hexec : (RedisCommand.on .emailFilter (.cfReserve params)).exec server (flatten w) =
        (.ok .ok, flatten { w with filter := { w.filter with filter := some ⟨params, []⟩ } }) := by
      apply exec_filter
      rw [hf]
      rfl
    rw [reserve, atomically_tryCatch, atomically_bind, atomically_send, hexec]
    simp only [filterReply, filtered, FilterCall.perform, hf]
    rfl
  · have hexec : (RedisCommand.on .emailFilter (.cfReserve params)).exec server (flatten w) =
        (.error .exists, flatten w) := by
      apply exec_read
      have hread : flatten w .emailFilter = some ⟨.cuckoo f, none⟩ := by
        rw [flatten, hf]
        rfl
      rw [hread]
      rfl
    rw [reserve, atomically_tryCatch, atomically_bind, atomically_send, hexec]
    simp only [filterReply, filtered, FilterCall.perform, hf]
    rfl

theorem only_reserve (params : FilterParams) :
    Only (RedisCommand.Within Slot.Proper) (reserve params) := by
  refine only_tryCatch _ _ ?_ (fun e => ?_)
  · exact only_bind _ _ (only_invoke _ trivial) (fun _ => only_pure _)
  · split
    · exact only_pure _
    · exact only_throw _

theorem releaseLock_flatten (server : Server) (w : World) (token : String) :
    ∃ reply, atomically server (releaseLock token) (flatten w) =
      (.ok reply, flatten (filtered server (.releaseLock token) w)) := by
  have hget : (RedisCommand.on .emailFilterLock .get).exec server (flatten w) =
      (.ok (gotten id (seen server.now (w.filter.lock ()))), flatten w) :=
    exec_get server lockPart w () rfl
  have hdel : (RedisCommand.del [.emailFilterLock]).exec server (flatten w) = (.ok (.integer _),
      flatten (lockPart.write w () none)) := exec_del server lockPart w ()
  have hseen : get server.now w.filter.lock () =
      (seen server.now (w.filter.lock ())).map Entry.value := rfl
  rw [releaseLock, atomically_bind, atomically_send, hget]
  simp only [filtered, FilterCall.perform, hseen]
  rcases seen server.now (w.filter.lock ()) with _ | ⟨t, d⟩
  · exact ⟨.integer 0, rfl⟩
  · by_cases ht : t = token
    · have hgot : gotten id (some ⟨t, d⟩) = .text token := congrArg Resp.text ht
      have hheld : (some (⟨t, d⟩ : Entry String)).map Entry.value = some token := congrArg some ht
      rw [if_pos hgot, if_pos hheld, atomically_send, hdel]
      exact ⟨_, rfl⟩
    · have hgot : ¬ gotten id (some ⟨t, d⟩) = .text token := fun h => ht (Resp.text.inj h)
      have hheld : ¬ (some (⟨t, d⟩ : Entry String)).map Entry.value = some token :=
        fun h => ht (Option.some.inj h)
      rw [if_neg hgot, if_neg hheld]
      exact ⟨.integer 0, rfl⟩

theorem only_releaseLock (token : String) :
    Only (RedisCommand.Within Slot.Proper) (releaseLock token) := by
  refine only_bind _ _ (only_invoke _ trivial) (fun reply => ?_)
  change Only _ (if reply = .text token then _ else _)
  split
  · exact only_invoke _ (within_one trivial)
  · exact only_pure _

theorem delete_marker (w : World) : del (flatten w) .emailFilterMeta =
    flatten { w with filter := { w.filter with marker := none } } :=
  (flatten_marker w none).symm

theorem delete_filter (w : World) : del (flatten w) .emailFilter =
    flatten { w with filter := { w.filter with filter := none } } :=
  (flatten_filter w none).symm

theorem serves_onFilter (c : FilterCall) (hc : FilterSpelled c) :
    Serves (onFilter server c) w (filtered server c w) (.ok (filterReply server c w)) := by
  cases c with
  | getMarker =>
    have hread : (RedisCommand.on .emailFilterMeta .get).exec server (flatten w) =
        (.ok ((w.filter.marker.map Resp.text).getD .null), flatten w) := by
      apply exec_read
      have hmarker : flatten w .emailFilterMeta = w.filter.marker.map (fun m => ⟨.text m, none⟩) :=
        rfl
      rw [hmarker]
      rcases w.filter.marker with _ | m
      · rfl
      · rfl
    refine serves_send (c := .on .emailFilterMeta .get) trivial hread ?_
    change Except.ok (textReply ((w.filter.marker.map Resp.text).getD .null)) = .ok w.filter.marker
    rcases w.filter.marker with _ | m
    · rfl
    · rfl
  | «exists» item =>
    have hread : (RedisCommand.on .emailFilter (.cfExists item)).exec server (flatten w) =
        (.ok (.integer (if contains server.hit item w.filter.filter then 1 else 0)),
          flatten w) := by
      apply exec_read
      have hfilter :
          flatten w .emailFilter = w.filter.filter.map (fun f => ⟨.cuckoo f, none⟩) := rfl
      rw [hfilter]
      rcases w.filter.filter with _ | f
      · rfl
      · rfl
    refine serves_send (c := .on .emailFilter (.cfExists item)) trivial hread ?_
    change Except.ok (decide _) = Except.ok (contains server.hit item w.filter.filter)
    rcases contains server.hit item w.filter.filter with _ | _
    · rfl
    · rfl
  | insert items capacity =>
    have hinsert : (RedisCommand.on .emailFilter (.cfInsert items capacity)).exec server
        (flatten w) = (.ok (.integers (insertReplies server.refused items)),
          flatten (filtered server (.insert items capacity) w)) := by
      apply exec_filter
      rcases w.filter.filter with _ | f
      · rfl
      · rfl
    exact serves_send (c := .on .emailFilter _) trivial hinsert rfl
  | reserve params => exact serves_answeredBy (only_reserve params) (reserve_flatten params) rfl
  | setMarker fingerprint =>
    have hset : (RedisCommand.on .emailFilterMeta (.set fingerprint none false)).exec server
        (flatten w) = (.ok .ok, flatten (filtered server (.setMarker fingerprint) w)) := by
      apply exec_marker
      rfl
    exact serves_done (c := .on .emailFilterMeta _) trivial hset
  | delMarker =>
    obtain ⟨reply, hdel⟩ : ∃ reply, (RedisCommand.del [.emailFilterMeta]).exec server (flatten w) =
        (.ok reply, flatten (filtered server .delMarker w)) := by
      rw [RedisCommand.exec, delete, delete, delete_marker]
      exact ⟨_, rfl⟩
    exact serves_done (within_one (k := .emailFilterMeta) trivial) hdel
  | drop =>
    obtain ⟨reply, hdel⟩ : ∃ reply,
        (RedisCommand.del [.emailFilter, .emailFilterMeta]).exec server (flatten w) =
          (.ok reply, flatten (filtered server .drop w)) := by
      rw [RedisCommand.exec, delete, delete, delete, delete_filter, delete_marker]
      exact ⟨_, rfl⟩
    exact serves_done (within_both (j := .emailFilter) (k := .emailFilterMeta) trivial trivial) hdel
  | setLock token ttl =>
    have hset := exec_setNx server lockPart w () (t := id) rfl token hc
    have hget : get server.now w.filter.lock () =
        (seen server.now (lockPart.store w ())).map Entry.value := rfl
    simp only [filtered, filterReply, FilterCall.perform, hget]
    rcases he : seen server.now (lockPart.store w ()) with _ | e
    · rw [he] at hset
      exact serves_send (c := .on .emailFilterLock _) trivial hset rfl
    · rw [he] at hset
      exact serves_send (c := .on .emailFilterLock _) trivial hset rfl
  | releaseLock token =>
    obtain ⟨reply, hrelease⟩ := releaseLock_flatten server w token
    exact serves_answeredBy (only_releaseLock token) hrelease rfl

end Gamely.RedisCalls
