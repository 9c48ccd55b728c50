import Gamely.AuthController
import Gamely.Mirroring
import Gamely.Relying

/-!
# The HTTP server refines the service

Behind its middlewares and endpoints the server asks of the stores what the service asks,
apart from reading the clock for an access token and reading the row of the user it names.
Every run of the server is a run of the service, with the answers shown as responses, and a
request is turned away only by its route, its body or its token.
-/

set_option autoImplicit false

namespace Gamely.HttpRefinement
open Gamely.Calls Gamely.Stores Gamely.EmailJobs Gamely.Services Gamely.TokenService
open Gamely.Requests Gamely.HttpMessages Gamely.AuthController
open Gamely.Interleaving Gamely.Mirroring Gamely.Pasts Gamely.Relying Gamely.Replays

variable (lib : Libraries) (settings : Settings) (http : HttpSettings) (digit : Char → Bool)

/-! ## Requests and answers -/

variable {digit} in
/-- The request an endpoint serves. `me` only reads, which is what logging out without a
token does. -/
def requestOf (f : FilterSettings) : Call digit → Request
  | .emailAvailable body client => .emailAvailable f body.email client
  | .signup body client => .signup f body.email body.password client
  | .login body => .login body.email body.password
  | .verifyEmail body => .verifyEmail body.email body.code
  | .resendVerification body => .resendVerification body.email
  | .forgotPassword body client => .forgotPassword body.email client
  | .resetPassword body => .resetPassword body.email body.code body.password
  | .changePassword user body => .changePassword user body.currentPassword body.newPassword
  | .refresh value => .refresh value
  | .logout value => .logout value
  | .logoutAll user => .logoutAll user
  | .me _ => .logout ""
  | .oauthChallenge provider => .oauthChallenge provider
  | .oauthLogin provider body => .oauthLogin f provider body.idToken body.nonce

/-- The user a request's access token names, valid or not. -/
def claimed (r : HttpRequest) : Option UserId :=
  ((bearer r.headers).bind lib.decodeJwt).map AccessClaims.sub

/-- What an arrival comes to if it is let in. -/
def asked : Arrival → Request
  | .http r => match intent http digit r with
    | .ok (.open call) => requestOf r.filter call
    | .ok (.guarded call) => match claimed lib r with
      | some user => requestOf r.filter (call user)
      | none => .logout ""
    | _ => .logout ""
  | .startup f => .warm f

def Quiet : Arrival → Command → Prop
  | .http _, .utcnow => True
  | .http _, .database (.byId _) => True
  | _, _ => False

variable {digit} in
/-- The endpoints that end the session of the client. -/
def clears : Call digit → Bool
  | .changePassword .. | .logout _ | .logoutAll _ => true
  | _ => false

variable {digit} in
def cleared (call : Call digit) : List Cookie := if clears call then [clearRefresh http] else []

variable {digit} in
/-- What an endpoint makes of the answer of the service. -/
def outcome (call : Call digit) : Answer → Outcome
  | .available free => { content := some (.available free), cookies := cleared http call
                         headers := [("cache-control", "no-store")] }
  | .status text => { content := some (.status text), cookies := cleared http call }
  | .granted g => tokenResponse settings http g
  | .nonce nonce => { content := some (.nonce nonce), cookies := cleared http call }
  | .empty => { content := none, cookies := cleared http call }

abbrev Made := List (Step Command Reply Failure)

/-- The endpoint that an exchange calls after some calls: the one of its route and body, for
the user whose token the first of the calls have checked where it is guarded. -/
inductive Called (r : HttpRequest) (es : Made) : Call digit → Prop
  | opened (call : Call digit) (kind : intent http digit r = .ok (.open call)) : Called r es call
  | admitted (call : UserId → Call digit) (user : UserId) (first rest : Made)
      (kind : intent http digit r = .ok (.guarded call)) (split : es = first ++ rest)
      (checked : Returns (currentUser lib settings r.headers) first (.ok user)) :
      Called r es (call user)

/-- The calls of an exchange of `me`: those that let it in, the read of its row and the end of
its session. -/
def Read (r : HttpRequest) (user : UserId) (es : Made) (found : Except Failure User) : Prop :=
  ∃ first read last, es = first ++ read ++ [last] ∧
    Called lib settings http digit r first (.me user) ∧
    Returns (AuthService.requireUser user) read found

/-- How an arrival ends, with the calls it made, where its request to the service ends or is
never begun. -/
inductive Ends (i : ℕ) : Arrival → Made → Except Failure (Option Response) → Act Answer → Prop
  | answered (r : HttpRequest) (es : Made) (call : Call digit) (a : Answer)
      (called : Called lib settings http digit r es call) (other : ∀ user, call ≠ .me user)
      (same : asked lib http digit (.http r) = requestOf r.filter call) :
      Ends i (.http r) es
        (.ok (some (outgoing r (respond digit call (outcome settings http call a))))) (.done a)
  | refused (r : HttpRequest) (es : Made) (call : Call digit) (e : Failure)
      (called : Called lib settings http digit r es call) (other : ∀ user, call ≠ .me user)
      (same : asked lib http digit (.http r) = requestOf r.filter call) :
      Ends i (.http r) es (.ok (some (outgoing r (errorResponse (problem e))))) (.raised e)
  | profile (r : HttpRequest) (es : Made) (user : UserId) (row : User)
      (read : Read lib settings http digit r user es (.ok row)) :
      Ends i (.http r) es (.ok (some (outgoing r (respond digit (.me user)
        { content := some (.profile row.id row.email row.emailVerifiedAt.isSome) }))))
        (.done .empty)
  | unread (r : HttpRequest) (es : Made) (user : UserId) (e : Failure)
      (read : Read lib settings http digit r user es (.error e)) :
      Ends i (.http r) es (.ok (some (outgoing r (errorResponse (problem e))))) (.done .empty)
  | fixed (r : HttpRequest) (status : ℕ) (content : Content)
      (kind : intent http digit r = .ok (.fixed status content)) :
      Ends i (.http r) [] (.ok (some (outgoing r ⟨status, [], [], some content⟩)))
        (serve lib settings i (asked lib http digit (.http r)))
  | turnedAway (r : HttpRequest) (p : Problem) (kind : intent http digit r = .error p) :
      Ends i (.http r) [] (.ok (some (outgoing r (errorResponse p))))
        (serve lib settings i (asked lib http digit (.http r)))
  | unauthenticated (r : HttpRequest) (es : Made) (call : UserId → Call digit) (e : Failure)
      (kind : intent http digit r = .ok (.guarded call))
      (checked : Returns (currentUser lib settings r.headers) es (.error e)) :
      Ends i (.http r) es (.ok (some (outgoing r (errorResponse (problem e)))))
        (serve lib settings i (asked lib http digit (.http r)))
  | stranded (r : HttpRequest) (es : Made) (e : Failure) :
      Ends i (.http r) (es ++ [⟨.database (.rollback i), .error e⟩]) (.error e) (.raised e)
  | started (f : FilterSettings) (es : Made) (a : Answer) :
      Ends i (.startup f) es (.ok none) (.done a)
  | crashed (f : FilterSettings) (es : Made) (e : Failure) :
      Ends i (.startup f) es (.error e) (.raised e)

variable {lib settings http digit}

/-! ## Endpoints -/

/-- Every endpoint but `me` serves its request and shows the answer. -/
theorem endpoint_eq (f : FilterSettings) (session : ℕ) (call : Call digit)
    (h : ∀ user, call ≠ .me user) : endpoint lib settings http f session call =
      outcome settings http call <$> handled lib settings session (requestOf f call) := by
  cases call with
  | me user => exact absurd rfl (h user)
  | logout value =>
    simp only [endpoint, AuthController.logout, requestOf, handled]
    split
    · rfl
    · simp only [map_eq_pure_bind, bind_assoc, pure_bind, outcome, cleared, clears, if_true]
  | _ =>
    simp only [endpoint, AuthController.emailAvailable, AuthController.signup,
      AuthController.login, AuthController.verifyEmail, AuthController.resendVerification,
      AuthController.forgotPassword, AuthController.resetPassword, AuthController.changePassword,
      AuthController.refresh, AuthController.logoutAll, AuthController.oauthChallenge,
      AuthController.oauthLogin, requestOf, handled, map_eq_pure_bind, bind_assoc, pure_bind,
      outcome, cleared, clears, if_true, Bool.false_eq_true, if_false]

theorem parsed_ok {T : Type} {parse : Body → Option T} {r : HttpRequest}
    {intend : T → Except Problem (Intent digit)} {x : Intent digit}
    (h : parsed digit parse r intend = .ok x) :
    ∃ body, r.body.bind parse = some body ∧ intend body = .ok x := by
  unfold parsed at h
  split at h
  case h_1 body hbody => exact ⟨body, hbody, h⟩
  case h_2 => cases h

/-! ## Exchanges -/

variable (lib settings http digit) in
/-- What is left of an exchange once its endpoint has ended. -/
def closing (session : ℕ) (r : HttpRequest) (call : Call digit) :
    Except Failure Answer → Act (Option Response)
  | .ok a => do
    AuthService.rollback session
    return some (outgoing r (respond digit call (outcome settings http call a)))
  | .error e => do
    AuthService.rollback session
    return some (outgoing r (errorResponse (problem e)))

/-- What is left of a request to the service once it was handled. -/
def closed (session : ℕ) : Except Failure Answer → Act Answer
  | .ok a => do
    AuthService.rollback session
    return a
  | .error e => do
    AuthService.rollback session
    throw e

theorem serve_settle (session : ℕ) (q : Request) :
    serve lib settings session q = settle (handled lib settings session q) (closed session) := by
  simp only [serve, tryCatch_settle, bind_settle, settle_settle]
  congr 1
  funext r
  cases r with
  | ok a =>
    rw [closed, bind_settle]
    rfl
  | error e =>
    rw [closed, bind_settle]
    exact settle_onward (AuthService.rollback session) _ _

theorem served_settle (session : ℕ) (r : HttpRequest) (call : Call digit)
    (h : ∀ user, call ≠ .me user) : some <$> served lib settings http digit session r call =
      settle (handled lib settings session (requestOf r.filter call))
        (closing settings http digit session r call) := by
  simp only [served, endpoint_eq r.filter session call h, map_settle, tryCatch_settle, bind_settle,
    settle_settle]
  congr 1
  funext result
  cases result with
  | ok a =>
    rw [closing, bind_settle]
    exact settle_onward (AuthService.rollback session) _ _
  | error e =>
    rw [closing, bind_settle]
    exact settle_onward (AuthService.rollback session) _ _

variable (digit) in
/-- What is left of an exchange once the row of its user was read. -/
def reading (session : ℕ) (r : HttpRequest) (user : UserId) :
    Except Failure User → Act (Option Response)
  | .ok row => do
    AuthService.rollback session
    return some (outgoing r (respond digit (.me user)
      { content := some (.profile row.id row.email row.emailVerifiedAt.isSome) }))
  | .error e => do
    AuthService.rollback session
    return some (outgoing r (errorResponse (problem e)))

theorem served_me (session : ℕ) (r : HttpRequest) (user : UserId) :
    some <$> served lib settings http digit session r (.me user) =
      settle (AuthService.requireUser user) (reading digit session r user) := by
  simp only [served, endpoint, AuthController.me, map_settle, tryCatch_settle, bind_settle,
    settle_settle]
  congr 1
  funext result
  cases result with
  | ok row =>
    rw [reading, bind_settle]
    exact settle_onward (AuthService.rollback session) _ _
  | error e =>
    rw [reading, bind_settle]
    exact settle_onward (AuthService.rollback session) _ _

theorem called_append {r : HttpRequest} {es : Made} {call : Call digit}
    (h : Called lib settings http digit r es call) (more : Made) :
    Called lib settings http digit r (es ++ more) call := by
  cases h with
  | opened _ kind => exact .opened call kind
  | admitted call user first rest kind split checked =>
    refine .admitted call user first (rest ++ more) kind ?_ checked
    rw [split, List.append_assoc]

theorem mirrors_closing {i : ℕ} {r : HttpRequest} {call : Call digit} {es : Made}
    (called : Called lib settings http digit r es call) (other : ∀ user, call ≠ .me user)
    (same : asked lib http digit (.http r) = requestOf r.filter call)
    (result : Except Failure Answer) :
    Mirrors (Quiet (.http r)) (Ends lib settings http digit i (.http r)) es
      (closing settings http digit i r call result) (closed i result) := by
  cases result with
  | ok a =>
    apply mirrors_call
    rintro (e | _)
    · exact Ends.stranded r _ e
    · exact Ends.answered r _ call a (called_append called _) other same
  | error e =>
    apply mirrors_call
    rintro (e' | _)
    · exact Ends.stranded r _ e'
    · exact Ends.refused r _ call e (called_append called _) other same

theorem mirrors_served {i : ℕ} {r : HttpRequest} {call : Call digit} {es : Made}
    (called : Called lib settings http digit r es call)
    (same : asked lib http digit (.http r) = requestOf r.filter call) :
    Mirrors (Quiet (.http r)) (Ends lib settings http digit i (.http r)) es
      (some <$> served lib settings http digit i r call)
      (serve lib settings i (requestOf r.filter call)) := by
  by_cases h : ∃ user, call = .me user
  · obtain ⟨user, rfl⟩ := h
    have hread : Only (Quiet (.http r)) (AuthService.requireUser user) := by
      refine only_bind _ _ (only_invoke _ trivial) (fun found => ?_)
      cases found with
      | none => exact only_throw _
      | some row => exact only_pure row
    rw [served_me]
    refine mirrors_quietly hread (fun read found hreturns => ?_)
    rcases found with e | row
    · apply mirrors_call
      rintro (e' | _)
      · exact Ends.stranded r _ e'
      · exact Ends.unread r _ user e ⟨es, read, _, rfl, called, hreturns⟩
    · apply mirrors_call
      rintro (e' | _)
      · exact Ends.stranded r _ e'
      · exact Ends.profile r _ user row ⟨es, read, _, rfl, called, hreturns⟩
  · have hne : ∀ user, call ≠ .me user := fun user hc => h ⟨user, hc⟩
    rw [serve_settle, served_settle i r call hne]
    exact mirrors_settle _ (fun more result _ =>
      mirrors_closing (called_append called more) hne same result)

theorem only_currentUser {allowed : Command → Prop} (h : allowed .utcnow) (headers : Headers) :
    Only allowed (currentUser lib settings headers) := by
  unfold currentUser
  split
  case h_1 value _ =>
    refine only_bind _ _ (only_invoke _ h) (fun now => ?_)
    split
    · split
      · exact only_pure _
      · exact only_throw _
    · exact only_throw _
  case h_2 => exact only_throw _

/-- A token that was let in names its user. -/
theorem claimed_of_checked {r : HttpRequest} {es : Made} {user : UserId}
    (h : Returns (currentUser lib settings r.headers) es (.ok user)) :
    claimed lib r = some user := by
  unfold currentUser at h
  split at h
  case h_1 value hb =>
    rcases (returns_bind _ _ _).mp h with ⟨now, _, _, -, -, h⟩ | ⟨_, -, h⟩
    · split at h
      case h_1 claims hd =>
        split at h
        · have hsub : user = claims.sub := Except.ok.inj h.2
          rw [claimed, hb, Option.bind_some, hd, hsub]
          rfl
        · cases h.2
      case h_2 => cases h.2
    · cases h
  case h_2 => cases h.2

theorem mirrors_exchange (i : ℕ) (r : HttpRequest) :
    Mirrors (Quiet (.http r)) (Ends lib settings http digit i (.http r)) []
      (some <$> exchange lib settings http digit i r)
      (serve lib settings i (asked lib http digit (.http r))) := by
  rcases hi : intent http digit r with p | ⟨status, content⟩ | call | call
  · simp only [exchange, admitted, hi]
    exact Ends.turnedAway r p hi
  · simp only [exchange, admitted, hi]
    exact Ends.fixed r status content hi
  · have same : asked lib http digit (.http r) = requestOf r.filter call := by
      simp only [asked, hi]
    rw [same]
    simp only [exchange, admitted, hi]
    exact mirrors_served (.opened call hi) same
  · simp only [exchange, admitted, hi, map_settle, bind_settle, tryCatch_settle, settle_settle]
    refine mirrors_quietly (only_currentUser trivial r.headers) (fun es result checked => ?_)
    rw [List.nil_append]
    cases result with
    | error e => exact Ends.unauthenticated r es call e hi checked
    | ok user =>
      have same : asked lib http digit (.http r) = requestOf r.filter (call user) := by
        simp only [asked, hi, claimed_of_checked checked]
      have hserved : Mirrors (Quiet (.http r)) (Ends lib settings http digit i (.http r)) es
          _ _ := mirrors_served
        (.admitted call user es [] hi (List.append_nil es).symm checked) same
      rw [map_settle] at hserved
      rw [same]
      exact hserved

/-! ## The server -/

theorem quiet_unchanged (a : Arrival) (c : Command) (x : Choice) (w : World)
    (reply : Except Failure (Reply c)) (w' : World) (hc : Quiet a c)
    (h : perform lib c x w = some (reply, w')) : w' = w := by
  rcases perform_cases h with ⟨-, -, -, rfl⟩ | ⟨-, h⟩
  · rfl
  · cases a with
    | startup f => cases hc
    | http r =>
      cases c with
      | utcnow =>
        cases h
        rfl
      | database c =>
        cases c with
        | byId user =>
          cases h
          rfl
        | _ => cases hc
      | _ => cases hc

theorem server_mirrored : Mirrored (server lib settings http digit) (service lib settings)
    (asked lib http digit) Quiet (Ends lib settings http digit) where
  perform := fun _ _ _ => rfl
  pass := fun _ _ => rfl
  program := by
    rintro i (r | f)
    · exact mirrors_exchange i r
    · simp only [server, Arrival.program, map_settle]
      exact mirrors_shown _ (fun es a => Ends.started f es a) (fun es e => Ends.crashed f es e)
  cancelled := by
    rintro i (r | f) p hp
    · cases hp
    · cases hp
      exact ⟨fun c hc => hc, pure .empty, rfl, fun es => Ends.started f es .empty⟩
  quiet := quiet_unchanged

theorem mirror_server (lib : Libraries) (settings : Settings) (http : HttpSettings)
    (digit : Char → Bool) (now : ℕ) (database : Database)
    (ls : List (Label Arrival Choice Passing)) :
    ∃ ms, ms.Sublist (ls.map (heard (asked lib http digit))) ∧
      Mirror (asked lib http digit) Quiet (Ends lib settings http digit)
        (run (server lib settings http digit) ls (initial (World.fresh now database)))
        (run (service lib settings) ms (initial (World.fresh now database))) :=
  mirror_run server_mirrored ls (mirror_initial (World.fresh now database))

theorem ends_of_endedWith {asks : Arrival → Request}
    {t : State Command Reply Failure (Option Response) World Arrival} {s : Service}
    (hm : Mirror asks Quiet (Ends lib settings http digit) t s) {i : ℕ} {a : Arrival}
    {result : Except Failure (Option Response)} (h : endedWith t i = some (a, result)) :
    ∃ rest, s.threads[i]? = some ⟨asks a, rest⟩ ∧
      Ends lib settings http digit i a ((calls t.history i).map Step.of) result rest := by
  unfold endedWith at h
  split at h
  case h_1 q response ht =>
    cases h
    exact hm.threads i _ _ ht
  case h_2 q e ht =>
    cases h
    exact hm.threads i _ _ ht
  case h_3 => cases h

/-- Every run of the server is a run of the service over the same stores; the histories
differ in the calls that check an access token or read its user. Every response shows how
the request to the service ended, or the row that was read, or why it was turned away, and
an exchange has none only where its session could not be closed. -/
theorem server_refines_service (lib : Libraries) (settings : Settings) (http : HttpSettings)
    (digit : Char → Bool) (now : ℕ) (database : Database)
    (ls : List (Label Arrival Choice Passing)) :
    ∃ ms, ms.Sublist (ls.map (heard (asked lib http digit))) ∧
      let t := run (server lib settings http digit) ls (initial (World.fresh now database))
      let s := run (service lib settings) ms (initial (World.fresh now database))
      t.world = s.world ∧
      s.history.Sublist (t.history.map (recorded (asked lib http digit))) ∧
      (∀ loud : Command → Bool, (∀ a c, Quiet a c → loud c = false) →
        s.history.filter (fun e => loud e.command) =
          (t.history.map (recorded (asked lib http digit))).filter (fun e => loud e.command)) ∧
      ∀ i r result, endedWith t i = some (.http r, result) →
        ∃ rest, s.threads[i]? = some ⟨asked lib http digit (.http r), rest⟩ ∧
          Ends lib settings http digit i (.http r)
            ((calls t.history i).map Step.of) result rest := by
  obtain ⟨ms, hms, hmirror⟩ := mirror_server lib settings http digit now database ls
  exact ⟨ms, hms, hmirror.world, hmirror.thinned, hmirror.loud,
    fun i r result h => ends_of_endedWith hmirror h⟩

end Gamely.HttpRefinement
