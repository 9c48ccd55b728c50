import Gamely.Grants
import Gamely.HttpResponses

/-!
# Cookies and sessions

A response sets the refresh cookie exactly when its exchange began a session, for as long as
the session lives, and shows an access token of the same user beside it. The cookie is
cleared where a client ends its session and nowhere else.
-/

set_option autoImplicit false

namespace Gamely.HttpCookies
open Gamely.Calls Gamely.Stores Gamely.EmailJobs Gamely.Services Gamely.TokenService
open Gamely.Requests Gamely.HttpMessages Gamely.AuthController Gamely.HttpRefinement
open Gamely.Interleaving Gamely.Mirroring Gamely.Pasts Gamely.Grants

variable {lib : Libraries} {settings : Settings} {http : HttpSettings} {digit : Char → Bool}

/-! ## Routes -/

/-- The routes on which a client ends its session. -/
def ends : Route → Bool
  | .changePassword | .logout | .logoutAll => true
  | _ => false

def failed (response : Response) : Bool :=
  match response.content with
  | some (.error _ _) => true
  | _ => false

variable (digit) in
/-- An intent fits a route when its endpoint ends a session where the route does. -/
def Fits (route : Route) : Intent digit → Prop
  | .fixed _ _ => ends route = false
  | .open call => clears call = ends route
  | .guarded call => ∀ user, clears (call user) = ends route

theorem fits_parsed {T : Type} {parse : Body → Option T} {r : HttpRequest} {route : Route}
    {intend : T → Except Problem (Intent digit)} {x : Intent digit}
    (h : parsed digit parse r intend = .ok x)
    (hintend : ∀ body, intend body = .ok x → Fits digit route x) : Fits digit route x := by
  obtain ⟨body, -, hbody⟩ := parsed_ok h
  exact hintend body hbody

theorem fits_client {r : HttpRequest} {route : Route} {call : String → Call digit}
    {x : Intent digit}
    (h : (do
      let client ← AuthController.clientAddress r
      return Intent.open (call client)) = Except.ok x)
    (hcall : ∀ client, clears (call client) = ends route) : Fits digit route x := by
  unfold AuthController.clientAddress at h
  split at h
  · cases h
    exact hcall _
  · cases h

theorem fits_intent {r : HttpRequest} {x : Intent digit} (h : intent http digit r = .ok x) :
    Fits digit r.route x := by
  unfold intent at h
  split at h <;> rename_i hroute
  case h_1 | h_2 | h_6 =>
    rw [hroute]
    exact fits_parsed h (fun _ hc => fits_client hc (fun _ => rfl))
  case h_3 | h_4 | h_5 | h_7 | h_14 =>
    rw [hroute]
    refine fits_parsed h (fun _ hc => ?_)
    cases hc
    rfl
  case h_8 =>
    rw [hroute]
    refine fits_parsed h (fun _ hc => ?_)
    cases hc
    exact fun _ => rfl
  case h_9 =>
    rw [hroute]
    split at h
    · split at h
      · cases h
      · cases h
        rfl
    · cases h
  case h_11 | h_12 =>
    rw [hroute]
    cases h
    exact fun _ => rfl
  case h_19 => cases h
  all_goals
    rw [hroute]
    cases h
    rfl

/-! ## Exchanges -/

variable (lib settings http) in
/-- What a response says of the sessions its exchange began. -/
def Handed (r : HttpRequest) (response : Response) (issues : List Issue) : Prop :=
  (∃ cookie session claims, response.cookies = [cookie] ∧
    cookie = setRefresh settings http cookie.value ∧
    issues = [⟨lib.digest cookie.value, session, cookie.maxAge⟩] ∧
    response.content = some (.token (lib.encodeJwt claims) "bearer") ∧
    claims.sub = session.user) ∨
  issues = [] ∧ response.cookies =
    if ends r.route && !failed response then [clearRefresh http] else []

theorem handed_failed (r : HttpRequest) (p : Problem) :
    Handed lib settings http r (outgoing r (errorResponse p)) [] := by
  refine Or.inr ⟨rfl, ?_⟩
  have hfailed : failed (outgoing r (errorResponse p)) = true := rfl
  rw [hfailed, Bool.not_true, Bool.and_false]
  rfl

theorem handed_outcome {r : HttpRequest} {call : Call digit} {a : Answer} {issues : List Issue}
    (hc : clears call = ends r.route) (h : Tells lib settings issues (.ok a)) :
    Handed lib settings http r (outgoing r (respond digit call (outcome settings http call a)))
      issues := by
  cases a with
  | granted g =>
    obtain ⟨⟨family, rfl⟩, claims, haccess, hsub, -, -⟩ := h
    refine Or.inl ⟨setRefresh settings http g.refresh, ⟨g.user.id, family⟩, claims, rfl, rfl, rfl,
      ?_, hsub⟩
    rw [← haccess]
    rfl
  | available | status | nonce | empty =>
    refine Or.inr ⟨h, ?_⟩
    change cleared http call = _
    rw [cleared, hc]
    simp [failed, outgoing, securityHeaders, httpLogging, respond, outcome]

/-- The contract of the server on the sessions it begins. -/
def Hands (lib : Libraries) (settings : Settings) (http : HttpSettings) (a : Arrival)
    (issues : List Issue) (result : Except Failure (Option Response)) : Prop :=
  ∀ r response, a = .http r → result = .ok (some response) →
    Handed lib settings http r response issues

variable (lib settings http) in
def handing : Interleaving.Contract Command Reply Failure (Option Response) Arrival (List Issue) :=
  memory issued (fun _ _ _ _ => True) (Hands lib settings http)

theorem keeps_closing (session : ℕ) (r : HttpRequest) (inner : Response) {issues : List Issue}
    (h : Handed lib settings http r (outgoing r inner) issues) :
    Keeps issuing (do
      AuthService.rollback session
      return some (outgoing r inner)) issues (Hands lib settings http (.http r)) := by
  have hquiet : Only Silent (AuthService.rollback session) := only_invoke _ (by simp [Silent])
  refine (keeps_bind _ _ _ _).mpr (keeps_mono _ _ (fun g reply hg => ?_)
    (keeps_silent hquiet issues))
  subst hg
  cases reply with
  | error e =>
    rintro r response - ⟨⟩
  | ok _ =>
    rintro r response ⟨⟩ ⟨⟩
    exact h

theorem keeps_served (session : ℕ) (r : HttpRequest) (call : Call digit)
    (hc : clears call = ends r.route) :
    Keeps issuing (some <$> served lib settings http digit session r call) []
      (Hands lib settings http (.http r)) := by
  by_cases h : ∃ user, call = .me user
  · obtain ⟨user, rfl⟩ := h
    have hread : Only Silent (AuthService.requireUser user) :=
      silent_within (Footprints.requireUser_within user) (by decide)
    rw [served_me]
    refine (keeps_settle _ _ _ _).mpr
      (keeps_mono _ _ (fun g result hg => ?_) (keeps_silent hread []))
    subst hg
    cases result with
    | error e => exact keeps_closing session r _ (handed_failed r _)
    | ok row =>
      refine keeps_closing session r _ (Or.inr ⟨rfl, ?_⟩)
      rw [← hc]
      rfl
  · have hne : ∀ user, call ≠ .me user := fun user hc => h ⟨user, hc⟩
    rw [served_settle session r call hne]
    refine (keeps_settle _ _ _ _).mpr
      (keeps_mono _ _ (fun issues result htells => ?_) (keeps_handled session _))
    cases result with
    | ok a => exact keeps_closing session r _ (handed_outcome hc htells)
    | error e =>
      have hnone : issues = [] := htells
      subst hnone
      exact keeps_closing session r _ (handed_failed r _)

theorem keeps_exchange (i : ℕ) (r : HttpRequest) :
    Keeps issuing (some <$> exchange lib settings http digit i r) []
      (Hands lib settings http (.http r)) := by
  have turned : ∀ p : Problem, Hands lib settings http (.http r) []
      (.ok (some (outgoing r (errorResponse p)))) := by
    rintro p _ _ ⟨⟩ ⟨⟩
    exact handed_failed r p
  rcases hi : intent http digit r with p | ⟨status, content⟩ | call | call
  · simp only [exchange, admitted, hi]
    exact turned p
  · simp only [exchange, admitted, hi]
    rintro _ _ ⟨⟩ ⟨⟩
    have hroute : ends r.route = false := fits_intent hi
    refine Or.inr ⟨rfl, ?_⟩
    rw [hroute]
    rfl
  · simp only [exchange, admitted, hi]
    exact keeps_served i r call (fits_intent hi)
  · have hroute : ∀ user, clears (call user) = ends r.route := fits_intent hi
    simp only [exchange, admitted, hi, map_settle, bind_settle, tryCatch_settle, settle_settle]
    refine (keeps_settle _ _ _ _).mpr
      (keeps_mono _ _ (fun g result hg => ?_) (keeps_silent
        (only_currentUser (by simp [Silent]) r.headers) []))
    subst hg
    cases result with
    | ok user =>
      have hserved : Keeps issuing (some <$> served lib settings http digit i r (call user)) []
          (Hands lib settings http (.http r)) := keeps_served i r (call user) (hroute user)
      rw [map_settle] at hserved
      exact hserved
    | error e => exact turned (problem e)

theorem obeys_handing : Obeys (server lib settings http digit) (handing lib settings http) where
  program := by
    rintro i (r | f)
    · exact keeps_exchange i r
    · refine keeps_mono _ _ (fun g result h => ?_)
        (keeps_of_kept (fun _ => True) _ (only_any _) [] trivial (fun _ _ => True)
          (fun _ _ _ _ => ⟨trivial, fun _ => trivial⟩) (fun _ _ _ => trivial))
      rintro r response ⟨⟩
  cancelled := by
    rintro i (r | f) p hp g
    · cases hp
    · cases hp
      rintro r response ⟨⟩

/-- A response sets the refresh cookie exactly when its exchange began a session, which
lives as long as the cookie and is its access token's user's. A client's cookie is cleared
where it ends its session, and left alone everywhere else. An exchange whose scope could not
be closed returns no response, and the server's error page for it sets no cookie. -/
theorem cookies_match_sessions (lib : Libraries) (settings : Settings) (http : HttpSettings)
    (digit : Char → Bool) (now : ℕ) (database : Database)
    (ls : List (Label Arrival Choice Passing)) (i : ℕ) (r : HttpRequest) (response : Response)
    (h : returned (run (server lib settings http digit) ls
      (initial (World.fresh now database))) i = some (.http r, some response)) :
    let issues := past issued (run (server lib settings http digit) ls
      (initial (World.fresh now database))).history i
    (∃ cookie session claims, response.cookies = [cookie] ∧
      cookie = setRefresh settings http cookie.value ∧
      issues = [⟨lib.digest cookie.value, session, cookie.maxAge⟩] ∧
      response.content = some (.token (lib.encodeJwt claims) "bearer") ∧
      claims.sub = session.user) ∨
    issues = [] ∧ response.cookies =
      if ends r.route && !failed response then [clearRefresh http] else [] :=
  post_run obeys_handing ls (World.fresh now database) h r response rfl rfl

/-- A login of the one account, with the calls of its exchange. -/
def member : HttpRequest :=
  { HttpResponses.stranger with
    body := some [("email", some "a@b"), ("password", some "long password")] }

def memberRun : List (Label Arrival Choice Passing) :=
  .spawn (.http member) :: ["", "", "value", "family", "", ""].map (fun name =>
    .run 0 { name := name })

def memberResponse : Response :=
  outgoing member
    { status := 200, headers := [], content := some (.token "user" "bearer")
      cookies := [setRefresh plainSettings HttpResponses.plainHttp "value"] }

theorem cookies_match_sessions_member :
    ∃ cookie session, memberResponse.cookies = [cookie] ∧
      past issued (run (server plainLibraries plainSettings HttpResponses.plainHttp Char.isDigit)
        memberRun (initial (World.fresh 0 oneAccount))).history 0 =
          [⟨cookie.value, session, cookie.maxAge⟩] := by
  rcases cookies_match_sessions plainLibraries plainSettings HttpResponses.plainHttp Char.isDigit 0
    oneAccount memberRun 0 member memberResponse rfl with
    ⟨cookie, session, claims, hcookies, -, hissues, -⟩ | ⟨-, hcookies⟩
  · exact ⟨cookie, session, hcookies, hissues⟩
  · cases hcookies

end Gamely.HttpCookies
