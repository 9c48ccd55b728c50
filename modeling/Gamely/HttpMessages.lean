import Gamely.Requests

/-!
# HTTP messages

What the service reads of a request and what it writes in a response, the errors it shows
to its clients and the headers its middlewares add. Routing, the parsing of a message and
the CORS headers are the framework's and come with the request or not at all.
-/

set_option autoImplicit false

namespace Gamely.HttpMessages
open Gamely.EmailJobs Gamely.Stores

/-! ## Responses -/

/-- A `Set-Cookie` header; `delete_cookie` writes one with an empty value and no time left. -/
structure Cookie where
  key : String
  value : String
  maxAge : ℕ
  domain : Option String
  path : String
  secure : Bool
  httponly : Bool
  samesite : String
  deriving DecidableEq, Repr

/-- Every JSON body the service writes. -/
inductive Content where
  | available (available : Bool)
  | status (status : String)
  | token (accessToken tokenType : String)
  | profile (id email : String) (emailVerified : Bool)
  | nonce (nonce : String)
  | named (name status : String)
  | error (code message : String)
  deriving DecidableEq, Repr

/-- Header names are in lower case, and `Set-Cookie` headers are kept apart. -/
structure Response where
  status : ℕ
  headers : List (String × String)
  cookies : List Cookie
  content : Option Content
  deriving DecidableEq, Repr

abbrev Headers := List (String × String)

/-- `headers[name] = value`: the first such header is replaced, the others go. -/
def setHeader (name value : String) : Headers → Headers
  | [] => [(name, value)]
  | h::hs =>
    if h.1 = name then (name, value) :: hs.filter (·.1 ≠ name) else h :: setHeader name value hs

/-- `headers.setdefault(name, value)`. -/
def setDefault (name value : String) (hs : Headers) : Headers :=
  if hs.any (·.1 = name) then hs else hs ++ [(name, value)]

/-- `headers.get(name)`. -/
def header (name : String) (hs : Headers) : Option String :=
  (hs.find? (·.1 = name)).map Prod.snd

/-! ## Errors -/

/-- What `error_response` shows. -/
structure Problem where
  status : ℕ
  code : String
  message : String
  deriving DecidableEq, Repr

def errorResponse (p : Problem) : Response := ⟨p.status, [], [], some (.error p.code p.message)⟩

/-- `ExceptionHandlingMiddleware.dispatch`: the classes of `application_error` show their own
status, code and message, and any other exception shows one fixed text. -/
def problem : Failure → Problem
  | .badRequest message => ⟨400, "bad_request", message⟩
  | .unauthorized message => ⟨401, "unauthorized", message⟩
  | .conflict message => ⟨409, "conflict", message⟩
  | .tooManyRequests message => ⟨429, "too_many_requests", message⟩
  | .serviceUnavailable message => ⟨503, "service_unavailable", message⟩
  | _ => ⟨500, "internal_error", "An unexpected error occurred."⟩

/-- An `HTTPException` of the framework; `detail` is its text, where it is one. -/
structure HttpError where
  status : ℕ
  detail : Option String
  error : 400 ≤ status
  deriving DecidableEq, Repr

/-- `handle_http_error`. -/
def httpProblem (error : HttpError) : Problem :=
  ⟨error.status, "http_error", error.detail.getD "The request could not be processed."⟩

/-- `handle_validation_error`. -/
def validationProblem : Problem := ⟨422, "validation_error", "The request data is invalid."⟩

/-! ## Middlewares -/

/-- `HttpLoggingMiddleware.dispatch`: the client's own identifier or a new one. -/
def requestId (named : Option String) (generated : String) : String :=
  match named with
  | some name => if name = "" then generated else name
  | none => generated

def httpLogging (id : String) (r : Response) : Response :=
  { r with headers := setHeader "x-request-id" id r.headers }

/-- `SecurityHeadersMiddleware.dispatch`. -/
def securityHeaders (r : Response) : Response :=
  let headers := setDefault "x-content-type-options" "nosniff" r.headers
  let headers := setDefault "x-frame-options" "DENY" headers
  { r with headers := setDefault "referrer-policy" "strict-origin-when-cross-origin" headers }

/-! ## Request bodies -/

/-- The members of a JSON object, the last one of a name first, each with its text if it is
a string. -/
abbrev Body := List (String × Option String)

def text (body : Body) (name : String) : Option String :=
  (body.find? (·.1 = name)).bind Prod.snd

def passwordMaxLength : ℕ := 128

/-- A string field of at most `n` characters. -/
abbrev Bounded (n : ℕ) := { value : String // value.length ≤ n }

def bounded (n : ℕ) (value : String) : Option (Bounded n) :=
  if h : value.length ≤ n then some ⟨value, h⟩ else none

/-- `^\d{6}$`; `digit` is the pattern engine's class of decimal digits. -/
def sixDigit (digit : Char → Bool) (value : String) : Bool :=
  value.length = 6 && value.toList.all digit

structure CredentialsRequest where
  email : Bounded 320
  password : Bounded passwordMaxLength

structure EmailRequest where
  email : Bounded 320

structure VerifyEmailRequest (digit : Char → Bool) extends EmailRequest where
  code : { value : String // sixDigit digit value = true }

structure ResetPasswordRequest (digit : Char → Bool) extends VerifyEmailRequest digit where
  password : Bounded passwordMaxLength

structure ChangePasswordRequest where
  currentPassword : Bounded passwordMaxLength
  newPassword : Bounded passwordMaxLength

structure OAuthTokenRequest where
  idToken : Bounded 16384
  nonce : Bounded 256

def field (n : ℕ) (body : Body) (name : String) : Option (Bounded n) :=
  (text body name).bind (bounded n)

def CredentialsRequest.parse (body : Body) : Option CredentialsRequest := do
  let email ← field 320 body "email"
  let password ← field passwordMaxLength body "password"
  return ⟨email, password⟩

def EmailRequest.parse (body : Body) : Option EmailRequest := do
  let email ← field 320 body "email"
  return ⟨email⟩

def VerifyEmailRequest.parse (digit : Char → Bool) (body : Body) :
    Option (VerifyEmailRequest digit) := do
  let email ← EmailRequest.parse body
  let code ← text body "code"
  if h : sixDigit digit code = true then return ⟨email, ⟨code, h⟩⟩ else none

def ResetPasswordRequest.parse (digit : Char → Bool) (body : Body) :
    Option (ResetPasswordRequest digit) := do
  let verify ← VerifyEmailRequest.parse digit body
  let password ← field passwordMaxLength body "password"
  return ⟨verify, password⟩

def ChangePasswordRequest.parse (body : Body) : Option ChangePasswordRequest := do
  let current ← field passwordMaxLength body "current_password"
  let new ← field passwordMaxLength body "new_password"
  return ⟨current, new⟩

def OAuthTokenRequest.parse (body : Body) : Option OAuthTokenRequest := do
  let idToken ← field 16384 body "id_token"
  let nonce ← field 256 body "nonce"
  return ⟨idToken, nonce⟩

end Gamely.HttpMessages
