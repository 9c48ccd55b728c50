import Mathlib.Data.Int.Notation
import Mathlib.Data.Nat.Digits.Defs

/-!
# JSON as Python writes and reads it

A string is its list of code points, surrogates included. `dumps` escapes every
code point outside printable ASCII; `loads` follows the scanner of the standard
library. Floats are a parameter: nothing here computes with them.
-/

set_option autoImplicit false

namespace Gamely.Json

abbrev Text := List ℕ

abbrev Bytes := List UInt8

def text (s : String) : Text := s.toList.map Char.toNat

inductive Value (F : Type) where
  | null
  | bool (b : Bool)
  | int (n : ℤ)
  | float (x : F)
  | str (s : Text)
  | arr (items : List (Value F))
  | obj (members : List (Text × Value F))

/-- What the interpreter supplies: its floats, and how deep containers may nest. -/
structure Runtime (F : Type) where
  parseFloat : Text → F
  repr : F → Text
  nan : F
  infinity : F
  negInfinity : F
  truthy : F → Bool
  less : F → ℤ → Bool
  atLeast : F → ℤ → Bool
  plus : F → ℤ → F
  depth : ℕ
  depth_pos : 0 < depth

/-- `JSONDecodeError`, `UnicodeDecodeError` and the limit on the digits of an
`int` are all a `ValueError`. -/
inductive Error where
  | valueError
  | recursionError
  deriving DecidableEq, Repr

variable {F : Type} (py : Runtime F)

/-! ## Writing -/

def hex (d : ℕ) : ℕ := if d < 10 then 48+d else 87+d

/-- `\uXXXX`. -/
def unicode (n : ℕ) : Text :=
  [92, 117, hex (n/4096%16), hex (n/256%16), hex (n/16%16), hex (n%16)]

def escape (c : ℕ) : Text :=
  if c = 34 then [92, 34]
  else if c = 92 then [92, 92]
  else if c = 10 then [92, 110]
  else if c = 13 then [92, 114]
  else if c = 9 then [92, 116]
  else if c = 12 then [92, 102]
  else if c = 8 then [92, 98]
  else if 32 ≤ c ∧ c ≤ 126 then [c]
  else if c < 65536 then unicode c
  else unicode (55296+(c-65536)/1024) ++ unicode (56320+(c-65536)%1024)

def quoted (s : Text) : Text := 34 :: s.flatMap escape ++ [34]

def decimal (n : ℕ) : Text := if n = 0 then [48] else (Nat.digits 10 n).reverse.map (48+·)

def signed (n : ℤ) : Text := if n < 0 then 45 :: decimal n.natAbs else decimal n.natAbs

/-- `sys.int_info.default_max_str_digits`. -/
def maxStrDigits : ℕ := 4300

mutual

def dumps : ℕ → Value F → Except Error Text
  | _, .null => .ok (text "null")
  | _, .bool b => .ok (if b then text "true" else text "false")
  | _, .int n =>
    if maxStrDigits < (decimal n.natAbs).length then .error .valueError else .ok (signed n)
  | _, .float x => .ok (py.repr x)
  | _, .str s => .ok (quoted s)
  | 0, .arr _ => .error .recursionError
  | depth+1, .arr items => do
    let items ← dumpsItems depth items
    .ok (91 :: List.intercalate [44, 32] items ++ [93])
  | 0, .obj _ => .error .recursionError
  | depth+1, .obj members => do
    let members ← dumpsMembers depth members
    .ok (123 :: List.intercalate [44, 32] members ++ [125])

def dumpsItems : ℕ → List (Value F) → Except Error (List Text)
  | _, [] => .ok []
  | depth, v::vs => do
    let v ← dumps depth v
    let vs ← dumpsItems depth vs
    .ok (v::vs)

def dumpsMembers : ℕ → List (Text × Value F) → Except Error (List Text)
  | _, [] => .ok []
  | depth, (key, v)::rest => do
    let v ← dumps depth v
    let rest ← dumpsMembers depth rest
    .ok ((quoted key ++ [58, 32] ++ v)::rest)

end

/-- `str.encode` of what `dumps` wrote, which is ASCII. -/
def encode (s : Text) : Bytes := s.map UInt8.ofNat

/-! ## Bytes to text -/

inductive Encoding where
  | utf8
  | utf8sig
  | utf16 (little : Bool)
  | utf32 (little : Bool)
  deriving DecidableEq, Repr

/-- `json.detect_encoding`, with the mark of `utf-16` and `utf-32` already read. -/
def detectEncoding (b : List ℕ) : Encoding × List ℕ :=
  match b with
  | 0::0::254::255::rest => (.utf32 false, rest)
  | 255::254::0::0::rest => (.utf32 true, rest)
  | 254::255::rest => (.utf16 false, rest)
  | 255::254::rest => (.utf16 true, rest)
  | 239::187::191::rest => (.utf8sig, rest)
  | b₀::b₁::b₂::b₃::_ =>
    if b₀ = 0 then (if b₁ = 0 then .utf32 false else .utf16 false, b)
    else if b₁ = 0 then (if b₂ = 0 ∧ b₃ = 0 then .utf32 true else .utf16 true, b)
    else (.utf8, b)
  | [b₀, b₁] => (if b₀ = 0 then .utf16 false else if b₁ = 0 then .utf16 true else .utf8, b)
  | _ => (.utf8, b)

def isTail (b : ℕ) : Bool := 128 ≤ b && b < 192

/-- UTF-8 under `surrogatepass`: shortest forms only, surrogates let through. -/
def decodeUtf8 : List ℕ → Option Text
  | [] => some []
  | a::rest =>
    if a < 128 then (a :: ·) <$> decodeUtf8 rest
    else match rest with
      | [] => none
      | b::rest =>
        if isTail b = false then none
        else if 194 ≤ a ∧ a < 224 then (((a-192)*64+(b-128)) :: ·) <$> decodeUtf8 rest
        else match rest with
          | [] => none
          | c::rest =>
            if isTail c = false then none
            else if 224 ≤ a ∧ a < 240 then
              if a = 224 ∧ b < 160 then none
              else (((a-224)*4096+(b-128)*64+(c-128)) :: ·) <$> decodeUtf8 rest
            else match rest with
              | [] => none
              | d::rest =>
                if isTail d = false ∨ a < 240 ∨ 244 < a ∨ (a = 240 ∧ b < 144) ∨
                    (a = 244 ∧ 144 ≤ b) then none
                else (((a-240)*262144+(b-128)*4096+(c-128)*64+(d-128)) :: ·) <$> decodeUtf8 rest

def isHigh (n : ℕ) : Bool := 55296 ≤ n && n < 56320

def isLow (n : ℕ) : Bool := 56320 ≤ n && n < 57344

def joined (high low : ℕ) : ℕ := 65536+(high-55296)*1024+(low-56320)

def units16 (little : Bool) : List ℕ → Option (List ℕ)
  | [] => some []
  | [_] => none
  | a::b::rest => ((if little then a+256*b else 256*a+b) :: ·) <$> units16 little rest

def joinUnits : List ℕ → Text
  | [] => []
  | [u] => [u]
  | u::v::rest =>
    if isHigh u && isLow v then joined u v :: joinUnits rest else u :: joinUnits (v::rest)

def decodeUtf32 (little : Bool) : List ℕ → Option Text
  | [] => some []
  | a::b::c::d::rest =>
    let n := if little then a+256*(b+256*(c+256*d)) else d+256*(c+256*(b+256*a))
    if n < 1114112 then (n :: ·) <$> decodeUtf32 little rest else none
  | _ => none

def decode (body : Bytes) : Except Error Text :=
  let found : Option Text := match detectEncoding (body.map UInt8.toNat) with
    | (.utf8, b) => decodeUtf8 b
    | (.utf8sig, b) => decodeUtf8 b
    | (.utf16 little, b) => joinUnits <$> units16 little b
    | (.utf32 little, b) => decodeUtf32 little b
  match found with
  | some s => .ok s
  | none => .error .valueError

/-! ## Reading -/

def isSpace (c : ℕ) : Bool := c = 32 || c = 9 || c = 10 || c = 13

def skip (s : Text) : Text := s.dropWhile isSpace

def isDigit (c : ℕ) : Bool := 48 ≤ c && c ≤ 57

theorem isDigit_iff (c : ℕ) : isDigit c = true ↔ 48 ≤ c ∧ c ≤ 57 := by
  simp [isDigit]

def accept (c : ℕ) : Text → Option Text
  | [] => none
  | x::rest => if x = c then some rest else none

def expect (c : ℕ) (s : Text) : Except Error Text :=
  match accept c s with
  | some rest => .ok rest
  | none => .error .valueError

def hexDigit (c : ℕ) : Option ℕ :=
  if isDigit c then some (c-48)
  else if 97 ≤ c ∧ c ≤ 102 then some (c-87)
  else if 65 ≤ c ∧ c ≤ 70 then some (c-55)
  else none

def hex4 : Text → Except Error (ℕ × Text)
  | a::b::c::d::rest =>
    match hexDigit a, hexDigit b, hexDigit c, hexDigit d with
    | some a, some b, some c, some d => .ok (((a*16+b)*16+c)*16+d, rest)
    | _, _, _, _ => .error .valueError
  | _ => .error .valueError

/-- After `\u`: a high surrogate takes the low one escaped right behind it. -/
def unicodeEscape (s : Text) : Except Error (ℕ × Text) := do
  let (n, rest) ← hex4 s
  match isHigh n, (accept 92 rest).bind (accept 117) with
  | true, some behind => do
    let (m, beyond) ← hex4 behind
    if isLow m then .ok (joined n m, beyond) else .ok (n, rest)
  | _, _ => .ok (n, rest)

def plainEscape (c : ℕ) : Option ℕ :=
  if c = 34 ∨ c = 92 ∨ c = 47 then some c
  else if c = 98 then some 8
  else if c = 102 then some 12
  else if c = 110 then some 10
  else if c = 114 then some 13
  else if c = 116 then some 9
  else none

/-- After a backslash. -/
def scanEscape : Text → Except Error (ℕ × Text)
  | [] => .error .valueError
  | c::rest =>
    if c = 117 then unicodeEscape rest
    else match plainEscape c with
      | some x => .ok (x, rest)
      | none => .error .valueError

/-- After the opening quote; control characters must be escaped. -/
def scanString : ℕ → Text → Except Error (Text × Text)
  | 0, _ => .error .valueError
  | _+1, [] => .error .valueError
  | fuel+1, c::rest =>
    if c = 34 then .ok ([], rest)
    else if c = 92 then do
      let (x, rest) ← scanEscape rest
      let (s, rest) ← scanString fuel rest
      .ok (x::s, rest)
    else if c < 32 then .error .valueError
    else do
      let (s, rest) ← scanString fuel rest
      .ok (c::s, rest)

def number (digits : Text) : ℕ := digits.foldl (fun n c => 10*n+(c-48)) 0

/-- `(?:0|[1-9]\d*)`. -/
def integerPart : Text → Except Error (Text × Text)
  | [] => .error .valueError
  | c::rest =>
    if c = 48 then .ok ([c], rest)
    else if isDigit c then .ok (c :: rest.takeWhile isDigit, rest.dropWhile isDigit)
    else .error .valueError

def fractionPart (s : Text) : Text × Text :=
  match accept 46 s with
  | some rest => if rest.takeWhile isDigit = [] then ([], s)
    else (46 :: rest.takeWhile isDigit, rest.dropWhile isDigit)
  | none => ([], s)

def signPart : Text → Text × Text
  | [] => ([], [])
  | c::rest => if c = 43 ∨ c = 45 then ([c], rest) else ([], c::rest)

def exponentPart : Text → Text × Text
  | [] => ([], [])
  | c::rest =>
    if c = 101 ∨ c = 69 then
      let (sign, rest') := signPart rest
      if rest'.takeWhile isDigit = [] then ([], c::rest)
      else (c :: sign ++ rest'.takeWhile isDigit, rest'.dropWhile isDigit)
    else ([], c::rest)

def scanNumber (s : Text) : Except Error (Value F × Text) := do
  let (negative, s) := match accept 45 s with
    | some rest => (true, rest)
    | none => (false, s)
  let (digits, rest) ← integerPart s
  let (fraction, rest) := fractionPart rest
  let (exponent, rest) := exponentPart rest
  if fraction = [] ∧ exponent = [] then
    if maxStrDigits < digits.length then .error .valueError
    else .ok (.int (if negative then -(number digits : ℤ) else number digits), rest)
  else
    .ok (.float (py.parseFloat
      ((if negative then [45] else []) ++ digits ++ fraction ++ exponent)), rest)

def word (w s : Text) : Option Text := if w.isPrefixOf s then some (s.drop w.length) else none

/-- The constants, tried before a number. -/
def constant (s : Text) : Option (Value F × Text) :=
  [(text "null", Value.null), (text "true", .bool true), (text "false", .bool false),
    (text "NaN", .float py.nan), (text "Infinity", .float py.infinity),
    (text "-Infinity", .float py.negInfinity)].findSome?
      (fun entry => (word entry.1 s).map (fun rest => (entry.2, rest)))

/-- A later member of the same name replaces the value of the earlier one. -/
def setMember (members : List (Text × Value F)) (key : Text) (v : Value F) :
    List (Text × Value F) :=
  if members.any (fun m => m.1 = key) then
    members.map (fun m => if m.1 = key then (key, v) else m)
  else members ++ [(key, v)]

mutual

/-- The first argument only bounds the recursion; the second is the nesting that
the interpreter still allows. -/
def scanOnce : ℕ → ℕ → Text → Except Error (Value F × Text)
  | 0, _, _ => .error .valueError
  | _+1, _, [] => .error .valueError
  | fuel+1, depth, c::rest =>
    if c = 34 then do
      let (s, rest) ← scanString (rest.length+1) rest
      .ok (.str s, rest)
    else if c = 123 then
      match depth with
      | 0 => .error .recursionError
      | depth+1 => match accept 125 (skip rest) with
        | some rest => .ok (.obj [], rest)
        | none => do
          let (members, rest) ← scanMembers fuel depth (skip rest) []
          .ok (.obj members, rest)
    else if c = 91 then
      match depth with
      | 0 => .error .recursionError
      | depth+1 => match accept 93 (skip rest) with
        | some rest => .ok (.arr [], rest)
        | none => do
          let (items, rest) ← scanItems fuel depth (skip rest)
          .ok (.arr items, rest)
    else match constant py (c::rest) with
      | some found => .ok found
      | none => scanNumber py (c::rest)

def scanItems : ℕ → ℕ → Text → Except Error (List (Value F) × Text)
  | 0, _, _ => .error .valueError
  | fuel+1, depth, s => do
    let (v, rest) ← scanOnce fuel depth s
    match accept 93 (skip rest) with
    | some rest => .ok ([v], rest)
    | none => do
      let rest ← expect 44 (skip rest)
      let (vs, rest) ← scanItems fuel depth (skip rest)
      .ok (v::vs, rest)

def scanMembers : ℕ → ℕ → Text → List (Text × Value F) →
    Except Error (List (Text × Value F) × Text)
  | 0, _, _, _ => .error .valueError
  | fuel+1, depth, s, members => do
    let rest ← expect 34 s
    let (key, rest) ← scanString (rest.length+1) rest
    let rest ← expect 58 (skip rest)
    let (v, rest) ← scanOnce fuel depth (skip rest)
    match accept 125 (skip rest) with
    | some rest => .ok (setMember members key v, rest)
    | none => do
      let rest ← expect 44 (skip rest)
      scanMembers fuel depth (skip rest) (setMember members key v)

end

def loadsText (s : Text) : Except Error (Value F) := do
  let (v, rest) ← scanOnce py (2*s.length+2) py.depth (skip s)
  if skip rest = [] then .ok v else .error .valueError

def loads (body : Bytes) : Except Error (Value F) := decode body >>= loadsText py

end Gamely.Json
