import Gamely.DateTimes
import Mathlib.Data.List.Basic

/-!
# Email jobs

A job is a record whose fields were checked when it was built, so an invalid
job has no value.
-/

set_option autoImplicit false

namespace Gamely.EmailJobs
open Gamely.DateTimes

/-- Every exception class the modelled code raises or lets through. `external` is
any other failure of a driver: Redis, PostgreSQL, the broker, a mail server or a
provider. The texts of errors of the interpreter itself are left empty. -/
inductive Failure where
  | badRequest (message : String)
  | unauthorized (message : String)
  | conflict (message : String)
  | tooManyRequests (message : String)
  | serviceUnavailable (message : String)
  | integrityError
  | valueError (message : String)
  | typeError (message : String)
  | overflowError
  | keyError
  | indexError
  | attributeError
  | recursionError
  | recipientRefused
  | external
  deriving DecidableEq, Repr

/-- The code points for which `str.isdigit` holds, not only the ASCII ones. -/
def digitRanges : List (ℕ × ℕ) :=
  [(48,57), (178,179), (185,185), (1632,1641), (1776,1785), (1984,1993), (2406,2415),
   (2534,2543), (2662,2671), (2790,2799), (2918,2927), (3046,3055), (3174,3183),
   (3302,3311), (3430,3439), (3558,3567), (3664,3673), (3792,3801), (3872,3881),
   (4160,4169), (4240,4249), (4969,4977), (6112,6121), (6160,6169), (6470,6479),
   (6608,6618), (6784,6793), (6800,6809), (6992,7001), (7088,7097), (7232,7241),
   (7248,7257), (8304,8304), (8308,8313), (8320,8329), (9312,9320), (9332,9340),
   (9352,9360), (9450,9450), (9461,9469), (9471,9471), (10102,10110), (10112,10120),
   (10122,10130), (42528,42537), (43216,43225), (43264,43273), (43472,43481),
   (43504,43513), (43600,43609), (44016,44025), (65296,65305), (66720,66729),
   (68160,68163), (68912,68921), (69216,69224), (69714,69722), (69734,69743),
   (69872,69881), (69942,69951), (70096,70105), (70384,70393), (70736,70745),
   (70864,70873), (71248,71257), (71360,71369), (71472,71481), (71904,71913),
   (72016,72025), (72784,72793), (73040,73049), (73120,73129), (73552,73561),
   (92768,92777), (92864,92873), (93008,93017), (120782,120831), (123200,123209),
   (123632,123641), (124144,124153), (125264,125273), (127232,127242), (130032,130041)]

def digitPoint (n : ℕ) : Bool := digitRanges.any (fun r => r.1 ≤ n && n ≤ r.2)

def isDigit (c : Char) : Bool := digitPoint c.toNat

/-- `str.isdigit`, false on the empty string. -/
def isDigits (s : String) : Bool := s.toList ≠ [] && s.toList.all isDigit

structure JobFields where
  recipient : String
  template : String
  code : String
  expiresAt : DateTime
  attempts : ℤ := 0
  id : String := ""
  deriving DecidableEq, Repr

/-- `EmailJob.__post_init__`, in the order of its checks. -/
def postInit (j : JobFields) : Except Failure Unit :=
  if '@' ∉ j.recipient.toList ∨ 320 < j.recipient.length then
    .error (.valueError "invalid email recipient")
  else if j.template ≠ "verify" ∧ j.template ≠ "reset" then
    .error (.valueError "invalid email template")
  else if j.code.length ≠ 6 ∨ isDigits j.code = false then
    .error (.valueError "invalid authentication code")
  else if j.expiresAt.utcoffset = none then
    .error (.valueError "email job expiration must include a timezone")
  else if j.attempts < 0 then
    .error (.valueError "email job attempts cannot be negative")
  else .ok ()

/-- A constructed job: the constructor accepted its fields. -/
structure EmailJob where
  fields : JobFields
  valid : postInit fields = .ok ()
  deriving DecidableEq

def EmailJob.make (j : JobFields) : Except Failure EmailJob :=
  match h : postInit j with
  | .ok () => .ok ⟨j, h⟩
  | .error e => .error e

theorem postInit_ok (j : JobFields) : postInit j = .ok () ↔
    ('@' ∈ j.recipient.toList ∧ j.recipient.length ≤ 320) ∧
    (j.template = "verify" ∨ j.template = "reset") ∧
    (j.code.length = 6 ∧ isDigits j.code = true) ∧
    j.expiresAt.utcoffset ≠ none ∧ 0 ≤ j.attempts := by
  unfold postInit
  split_ifs with h1 h2 h3 h4 h5
  · simp only [false_iff]
    rintro ⟨⟨ha, hb⟩, -⟩
    rcases h1 with h1 | h1
    · exact h1 ha
    · omega
  · simp only [false_iff]
    rintro ⟨-, h | h, -⟩
    · exact h2.1 h
    · exact h2.2 h
  · simp only [false_iff]
    rintro ⟨-, -, ⟨ha, hb⟩, -⟩
    rcases h3 with h3 | h3
    · exact h3 ha
    · rw [hb] at h3
      cases h3
  · simp [h4]
  · simp only [false_iff]
    rintro ⟨-, -, -, -, h⟩
    omega
  · simp only [true_iff]
    have h1' : '@' ∈ j.recipient.toList ∧ j.recipient.length ≤ 320 := by
      constructor
      · by_contra h
        exact h1 (Or.inl h)
      · by_contra h
        exact h1 (Or.inr (by omega))
    have h2' : j.template = "verify" ∨ j.template = "reset" := by
      by_contra h
      exact h2 (not_or.mp h)
    have h3' : j.code.length = 6 ∧ isDigits j.code = true := by
      constructor
      · by_contra h
        exact h3 (Or.inl h)
      · by_contra h
        exact h3 (Or.inr (by simpa using h))
    exact ⟨h1', h2', h3', h4, by omega⟩

theorem make_valid {j : JobFields} (h : postInit j = .ok ()) : EmailJob.make j = .ok ⟨j, h⟩ := by
  unfold EmailJob.make
  split
  · rfl
  case h_2 e hbad =>
    rw [h] at hbad
    cases hbad

theorem make_fields {j : JobFields} {job : EmailJob} (h : EmailJob.make j = .ok job) :
    job.fields = j := by
  unfold EmailJob.make at h
  split at h
  · cases h
    rfl
  · cases h

end Gamely.EmailJobs
