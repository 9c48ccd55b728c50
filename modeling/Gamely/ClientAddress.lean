import Gamely.IPAddressRoundTrip

/-!
# The caller that a request is charged to

One rule masks every IPv6 address, those that stand for an IPv4 client with the rest.
-/

set_option autoImplicit false

namespace Gamely.ClientAddress
open Gamely.IPAddresses

/-- `client_address` for the host of `request.client`, where there is one; `none` is an
exception. -/
def clientAddress : Option String → Option String
  | none => some "unknown"
  | some host => match ipAddress host.toList with
    | none => some host
    | some (.v6 a) => (networkAddress (a.str ++ ['/', '6', '4'])).map
        (fun network => String.ofList network.str)
    | some (.v4 a) => some (String.ofList a.str)

def upper (a : IPv6Address) : ℕ := a.ip.toNat/2^64

def network (a : IPv6Address) : IPv6Address := ⟨.ofNat 128 (upper a*2^64), none⟩

/-- The address whose text identifies the caller. -/
def identity : Address → Address
  | .v4 a => .v4 a
  | .v6 a => .v6 (network a)

theorem networkAddress_str {a : IPv6Address} (ha : a.scopeId = none) :
    networkAddress (a.str ++ ['/', '6', '4']) = some (network a) := by
  have htext : a.str ++ ['/', '6', '4'] = ['/'].intercalate [a.str, ['6', '4']] := by simp
  have hslash : ∀ part ∈ [a.str, ['6', '4']], '/' ∉ part := by
    intro part hp
    simp only [List.mem_cons, List.not_mem_nil, or_false] at hp
    rcases hp with rfl | rfl
    · exact slash_str6 ha
    · decide
  have hlength : prefixLength ['6', '4'] = some 64 := by decide
  rw [networkAddress, htext, List.splitOn_intercalate '/' hslash (by simp)]
  simp only [hlength, Option.map_some, Option.bind_eq_bind, Option.bind_some, ipv6Address_str ha]
  change some (if (network a).ip = a.ip then a else network a) = some (network a)
  split
  case isTrue h =>
    obtain ⟨ip, scopeId⟩ := a
    cases ha
    exact congrArg (fun ip => some (IPv6Address.mk ip none)) h.symm
  case isFalse => rfl

theorem clientAddress_parsed {host : String} {a : Address}
    (ha : ipAddress host.toList = some a) (hs : a.scopeId = none) :
    clientAddress (some host) = some (String.ofList (identity a).str) := by
  rw [clientAddress, ha]
  cases a with
  | v4 a => rfl
  | v6 a =>
    dsimp only
    rw [networkAddress_str hs]
    rfl

theorem network_eq_iff (a b : IPv6Address) : network a = network b ↔ upper a = upper b := by
  constructor
  · intro h
    have hip : (network a).ip.toNat = (network b).ip.toNat := by rw [h]
    have ha := a.ip.isLt
    have hb := b.ip.isLt
    unfold network upper at hip
    rw [BitVec.toNat_ofNat, BitVec.toNat_ofNat] at hip
    unfold upper
    omega
  · intro h
    rw [network, network, h]

theorem identity_scopeId {a : Address} (ha : a.scopeId = none) : (identity a).scopeId = none := by
  cases a <;> rfl

/-- Two callers are charged together when their masked addresses are equal. -/
theorem clientAddress_eq_iff {h₁ h₂ : String} {a b : Address}
    (ha : ipAddress h₁.toList = some a) (hb : ipAddress h₂.toList = some b)
    (hsa : a.scopeId = none) (hsb : b.scopeId = none) :
    clientAddress (some h₁) = clientAddress (some h₂) ↔ identity a = identity b := by
  rw [clientAddress_parsed ha hsa, clientAddress_parsed hb hsb, Option.some.injEq,
    String.ofList_inj, str_inj (identity_scopeId hsa) (identity_scopeId hsb)]

/-! ## Clients -/

/-- The IPv4 client that an address denotes, in dotted or in mapped form. -/
def ipv4Client : Address → Option IPv4Address
  | .v4 a => some a
  | .v6 a => a.ipv4Mapped

inductive SameClient : Address → Address → Prop
  | ipv4 {a b : Address} {c : IPv4Address} (ha : ipv4Client a = some c)
      (hb : ipv4Client b = some c) : SameClient a b
  | native {a b : IPv6Address} (ha : a.ipv4Mapped = none) (hb : b.ipv4Mapped = none)
      (h : upper a = upper b) : SameClient (.v6 a) (.v6 b)

inductive Form where
  | dotted
  | mapped
  | native
  deriving DecidableEq, Repr

def formOf : Address → Form
  | .v4 _ => .dotted
  | .v6 a => if a.ipv4Mapped = none then .native else .mapped

def upperOf : Address → ℕ
  | .v4 _ => 0
  | .v6 a => upper a

/-- Where the masked addresses tell the two callers apart as they should. -/
def ToldApart (a b : Address) : Prop :=
  match formOf a, formOf b with
  | .mapped, .mapped => ipv4Client a = ipv4Client b
  | .mapped, .dotted => ipv4Client a ≠ ipv4Client b
  | .dotted, .mapped => ipv4Client a ≠ ipv4Client b
  | .mapped, .native => upperOf b ≠ 0
  | .native, .mapped => upperOf a ≠ 0
  | _, _ => True

theorem upper_mapped {a : IPv6Address} {c : IPv4Address} (h : a.ipv4Mapped = some c) :
    upper a = 0 := by
  unfold IPv6Address.ipv4Mapped at h
  split at h
  case isTrue hhigh =>
    unfold upper
    omega
  case isFalse => cases h

theorem sameClient_dotted (a b : IPv4Address) : SameClient (.v4 a) (.v4 b) ↔ a = b := by
  constructor
  · rintro ⟨ha, hb⟩
    exact Option.some.inj (ha.trans hb.symm)
  · rintro rfl
    exact .ipv4 rfl rfl

theorem sameClient_v6 (a b : IPv6Address) : SameClient (.v6 a) (.v6 b) ↔
    (∃ c, a.ipv4Mapped = some c ∧ b.ipv4Mapped = some c) ∨
      a.ipv4Mapped = none ∧ b.ipv4Mapped = none ∧ upper a = upper b := by
  constructor
  · rintro (⟨ha, hb⟩ | ⟨ha, hb, h⟩)
    · exact Or.inl ⟨_, ha, hb⟩
    · exact Or.inr ⟨ha, hb, h⟩
  · rintro (⟨c, ha, hb⟩ | ⟨ha, hb, h⟩)
    · exact .ipv4 ha hb
    · exact .native ha hb h

theorem sameClient_mixed (a : IPv4Address) (b : IPv6Address) :
    SameClient (.v4 a) (.v6 b) ↔ b.ipv4Mapped = some a := by
  constructor
  · rintro ⟨ha, hb⟩
    cases ha
    exact hb
  · exact fun h => .ipv4 rfl h

theorem sameClient_comm (a b : Address) : SameClient a b ↔ SameClient b a := by
  have symm : ∀ {a b}, SameClient a b → SameClient b a := by
    intro a b h
    cases h with
    | ipv4 ha hb => exact .ipv4 hb ha
    | native ha hb h => exact .native hb ha h.symm
  exact ⟨symm, symm⟩

/-! ## The partition -/

theorem partition_mixed (a : IPv4Address) (b : IPv6Address) :
    (identity (.v4 a) = identity (.v6 b) ↔ SameClient (.v4 a) (.v6 b)) ↔
      ToldApart (.v4 a) (.v6 b) := by
  rw [sameClient_mixed]
  cases hb : b.ipv4Mapped with
  | none => simp [identity, ToldApart, formOf, hb]
  | some c => simp [identity, ToldApart, formOf, ipv4Client, hb, eq_comm]

theorem partition_v6 (a b : IPv6Address) :
    (identity (.v6 a) = identity (.v6 b) ↔ SameClient (.v6 a) (.v6 b)) ↔
      ToldApart (.v6 a) (.v6 b) := by
  have hid : identity (.v6 a) = identity (.v6 b) ↔ upper a = upper b := by
    rw [identity, identity, Address.v6.injEq, network_eq_iff]
  rw [hid, sameClient_v6]
  cases ha : a.ipv4Mapped with
  | none =>
    cases hb : b.ipv4Mapped with
    | none => simp [ToldApart, formOf, ha, hb]
    | some d => simp [ToldApart, formOf, upperOf, ha, hb, upper_mapped hb]
  | some c =>
    cases hb : b.ipv4Mapped with
    | none => simp [ToldApart, formOf, upperOf, ha, hb, upper_mapped ha, eq_comm]
    | some d =>
      simp [ToldApart, formOf, ipv4Client, ha, hb, upper_mapped ha, upper_mapped hb, eq_comm]

theorem toldApart_comm (a b : Address) : ToldApart a b ↔ ToldApart b a := by
  unfold ToldApart
  cases formOf a <;> cases formOf b <;> simp [eq_comm]

/-- Callers are charged together exactly when they should be, if and only if the two addresses
are told apart. -/
theorem clientAddress_partitions_iff {h₁ h₂ : String} {a b : Address}
    (ha : ipAddress h₁.toList = some a) (hb : ipAddress h₂.toList = some b)
    (hsa : a.scopeId = none) (hsb : b.scopeId = none) :
    (clientAddress (some h₁) = clientAddress (some h₂) ↔ SameClient a b) ↔ ToldApart a b := by
  rw [clientAddress_eq_iff ha hb hsa hsb]
  cases a with
  | v4 a =>
    cases b with
    | v4 b =>
      rw [sameClient_dotted]
      simp [identity, ToldApart, formOf]
    | v6 b => exact partition_mixed a b
  | v6 a =>
    cases b with
    | v4 b =>
      rw [sameClient_comm, toldApart_comm, eq_comm]
      exact partition_mixed b a
    | v6 b => exact partition_v6 a b

theorem clientAddress_partitions_sample :
    ipAddress "192.0.2.1".toList = some (.v4 ⟨0xc0000201⟩) ∧
    ipAddress "::ffff:192.0.2.1".toList = some (.v6 ⟨0xffffc0000201, none⟩) ∧
    ((clientAddress (some "192.0.2.1") = clientAddress (some "::ffff:192.0.2.1") ↔
      SameClient (.v4 ⟨0xc0000201⟩) (.v6 ⟨0xffffc0000201, none⟩)) ↔
        ToldApart (.v4 ⟨0xc0000201⟩) (.v6 ⟨0xffffc0000201, none⟩)) := by
  have ha : ipAddress "192.0.2.1".toList = some (.v4 ⟨0xc0000201⟩) := by decide +kernel
  have hb : ipAddress "::ffff:192.0.2.1".toList = some (.v6 ⟨0xffffc0000201, none⟩) := by
    decide +kernel
  exact ⟨ha, hb, clientAddress_partitions_iff ha hb rfl rfl⟩

/-- Two IPv4 clients share an identity when both are reported in mapped form. -/
theorem mapped_clients_share :
    ipAddress "::ffff:1.2.3.4".toList = some (.v6 ⟨0xffff01020304, none⟩) ∧
    ipAddress "::ffff:5.6.7.8".toList = some (.v6 ⟨0xffff05060708, none⟩) ∧
    clientAddress (some "::ffff:1.2.3.4") = some "::" ∧
    clientAddress (some "::ffff:5.6.7.8") = some "::" ∧
    ¬ SameClient (.v6 ⟨0xffff01020304, none⟩) (.v6 ⟨0xffff05060708, none⟩) := by
  refine ⟨by decide +kernel, by decide +kernel, by decide +kernel, by decide +kernel, ?_⟩
  rw [sameClient_v6]
  rintro (⟨c, ha, hb⟩ | ⟨ha, -⟩)
  · exact absurd (ha.trans hb.symm) (by decide +kernel)
  · exact absurd ha (by decide +kernel)

end Gamely.ClientAddress
