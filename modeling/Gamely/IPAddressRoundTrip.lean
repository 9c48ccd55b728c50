import Gamely.IPAddresses
import Mathlib.Data.List.Nodup
import Mathlib.Data.List.TakeDrop
import Mathlib.Data.List.TakeWhile
import Mathlib.Tactic.Ring

/-!
# Printed addresses are read back

The run of zeros that is left out is put back, so `ip_address` undoes `str`, and
different addresses are printed differently.
-/

set_option autoImplicit false

namespace Gamely.IPAddresses
open Gamely.Digits

/-! ## Dotted addresses -/

theorem parseOctet_digits : ∀ n < 256, parseOctet (Nat.toDigits 10 n) = some n := by
  decide +kernel

theorem str4_chars {a : IPv4Address} {c : Char} (h : c ∈ a.str) : c = '.' ∨ c.isDigit = true := by
  rcases mem_intercalate h with h | ⟨part, hp, hc⟩
  · exact Or.inl h
  · obtain ⟨n, -, rfl⟩ := List.mem_map.mp hp
    exact Or.inr (digits_isDigit hc)

theorem ipv4Address_str (a : IPv4Address) : ipv4Address a.str = some a := by
  have hslash : '/' ∉ a.str := fun h => (str4_chars h).elim (by decide) (by decide)
  have hdot : ∀ part ∈ (bigEndian 256 4 a.ip.toNat).map (Nat.toDigits 10), '.' ∉ part := by
    intro part hp hc
    obtain ⟨n, -, rfl⟩ := List.mem_map.mp hp
    exact absurd (digits_isDigit hc) (by decide)
  have hne : (bigEndian 256 4 a.ip.toNat).map (Nat.toDigits 10) ≠ [] := by
    simp [bigEndian]
  have hparse : ((bigEndian 256 4 a.ip.toNat).map (Nat.toDigits 10)).mapM parseOctet =
      some (bigEndian 256 4 a.ip.toNat) :=
    mapM_map (fun n hn => parseOctet_digits n (bigEndian_lt (by decide) 4 _ n hn))
  have hlen : (bigEndian 256 4 a.ip.toNat).length = 4 := bigEndian_length 256 4 _
  have hip : fromBigEndian 256 (bigEndian 256 4 a.ip.toNat) = a.ip.toNat := by
    rw [fromBigEndian_bigEndian]
    exact Nat.mod_eq_of_lt a.ip.isLt
  rw [ipv4Address, if_neg hslash]
  dsimp only
  rw [IPv4Address.str, List.splitOn_intercalate '.' hdot hne, if_neg (by simp [hlen]), hparse,
    Option.map_some, hip, BitVec.ofNat_toNat, BitVec.setWidth_eq]

/-! ## Hextets -/

theorem parseHextet_hexText {n : ℕ} (h : n < 65536) : parseHextet (hexText n) = some n := by
  obtain ⟨ds, hds, hval⟩ := hexText_value n
  have hlen : (hexText n).length ≤ 4 :=
    (Nat.length_toDigits_le_iff (by decide) (by decide)).mpr (by simpa using h)
  rw [parseHextet, if_neg (by simp [hexText_ne_nil, hlen]), hds, Option.map_some, hval]

/-! ## The run of zeros -/

/-- From `best.1` on there are `best.2` zeros. -/
def ZeroRun (hextets : List (List Char)) (best : ℕ × ℕ) : Prop :=
  ∀ j, best.1 ≤ j → j < best.1+best.2 → hextets[j]? = some ['0']

theorem longestZeros_run (done rest : List (List Char)) (len : ℕ) (best : ℕ × ℕ)
    (hlen : len ≤ done.length) (hlast : ZeroRun (done ++ rest) (done.length-len, len))
    (hbest : ZeroRun (done ++ rest) best) :
    ZeroRun (done ++ rest) (longestZeros rest done.length len best) := by
  induction rest generalizing done len best with
  | nil => exact hbest
  | cons hextet rest ih =>
    have hsplit : done ++ hextet :: rest = (done ++ [hextet]) ++ rest := by simp
    have hnext : (done ++ [hextet]).length = done.length+1 := by simp
    rw [longestZeros]
    split
    case isTrue hz =>
      have hrun : ZeroRun (done ++ hextet :: rest) (done.length-len, len+1) := by
        intro j hj hj'
        dsimp only at hj hj'
        by_cases hjd : j = done.length
        · subst hjd
          simp [hz]
        · exact hlast j hj (by dsimp only; omega)
      rw [hsplit, ← hnext]
      apply ih
      · omega
      · rw [← hsplit, hnext]
        have : done.length+1-(len+1) = done.length-len := by omega
        rw [this]
        exact hrun
      · rw [← hsplit]
        split
        case isTrue => exact hrun
        case isFalse => exact hbest
    case isFalse =>
      rw [hsplit, ← hnext]
      apply ih
      · omega
      · intro j hj hj'
        dsimp only at hj hj'
        omega
      · rw [← hsplit]
        exact hbest

theorem zeroRun_longest (hextets : List (List Char)) :
    ZeroRun hextets (longestZeros hextets 0 0 (0, 0)) := by
  have none : ∀ i, ZeroRun hextets (i, 0) := by
    intro i j hj hj'
    dsimp only at hj hj'
    omega
  exact longestZeros_run [] hextets 0 (0, 0) (Nat.le_refl 0) (none 0) (none 0)

/-! ## Compressed hextets -/

theorem skips_none {parts : List (List Char)} (h : ∀ part ∈ parts, part ≠ []) :
    skips parts = [] := by
  rw [skips, List.filter_eq_nil_iff]
  intro i _ hi
  simp only [Bool.and_eq_true, decide_eq_true_eq] at hi
  exact h [] (List.mem_of_getElem? hi.2) rfl

theorem skips_one {high low : List (List Char)} (hhigh : high ≠ []) (hlow : low ≠ [])
    (hh : ∀ i, 0 < i → high[i]? ≠ some [])
    (hl : ∀ i, i+1 < low.length → low[i]? ≠ some []) :
    skips (high ++ [] :: low) = [high.length] := by
  have hpos := List.length_pos_iff.mpr hhigh
  have hpos' := List.length_pos_iff.mpr hlow
  have hlen : (high ++ [] :: low).length = high.length+(low.length+1) := by simp
  have hcongr : skips (high ++ [] :: low) =
      (List.range (high ++ [] :: low).length).filter (fun i => i == high.length) := by
    apply List.filter_congr
    intro i hi
    rw [List.mem_range] at hi
    rcases Nat.lt_trichotomy i high.length with hlt | rfl | hgt
    · have hne : (i == high.length) = false := by simp; omega
      rw [hne, List.getElem?_append_left hlt]
      by_cases h0 : 0 < i
      · simp [hh i h0]
      · simp [h0]
    · simp [hpos, hpos']
    · have hne : (i == high.length) = false := by simp; omega
      obtain ⟨k, rfl⟩ : ∃ k, i = high.length+1+k := ⟨i-(high.length+1), by omega⟩
      rw [hne, List.getElem?_append_right (by omega)]
      have hk : high.length+1+k-high.length = k+1 := by omega
      rw [hk, List.getElem?_cons_succ]
      by_cases hend : k+1 < low.length
      · simp [hl k hend]
      · have : ¬ high.length+1+k+1 < (high ++ [] :: low).length := by omega
        rw [decide_eq_false this, Bool.and_false, Bool.false_and]
  rw [hcongr, List.filter_beq, List.count_eq_one_of_mem List.nodup_range (by simp)]
  rfl

theorem endpoint_hexText (hs : List ℕ) :
    endpoint (if hs = [] then [[]] else hs.map hexText) = hs.map hexText := by
  by_cases h : hs = []
  · rw [if_pos h, h]
    rfl
  · rw [if_neg h, endpoint, if_neg]
    intro he
    have : [] ∈ hs.map hexText := by simp [he]
    obtain ⟨n, -, hn⟩ := List.mem_map.mp this
    exact hexText_ne_nil n hn

/-- The parts before and after the run are read as they were, and zeros between them. -/
theorem parseHextets_skipped {high low : List ℕ} (hh : ∀ n ∈ high, n < 65536)
    (hl : ∀ n ∈ low, n < 65536) (hlen : high.length+low.length < 8) :
    parseHextets ((if high = [] then [[]] else high.map hexText) ++ [] ::
      (if low = [] then [[]] else low.map hexText)) =
        some (high ++ List.replicate (8-(high.length+low.length)) 0 ++ low) := by
  have hskips : skips ((if high = [] then [[]] else high.map hexText) ++ [] ::
      (if low = [] then [[]] else low.map hexText)) =
        [(if high = [] then [[]] else high.map hexText).length] := by
    have inside : ∀ (hs : List ℕ) (i : ℕ), (hs.map hexText)[i]? ≠ some [] := by
      intro hs i he
      obtain ⟨n, -, hn⟩ := List.mem_map.mp (List.mem_of_getElem? he)
      exact hexText_ne_nil n hn
    apply skips_one
    · split <;> simp_all
    · split <;> simp_all
    · intro i hi
      split
      case isTrue =>
        obtain ⟨k, rfl⟩ : ∃ k, i = k+1 := ⟨i-1, by omega⟩
        simp
      case isFalse => exact inside high i
    · intro i hi
      split at hi
      case isTrue => simp at hi
      case isFalse h =>
        rw [if_neg h]
        exact inside low i
  have hdrop : ∀ a b : List (List Char), (a ++ [] :: b).drop (a.length+1) = b := by simp
  rw [parseHextets, hskips]
  dsimp only
  rw [List.take_left, hdrop, endpoint_hexText, endpoint_hexText, List.length_map, List.length_map,
    if_pos hlen, mapM_map (fun n hn => parseHextet_hexText (hh n hn)),
    mapM_map (fun n hn => parseHextet_hexText (hl n hn))]
  rfl

theorem zeros_left_out {hs : List ℕ} {i len : ℕ} (h : ZeroRun (hs.map hexText) (i, len))
    (hlen : 0 < len) : i+len ≤ hs.length ∧
      hs = hs.take i ++ List.replicate len 0 ++ hs.drop (i+len) := by
  have hzero : ∀ j, i ≤ j → j < i+len → hs[j]? = some 0 := by
    intro j hj hj'
    have := h j hj hj'
    rw [List.getElem?_map, Option.map_eq_some_iff] at this
    obtain ⟨n, hn, htext⟩ := this
    rw [hn, hexText_zero htext]
  have hle : i+len ≤ hs.length := by
    have := hzero (i+len-1) (by omega) (by omega)
    obtain ⟨hlt, -⟩ := List.getElem?_eq_some_iff.mp this
    omega
  refine ⟨hle, ?_⟩
  have hmid : (hs.drop i).take len = List.replicate len 0 := by
    apply List.ext_getElem?
    intro k
    by_cases hk : k < len
    · rw [List.getElem?_take_of_lt hk, List.getElem?_drop, hzero (i+k) (by omega) (by omega),
        List.getElem?_replicate_of_lt hk]
    · rw [List.getElem?_eq_none (by simp; omega), List.getElem?_eq_none (by simp; omega)]
  calc hs = hs.take i ++ hs.drop i := (List.take_append_drop i hs).symm
    _ = hs.take i ++ ((hs.drop i).take len ++ (hs.drop i).drop len) := by
      rw [List.take_append_drop len (hs.drop i)]
    _ = hs.take i ++ List.replicate len 0 ++ hs.drop (i+len) := by
      rw [hmid, List.drop_drop, List.append_assoc]

theorem parseHextets_compress {hs : List ℕ} (hlen : hs.length = 8) (hlt : ∀ n ∈ hs, n < 65536) :
    parseHextets (compressHextets (hs.map hexText)) = some hs := by
  unfold compressHextets
  have hrun := zeroRun_longest (hs.map hexText)
  generalize longestZeros (hs.map hexText) 0 0 (0, 0) = best at hrun ⊢
  obtain ⟨i, len⟩ := best
  dsimp only
  split
  case isTrue h =>
    obtain ⟨hle, hsplit⟩ := zeros_left_out hrun (by omega)
    have hhigh : (if i = 0 then [[]] else (hs.map hexText).take i) =
        if hs.take i = [] then [[]] else (hs.take i).map hexText := by
      by_cases h0 : i = 0
      · simp [h0]
      · have hne : hs.take i ≠ [] := by
          rw [Ne, List.take_eq_nil_iff, not_or]
          exact ⟨h0, fun hs0 => by simp [hs0] at hlen⟩
        rw [if_neg h0, if_neg hne, List.map_take]
    have hlow : (if i+len = (hs.map hexText).length then [[]] else (hs.map hexText).drop (i+len)) =
        if hs.drop (i+len) = [] then [[]] else (hs.drop (i+len)).map hexText := by
      by_cases hend : i+len = hs.length
      · rw [if_pos (by simpa using hend), if_pos (List.drop_eq_nil_iff.mpr hend.ge)]
      · have hne : hs.drop (i+len) ≠ [] := by
          rw [Ne, List.drop_eq_nil_iff]
          omega
        rw [if_neg (by simpa using hend), if_neg hne, List.map_drop]
    have hlength : (hs.take i).length+(hs.drop (i+len)).length = 8-len := by
      rw [List.length_take, List.length_drop]
      omega
    rw [hhigh, hlow, parseHextets_skipped (fun n hn => hlt n (List.mem_of_mem_take hn))
      (fun n hn => hlt n (List.mem_of_mem_drop hn)) (by omega), hlength]
    have : 8-(8-len) = len := by omega
    rw [this, ← hsplit]
  case isFalse =>
    rw [parseHextets, skips_none]
    · dsimp only
      rw [List.length_map, if_pos hlen, mapM_map (fun n hn => parseHextet_hexText (hlt n hn))]
    · intro part hp
      obtain ⟨n, -, rfl⟩ := List.mem_map.mp hp
      exact hexText_ne_nil n

/-! ## IPv6 addresses -/

theorem mem_compressHextets {hs : List ℕ} {part : List Char}
    (h : part ∈ compressHextets (hs.map hexText)) : part = [] ∨ ∃ n, part = hexText n := by
  have hexPart : part ∈ hs.map hexText → part = [] ∨ ∃ n, part = hexText n := by
    intro hp
    obtain ⟨n, -, rfl⟩ := List.mem_map.mp hp
    exact Or.inr ⟨n, rfl⟩
  unfold compressHextets at h
  dsimp only at h
  split at h
  case isTrue =>
    rw [List.mem_append, List.mem_cons] at h
    rcases h with h | rfl | h
    · split at h
      case isTrue => exact Or.inl (List.mem_singleton.mp h)
      case isFalse => exact hexPart (List.mem_of_mem_take h)
    · exact Or.inl rfl
    · split at h
      case isTrue => exact Or.inl (List.mem_singleton.mp h)
      case isFalse => exact hexPart (List.mem_of_mem_drop h)
  case isFalse => exact hexPart h

theorem hextet_chars {hs : List ℕ} {part : List Char}
    (h : part ∈ compressHextets (hs.map hexText)) {c : Char} (hc : c ∈ part) :
    ∃ d, hexValue c = some d := by
  rcases mem_compressHextets h with rfl | ⟨n, rfl⟩
  · cases hc
  · exact hexText_chars hc

theorem stringFromIpInt_chars {ip : ℕ} {c : Char} (h : c ∈ stringFromIpInt ip) :
    c = ':' ∨ ∃ d, hexValue c = some d := by
  rcases mem_intercalate h with h | ⟨part, hp, hc⟩
  · exact Or.inl h
  · exact Or.inr (hextet_chars hp hc)

theorem compressHextets_length {hs : List ℕ} (hlen : hs.length = 8) :
    3 ≤ (compressHextets (hs.map hexText)).length ∧
      (compressHextets (hs.map hexText)).length ≤ 9 := by
  unfold compressHextets
  have hrun := zeroRun_longest (hs.map hexText)
  generalize longestZeros (hs.map hexText) 0 0 (0, 0) = best at hrun ⊢
  obtain ⟨i, len⟩ := best
  dsimp only
  split
  case isTrue h =>
    obtain ⟨hle, -⟩ := zeros_left_out hrun (by omega)
    rw [List.length_append, List.length_cons]
    split <;> split <;> simp_all <;> omega
  case isFalse => simp [hlen]

theorem expandSuffix_plain {parts : List (List Char)} (h : ∀ part ∈ parts, '.' ∉ part) :
    expandSuffix parts = some parts := by
  unfold expandSuffix
  split
  case h_1 last he => rw [if_neg (h last (List.mem_of_getLast? he))]
  case h_2 => rfl

theorem ipv6Int_stringFromIpInt {ip : ℕ} (h : ip < 2^128) :
    ipv6Int (stringFromIpInt ip) = some (.ofNat 128 ip) := by
  have hlen := bigEndian_length 65536 8 ip
  have hlt : ∀ n ∈ bigEndian 65536 8 ip, n < 65536 := bigEndian_lt (by decide) 8 ip
  have plain : ∀ c : Char, hexValue c = none →
      ∀ part ∈ compressHextets ((bigEndian 65536 8 ip).map hexText), c ∉ part := by
    intro c hnone part hp hc
    obtain ⟨d, hd⟩ := hextet_chars hp hc
    rw [hnone] at hd
    cases hd
  obtain ⟨hmin, hmax⟩ := compressHextets_length hlen
  have hne : compressHextets ((bigEndian 65536 8 ip).map hexText) ≠ [] := by
    intro he
    rw [he] at hmin
    cases hmin
  have hip : fromBigEndian 65536 (bigEndian 65536 8 ip) = ip := by
    rw [fromBigEndian_bigEndian]
    exact Nat.mod_eq_of_lt (by simpa using h)
  unfold ipv6Int stringFromIpInt
  rw [List.splitOn_intercalate ':' (plain ':' (by decide)) hne]
  dsimp only
  rw [if_neg (by omega), expandSuffix_plain (plain '.' (by decide)), Option.bind_eq_bind,
    Option.bind_some, if_neg (by omega), parseHextets_compress hlen hlt, Option.map_some, hip]

/-! ## Mapped addresses -/

theorem stringFromIpInt_mapped : stringFromIpInt 65535 = [':', ':', 'f', 'f', 'f', 'f'] := by decide

theorem parseHextets_mapped (high low : ℕ) (hh : high < 65536) (hl : low < 65536) :
    parseHextets [[], [], ['f', 'f', 'f', 'f'], hexText high, hexText low] =
      some [0, 0, 0, 0, 0, 65535, high, low] := by
  have hskips : skips ([[]] ++ [] :: [['f', 'f', 'f', 'f'], hexText high, hexText low]) = [1] := by
    apply skips_one (by simp) (by simp)
    · intro i hi
      obtain ⟨k, rfl⟩ : ∃ k, i = k+1 := ⟨i-1, by omega⟩
      simp
    · intro i _ he
      have := List.mem_of_getElem? he
      simp [Ne.symm (hexText_ne_nil _)] at this
  have hffff : parseHextet ['f', 'f', 'f', 'f'] = some 65535 := by decide
  rw [List.singleton_append] at hskips
  rw [parseHextets, hskips]
  simp [endpoint, parseHextet_hexText hh, parseHextet_hexText hl, hffff, List.replicate]

/-- An address of 32 bits written out after `::ffff:` is read as two hextets. -/
theorem ipv6Int_mapped (a : IPv4Address) :
    ipv6Int (stringFromIpInt 65535 ++ ':' :: a.str) =
      some (.ofNat 128 (65535*2^32+a.ip.toNat)) := by
  have htext : stringFromIpInt 65535 ++ ':' :: a.str =
      [':'].intercalate [[], [], ['f', 'f', 'f', 'f'], a.str] := by
    rw [stringFromIpInt_mapped]
    simp
  have hcolon : ∀ part ∈ [[], [], ['f', 'f', 'f', 'f'], a.str], ':' ∉ part := by
    intro part hp hc
    simp only [List.mem_cons, List.not_mem_nil, or_false] at hp
    rcases hp with rfl | rfl | rfl | rfl
    · cases hc
    · cases hc
    · exact absurd hc (by decide)
    · exact (str4_chars hc).elim (by decide) (by decide)
  have hdot : '.' ∈ a.str := by
    simp [IPv4Address.str, bigEndian]
  have hdigits : ∀ n ∈ bigEndian 65536 2 a.ip.toNat, n < 65536 :=
    bigEndian_lt (by decide) 2 a.ip.toNat
  have hip : fromBigEndian 65536 (bigEndian 65536 2 a.ip.toNat) = a.ip.toNat := by
    rw [fromBigEndian_bigEndian]
    exact Nat.mod_eq_of_lt a.ip.isLt
  obtain ⟨high, low, hpair⟩ : ∃ high low, bigEndian 65536 2 a.ip.toNat = [high, low] :=
    ⟨_, _, rfl⟩
  rw [hpair] at hdigits hip
  have hsuffix : expandSuffix [[], [], ['f', 'f', 'f', 'f'], a.str] =
      some [[], [], ['f', 'f', 'f', 'f'], hexText high, hexText low] := by
    simp [expandSuffix, hdot, ipv4Address_str, hpair]
  have hvalue : fromBigEndian 65536 [0, 0, 0, 0, 0, 65535, high, low] = 65535*2^32+a.ip.toNat := by
    rw [← hip]
    simp [fromBigEndian]
    ring
  unfold ipv6Int
  rw [htext, List.splitOn_intercalate ':' hcolon (by simp)]
  dsimp only
  rw [if_neg (by simp), hsuffix, Option.bind_eq_bind, Option.bind_some, if_neg (by simp),
    parseHextets_mapped high low (hdigits high (by simp)) (hdigits low (by simp)),
    Option.map_some, hvalue]

/-! ## Reading back -/

theorem splitScopeId_plain {text : List Char} (h : '%' ∉ text) :
    splitScopeId text = some (text, none) := by
  have hall : ∀ c ∈ text, decide (c ≠ '%') = true := by
    intro c hc
    rw [decide_eq_true_eq]
    rintro rfl
    exact h hc
  have hspan : text.span (· ≠ '%') = (text, []) := by
    rw [List.span_eq_takeWhile_dropWhile, List.takeWhile_eq_self_iff.mpr hall,
      List.dropWhile_eq_nil_iff.mpr hall]
  rw [splitScopeId, hspan]

theorem str6_chars {a : IPv6Address} (ha : a.scopeId = none) {c : Char} (h : c ∈ a.str) :
    c = ':' ∨ c = '.' ∨ ∃ d, hexValue c = some d := by
  unfold IPv6Address.str at h
  rw [ha] at h
  dsimp only at h
  split at h
  case h_1 mapped hm =>
    rcases List.mem_append.mp h with h | h
    · exact (stringFromIpInt_chars h).imp id Or.inr
    · rcases List.mem_cons.mp h with h | h
      · exact Or.inl h
      · exact Or.inr ((str4_chars h).imp id hexValue_of_isDigit)
  case h_2 => exact (stringFromIpInt_chars h).imp id Or.inr

theorem ipv6Int_str {a : IPv6Address} (ha : a.scopeId = none) : ipv6Int a.str = some a.ip := by
  unfold IPv6Address.str
  rw [ha]
  dsimp only
  split
  case h_1 mapped hm =>
    unfold IPv6Address.ipv4Mapped at hm
    split at hm
    case isTrue hhigh =>
      cases hm
      have hsplit : 65535*2^32+(BitVec.ofNat 32 (a.ip.toNat%2^32)).toNat = a.ip.toNat := by
        rw [BitVec.toNat_ofNat]
        omega
      rw [hhigh, ipv6Int_mapped, hsplit, BitVec.ofNat_toNat, BitVec.setWidth_eq]
    case isFalse => cases hm
  case h_2 =>
    rw [ipv6Int_stringFromIpInt a.ip.isLt, BitVec.ofNat_toNat, BitVec.setWidth_eq]

theorem slash_str6 {a : IPv6Address} (ha : a.scopeId = none) : '/' ∉ a.str := by
  intro h
  rcases str6_chars ha h with h | h | ⟨d, h⟩ <;> cases h

theorem ipv6Address_str {a : IPv6Address} (ha : a.scopeId = none) :
    ipv6Address a.str = some a := by
  have hpercent : '%' ∉ a.str := fun h => by
    rcases str6_chars ha h with h | h | ⟨d, h⟩ <;> cases h
  rw [ipv6Address, if_neg (slash_str6 ha), splitScopeId_plain hpercent]
  simp only [Option.bind_eq_bind, Option.bind_some, ipv6Int_str ha]
  rw [← ha]
  rfl

/-! ## Addresses of either version -/

theorem colon_str6 {a : IPv6Address} (ha : a.scopeId = none) : ':' ∈ a.str := by
  by_contra h
  have hint := ipv6Int_str ha
  rw [ipv6Int, List.splitOn_eq_singleton h, if_pos (by simp)] at hint
  cases hint

theorem parseOctet_chars {octet : List Char} {n : ℕ} (h : parseOctet octet = some n) {c : Char}
    (hc : c ∈ octet) : c.isDigit = true := by
  rw [parseOctet] at h
  split at h
  case isTrue => cases h
  case isFalse hall =>
    simp only [Bool.or_eq_true, not_or, Bool.not_eq_true', Bool.not_eq_false] at hall
    exact List.all_eq_true.mp hall.1.2 c hc

theorem ipv4Address_chars {text : List Char} {a : IPv4Address} (h : ipv4Address text = some a)
    {c : Char} (hc : c ∈ text) : c = '.' ∨ c.isDigit = true := by
  rw [ipv4Address] at h
  split at h
  case isTrue => cases h
  case isFalse =>
    dsimp only at h
    split at h
    case isTrue => cases h
    case isFalse =>
      obtain ⟨bytes, hbytes, -⟩ := Option.map_eq_some_iff.mp h
      have hjoin : ['.'].intercalate (text.splitOn '.') = text := List.intercalate_splitOn '.'
      rw [← hjoin] at hc
      rcases mem_intercalate hc with hc | ⟨octet, hm, hc⟩
      · exact Or.inl hc
      · obtain ⟨n, hn⟩ := mem_of_mapM hbytes hm
        exact Or.inr (parseOctet_chars hn hc)

theorem ipv4Address_colon {text : List Char} (h : ':' ∈ text) : ipv4Address text = none := by
  cases ha : ipv4Address text with
  | none => rfl
  | some a => exact (ipv4Address_chars ha h).elim (fun h => by cases h) (fun h => by cases h)

/-- `ip_address` undoes `str`. -/
theorem ipAddress_str {a : Address} (ha : a.scopeId = none) : ipAddress a.str = some a := by
  cases a with
  | v4 a => rw [ipAddress, Address.str, ipv4Address_str]
  | v6 a =>
    rw [ipAddress, Address.str, ipv4Address_colon (colon_str6 ha), ipv6Address_str ha]
    rfl

/-- Different addresses are printed differently. -/
theorem str_inj {a b : Address} (ha : a.scopeId = none) (hb : b.scopeId = none) :
    a.str = b.str ↔ a = b := by
  refine ⟨fun h => ?_, fun h => h ▸ rfl⟩
  have hread := ipAddress_str ha
  rw [h, ipAddress_str hb] at hread
  exact (Option.some.inj hread).symm

end Gamely.IPAddresses
