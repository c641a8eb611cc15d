import Gohan.Logic.Numerals
import Gohan.Schema.Formats
import Mathlib.Data.List.TakeDrop
import Mathlib.Data.List.TakeWhile

/-!
# The strings that the formats of addresses accept

The regular expression leaves the addresses that are written as a dotted quad without needless zeros
(`exists_quad`).  On these, package `net` reads the quad and the prefix (`parseCIDR_text`), and
reads over zeros at the start of a prefix.  `ipv4-network` refuses them, since it looks at the
length of the prefix; `ipv4-address-with-cidr` does not look, and neither does `cidr-or-ipv4` then
(`asClaimed_iff`).
-/

set_option autoImplicit false

namespace Gohan.Formats

open Numerals

/-! ## Numbers -/

theorem dtoiFrom_eq {n : ℕ} (hn : n < big) (s : List Char) : dtoiFrom n s =
    if Nat.ofDigitChars 10 (s.takeWhile Char.isDigit) n < big
    then some (Nat.ofDigitChars 10 (s.takeWhile Char.isDigit) n, s.dropWhile Char.isDigit)
    else none := by
  induction s generalizing n with
  | nil =>
    rw [List.takeWhile_nil, Nat.ofDigitChars_nil, if_pos hn]
    rfl
  | cons c s ih =>
    rw [dtoiFrom, List.takeWhile_cons, List.dropWhile_cons]
    split
    · rw [Nat.ofDigitChars_cons, Nat.mul_comm 10 n]
      dsimp only
      split
      · next hbig =>
        rw [if_neg (Nat.not_lt.mpr (hbig.trans (le_ofDigitChars _ _)))]
      · next hsmall => rw [ih (Nat.not_le.mp hsmall)]
    · rw [Nat.ofDigitChars_nil, if_pos hn]

theorem dtoi_eq_some {s rest : List Char} {n : ℕ} : dtoi s = some (n, rest) ↔
    s.takeWhile Char.isDigit ≠ [] ∧ value (s.takeWhile Char.isDigit) < big ∧
      n = value (s.takeWhile Char.isDigit) ∧ rest = s.dropWhile Char.isDigit := by
  cases s with
  | nil => simp [dtoi]
  | cons c s =>
    rw [dtoi]
    split
    · next hc =>
      have hne : (c :: s).takeWhile Char.isDigit ≠ [] := by simp [hc]
      rw [dtoiFrom_eq (by decide)]
      split
      · next hlt =>
        rw [Option.some.injEq, Prod.mk.injEq]
        exact ⟨fun ⟨hn, hrest⟩ ↦ ⟨hne, hlt, hn.symm, hrest.symm⟩,
          fun ⟨_, _, hn, hrest⟩ ↦ ⟨hn.symm, hrest.symm⟩⟩
      · next hge => exact iff_of_false (fun h ↦ by cases h) fun h ↦ hge h.2.1
    · next hc => simp [hc]

/-- A text does not start with a digit. -/
def NoDigit (s : List Char) : Prop := ∀ c ∈ s.head?, c.isDigit = false

theorem noDigit_nil : NoDigit [] := fun c hc ↦ by cases hc

/-- Neither does a zone. -/
theorem noDigit_zone {zone : List Char} (h : zone = [] ∨ zone.head? = some '%') : NoDigit zone := by
  rcases h with rfl | h
  · exact noDigit_nil
  · intro c hc
    rw [h] at hc
    obtain rfl := Option.some.inj hc
    rfl

theorem takeWhile_numeral {ds rest : List Char} (hds : ∀ c ∈ ds, c.isDigit = true)
    (hrest : NoDigit rest) : (ds ++ rest).takeWhile Char.isDigit = ds ∧
      (ds ++ rest).dropWhile Char.isDigit = rest := by
  rw [List.takeWhile_append_of_pos hds, List.dropWhile_append_of_pos hds]
  cases rest with
  | nil => simp
  | cons c rest => simp [hrest c rfl]

theorem dtoi_numeral {ds rest : List Char} (h : IsNumeral ds) (hbig : value ds < big)
    (hrest : NoDigit rest) : dtoi (ds ++ rest) = some (value ds, rest) := by
  obtain ⟨htake, hdrop⟩ := takeWhile_numeral h.2 hrest
  rw [dtoi_eq_some, htake, hdrop]
  exact ⟨h.1, hbig, rfl, rfl⟩

/-- A text that is a number to its end is a numeral. -/
theorem numeral_of_dtoi {s : List Char} {n : ℕ} (h : dtoi s = some (n, [])) :
    IsNumeral s ∧ value s = n := by
  obtain ⟨hne, -, hn, hrest⟩ := dtoi_eq_some.mp h
  have hs := List.takeWhile_append_dropWhile (p := Char.isDigit) (l := s)
  rw [← hrest, List.append_nil] at hs
  rw [hs] at hne hn
  refine ⟨⟨hne, fun c hc ↦ ?_⟩, hn.symm⟩
  rw [← hs] at hc
  exact List.mem_takeWhile_imp hc

theorem xtoiFrom_rest {n m : ℕ} {s rest : List Char} (h : xtoiFrom n s = some (m, rest)) :
    rest = s.dropWhile fun c ↦ (hexDigit? c).isSome := by
  induction s generalizing n with
  | nil =>
    obtain rfl := (Prod.mk.inj (Option.some.inj h)).2
    rfl
  | cons c s ih =>
    rw [xtoiFrom] at h
    rw [List.dropWhile_cons]
    split at h
    · next d hd =>
      rw [hd, Option.isSome_some, if_pos rfl]
      dsimp only at h
      split at h
      · cases h
      · exact ih h
    · next hd =>
      rw [hd]
      exact (Prod.mk.inj (Option.some.inj h)).2.symm

/-! ## Dotted quads -/

/-- Four octets. -/
structure Quad where
  a : UInt8
  b : UInt8
  c : UInt8
  d : UInt8

namespace Quad

/-- The four bytes. -/
def bytes (q : Quad) : IP := [q.a, q.b, q.c, q.d]

/-- The octets in decimals, with points between them. -/
def text (q : Quad) : List Char :=
  print q.a.toNat ++ [q.b, q.c, q.d].flatMap fun octet ↦ '.' :: print octet.toNat

/-- The address as a number. -/
def address (q : Quad) : ℕ :=
  ((q.a.toNat * 256 + q.b.toNat) * 256 + q.c.toNat) * 256 + q.d.toNat

/-- The bits behind a prefix are zero. -/
def IsNetwork (q : Quad) (p : ℕ) : Prop := q.address % 2 ^ (32 - p) = 0

/-- The bits behind a prefix are one. -/
def IsBroadcast (q : Quad) (p : ℕ) : Prop := q.address % 2 ^ (32 - p) = 2 ^ (32 - p) - 1

theorem number_bytes (q : Quad) : Masks.number q.bytes = q.address := by
  simp only [bytes, Masks.number, address, List.length_cons, List.length_nil]
  ring

theorem isNetwork_iff (q : Quad) {p : ℕ} (hp : p ≤ 32) :
    List.zipWith (· &&& ·) q.bytes (cidrMask p 32) = q.bytes ↔ q.IsNetwork p := by
  rw [IsNetwork, ← Nat.dvd_iff_mod_eq_zero, ← number_bytes]
  exact Masks.and_ones_iff q.bytes hp

theorem isBroadcast_iff (q : Quad) {p : ℕ} (hp : p ≤ 32) :
    isBroadcast q.bytes (cidrMask p 32) = true ↔ q.IsBroadcast p := by
  have hpos : 2 ^ (32 - p) - 1 + 1 = 2 ^ (32 - p) := Nat.sub_add_cancel (Nat.pow_pos (by decide))
  rw [IsBroadcast, ← number_bytes, ← hpos, Nat.add_sub_cancel, ← Nat.succ_mod_succ_eq_zero_iff,
    hpos, ← Nat.dvd_iff_mod_eq_zero, isBroadcast, List.all_eq_true]
  simp only [beq_iff_eq]
  exact Masks.or_ones_iff q.bytes hp

theorem mem_text {q : Quad} {c : Char} (h : c ∈ q.text) : c.isDigit = true ∨ c = '.' := by
  rw [text, List.mem_append, List.mem_flatMap] at h
  rcases h with h | ⟨octet, -, h⟩
  · exact .inl ((isNumeral_print _).2 c h)
  · rcases List.mem_cons.mp h with rfl | h
    · exact .inr rfl
    · exact .inl ((isNumeral_print _).2 c h)

theorem notMem_text (q : Quad) {c : Char} (hdigit : c.isDigit = false) (hc : c ≠ '.') :
    c ∉ q.text := by
  intro h
  rcases mem_text h with h | h
  · rw [hdigit] at h
    cases h
  · exact hc h

end Quad

theorem parseOctets_first {i : ℕ} {octet : UInt8} {rest : List Char} (h : NoDigit rest) :
    parseOctets (i + 1) true (print octet.toNat ++ rest) =
      (parseOctets i false rest).map (octet :: ·) := by
  have hlt := octet.toNat_lt
  have hdtoi : dtoi (print octet.toNat ++ rest) = some (octet.toNat, rest) := by
    rw [dtoi_numeral (isNumeral_print _) (by rw [value_print, big]; omega) h, value_print]
  rw [parseOctets]
  simp only [skipPoint, if_true, Option.bind_eq_bind, Option.bind_some, hdtoi]
  rw [if_neg (by omega), UInt8.ofNat_toNat]
  cases parseOctets i false rest <;> rfl

theorem parseOctets_next {i : ℕ} {octet : UInt8} {rest : List Char} (h : NoDigit rest) :
    parseOctets (i + 1) false ('.' :: (print octet.toNat ++ rest)) =
      (parseOctets i false rest).map (octet :: ·) := by
  rw [← parseOctets_first h, parseOctets, parseOctets]
  rfl

theorem parseOctets_flatMap (octets : IP) {rest : List Char} (h : NoDigit rest) :
    parseOctets octets.length false
        ((octets.flatMap fun octet ↦ '.' :: print octet.toNat) ++ rest) =
      if rest = [] then some octets else none := by
  induction octets with
  | nil => rfl
  | cons octet octets ih =>
    have hnext : NoDigit ((octets.flatMap fun octet ↦ '.' :: print octet.toNat) ++ rest) := by
      cases octets with
      | nil => exact h
      | cons octet octets =>
        intro c hc
        obtain rfl := Option.some.inj hc
        rfl
    rw [List.flatMap_cons, List.cons_append, List.cons_append, List.append_assoc, List.length_cons,
      parseOctets_next hnext, ih]
    split <;> rfl

/-- A quad is read to its end. -/
theorem parseIPv4_text (q : Quad) {rest : List Char} (h : NoDigit rest) :
    parseIPv4 (q.text ++ rest) = if rest = [] then some (v4InV6Prefix ++ q.bytes) else none := by
  have hnext :
      NoDigit (([q.b, q.c, q.d].flatMap fun octet ↦ '.' :: print octet.toNat) ++ rest) := by
    intro c hc
    obtain rfl := Option.some.inj hc
    rfl
  rw [parseIPv4, Quad.text, List.append_assoc, parseOctets_first hnext]
  have hoctets := parseOctets_flatMap [q.b, q.c, q.d] h
  rw [show [q.b, q.c, q.d].length = 3 from rfl] at hoctets
  rw [hoctets]
  split <;> rfl

/-- What starts with a quad is no address of version 6. -/
theorem parseIPv6_text (q : Quad) (rest : List Char) : parseIPv6 (q.text ++ rest) = none := by
  have hhex : ∀ c : Char, c.isDigit = true → (hexDigit? c).isSome = true := by
    intro c hc
    rw [hexDigit?, if_pos hc]
    rfl
  -- the first group ends at a point, and there is no place for four octets yet
  have hdrop : (q.text ++ rest).dropWhile (fun c ↦ (hexDigit? c).isSome) =
      '.' :: (print q.b.toNat ++ ([q.c, q.d].flatMap fun octet ↦ '.' :: print octet.toNat)) ++
        rest := by
    rw [Quad.text, List.append_assoc,
      List.dropWhile_append_of_pos fun c hc ↦ hhex c ((isNumeral_print _).2 c hc),
      List.flatMap_cons, List.cons_append, List.cons_append, List.dropWhile_cons]
    rfl
  have hgroups : parseGroups 8 [] none (q.text ++ rest) = none := by
    rw [parseGroups]
    cases hx : xtoi (q.text ++ rest) with
    | none => rfl
    | some e =>
      obtain ⟨n, after⟩ := e
      have hafter : after = (q.text ++ rest).dropWhile fun c ↦ (hexDigit? c).isSome := by
        unfold xtoi at hx
        split at hx
        · cases hx
        · split at hx
          · exact xtoiFrom_rest hx
          · cases hx
      rw [hdrop] at hafter
      subst hafter
      simp
  have hellipsis : leadingEllipsis (q.text ++ rest) = (none, q.text ++ rest) := by
    rw [leadingEllipsis]
    intro s hs
    have hmem : ':' ∈ q.text := by
      cases htext : q.text with
      | nil => exact absurd htext (by simp [Quad.text])
      | cons c text =>
        rw [htext, List.cons_append] at hs
        rw [(List.cons.inj hs).1]
        exact List.mem_cons_self
    exact q.notMem_text rfl (by decide) hmem
  rw [parseIPv6, hellipsis]
  simp [hgroups]

/-! ## The regular expression -/

theorem isDigit_of_le {c low high : Char} (h : low ≤ c) (h' : c ≤ high) (hlow : '0' ≤ low)
    (hhigh : high ≤ '9') : c.isDigit = true :=
  Char.isDigit_iff_toNat.mpr ⟨Nat.le_trans hlow h, Nat.le_trans h' hhigh⟩

/-- What the regular expression takes for an octet has up to three digits. -/
theorem digits_of_isOctet {s : List Char} (h : isOctet s = true) :
    (∀ c ∈ s, c.isDigit = true) ∧ s ≠ [] ∧ s.length ≤ 3 := by
  match s, h with
  | [a], h => exact ⟨by simpa [isOctet] using h, List.cons_ne_nil _ _, by simp⟩
  | [a, b], h =>
    simp only [isOctet, Bool.and_eq_true, decide_eq_true_eq] at h
    obtain ⟨⟨hlow, hhigh⟩, hb⟩ := h
    have ha := isDigit_of_le hlow hhigh (by decide) (by decide)
    exact ⟨by simp [ha, hb], List.cons_ne_nil _ _, by simp⟩
  | [a, b, c], h =>
    refine ⟨?_, List.cons_ne_nil _ _, by simp⟩
    simp only [isOctet, Bool.or_eq_true, Bool.and_eq_true, decide_eq_true_eq] at h
    rcases h with (⟨⟨rfl, hb⟩, hc⟩ | ⟨⟨⟨rfl, hlow⟩, hhigh⟩, hc⟩) | ⟨⟨⟨rfl, rfl⟩, hlow⟩, hhigh⟩
    · simp [hb, hc]
    · have hb := isDigit_of_le hlow hhigh (by decide) (by decide)
      simp [hb, hc]
    · have hc := isDigit_of_le hlow hhigh (by decide) (by decide)
      simp [hc]
  | _ :: _ :: _ :: _ :: _, h => cases h

/-- **An octet is what is printed for a byte.** -/
theorem isOctet_iff {s : List Char} :
    isOctet s = true ↔ ∃ octet : UInt8, s = print octet.toNat := by
  constructor
  · intro h
    -- there are no more than a thousand texts of up to three digits
    obtain ⟨n, hn, hs⟩ : ∃ n < 256, s = print n := by
      obtain ⟨hdigits, hne, hlength⟩ := digits_of_isOctet h
      match s, hdigits with
      | [], _ => exact absurd rfl hne
      | [a], hdigits =>
        obtain ⟨d, hd, rfl, -⟩ := digitChar_of_isDigit (hdigits a (by simp))
        exact ⟨d, by omega, (Nat.toDigits_of_lt_base hd).symm⟩
      | [a, b], hdigits =>
        obtain ⟨d, hd, rfl, -⟩ := digitChar_of_isDigit (hdigits a (by simp))
        obtain ⟨e, he, rfl, -⟩ := digitChar_of_isDigit (hdigits b (by simp))
        have hcheck : ∀ d < 10, ∀ e < 10, isOctet [Nat.digitChar d, Nat.digitChar e] = true →
            [Nat.digitChar d, Nat.digitChar e] = print (10 * d + e) := by decide +kernel
        exact ⟨10 * d + e, by omega, hcheck d hd e he h⟩
      | [a, b, c], hdigits =>
        obtain ⟨d, hd, rfl, -⟩ := digitChar_of_isDigit (hdigits a (by simp))
        obtain ⟨e, he, rfl, -⟩ := digitChar_of_isDigit (hdigits b (by simp))
        obtain ⟨f, hf, rfl, -⟩ := digitChar_of_isDigit (hdigits c (by simp))
        have hcheck : ∀ d < 10, ∀ e < 10, ∀ f < 10,
            isOctet [Nat.digitChar d, Nat.digitChar e, Nat.digitChar f] = true →
            100 * d + 10 * e + f < 256 ∧
              [Nat.digitChar d, Nat.digitChar e, Nat.digitChar f] =
                print (100 * d + 10 * e + f) := by decide +kernel
        exact ⟨100 * d + 10 * e + f, hcheck d hd e he f hf h⟩
      | _ :: _ :: _ :: _ :: _, _ =>
        simp only [List.length_cons] at hlength
        omega
    refine ⟨UInt8.ofNat n, ?_⟩
    rw [hs, UInt8.toNat_ofNat', Nat.mod_eq_of_lt hn]
  · rintro ⟨octet, rfl⟩
    have hcheck : ∀ n < 256, isOctet (print n) = true := by decide +kernel
    exact hcheck _ octet.toNat_lt

section Pattern

variable {isLetterOrNumber : Char → Bool}

theorem Quad.text_eq_intercalate (q : Quad) :
    q.text = ['.'].intercalate (q.bytes.map fun octet ↦ print octet.toNat) := by
  simp [Quad.text, Quad.bytes, List.intercalate, List.intersperse]

theorem Quad.splitOn_text (q : Quad) :
    q.text.splitOn '.' = q.bytes.map fun octet ↦ print octet.toNat := by
  rw [q.text_eq_intercalate]
  refine List.splitOn_intercalate '.' (fun s hs hmem ↦ ?_) (by simp [Quad.bytes])
  obtain ⟨octet, -, rfl⟩ := List.mem_map.mp hs
  exact absurd ((isNumeral_print _).2 '.' hmem) (by decide)

/-- The regular expression matches quads. -/
theorem match_text (q : Quad) : matchYangIPv4AddressPattern isLetterOrNumber q.text = true := by
  have hall : ∀ c ∈ q.text, decide (c ≠ '%') = true := by
    intro c hc
    refine decide_eq_true fun heq ↦ ?_
    subst heq
    exact q.notMem_text rfl (by decide) hc
  have hspan : q.text.span (· ≠ '%') = (q.text, []) := by
    rw [List.span_eq_takeWhile_dropWhile, List.takeWhile_eq_self_iff.mpr hall,
      List.dropWhile_eq_nil_iff.mpr hall]
  have hoctet : ∀ octet : UInt8, isOctet (print octet.toNat) = true :=
    fun octet ↦ isOctet_iff.mpr ⟨octet, rfl⟩
  rw [matchYangIPv4AddressPattern, hspan]
  dsimp only
  rw [q.splitOn_text]
  simp [Quad.bytes, hoctet]

/-- What it matches is a quad, or starts with one that a percent sign follows. -/
theorem exists_quad {input : List Char}
    (h : matchYangIPv4AddressPattern isLetterOrNumber input = true) :
    ∃ q : Quad, ∃ zone, input = q.text ++ zone ∧ (zone = [] ∨ zone.head? = some '%') := by
  rw [matchYangIPv4AddressPattern, List.span_eq_takeWhile_dropWhile, Bool.and_eq_true] at h
  obtain ⟨haddress, -⟩ := h
  have hinput := List.takeWhile_append_dropWhile (p := fun c ↦ decide (c ≠ '%')) (l := input)
  have hzone : ∀ c ∈ (input.dropWhile fun c ↦ decide (c ≠ '%')).head?, c = '%' := by
    intro c hc
    have hnot := List.head?_dropWhile_not (fun c ↦ decide (c ≠ '%')) input
    rw [hc] at hnot
    simpa using hnot
  generalize (input.takeWhile fun c ↦ decide (c ≠ '%')) = address at *
  generalize (input.dropWhile fun c ↦ decide (c ≠ '%')) = zone at *
  split at haddress
  · next a b c d hsplit =>
    simp only [Bool.and_eq_true, isOctet_iff] at haddress
    obtain ⟨⟨⟨⟨a, rfl⟩, b, rfl⟩, c, rfl⟩, d, rfl⟩ := haddress
    refine ⟨⟨a, b, c, d⟩, zone, ?_, ?_⟩
    · have hback : ['.'].intercalate (address.splitOn '.') = address :=
        List.intercalate_splitOn '.'
      rw [← hinput, Quad.text_eq_intercalate, ← hback, hsplit]
      rfl
    · cases zone with
      | nil => exact .inl rfl
      | cons c zone => exact .inr (congrArg some (hzone c rfl))
  · cases haddress

end Pattern

/-! ## Addresses with prefixes -/

/-- A prefix, with zeros at its start. -/
def prefixText (z p : ℕ) : List Char := List.replicate z '0' ++ print p

/-- An address with a prefix. -/
def cidrText (q : Quad) (z p : ℕ) : List Char := q.text ++ '/' :: prefixText z p

theorem isNumeral_prefixText (z p : ℕ) : IsNumeral (prefixText z p) :=
  isNumeral_zeros (isNumeral_print p) z

theorem value_prefixText (z p : ℕ) : value (prefixText z p) = p := by
  rw [prefixText, value_zeros, value_print]

theorem slash_notMem_text (q : Quad) : '/' ∉ q.text := q.notMem_text rfl (by decide)

theorem span_slash (addr mask : List Char) (h : '/' ∉ addr) :
    (addr ++ '/' :: mask).span (· ≠ '/') = (addr, '/' :: mask) := by
  have hall : ∀ c ∈ addr, decide (c ≠ '/') = true := by
    intro c hc
    exact decide_eq_true fun heq ↦ h (heq ▸ hc)
  rw [List.span_eq_takeWhile_dropWhile, List.takeWhile_append_of_pos hall,
    List.dropWhile_append_of_pos hall]
  simp

/-- A text is split at its first slash. -/
theorem exists_split {input addr rest : List Char} {c : Char}
    (h : input.span (· ≠ '/') = (addr, c :: rest)) :
    input = addr ++ '/' :: rest ∧ '/' ∉ addr := by
  rw [List.span_eq_takeWhile_dropWhile, Prod.mk.injEq] at h
  obtain ⟨haddr, hrest⟩ := h
  have hinput := List.takeWhile_append_dropWhile (p := fun c ↦ decide (c ≠ '/')) (l := input)
  have hnot := List.head?_dropWhile_not (fun c ↦ decide (c ≠ '/')) input
  rw [hrest] at hnot
  rw [haddr, hrest, show c = '/' by simpa using hnot] at hinput
  refine ⟨hinput.symm, fun hmem ↦ ?_⟩
  rw [← haddr] at hmem
  simpa using List.mem_takeWhile_imp hmem

/-- **Package `net` reads over zeros.** -/
theorem parseCIDR_text (q : Quad) (z : ℕ) {p : ℕ} (hp : p ≤ 32) : parseCIDR (cidrText q z p) =
    .ok (v4InV6Prefix ++ q.bytes, List.zipWith (· &&& ·) q.bytes (cidrMask p 32),
      cidrMask p 32) := by
  have hip := parseIPv4_text q noDigit_nil
  rw [List.append_nil, if_pos rfl] at hip
  have hdtoi := dtoi_numeral (isNumeral_prefixText z p)
    (by rw [value_prefixText, big]; omega) noDigit_nil
  rw [List.append_nil, value_prefixText] at hdtoi
  have hlength : (cidrMask p 32).length = 4 := Masks.length_ones 4 p
  have hmask : IP.mask (v4InV6Prefix ++ q.bytes) (cidrMask p 32) =
      List.zipWith (· &&& ·) q.bytes (cidrMask p 32) := by
    rw [IP.mask]
    simp [hlength, v4InV6Prefix, Quad.bytes]
  rw [parseCIDR, cidrText, span_slash _ _ (slash_notMem_text q)]
  simp only [hip, hdtoi]
  rw [if_neg (by simp; omega), hmask]

/-- What starts with a quad and has a prefix is read only if nothing is between them. -/
theorem exists_cidrText {q : Quad} {zone mask : List Char} {r : IP × IP × IPMask}
    (hzone : zone = [] ∨ zone.head? = some '%') (hslash : '/' ∉ q.text ++ zone)
    (h : parseCIDR (q.text ++ zone ++ '/' :: mask) = .ok r) :
    zone = [] ∧ ∃ z p, p ≤ 32 ∧ mask = prefixText z p := by
  rw [parseCIDR, span_slash _ _ hslash] at h
  simp only [parseIPv4_text q (noDigit_zone hzone)] at h
  by_cases hnil : zone = []
  · subst hnil
    simp only [if_true] at h
    cases hdtoi : dtoi mask with
    | none =>
      rw [hdtoi] at h
      exact absurd h (Go.errorf_ne_ok _ _ _)
    | some e =>
      obtain ⟨p, rest⟩ := e
      simp only [hdtoi] at h
      split at h
      · exact absurd h (Go.errorf_ne_ok _ _ _)
      · next hgood =>
        rw [not_or, not_not, Nat.not_lt] at hgood
        obtain ⟨rfl, hp⟩ := hgood
        obtain ⟨hnumeral, hvalue⟩ := numeral_of_dtoi hdtoi
        obtain ⟨z, hz⟩ := exists_zeros hnumeral
        rw [hvalue] at hz
        exact ⟨rfl, z, p, hp, hz⟩
  · simp only [if_neg hnil, parseIPv6_text] at h
    exact absurd h (Go.errorf_ne_ok _ _ _)

/-! ## The checkers -/

section Checkers

variable (isLetterOrNumber : Char → Bool)

/-- What `ipv4-network` and `ipv4-address-with-cidr` have in common: a check of the text of the
prefix, the address, the address of the network and the mask, once the regular expression
matches. -/
def checkCIDR (check : List Char → IP → IP → IPMask → Bool) (input : List Char) : Go Bool :=
  match extractHostAndNet input with
  | .error _ => .ok false
  | .ok (hostIP, netIP, mask) => do
    let (inputIp, maskText) ← extractIpAndMask input
    if !matchYangIPv4AddressPattern isLetterOrNumber inputIp then .ok false
    else .ok (check maskText hostIP netIP mask)

theorem ipv4Network_eq (input : List Char) : ipv4Network isLetterOrNumber input =
    checkCIDR isLetterOrNumber (fun maskText hostIP netIP _ ↦
      maskIsValid maskText && hostIP.equal netIP) input := by
  rw [ipv4Network, checkCIDR]
  cases extractHostAndNet input with
  | error fault => rfl
  | ok r =>
    cases extractIpAndMask input with
    | error fault => rfl
    | ok e =>
      simp only [Go.ok_bind]
      split
      · rfl
      · cases maskIsValid e.2 <;> rfl

theorem ipv4AddressWithCidr_eq (input : List Char) : ipv4AddressWithCidr isLetterOrNumber input =
    checkCIDR isLetterOrNumber (fun _ hostIP netIP mask ↦
      size mask = pointToPointPrefixSize || (!isBroadcast hostIP mask && !hostIP.equal netIP))
      input := by
  rw [ipv4AddressWithCidr, checkCIDR]
  cases extractHostAndNet input with
  | error fault => rfl
  | ok r =>
    rw [extractIp]
    cases extractIpAndMask input with
    | error fault => rfl
    | ok e =>
      simp only [Go.ok_bind]
      split
      · rfl
      · by_cases hsize : size r.2.2 = pointToPointPrefixSize
        · simp [hsize]
        · cases isBroadcast r.1 r.2.2 <;> simp [hsize]

theorem extractHostAndNet_text (q : Quad) (z : ℕ) {p : ℕ} (hp : p ≤ 32) :
    extractHostAndNet (cidrText q z p) = .ok (q.bytes,
      List.zipWith (· &&& ·) q.bytes (cidrMask p 32), cidrMask p 32) := by
  have hlength : (cidrMask p 32).length = 4 := Masks.length_ones 4 p
  have hhost : IP.to4 (v4InV6Prefix ++ q.bytes) = q.bytes := by
    simp [IP.to4, v4InV6Prefix, Quad.bytes]
  have hnet : (List.zipWith (· &&& ·) q.bytes (cidrMask p 32)).length = 4 := by
    rw [List.length_zipWith, hlength]
    rfl
  have hnet4 : IP.to4 (List.zipWith (· &&& ·) q.bytes (cidrMask p 32)) =
      List.zipWith (· &&& ·) q.bytes (cidrMask p 32) := by
    rw [IP.to4, if_pos hnet]
  rw [extractHostAndNet, parseCIDR_text q z hp, Go.ok_bind]
  dsimp only
  rw [hhost, hnet4, if_neg]
  rintro (h | h)
  · cases h
  · rw [h] at hnet
    cases hnet

theorem extractIpAndMask_append {addr mask : List Char} (h : '/' ∉ addr) (hmask : '/' ∉ mask) :
    extractIpAndMask (addr ++ '/' :: mask) = .ok (addr, mask) := by
  rw [extractIpAndMask, List.splitOn_append_cons_self_of_not_mem h, List.splitOn_eq_singleton hmask]

theorem slash_notMem_prefixText (z p : ℕ) : '/' ∉ prefixText z p :=
  fun h ↦ absurd ((isNumeral_prefixText z p).2 '/' h) (by decide)

/-- **A checker gets to its own check on quads with a prefix**, and nowhere else. -/
theorem checkCIDR_spec (check : List Char → IP → IP → IPMask → Bool) (input : List Char) :
    ∃ accepted, checkCIDR isLetterOrNumber check input = .ok accepted ∧
      (accepted = true ↔ ∃ q z p, p ≤ 32 ∧ input = cidrText q z p ∧
        check (prefixText z p) q.bytes (List.zipWith (· &&& ·) q.bytes (cidrMask p 32))
          (cidrMask p 32) = true) := by
  have hquad : ∀ q z p, p ≤ 32 → checkCIDR isLetterOrNumber check (cidrText q z p) =
      .ok (check (prefixText z p) q.bytes (List.zipWith (· &&& ·) q.bytes (cidrMask p 32))
        (cidrMask p 32)) := by
    intro q z p hp
    rw [checkCIDR, extractHostAndNet_text q z hp]
    dsimp only
    rw [cidrText, extractIpAndMask_append (slash_notMem_text q) (slash_notMem_prefixText z p),
      Go.ok_bind]
    dsimp only
    rw [match_text]
    rfl
  by_cases hinput : ∃ q z p, p ≤ 32 ∧ input = cidrText q z p
  · obtain ⟨q, z, p, hp, rfl⟩ := hinput
    refine ⟨_, hquad q z p hp, fun h ↦ ⟨q, z, p, hp, rfl, h⟩, ?_⟩
    rintro ⟨q', z', p', hp', heq, h⟩
    have hsame := hquad q' z' p' hp'
    rw [← heq, hquad q z p hp, h] at hsame
    exact Except.ok.inj hsame
  · refine ⟨false, ?_, iff_of_false Bool.false_ne_true fun ⟨q, z, p, hp, heq, _⟩ ↦
      hinput ⟨q, z, p, hp, heq⟩⟩
    rw [checkCIDR]
    split
    · rfl
    · next hostIP netIP mask hextract =>
      obtain ⟨r, hparse, -⟩ := Go.bind_eq_ok.mp hextract
      obtain ⟨addr, rest, hspan⟩ : ∃ addr rest, input.span (· ≠ '/') = (addr, rest) := ⟨_, _, rfl⟩
      cases rest with
      | nil =>
        rw [parseCIDR, hspan] at hparse
        exact absurd hparse (Go.errorf_ne_ok _ _ _)
      | cons c maskText =>
        obtain ⟨heq, hslash⟩ := exists_split hspan
        have hip : ∃ rest, extractIpAndMask input = .ok (addr, rest) := by
          rw [extractIpAndMask, heq, List.splitOn_append_cons_self_of_not_mem hslash]
          cases hrest : maskText.splitOn '/' with
          | nil => exact absurd hrest (List.splitOn_ne_nil _ _)
          | cons mask rest => exact ⟨mask, rfl⟩
        obtain ⟨rest, hip⟩ := hip
        rw [hip, Go.ok_bind]
        dsimp only
        cases hmatch : matchYangIPv4AddressPattern isLetterOrNumber addr with
        | false => rfl
        | true =>
          obtain ⟨q, zone, rfl, hzone⟩ := exists_quad hmatch
          rw [heq] at hparse
          obtain ⟨rfl, z, p, hp, rfl⟩ := exists_cidrText hzone hslash hparse
          rw [List.append_nil] at heq
          exact absurd ⟨q, z, p, hp, heq⟩ hinput

theorem size_cidrMask {p : ℕ} (hp : p ≤ 32) : size (cidrMask p 32) = p := by
  have h : ∀ p < 33, size (cidrMask p 32) = p := by decide +kernel
  exact h p (by omega)

theorem equal_net (q : Quad) {p : ℕ} (hp : p ≤ 32) :
    IP.equal q.bytes (List.zipWith (· &&& ·) q.bytes (cidrMask p 32)) = true ↔ q.IsNetwork p := by
  have hlength : q.bytes.length = (List.zipWith (· &&& ·) q.bytes (cidrMask p 32)).length := by
    rw [List.length_zipWith, cidrMask, Masks.length_ones]
    rfl
  rw [IP.equal, if_pos hlength, beq_iff_eq, eq_comm]
  exact q.isNetwork_iff hp

/-- A prefix is valid if it has no zero at its start. -/
theorem maskIsValid_prefixText {z p : ℕ} (hp : p ≤ 32) :
    maskIsValid (prefixText z p) = true ↔ z = 0 := by
  cases z with
  | zero =>
    have h : ∀ p < 33, maskIsValid (prefixText 0 p) = true := by decide +kernel
    exact iff_of_true (h p (by omega)) rfl
  | succ z =>
    refine iff_of_false ?_ (Nat.succ_ne_zero z)
    have hlength : 0 < (print p).length := Nat.length_toDigits_pos
    have hhead : (prefixText (z + 1) p).head? = some '0' := rfl
    have hlong : (prefixText (z + 1) p).length = z + 1 + (print p).length := by
      rw [prefixText, List.length_append, List.length_replicate]
    rw [maskIsValid, hhead, hlong]
    split
    · exact Bool.false_ne_true
    · rw [if_pos ⟨by omega, rfl⟩]
      exact Bool.false_ne_true

/-! ## The languages -/

/-- An address and a canonical prefix, where the address is neither that of the network nor the
broadcast address, or the prefix is that of a link. -/
def IsAddressWithCidr (input : List Char) : Prop :=
  ∃ (q : Quad) (p : ℕ), p ≤ 32 ∧ input = q.text ++ '/' :: print p ∧
    (p = 31 ∨ (¬ q.IsNetwork p ∧ ¬ q.IsBroadcast p))

/-- An address and a canonical prefix, where the address is that of the network. -/
def IsNetworkText (input : List Char) : Prop :=
  ∃ (q : Quad) (p : ℕ), p ≤ 32 ∧ input = q.text ++ '/' :: print p ∧ q.IsNetwork p

/-- One of these, or an address. -/
def IsCidrOrIPv4 (input : List Char) : Prop :=
  IsAddressWithCidr input ∨ IsNetworkText input ∨ ∃ q : Quad, input = q.text

/-- A prefix with a zero at its start. -/
def HasZeroPrefix (input : List Char) : Prop :=
  ∃ addr ds, ds ≠ [] ∧ (∀ c ∈ ds, c.isDigit = true) ∧ input = addr ++ '/' :: '0' :: ds

/-- A checker accepts the strings of a language, and always returns. -/
def Decides (isFormat : List Char → Go Bool) (language : List Char → Prop) (input : List Char) :
    Prop :=
  ∃ accepted, isFormat input = .ok accepted ∧ (accepted = true ↔ language input)

/-- The three checkers accept what they should, and no prefix with a zero at its start. -/
def AsClaimed (input : List Char) : Prop :=
  Decides (ipv4AddressWithCidr isLetterOrNumber) IsAddressWithCidr input ∧
    Decides (ipv4Network isLetterOrNumber) IsNetworkText input ∧
    Decides (cidrOrIPv4 isLetterOrNumber) IsCidrOrIPv4 input ∧
    (HasZeroPrefix input → ipv4AddressWithCidr isLetterOrNumber input = .ok false ∧
      ipv4Network isLetterOrNumber input = .ok false ∧
      cidrOrIPv4 isLetterOrNumber input = .ok false)

/-- An address that the checks of `ipv4-address-with-cidr` let pass, with zeros before the
prefix. -/
def ZeroPadded (input : List Char) : Prop :=
  ∃ q z p, p ≤ 32 ∧ input = cidrText q (z + 1) p ∧
    (p = 31 ∨ (¬ q.IsNetwork p ∧ ¬ q.IsBroadcast p))

theorem addressWithCidr_spec (input : List Char) :
    Decides (ipv4AddressWithCidr isLetterOrNumber)
      (fun input ↦ IsAddressWithCidr input ∨ ZeroPadded input) input := by
  obtain ⟨accepted, haccepted, hiff⟩ := checkCIDR_spec isLetterOrNumber
    (fun _ hostIP netIP mask ↦ size mask = pointToPointPrefixSize ||
      (!isBroadcast hostIP mask && !hostIP.equal netIP)) input
  refine ⟨accepted, (ipv4AddressWithCidr_eq isLetterOrNumber input).trans haccepted, ?_⟩
  have hcheck : ∀ (q : Quad) {p : ℕ}, p ≤ 32 →
      ((decide (size (cidrMask p 32) = pointToPointPrefixSize) ||
        (!isBroadcast q.bytes (cidrMask p 32) &&
          !IP.equal q.bytes (List.zipWith (· &&& ·) q.bytes (cidrMask p 32)))) = true ↔
      (p = 31 ∨ (¬ q.IsNetwork p ∧ ¬ q.IsBroadcast p))) := by
    intro q p hp
    rw [size_cidrMask hp, Bool.or_eq_true, decide_eq_true_eq, Bool.and_eq_true,
      Bool.not_eq_true', Bool.not_eq_true', ← Bool.not_eq_true, ← Bool.not_eq_true,
      equal_net q hp, q.isBroadcast_iff hp]
    exact or_congr_right and_comm
  rw [hiff]
  constructor
  · rintro ⟨q, z, p, hp, rfl, h⟩
    cases z with
    | zero => exact .inl ⟨q, p, hp, rfl, (hcheck q hp).mp h⟩
    | succ z => exact .inr ⟨q, z, p, hp, rfl, (hcheck q hp).mp h⟩
  · rintro (⟨q, p, hp, rfl, h⟩ | ⟨q, z, p, hp, rfl, h⟩)
    · exact ⟨q, 0, p, hp, rfl, (hcheck q hp).mpr h⟩
    · exact ⟨q, z + 1, p, hp, rfl, (hcheck q hp).mpr h⟩

theorem network_spec (input : List Char) :
    Decides (ipv4Network isLetterOrNumber) IsNetworkText input := by
  obtain ⟨accepted, haccepted, hiff⟩ := checkCIDR_spec isLetterOrNumber
    (fun maskText hostIP netIP _ ↦ maskIsValid maskText && hostIP.equal netIP) input
  refine ⟨accepted, (ipv4Network_eq isLetterOrNumber input).trans haccepted, ?_⟩
  rw [hiff]
  constructor
  · rintro ⟨q, z, p, hp, rfl, h⟩
    rw [Bool.and_eq_true, maskIsValid_prefixText hp, equal_net q hp] at h
    obtain ⟨rfl, h⟩ := h
    exact ⟨q, p, hp, rfl, h⟩
  · rintro ⟨q, p, hp, rfl, h⟩
    refine ⟨q, 0, p, hp, rfl, ?_⟩
    rw [Bool.and_eq_true, maskIsValid_prefixText hp, equal_net q hp]
    exact ⟨rfl, h⟩

/-- A point comes first in a quad. -/
theorem parseIP_text (q : Quad) (zone : List Char) :
    parseIP (q.text ++ zone) = parseIPv4 (q.text ++ zone) := by
  have hnone : (print q.a.toNat).find? (fun c ↦ decide (c = '.') || decide (c = ':')) = none := by
    refine List.find?_eq_none.mpr fun c hc h ↦ ?_
    have hdigit := (isNumeral_print _).2 c hc
    rw [Bool.or_eq_true, decide_eq_true_eq, decide_eq_true_eq] at h
    rcases h with rfl | rfl <;> cases hdigit
  have hfind : (q.text ++ zone).find? (fun c ↦ c = '.' || c = ':') = some '.' := by
    rw [Quad.text, List.append_assoc, List.find?_append, hnone]
    rfl
  rw [parseIP, hfind]
  rfl

theorem ipv4_iff (input : List Char) :
    ipv4 isLetterOrNumber input = true ↔ ∃ q : Quad, input = q.text := by
  constructor
  · intro h
    unfold ipv4 at h
    split at h
    · next ip hip =>
      rw [Bool.and_eq_true] at h
      obtain ⟨q, zone, rfl, hzone⟩ := exists_quad h.2
      rw [parseIP_text, parseIPv4_text q (noDigit_zone hzone)] at hip
      by_cases hnil : zone = []
      · exact ⟨q, by rw [hnil, List.append_nil]⟩
      · rw [if_neg hnil] at hip
        cases hip
    · cases h
  · rintro ⟨q, rfl⟩
    have hip := parseIPv4_text q noDigit_nil
    rw [← parseIP_text, List.append_nil, if_pos rfl] at hip
    rw [ipv4, hip]
    simp [match_text, IP.to4, v4InV6Prefix, Quad.bytes]

theorem cidrOrIPv4_spec (input : List Char) :
    Decides (cidrOrIPv4 isLetterOrNumber)
      (fun input ↦ IsCidrOrIPv4 input ∨ ZeroPadded input) input := by
  obtain ⟨address, haddress, haddressIff⟩ := addressWithCidr_spec isLetterOrNumber input
  obtain ⟨network, hnetwork, hnetworkIff⟩ := network_spec isLetterOrNumber input
  have hplain := ipv4_iff isLetterOrNumber input
  rw [Decides, cidrOrIPv4, haddress, hnetwork, Go.ok_bind]
  simp only [IsCidrOrIPv4]
  split
  · next hipv4 => exact ⟨true, rfl, iff_of_true rfl (.inl (.inr (.inr (hplain.mp hipv4))))⟩
  · next hipv4 =>
    rw [hplain] at hipv4
    split
    · next htrue =>
      refine ⟨true, rfl, iff_of_true rfl ?_⟩
      rcases haddressIff.mp htrue with h | h
      · exact .inl (.inl h)
      · exact .inr h
    · next hfalse =>
      rw [haddressIff, not_or] at hfalse
      refine ⟨network, rfl, hnetworkIff.trans ⟨fun h ↦ .inl (.inr (.inl h)), ?_⟩⟩
      rintro ((h | h | h) | h)
      · exact absurd h hfalse.1
      · exact h
      · exact absurd h hipv4
      · exact absurd h hfalse.2

/-- The last slash splits a text. -/
theorem append_slash_inj {a a' t t' : List Char} (ht : '/' ∉ t) (ht' : '/' ∉ t')
    (h : a ++ '/' :: t = a' ++ '/' :: t') : t = t' := by
  rcases List.append_eq_append_iff.mp h with ⟨c, -, hc⟩ | ⟨c, -, hc⟩
  · cases c with
    | nil => exact (List.cons.inj hc).2
    | cons d c =>
      rw [List.cons_append] at hc
      exact absurd ((List.cons.inj hc).2 ▸ by simp) ht
  · cases c with
    | nil => exact (List.cons.inj hc).2.symm
    | cons d c =>
      rw [List.cons_append] at hc
      exact absurd ((List.cons.inj hc).2 ▸ by simp) ht'

/-- A string with a canonical prefix, or without one, has no prefix with a zero at its start. -/
theorem not_hasZeroPrefix {input : List Char} (h : IsCidrOrIPv4 input) : ¬ HasZeroPrefix input := by
  rintro ⟨addr, ds, hne, hds, heq⟩
  obtain ⟨z, hz⟩ := exists_zeros ⟨hne, hds⟩
  have hslash : '/' ∉ '0' :: ds := by
    intro hmem
    rcases List.mem_cons.mp hmem with hmem | hmem
    · exact absurd hmem (by decide)
    · exact absurd (hds '/' hmem) (by decide)
  have hcidr : ∀ (q : Quad) p, input ≠ q.text ++ '/' :: print p := by
    intro q p hq
    have htail := append_slash_inj (slash_notMem_prefixText 0 p) hslash (hq.symm.trans heq)
    rw [hz] at htail
    exact zeros_print_ne z _ p htail.symm
  rcases h with ⟨q, p, -, hq, -⟩ | ⟨q, p, -, hq, -⟩ | ⟨q, hq⟩
  · exact hcidr q p hq
  · exact hcidr q p hq
  · refine slash_notMem_text q ?_
    rw [← hq, heq]
    simp

theorem hasZeroPrefix_of_zeroPadded {input : List Char} (h : ZeroPadded input) :
    HasZeroPrefix input := by
  obtain ⟨q, z, p, -, rfl, -⟩ := h
  exact ⟨q.text, prefixText z p, (isNumeral_prefixText z p).1, (isNumeral_prefixText z p).2, rfl⟩

/-- **The formats accept what they should, unless there are zeros before a prefix** that
`ipv4-address-with-cidr` lets pass. -/
theorem asClaimed_iff (input : List Char) :
    AsClaimed isLetterOrNumber input ↔ ¬ ZeroPadded input := by
  obtain ⟨address, haddress, haddressIff⟩ := addressWithCidr_spec isLetterOrNumber input
  obtain ⟨cidr, hcidr, hcidrIff⟩ := cidrOrIPv4_spec isLetterOrNumber input
  obtain ⟨network, hnetwork, hnetworkIff⟩ := network_spec isLetterOrNumber input
  constructor
  · rintro ⟨-, -, -, hzero⟩ hpadded
    have hrefused := (hzero (hasZeroPrefix_of_zeroPadded hpadded)).1
    rw [haddress, haddressIff.mpr (.inr hpadded)] at hrefused
    cases hrefused
  · intro hnot
    dsimp only at haddressIff hcidrIff
    rw [or_iff_left hnot] at haddressIff hcidrIff
    have hfalse : ∀ {b : Bool}, ¬ b = true → (.ok b : Go Bool) = .ok false := by
      intro b hb
      rw [Bool.eq_false_iff.mpr hb]
    refine ⟨⟨address, haddress, haddressIff⟩, ⟨network, hnetwork, hnetworkIff⟩,
      ⟨cidr, hcidr, hcidrIff⟩, fun hzero ↦ ?_⟩
    have hother : ¬ IsCidrOrIPv4 input := fun h ↦ not_hasZeroPrefix h hzero
    refine ⟨haddress.trans (hfalse fun h ↦ hother (.inl (haddressIff.mp h))),
      hnetwork.trans (hfalse fun h ↦ hother (.inr (.inl (hnetworkIff.mp h)))),
      hcidr.trans (hfalse fun h ↦ hother (hcidrIff.mp h))⟩

end Checkers

/-- A prefix with a zero at its start is accepted. -/
theorem not_asClaimed_padded :
    ipv4AddressWithCidr Char.isAlphanum "10.0.0.1/024".toList = .ok true ∧
      ¬ AsClaimed Char.isAlphanum "10.0.0.1/024".toList := by
  have haccepted : ipv4AddressWithCidr Char.isAlphanum "10.0.0.1/024".toList = .ok true := by
    decide +kernel
  refine ⟨haccepted, fun ⟨_, _, _, hzero⟩ ↦ ?_⟩
  have hpadded : HasZeroPrefix "10.0.0.1/024".toList :=
    ⟨"10.0.0.1".toList, ['2', '4'], by simp, by simp, rfl⟩
  have hrefused := (hzero hpadded).1
  rw [haccepted] at hrefused
  cases hrefused

end Gohan.Formats
