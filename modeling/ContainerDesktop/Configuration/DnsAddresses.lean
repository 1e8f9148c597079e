import ContainerDesktop.Backtracking
import ContainerDesktop.Configuration.Validation
import Mathlib.Algebra.GroupWithZero.Nat

/-!
# Addresses of name servers

The addresses for the static DNS mode are one text.  The attribute on `DnsAddresses`
validates it with a pattern, and the DNS configurator splits it at the commas and
parses the parts.  What the pattern accepts are dotted quads with whitespace around
the commas (`accepts_iff`).

The parser reads more than dotted quads and not all of them: a part with a leading
zero is octal.  `dnsAddresses_agree` says which accepted texts the configurator
reads as the quads that they are.
-/

namespace ContainerDesktop.Configuration

abbrev Text := List Char

/-! ## The validator -/

section Pattern

open Pattern

/-- The word characters of `\b`. -/
structure WordCharacters where
  isWord : Char → Bool
  digit : ∀ c, '0' ≤ c → c ≤ '9' → isWord c = true
  whiteSpace : ∀ c, isWhiteSpace c = true → isWord c = false
  comma : isWord ',' = false

/-- A character. -/
def chr (c : Char) : Pattern Char := char (· = c)

/-- `[lo-hi]` -/
def range (lo hi : Char) : Pattern Char := char fun c => lo ≤ c ∧ c ≤ hi

/-- `25[0-5]` -/
def octet25 : Pattern Char := seq (chr '2') (seq (chr '5') (range '0' '5'))

/-- `2[0-4][0-9]` -/
def octet2 : Pattern Char := seq (chr '2') (seq (range '0' '4') (range '0' '9'))

/-- `[01]?[0-9][0-9]?` -/
def octet01 : Pattern Char := seq (opt (range '0' '1')) (seq (range '0' '9') (opt (range '0' '9')))

/-- `25[0-5]|2[0-4][0-9]|[01]?[0-9][0-9]?` -/
def octetPattern : Pattern Char := alt octet25 (alt octet2 octet01)

/-- `\b25[0-5]|\b2[0-4][0-9]|\b[01]?[0-9][0-9]?` -/
def firstOctetPattern (C : WordCharacters) : Pattern Char :=
  alt (seq (boundary C.isWord) octet25)
    (alt (seq (boundary C.isWord) octet2) (seq (boundary C.isWord) octet01))

/-- `\.(25[0-5]|2[0-4][0-9]|[01]?[0-9][0-9]?)` -/
def dotOctetPattern : Pattern Char := seq (chr '.') octetPattern

def addressPattern (C : WordCharacters) : Pattern Char :=
  seq (firstOctetPattern C) (seq dotOctetPattern (seq dotOctetPattern dotOctetPattern))

/-- `\s*,\s*` and an address -/
def nextAddressPattern (C : WordCharacters) : Pattern Char :=
  seq (star (char isWhiteSpace)) (seq (chr ',') (seq (star (char isWhiteSpace)) (addressPattern C)))

/-- The pattern of `DnsAddresses`. -/
def dnsAddressesPattern (C : WordCharacters) : Pattern Char :=
  seq (addressPattern C) (star (nextAddressPattern C))

/-- `RegularExpressionAttribute.IsValid`: the first match is all of the text, or there is none. -/
def dnsAddressesIsValid (C : WordCharacters) (s : Text) : Bool :=
  s.isEmpty || (dnsAddressesPattern C).accepts s

end Pattern

/-! ## The consumer -/

/-- `Trim` -/
def trim (s : Text) : Text := ((s.dropWhile isWhiteSpace).reverse.dropWhile isWhiteSpace).reverse

/-- `Split(',', RemoveEmptyEntries | TrimEntries)` -/
def splitEntries (s : Text) : List Text :=
  ((s.splitOn ',').map trim).filter fun part => !part.isEmpty

/-- The digits of a number, unless one of them is none of the base. -/
def digitsValue (base : Nat) (digit : Char → Option Nat) : Text → Option Nat :=
  fun s => s.foldlM (fun value c => (digit c).bind fun d => if d < base
    then some (base * value + d) else none) 0

/-- The value of a digit. -/
def digitValue (c : Char) : Option Nat :=
  if '0' ≤ c ∧ c ≤ '9' then some (c.toNat - 48)
  else if 'a' ≤ c ∧ c ≤ 'f' then some (c.toNat - 87)
  else if 'A' ≤ c ∧ c ≤ 'F' then some (c.toNat - 55)
  else none

/-- One part of an IPv4 address: hexadecimal, octal or decimal. -/
def parsePart : Text → Option Nat
  | [] => none
  | ['0', 'x'] | ['0', 'X'] => none
  | '0' :: 'x' :: digits | '0' :: 'X' :: digits => digitsValue 16 digitValue digits
  | '0' :: digits => digitsValue 8 digitValue digits
  | digits => digitsValue 10 digitValue digits

/-- An IPv4 address of at most four parts, of which the last one fills up the rest. -/
def isIPv4 (s : Text) : Bool :=
  match (s.splitOn '.').mapM parsePart with
  | none => false
  | some values =>
    values.length ≤ 4 && values.dropLast.all (· ≤ 255) &&
      values.getLast?.all (· < 256 ^ (5 - values.length))

/-- `IPAddress.TryParse`, with what it does on texts with a colon. -/
def tryParse (isIPv6 : Text → Bool) (s : Text) : Bool := if ':' ∈ s then isIPv6 s else isIPv4 s

/-- `GetStaticDnsAddresses` -/
def getStaticDnsAddresses (isIPv6 : Text → Bool) (dnsAddresses : Text) : List Text :=
  let addresses := splitEntries dnsAddresses
  if addresses.all (tryParse isIPv6) then addresses else []

/-- `StartDnsForwarder`: the name servers of the forwarder that runs then.  Without an address it is
not started, and the one that was running goes on. -/
def startDnsForwarder (isIPv6 : Text → Bool) (dnsMode : DnsMode) (dnsAddresses : Text)
    (wslDnsAddresses primaryAdapterDnsAddresses : List Text) (nameservers : Option Text) :
    Option Text :=
  let ipAddresses :=
    match dnsMode with
    | .wsl => wslDnsAddresses
    | .auto => primaryAdapterDnsAddresses
    | .static => getStaticDnsAddresses isIPv6 dnsAddresses
  if ipAddresses.isEmpty then nameservers else some ([','].intercalate ipAddresses)

/-! ## Quads -/

def IsDigit (c : Char) : Prop := '0' ≤ c ∧ c ≤ '9'

instance (c : Char) : Decidable (IsDigit c) := inferInstanceAs (Decidable ('0' ≤ c ∧ c ≤ '9'))

/-- The number that decimal digits stand for. -/
def decimal (digits : Text) : Nat := digits.foldl (fun value c => 10 * value + (c.toNat - 48)) 0

/-- One to three digits, for a number up to 255. -/
structure IsOctet (o : Text) : Prop where
  ne : o ≠ []
  length : o.length ≤ 3
  digits : ∀ c ∈ o, IsDigit c
  value : decimal o ≤ 255

def IsQuad (q : Text) : Prop :=
  ∃ o₁ o₂ o₃ o₄, IsOctet o₁ ∧ IsOctet o₂ ∧ IsOctet o₃ ∧ IsOctet o₄ ∧
    q = o₁ ++ '.' :: o₂ ++ '.' :: o₃ ++ '.' :: o₄

/-- The text of a list: its items with commas between them, and whitespace around the commas. -/
inductive Joined : Text → List Text → Prop
  | nil : Joined [] []
  | single (q : Text) : Joined q [q]
  | cons {q w w' s : Text} {qs : List Text} (hw : ∀ c ∈ w, isWhiteSpace c = true)
    (hw' : ∀ c ∈ w', isWhiteSpace c = true) (hne : qs ≠ []) (h : Joined s qs) :
    Joined (q ++ w ++ ',' :: w' ++ s) (q :: qs)

/-- A leading zero before other digits, with a digit that is not octal. -/
def BadOctal (o : Text) : Prop := o.head? = some '0' ∧ 1 < o.length ∧ ∃ c ∈ o, c = '8' ∨ c = '9'

instance (o : Text) : Decidable (BadOctal o) :=
  decidable_of_iff (o.head? = some '0' ∧ 1 < o.length ∧ o.any (fun c => c = '8' ∨ c = '9') = true)
    (by simp only [BadOctal, List.any_eq_true, decide_eq_true_eq])

/-- A quad without leading zeros. -/
def IsCanonical (q : Text) : Prop := IsQuad q ∧ ∀ o ∈ q.splitOn '.', o.head? = some '0' → o = ['0']

/-- The parts between commas and dots. -/
def octetsOf (s : Text) : List Text := (s.splitOn ',').flatMap fun part => (trim part).splitOn '.'

/-- The configurator reads the text as the quads that it lists, and the forwarder gets them. -/
def ReadAsListed (isIPv6 : Text → Bool) (s : Text) : Prop :=
  ∃ qs, qs ≠ [] ∧ Joined s qs ∧ (∀ q ∈ qs, IsQuad q) ∧ getStaticDnsAddresses isIPv6 s = qs ∧
    ∀ wsl primary nameservers,
      startDnsForwarder isIPv6 .static s wsl primary nameservers = some ([','].intercalate qs)

/-! ## Octets are found whole -/

section Octets

open Pattern

variable {C : WordCharacters} {b : Option Char} {x y z c : Char} {o rest : Text}

theorem char_le_iff {c d : Char} : c ≤ d ↔ c.toNat ≤ d.toNat := by
  rw [Char.le_def, UInt32.le_iff_toNat_le]
  rfl

theorem char_eq_iff {c d : Char} : c = d ↔ c.toNat = d.toNat := by
  rw [Char.ext_iff, ← UInt32.toNat_inj]
  rfl

theorem isDigit_iff : IsDigit c ↔ 48 ≤ c.toNat ∧ c.toNat ≤ 57 := by
  rw [IsDigit, char_le_iff, char_le_iff]
  rfl

theorem first_range {lo hi : Char} (h : lo ≤ x ∧ x ≤ hi) :
    First (range lo hi) (b, x :: rest) (some x, rest) :=
  first_char (decide_eq_true h)

theorem fails_range {lo hi : Char} {w : Text} (h : ∀ c ∈ w.head?, ¬ (lo ≤ c ∧ c ≤ hi)) :
    Fails (range lo hi) (b, w) :=
  fails_char fun c hc => decide_eq_false (h c hc)

theorem first_chr : First (chr x) (b, x :: rest) (some x, rest) := first_char (by simp)

theorem fails_chr {w : Text} (h : ∀ c ∈ w.head?, c ≠ x) : Fails (chr x) (b, w) :=
  fails_char fun c hc => by simpa using h c hc

/-- One character after another. -/
theorem fails_chr_seq {q : Pattern Char} (h : x = c → Fails q (some x, rest)) :
    Fails (seq (chr c) q) (b, x :: rest) := by
  by_cases hx : x = c
  · subst hx
    refine fails_seq_of ?_ (h rfl)
    simp [chr, outcomes_char_cons]
  · exact Fails.seq (fails_chr fun d hd => by simpa [← Option.some.inj hd] using hx) q

theorem fails_range_seq {lo hi : Char} {q : Pattern Char} (h : Fails q (some x, rest)) :
    Fails (seq (range lo hi) q) (b, x :: rest) := by
  by_cases hx : lo ≤ x ∧ x ≤ hi
  · refine fails_seq_of ?_ h
    simp [range, outcomes_char_cons, hx]
  · refine Fails.seq (fails_char fun d hd => ?_) q
    obtain rfl := Option.some.inj hd
    simpa using hx

/-- No digit follows. -/
def Ends (rest : Text) : Prop := ∀ c ∈ rest.head?, ¬ IsDigit c

theorem Ends.fails_range (h : Ends rest) {lo hi : Char} (hlo : 48 ≤ lo.toNat)
    (hhi : hi.toNat ≤ 57) : Fails (range lo hi) (b, rest) :=
  Configuration.fails_range fun c hc hrange => h c hc (isDigit_iff.mpr
    ⟨hlo.trans (char_le_iff.mp hrange.1), (char_le_iff.mp hrange.2).trans hhi⟩)

theorem Ends.fails_chr (h : Ends rest) (hx : IsDigit x) : Fails (chr x) (b, rest) :=
  Configuration.fails_chr fun c hc heq => h c hc (heq ▸ hx)

/-- `[0-9]?` at the end of an octet. -/
theorem Ends.first_opt (h : Ends rest) : First (opt (range '0' '9')) (b, rest) (b, rest) :=
  first_opt_of_fails (h.fails_range (by decide) (by decide))

theorem first_octet01_one (hx : IsDigit x) (h : Ends rest) :
    First octet01 (b, x :: rest) (some x, rest) := by
  have hdigit : First (seq (range '0' '9') (opt (range '0' '9'))) (b, x :: rest) (some x, rest) :=
    (first_range hx).seq h.first_opt
  by_cases h01 : '0' ≤ x ∧ x ≤ '1'
  · -- the option takes the digit, and nothing is left for the one that must be there
    refine first_seq_of (show outcomes (opt (range '0' '1')) (b, x :: rest)
      = [(some x, rest)] ++ (b, x :: rest) :: [] from ?_) (fun t ht => ?_) hdigit
    · simp [outcomes_opt, outcomes_char_cons, range, h01]
    · obtain rfl := List.mem_singleton.mp ht
      exact Fails.seq (h.fails_range (by decide) (by decide)) _
  · have hskip : Fails (range '0' '1') (b, x :: rest) :=
      fails_range fun c hc => Option.some.inj hc ▸ h01
    exact (first_opt_of_fails hskip).seq hdigit

theorem first_octet01_two (hx : IsDigit x) (hy : IsDigit y) (h : Ends rest) :
    First octet01 (b, x :: y :: rest) (some y, rest) := by
  by_cases h01 : '0' ≤ x ∧ x ≤ '1'
  · exact (first_range h01).opt.seq ((first_range hy).seq h.first_opt)
  · have hskip : Fails (range '0' '1') (b, x :: y :: rest) :=
      fails_range fun c hc => Option.some.inj hc ▸ h01
    exact (first_opt_of_fails hskip).seq
      ((first_range hx).seq (first_range hy).opt)

theorem first_octet01_three (hx : '0' ≤ x ∧ x ≤ '1') (hy : IsDigit y) (hz : IsDigit z) :
    First octet01 (b, x :: y :: z :: rest) (some z, rest) :=
  (first_range hx).opt.seq
    ((first_range hy).seq (first_range hz).opt)

/-- Three digits are found by their first two. -/
theorem octet_cases_three (hx : IsDigit x) (hy : IsDigit y) (hz : IsDigit z)
    (hvalue : decimal [x, y, z] ≤ 255) :
    First octet25 (b, x :: y :: z :: rest) (some z, rest) ∨
      Fails octet25 (b, x :: y :: z :: rest) ∧
        First octet2 (b, x :: y :: z :: rest) (some z, rest) ∨
      Fails octet25 (b, x :: y :: z :: rest) ∧ Fails octet2 (b, x :: y :: z :: rest) ∧
        First octet01 (b, x :: y :: z :: rest) (some z, rest) := by
  have hx' := isDigit_iff.mp hx
  have hy' := isDigit_iff.mp hy
  have hz' := isDigit_iff.mp hz
  simp only [decimal, List.foldl_cons, List.foldl_nil] at hvalue
  by_cases h2 : x = '2'
  · have hx2 : x.toNat = 50 := char_eq_iff.mp h2
    by_cases h5 : y = '5'
    · have hy5 : y.toNat = 53 := char_eq_iff.mp h5
      subst h2 h5
      have hz5 : '0' ≤ z ∧ z ≤ '5' :=
        ⟨char_le_iff.mpr hz'.1, char_le_iff.mpr (show z.toNat ≤ 53 by omega)⟩
      exact .inl (first_chr.seq (first_chr.seq (first_range hz5)))
    · have hy5 : y.toNat ≠ 53 := fun he => h5 (char_eq_iff.mpr he)
      have hy4 : '0' ≤ y ∧ y ≤ '4' :=
        ⟨char_le_iff.mpr hy'.1, char_le_iff.mpr (show y.toNat ≤ 52 by omega)⟩
      subst h2
      refine .inr (.inl ⟨fails_chr_seq fun _ => fails_chr_seq fun he => absurd he h5, ?_⟩)
      exact first_chr.seq ((first_range hy4).seq (first_range hz))
  · have hx2 : x.toNat ≠ 50 := fun he => h2 (char_eq_iff.mpr he)
    refine .inr (.inr ⟨fails_chr_seq fun he => absurd he h2, fails_chr_seq fun he =>
      absurd he h2, ?_⟩)
    have hx1 : '0' ≤ x ∧ x ≤ '1' :=
      ⟨char_le_iff.mpr hx'.1, char_le_iff.mpr (show x.toNat ≤ 49 by omega)⟩
    exact first_octet01_three hx1 hy hz

/-- Which of the three alternatives finds an octet, and that those before it fail. -/
theorem octet_cases (ho : IsOctet o) (h : Ends rest) :
    First octet25 (b, o ++ rest) (after b o, rest) ∨
      Fails octet25 (b, o ++ rest) ∧ First octet2 (b, o ++ rest) (after b o, rest) ∨
      Fails octet25 (b, o ++ rest) ∧ Fails octet2 (b, o ++ rest) ∧
        First octet01 (b, o ++ rest) (after b o, rest) := by
  obtain ⟨hne, hlength, hdigits, hvalue⟩ := ho
  match o, hne, hlength with
  | [x], _, _ =>
    have hx := hdigits x (by simp)
    refine .inr (.inr ⟨?_, ?_, first_octet01_one hx h⟩)
    · exact fails_chr_seq fun _ => Fails.seq (h.fails_chr (by decide)) _
    · exact fails_chr_seq fun _ => Fails.seq (h.fails_range (by decide) (by decide)) _
  | [x, y], _, _ =>
    have hx := hdigits x (by simp)
    have hy := hdigits y (by simp)
    refine .inr (.inr ⟨?_, ?_, first_octet01_two hx hy h⟩)
    · exact fails_chr_seq fun _ => fails_chr_seq fun _ => h.fails_range (by decide) (by decide)
    · exact fails_chr_seq fun _ => fails_range_seq (h.fails_range (by decide) (by decide))
  | [x, y, z], _, _ =>
    exact octet_cases_three (hdigits x (by simp)) (hdigits y (by simp)) (hdigits z (by simp)) hvalue

theorem first_octet (ho : IsOctet o) (h : Ends rest) :
    First octetPattern (b, o ++ rest) (after b o, rest) := by
  rcases octet_cases ho h with hfirst | ⟨hfails, hfirst⟩ | ⟨hfails, hfails', hfirst⟩
  · exact hfirst.altLeft _
  · exact (hfirst.altLeft _).altRight hfails
  · exact (hfirst.altRight hfails').altRight hfails

theorem fails_boundary_seq {q : Pattern Char} {s : Position Char} (word : Char → Bool)
    (h : Fails q s) : Fails (seq (boundary word) q) s := by
  rw [Fails, outcomes_seq, outcomes_boundary]
  split
  · rw [List.flatMap_singleton, h]
  · rfl

/-- An octet after a character that is no word character. -/
theorem first_firstOctet (ho : IsOctet o) (h : Ends rest) (hb : b.any C.isWord = false) :
    First (firstOctetPattern C) (b, o ++ rest) (after b o, rest) := by
  have hboundary : First (boundary C.isWord) (b, o ++ rest) (b, o ++ rest) := by
    refine first_boundary ?_
    obtain ⟨c, cs, rfl⟩ := List.exists_cons_of_ne_nil ho.ne
    obtain ⟨hlo, hhi⟩ := ho.digits c List.mem_cons_self
    rw [hb, List.cons_append, List.head?_cons, Option.any_some, C.digit c hlo hhi]
    exact Bool.false_ne_true
  rcases octet_cases ho h with hfirst | ⟨hfails, hfirst⟩ | ⟨hfails, hfails', hfirst⟩
  · exact (hboundary.seq hfirst).altLeft _
  · exact ((hboundary.seq hfirst).altLeft _).altRight (fails_boundary_seq _ hfails)
  · exact ((hboundary.seq hfirst).altRight (fails_boundary_seq _ hfails')).altRight
      (fails_boundary_seq _ hfails)

end Octets

/-! ## Lists of quads are found whole -/

section Lists

open Pattern

variable {C : WordCharacters} {b : Option Char} {t : Position Char} {o q w w' s rest : Text}
  {qs : List Text}

theorem ends_cons {c : Char} (h : ¬ IsDigit c) (s : Text) : Ends (c :: s) := by
  intro d hd
  exact Option.some.inj hd ▸ h

theorem ends_nil : Ends [] := fun _ h => nomatch h

theorem first_dotOctet (ho : IsOctet o) (h : Ends rest) :
    First dotOctetPattern (b, '.' :: o ++ rest) (after b ('.' :: o), rest) :=
  first_chr.seq (first_octet ho h)

theorem first_address (hq : IsQuad q) (h : Ends rest) (hb : b.any C.isWord = false) :
    First (addressPattern C) (b, q ++ rest) (after b q, rest) := by
  obtain ⟨o₁, o₂, o₃, o₄, h₁, h₂, h₃, h₄, rfl⟩ := hq
  have hdot (s : Text) : Ends ('.' :: s) := ends_cons (by decide) s
  have hfirst := (first_firstOctet (C := C) (b := b) h₁
    (hdot (o₂ ++ ('.' :: o₃ ++ ('.' :: o₄ ++ rest)))) hb).seq
    ((first_dotOctet h₂ (hdot (o₃ ++ ('.' :: o₄ ++ rest)))).seq
      ((first_dotOctet h₃ (hdot (o₄ ++ rest))).seq (first_dotOctet h₄ h)))
  simpa [addressPattern, List.append_assoc] using hfirst

theorem digit_not_whiteSpace {c : Char} (h : IsDigit c) : isWhiteSpace c = false := by
  obtain ⟨hlo, hhi⟩ := isDigit_iff.mp h
  simp only [isWhiteSpace, List.mem_cons, List.not_mem_nil, or_false, decide_eq_false_iff_not]
  omega

theorem whiteSpace_not_digit {c : Char} (h : isWhiteSpace c = true) : ¬ IsDigit c := by
  intro hd
  rw [digit_not_whiteSpace hd] at h
  exact nomatch h

/-- Whitespace after a character that is no word character. -/
theorem after_whiteSpace (hw : ∀ c ∈ w, isWhiteSpace c = true) (hb : b.any C.isWord = false) :
    (after b w).any C.isWord = false := by
  induction w generalizing b with
  | nil => exact hb
  | cons c w ih =>
    exact ih (fun x hx => hw x (List.mem_cons_of_mem _ hx))
      (C.whiteSpace c (hw c List.mem_cons_self))

/-- What comes between an address and the next one. -/
theorem first_nextAddress (hw : ∀ c ∈ w, isWhiteSpace c = true)
    (hw' : ∀ c ∈ w', isWhiteSpace c = true) (hs : ∀ c ∈ s.head?, isWhiteSpace c = false)
    (h : First (addressPattern C) (after (some ',') w', s) t) :
    First (nextAddressPattern C) (b, w ++ ',' :: w' ++ s) t := by
  have hcomma : ∀ c ∈ (',' :: (w' ++ s)).head?, isWhiteSpace c = false := by
    intro c hc
    obtain rfl := Option.some.inj hc
    decide
  have hfirst := (first_star_char hw hcomma b).seq
    (first_chr.seq ((first_star_char hw' hs _).seq h))
  rw [List.append_assoc, List.cons_append]
  exact hfirst

theorem fails_nextAddress_nil : Fails (nextAddressPattern C) (b, []) :=
  fails_seq_of rfl (Fails.seq (fails_chr fun _ hc => absurd hc (by simp)) _)

theorem IsQuad.head (hq : IsQuad q) : ∃ c cs, q = c :: cs ∧ IsDigit c := by
  obtain ⟨o₁, o₂, o₃, o₄, h₁, -, -, -, rfl⟩ := hq
  obtain ⟨c, cs, rfl⟩ := List.exists_cons_of_ne_nil h₁.ne
  exact ⟨c, _, rfl, h₁.digits c List.mem_cons_self⟩

theorem Joined.head (h : Joined s qs) (hne : qs ≠ []) (hq : ∀ q ∈ qs, IsQuad q) :
    ∀ c ∈ s.head?, isWhiteSpace c = false := by
  have hquad : ∀ q, IsQuad q → ∀ rest : Text, ∀ c ∈ (q ++ rest).head?, isWhiteSpace c = false := by
    intro q hq rest c hc
    obtain ⟨d, ds, rfl, hd⟩ := hq.head
    exact Option.some.inj hc ▸ digit_not_whiteSpace hd
  cases h with
  | nil => exact absurd rfl hne
  | single => simpa using hquad s (hq s List.mem_cons_self) []
  | @cons q w w' s qs hw hw' hne' h =>
    rw [List.append_assoc, List.append_assoc]
    exact hquad q (hq q List.mem_cons_self) _

/-- The pattern finds the first address of a list, and its star all others. -/
theorem first_list (h : Joined s qs) (hne : qs ≠ []) (hq : ∀ q ∈ qs, IsQuad q)
    (hb : b.any C.isWord = false) :
    ∃ t b', First (addressPattern C) (b, s) t ∧ t.2.length ≤ s.length ∧
      First (star (nextAddressPattern C)) t (b', []) := by
  induction h generalizing b with
  | nil => exact absurd rfl hne
  | single q =>
    refine ⟨(after b q, []), after b q, ?_, Nat.zero_le _, first_star_stop fails_nextAddress_nil⟩
    simpa using first_address (hq q List.mem_cons_self) ends_nil hb
  | @cons q w w' s qs hw hw' hne' h ih =>
    have hqs : ∀ q ∈ qs, IsQuad q := fun x hx => hq x (List.mem_cons_of_mem _ hx)
    have hcomma : (after (some ',') w').any C.isWord = false := after_whiteSpace hw' C.comma
    obtain ⟨t, b', haddress, hle, hstar⟩ := ih hne' hqs hcomma
    have hends : Ends (w ++ ',' :: w' ++ s) := by
      cases w with
      | nil => exact ends_cons (by decide) _
      | cons c w => exact ends_cons (whiteSpace_not_digit (hw c List.mem_cons_self)) _
    refine ⟨(after b q, w ++ ',' :: w' ++ s), b', ?_, by simp, ?_⟩
    · have hfirst := first_address (C := C) (hq q List.mem_cons_self) hends hb
      simpa [List.append_assoc] using hfirst
    · refine (first_nextAddress hw hw' (h.head hne' hqs) haddress).star ?_ hstar
      simp only [List.length_append, List.length_cons]
      omega

theorem accepts_of_joined (h : Joined s qs) (hne : qs ≠ []) (hq : ∀ q ∈ qs, IsQuad q) :
    (dnsAddressesPattern C).accepts s = true := by
  obtain ⟨t, b', haddress, -, hstar⟩ := first_list (C := C) (b := none) h hne hq rfl
  exact accepts_of_first (haddress.seq hstar)

end Lists

/-! ## What the pattern accepts -/

section Accepted

open Regex

variable {C : WordCharacters} {o q s t : Text} {qs : List Text}

theorem octet25_equivalent :
    Equivalent octet25.toRegex (seq (lit "25".toList) (between '0' '5')) :=
  ((lit_cons_seq '2' ['5'] _).trans ((Equivalent.refl _).seq (lit_singleton_seq '5' _))).symm

theorem octet2_equivalent :
    Equivalent octet2.toRegex (seq (lit "2".toList) (seq (between '0' '4') digit)) :=
  (lit_singleton_seq '2' _).symm

theorem octet_equivalent : Equivalent octetPattern.toRegex octet :=
  octet25_equivalent.alt (octet2_equivalent.alt (Equivalent.refl _))

theorem firstOctet_equivalent : Equivalent (firstOctetPattern C).toRegex octet :=
  ((eps_seq _).trans octet25_equivalent).alt (((eps_seq _).trans octet2_equivalent).alt (eps_seq _))

theorem dotOctet_equivalent : Equivalent dotOctetPattern.toRegex dotOctet :=
  ((Equivalent.refl _).seq octet_equivalent).trans (lit_singleton_seq '.' _).symm

theorem address_equivalent : Equivalent (addressPattern C).toRegex address :=
  firstOctet_equivalent.seq (dotOctet_equivalent.seq (dotOctet_equivalent.seq dotOctet_equivalent))

/-- The word boundaries are where they hold anyway, so the pattern without them has the same
matches. -/
theorem dnsAddresses_equivalent : Equivalent (dnsAddressesPattern C).toRegex dnsPattern :=
  address_equivalent.seq (Equivalent.star ((Equivalent.refl _).seq
    (((Equivalent.refl _).seq ((Equivalent.refl _).seq address_equivalent)).trans
      (lit_singleton_seq ',' _).symm)))

theorem isOctet_three {x y z : Char} (hx : IsDigit x) (hy : IsDigit y) (hz : IsDigit z)
    (hvalue : 100 * (x.toNat - 48) + 10 * (y.toNat - 48) + (z.toNat - 48) ≤ 255) :
    IsOctet [x, y, z] := by
  refine ⟨List.cons_ne_nil _ _, Nat.le_refl 3, by simp [hx, hy, hz], ?_⟩
  simp only [decimal, List.foldl_cons, List.foldl_nil]
  omega

theorem isOctet_two {x y : Char} (hx : IsDigit x) (hy : IsDigit y) : IsOctet [x, y] := by
  refine ⟨List.cons_ne_nil _ _, by simp, by simp [hx, hy], ?_⟩
  have hx' := isDigit_iff.mp hx
  have hy' := isDigit_iff.mp hy
  simp only [decimal, List.foldl_cons, List.foldl_nil]
  omega

theorem isOctet_one {x : Char} (hx : IsDigit x) : IsOctet [x] := by
  refine ⟨List.cons_ne_nil _ _, by simp, by simp [hx], ?_⟩
  have hx' := isDigit_iff.mp hx
  simp only [decimal, List.foldl_cons, List.foldl_nil]
  omega

theorem matches_between {lo hi : Char} :
    Matches (between lo hi) s t ↔ ∃ c, (lo ≤ c ∧ c ≤ hi) ∧ s = c :: t := by
  rw [between, matches_char]
  simp only [decide_eq_true_eq]

/-- A digit of a smaller range. -/
theorem isDigit_of_between {lo hi c : Char} (h : lo ≤ c ∧ c ≤ hi) (hlo : 48 ≤ lo.toNat)
    (hhi : hi.toNat ≤ 57) : IsDigit c :=
  isDigit_iff.mpr ⟨hlo.trans (char_le_iff.mp h.1), (char_le_iff.mp h.2).trans hhi⟩

theorem matches_octet (h : Matches octet s t) : ∃ o, IsOctet o ∧ s = o ++ t := by
  rw [octet, matches_alt, matches_alt] at h
  rcases h with h | h | h
  · obtain ⟨u, hlit, h⟩ := matches_seq.mp h
    obtain ⟨z, hz, rfl⟩ := matches_between.mp h
    have hz5 : z.toNat ≤ 53 := char_le_iff.mp hz.2
    refine ⟨['2', '5', z], isOctet_three (by decide) (by decide)
      (isDigit_of_between hz (by decide) (by decide)) ?_, by simpa using matches_lit.mp hlit⟩
    show 100 * 2 + 10 * 5 + (z.toNat - 48) ≤ 255
    omega
  · obtain ⟨u, hlit, h⟩ := matches_seq.mp h
    obtain ⟨v, hsecond, hthird⟩ := matches_seq.mp h
    obtain ⟨y, hy, rfl⟩ := matches_between.mp hsecond
    obtain ⟨z, hz, rfl⟩ := matches_between.mp hthird
    have hy4 : y.toNat ≤ 52 := char_le_iff.mp hy.2
    have hz9 : z.toNat ≤ 57 := char_le_iff.mp hz.2
    refine ⟨['2', y, z], isOctet_three (by decide)
      (isDigit_of_between hy (by decide) (by decide)) hz ?_, by simpa using matches_lit.mp hlit⟩
    show 100 * 2 + 10 * (y.toNat - 48) + (z.toNat - 48) ≤ 255
    omega
  · obtain ⟨u, hopt, h⟩ := matches_seq.mp h
    obtain ⟨v, hdigit, hlast⟩ := matches_seq.mp h
    obtain ⟨y, hy, rfl⟩ := matches_between.mp hdigit
    rcases matches_opt.mp hopt with h01 | rfl <;> rcases matches_opt.mp hlast with h9 | rfl
    · obtain ⟨x, hx, rfl⟩ := matches_between.mp h01
      obtain ⟨z, hz, rfl⟩ := matches_between.mp h9
      have hx1 : x.toNat ≤ 49 := char_le_iff.mp hx.2
      have hy9 := isDigit_iff.mp hy
      have hz9 := isDigit_iff.mp hz
      exact ⟨[x, y, z], isOctet_three (isDigit_of_between hx (by decide) (by decide)) hy hz
        (by omega), rfl⟩
    · obtain ⟨x, hx, rfl⟩ := matches_between.mp h01
      exact ⟨[x, y], isOctet_two (isDigit_of_between hx (by decide) (by decide)) hy, rfl⟩
    · obtain ⟨z, hz, rfl⟩ := matches_between.mp h9
      exact ⟨[y, z], isOctet_two hy hz, rfl⟩
    · exact ⟨[y], isOctet_one hy, rfl⟩

theorem matches_dotOctet (h : Matches dotOctet s t) : ∃ o, IsOctet o ∧ s = '.' :: o ++ t := by
  obtain ⟨u, hdot, h⟩ := matches_seq.mp h
  obtain ⟨o, ho, rfl⟩ := matches_octet h
  exact ⟨o, ho, by simpa using matches_lit.mp hdot⟩

theorem matches_address (h : Matches address s t) : ∃ q, IsQuad q ∧ s = q ++ t := by
  obtain ⟨u₁, hm₁, hrest₁⟩ := matches_seq.mp h
  obtain ⟨u₂, hm₂, hrest₂⟩ := matches_seq.mp hrest₁
  obtain ⟨u₃, hm₃, hm₄⟩ := matches_seq.mp hrest₂
  obtain ⟨o₁, h₁, rfl⟩ := matches_octet hm₁
  obtain ⟨o₂, h₂, rfl⟩ := matches_dotOctet hm₂
  obtain ⟨o₃, h₃, rfl⟩ := matches_dotOctet hm₃
  obtain ⟨o₄, h₄, rfl⟩ := matches_dotOctet hm₄
  exact ⟨_, ⟨o₁, o₂, o₃, o₄, h₁, h₂, h₃, h₄, rfl⟩, by simp⟩

/-- What the star matches goes on with a list. -/
theorem joined_of_star {r : Regex Char}
    (hr : r = star (seq (star (char isWhiteSpace))
      (seq (lit ",".toList) (seq (star (char isWhiteSpace)) address))))
    (h : Matches r s t) (ht : t = []) (hq : IsQuad q) :
    ∃ qs, qs ≠ [] ∧ Joined (q ++ s) qs ∧ ∀ x ∈ qs, IsQuad x := by
  induction h generalizing q with
  | starNil =>
    subst ht
    refine ⟨[q], List.cons_ne_nil _ _, ?_, by simpa using hq⟩
    rw [List.append_nil]
    exact .single q
  | starCons h₁ _ _ ih =>
    cases hr
    obtain ⟨u₁, hbefore, hm₁⟩ := matches_seq.mp h₁
    obtain ⟨u₂, hcomma, hm₂⟩ := matches_seq.mp hm₁
    obtain ⟨u₃, hbehind, hm₃⟩ := matches_seq.mp hm₂
    obtain ⟨q', hq', rfl⟩ := matches_address hm₃
    obtain ⟨w', rfl, hw'⟩ := matches_star_char.mp hbehind
    obtain rfl := matches_lit.mp hcomma
    obtain ⟨w, rfl, hw⟩ := matches_star_char.mp hbefore
    obtain ⟨qs, hne, hjoined, hqs⟩ := ih rfl ht hq'
    refine ⟨q :: qs, List.cons_ne_nil _ _, ?_, fun x hx => ?_⟩
    · have hcons := Joined.cons (q := q) hw hw' hne hjoined
      simpa using hcons
    · rcases List.mem_cons.mp hx with rfl | hx
      · exact hq
      · exact hqs x hx
  | _ => cases hr

theorem joined_of_matches (h : Matches dnsPattern s []) :
    ∃ qs, qs ≠ [] ∧ Joined s qs ∧ ∀ q ∈ qs, IsQuad q := by
  obtain ⟨u, haddress, hstar⟩ := matches_seq.mp h
  obtain ⟨q, hq, rfl⟩ := matches_address haddress
  exact joined_of_star rfl hstar rfl hq

/-- **What the pattern accepts** are the lists of quads. -/
theorem accepts_iff : (dnsAddressesPattern C).accepts s = true ↔
    ∃ qs, qs ≠ [] ∧ Joined s qs ∧ ∀ q ∈ qs, IsQuad q := by
  constructor
  · intro h
    exact joined_of_matches ((dnsAddresses_equivalent _ _).mp (Pattern.matches_of_accepts h))
  · intro ⟨qs, hne, hjoined, hqs⟩
    exact accepts_of_joined hjoined hne hqs

end Accepted

/-! ## What the configurator reads -/

section Consumer

variable {C : WordCharacters} {isIPv6 : Text → Bool} {o q w s : Text} {qs : List Text} {c : Char}

theorem trim_cons (h : isWhiteSpace c = true) (s : Text) : trim (c :: s) = trim s := by
  rw [trim, List.dropWhile_cons_of_pos h, trim]

/-- A text without whitespace, and whitespace behind it. -/
theorem trim_append (hq : ∀ c ∈ q, isWhiteSpace c = false) (hw : ∀ c ∈ w, isWhiteSpace c = true)
    (hne : q ≠ []) : trim (q ++ w) = q := by
  have hstop : ∀ s : Text, s ≠ [] → (∀ c ∈ s.head?, isWhiteSpace c = false) →
      s.dropWhile isWhiteSpace = s := by
    intro s hs hhead
    obtain ⟨c, cs, rfl⟩ := List.exists_cons_of_ne_nil hs
    rw [List.dropWhile_cons_of_neg]
    simp [hhead c rfl]
  have hfirst : (q ++ w).dropWhile isWhiteSpace = q ++ w := by
    refine hstop _ (by simp [hne]) fun c hc => ?_
    obtain ⟨d, ds, rfl⟩ := List.exists_cons_of_ne_nil hne
    exact hq c (Option.some.inj hc ▸ List.mem_cons_self)
  have hlast : q.reverse.dropWhile isWhiteSpace = q.reverse := by
    refine hstop _ (by simp [hne]) fun c hc => hq c ?_
    exact List.mem_reverse.mp (List.mem_of_head? hc)
  rw [trim, hfirst, List.reverse_append, List.dropWhile_append_of_pos (by simpa using hw), hlast,
    List.reverse_reverse]

/-- Whitespace at the beginning of a text is trimmed off its first part. -/
theorem map_trim_splitOn (hw : ∀ c ∈ w, isWhiteSpace c = true) (s : Text) :
    ((w ++ s).splitOn ',').map trim = (s.splitOn ',').map trim := by
  induction w with
  | nil => rfl
  | cons c w ih =>
    have hc := hw c List.mem_cons_self
    have hcomma : ¬ (c == ',') = true := by
      intro h
      obtain rfl := eq_of_beq h
      exact absurd hc (by decide)
    rw [List.cons_append, List.splitOn_cons_eq_if_modifyHead, if_neg hcomma,
      ← ih fun x hx => hw x (List.mem_cons_of_mem _ hx)]
    obtain ⟨first, others, hsplit⟩ := List.exists_cons_of_ne_nil (List.splitOn_ne_nil ',' (w ++ s))
    rw [hsplit, List.modifyHead_cons, List.map_cons, List.map_cons, trim_cons hc]

/-- The characters of a quad. -/
theorem IsQuad.chars (hq : IsQuad q) (hc : c ∈ q) : IsDigit c ∨ c = '.' := by
  obtain ⟨o₁, o₂, o₃, o₄, h₁, h₂, h₃, h₄, rfl⟩ := hq
  simp only [List.mem_append, List.mem_cons] at hc
  rcases hc with ((hc | rfl | hc) | rfl | hc) | rfl | hc
  · exact .inl (h₁.digits c hc)
  · exact .inr rfl
  · exact .inl (h₂.digits c hc)
  · exact .inr rfl
  · exact .inl (h₃.digits c hc)
  · exact .inr rfl
  · exact .inl (h₄.digits c hc)

theorem IsQuad.not_mem (hq : IsQuad q) (hdigit : ¬ IsDigit c) (hdot : c ≠ '.') : c ∉ q :=
  fun hc => (hq.chars hc).elim hdigit hdot

theorem IsQuad.not_whiteSpace (hq : IsQuad q) : ∀ c ∈ q, isWhiteSpace c = false := by
  intro c hc
  rcases hq.chars hc with h | rfl
  · exact digit_not_whiteSpace h
  · decide

theorem IsQuad.ne (hq : IsQuad q) : q ≠ [] := by
  obtain ⟨c, cs, rfl, -⟩ := hq.head
  exact List.cons_ne_nil _ _

/-- The parts of a list between its commas are its items. -/
theorem Joined.parts (h : Joined s qs) (hne : qs ≠ []) (hq : ∀ q ∈ qs, IsQuad q) :
    (s.splitOn ',').map trim = qs := by
  have hitem : ∀ q, IsQuad q → ∀ w : Text, (∀ c ∈ w, isWhiteSpace c = true) →
      ',' ∉ q ++ w ∧ trim (q ++ w) = q := by
    intro q hq w hw
    refine ⟨fun hc => ?_, trim_append hq.not_whiteSpace hw hq.ne⟩
    rcases List.mem_append.mp hc with hc | hc
    · exact hq.not_mem (by decide) (by decide) hc
    · exact absurd (hw _ hc) (by decide)
  induction h with
  | nil => exact absurd rfl hne
  | single q =>
    obtain ⟨hcomma, htrim⟩ := hitem q (hq q List.mem_cons_self) [] fun _ h =>
      absurd h List.not_mem_nil
    rw [List.append_nil] at hcomma htrim
    rw [List.splitOn_eq_singleton hcomma, List.map_singleton, htrim]
  | @cons q w w' s qs hw hw' hne' h ih =>
    obtain ⟨hcomma, htrim⟩ := hitem q (hq q List.mem_cons_self) w hw
    rw [List.append_assoc (q ++ w), List.cons_append,
      List.splitOn_append_cons_self_of_not_mem hcomma,
      List.map_cons, htrim, map_trim_splitOn hw', ih hne' fun x hx =>
      hq x (List.mem_cons_of_mem _ hx)]

theorem splitEntries_eq (h : Joined s qs) (hne : qs ≠ []) (hq : ∀ q ∈ qs, IsQuad q) :
    splitEntries s = qs := by
  rw [splitEntries, h.parts hne hq, List.filter_eq_self]
  intro q hmem
  simp [(hq q hmem).ne]

theorem octetsOf_eq (h : Joined s qs) (hne : qs ≠ []) (hq : ∀ q ∈ qs, IsQuad q) :
    octetsOf s = qs.flatMap fun q => q.splitOn '.' := by
  rw [octetsOf, ← h.parts hne hq, List.flatMap_map]

/-! ## Parts of an address -/

theorem digitValue_digit (hc : IsDigit c) : digitValue c = some (c.toNat - 48) := if_pos hc

/-- The number that digits of this base stand for, after `value`. -/
theorem digits_some {base : Nat} (h : ∀ c ∈ s, IsDigit c ∧ c.toNat - 48 < base) (value : Nat) :
    s.foldlM (fun value c => (digitValue c).bind fun d =>
        if d < base then some (base * value + d) else none) value
      = some (s.foldl (fun value c => base * value + (c.toNat - 48)) value) := by
  induction s generalizing value with
  | nil => rfl
  | cons c s ih =>
    obtain ⟨hc, hlt⟩ := h c List.mem_cons_self
    rw [List.foldlM_cons, digitValue_digit hc, Option.bind_some, if_pos hlt]
    exact ih (fun x hx => h x (List.mem_cons_of_mem _ hx)) _

theorem digits_none {base : Nat} (hdigits : ∀ c ∈ s, IsDigit c) (h : ∃ c ∈ s, base ≤ c.toNat - 48)
    (value : Nat) :
    s.foldlM (fun value c => (digitValue c).bind fun d =>
        if d < base then some (base * value + d) else none) value = none := by
  induction s generalizing value with
  | nil =>
    obtain ⟨c, hc, -⟩ := h
    exact absurd hc List.not_mem_nil
  | cons c s ih =>
    rw [List.foldlM_cons, digitValue_digit (hdigits c List.mem_cons_self), Option.bind_some]
    by_cases hlt : c.toNat - 48 < base
    · rw [if_pos hlt]
      obtain ⟨d, hd, hle⟩ := h
      rcases List.mem_cons.mp hd with rfl | hd
      · omega
      · exact ih (fun x hx => hdigits x (List.mem_cons_of_mem _ hx)) ⟨d, hd, hle⟩ _
    · rw [if_neg hlt]
      rfl

theorem parsePart_decimal (hne : s ≠ []) (h : s.head? ≠ some '0') :
    parsePart s = digitsValue 10 digitValue s := by
  obtain ⟨c, cs, rfl⟩ := List.exists_cons_of_ne_nil hne
  have hc : c ≠ '0' := by simpa using h
  unfold parsePart
  split <;> simp_all

theorem parsePart_octal (hdigits : ∀ c ∈ s, IsDigit c) :
    parsePart ('0' :: s) = digitsValue 8 digitValue s := by
  cases s with
  | nil => rfl
  | cons c s =>
    have hc := hdigits c List.mem_cons_self
    have hx : c ≠ 'x' ∧ c ≠ 'X' := by
      constructor <;> rintro rfl <;> exact absurd hc (by decide)
    unfold parsePart
    split <;> simp_all

theorem badOctal_iff (hdigits : ∀ c ∈ s, IsDigit c) :
    BadOctal ('0' :: s) ↔ ∃ c ∈ s, 8 ≤ c.toNat - 48 := by
  constructor
  · intro ⟨_, _, c, hc, h89⟩
    rcases List.mem_cons.mp hc with rfl | hc
    · exact absurd h89 (by decide)
    · refine ⟨c, hc, ?_⟩
      rcases h89 with rfl | rfl <;> decide
  · intro ⟨c, hc, hle⟩
    have hpos := List.length_pos_of_mem hc
    have h9 := (isDigit_iff.mp (hdigits c hc)).2
    refine ⟨rfl, by rw [List.length_cons]; omega, c, List.mem_cons_of_mem _ hc, ?_⟩
    rw [char_eq_iff, char_eq_iff]
    show c.toNat = 56 ∨ c.toNat = 57
    omega

/-- What at most two octal digits stand for. -/
theorem octal_le (h : ∀ c ∈ s, c.toNat - 48 < 8) (hlength : s.length ≤ 2) :
    s.foldl (fun value c => 8 * value + (c.toNat - 48)) 0 ≤ 255 := by
  match s, h, hlength with
  | [], _, _ => simp
  | [x], h, _ =>
    have hx := h x (by simp)
    simp only [List.foldl_cons, List.foldl_nil]
    omega
  | [x, y], h, _ =>
    have hx := h x (by simp)
    have hy := h y (by simp)
    simp only [List.foldl_cons, List.foldl_nil]
    omega

/-- An octet is read unless it has a leading zero and a digit that is not octal. -/
theorem parsePart_octet (ho : IsOctet o) :
    BadOctal o ∧ parsePart o = none ∨ ¬ BadOctal o ∧ ∃ value, parsePart o = some value ∧
      value ≤ 255 := by
  obtain ⟨hne, hlength, hdigits, hvalue⟩ := ho
  by_cases hzero : o.head? = some '0'
  · obtain ⟨c, ds, rfl⟩ := List.exists_cons_of_ne_nil hne
    obtain rfl : c = '0' := by simpa using hzero
    have hds : ∀ c ∈ ds, IsDigit c := fun c hc => hdigits c (List.mem_cons_of_mem _ hc)
    rw [parsePart_octal hds, digitsValue, badOctal_iff hds]
    by_cases hbad : ∃ c ∈ ds, 8 ≤ c.toNat - 48
    · exact .inl ⟨hbad, digits_none hds hbad 0⟩
    · have hsmall : ∀ c ∈ ds, c.toNat - 48 < 8 := fun c hc =>
        Nat.lt_of_not_le fun hle => hbad ⟨c, hc, hle⟩
      exact .inr ⟨hbad, _, digits_some (fun c hc => ⟨hds c hc, hsmall c hc⟩) 0,
        octal_le hsmall (Nat.le_of_succ_le_succ hlength)⟩
  · refine .inr ⟨fun h => hzero h.1, decimal o, ?_, hvalue⟩
    rw [parsePart_decimal hne hzero, digitsValue]
    refine digits_some (fun c hc => ?_) 0
    have hd := hdigits c hc
    have h9 := isDigit_iff.mp hd
    exact ⟨hd, by omega⟩

/-- Either all parts are read, or one of them has a digit that is not octal. -/
theorem mapM_parsePart {parts : List Text} (h : ∀ o ∈ parts, IsOctet o) :
    (∃ o ∈ parts, BadOctal o) ∧ parts.mapM parsePart = none ∨
      (∀ o ∈ parts, ¬ BadOctal o) ∧ ∃ values, parts.mapM parsePart = some values ∧
        values.length = parts.length ∧ ∀ value ∈ values, value ≤ 255 := by
  induction parts with
  | nil =>
    exact .inr ⟨fun _ ho => absurd ho List.not_mem_nil, [], rfl, rfl, fun _ hv =>
      absurd hv List.not_mem_nil⟩
  | cons o parts ih =>
    rw [List.mapM_cons]
    rcases parsePart_octet (h o List.mem_cons_self) with ⟨hbad, hpart⟩ | ⟨hgood, value, hpart, hle⟩
    · refine .inl ⟨⟨o, List.mem_cons_self, hbad⟩, ?_⟩
      rw [hpart]
      rfl
    · rw [hpart]
      rcases ih fun x hx => h x (List.mem_cons_of_mem _ hx) with ⟨⟨x, hx, hbad⟩, hparts⟩ |
        ⟨hall, values, hparts, hlength, hvalues⟩
      · refine .inl ⟨⟨x, List.mem_cons_of_mem _ hx, hbad⟩, ?_⟩
        rw [hparts]
        rfl
      · refine .inr ⟨List.forall_mem_cons.mpr ⟨hgood, hall⟩, value :: values, ?_, ?_, ?_⟩
        · rw [hparts]
          rfl
        · rw [List.length_cons, List.length_cons, hlength]
        · exact List.forall_mem_cons.mpr ⟨hle, hvalues⟩

theorem IsQuad.splitOn (hq : IsQuad q) :
    (q.splitOn '.').length = 4 ∧ ∀ o ∈ q.splitOn '.', IsOctet o := by
  obtain ⟨o₁, o₂, o₃, o₄, h₁, h₂, h₃, h₄, rfl⟩ := hq
  have hdot : ∀ o, IsOctet o → '.' ∉ o := fun o ho hc => absurd (ho.digits _ hc) (by decide)
  have hsplit : (o₁ ++ '.' :: o₂ ++ '.' :: o₃ ++ '.' :: o₄).splitOn '.' = [o₁, o₂, o₃, o₄] := by
    rw [List.append_assoc, List.append_assoc, List.cons_append,
      List.splitOn_append_cons_self_of_not_mem (hdot o₁ h₁), List.cons_append,
      List.splitOn_append_cons_self_of_not_mem (hdot o₂ h₂),
      List.splitOn_append_cons_self_of_not_mem (hdot o₃ h₃), List.splitOn_eq_singleton (hdot o₄ h₄)]
  rw [hsplit]
  refine ⟨rfl, fun o ho => ?_⟩
  simp only [List.mem_cons, List.not_mem_nil, or_false] at ho
  rcases ho with rfl | rfl | rfl | rfl <;> assumption

theorem isIPv4_iff (hq : IsQuad q) : isIPv4 q = true ↔ ∀ o ∈ q.splitOn '.', ¬ BadOctal o := by
  obtain ⟨hfour, hoctets⟩ := hq.splitOn
  rcases mapM_parsePart hoctets with ⟨⟨o, ho, hbad⟩, hparts⟩ |
    ⟨hgood, values, hparts, hlength, hvalues⟩
  · rw [isIPv4, hparts]
    exact ⟨fun h => absurd h Bool.false_ne_true, fun h => absurd hbad (h o ho)⟩
  · rw [isIPv4, hparts]
    refine ⟨fun _ => hgood, fun _ => ?_⟩
    have hlast : ∀ value, values.getLast? = some value → value < 256 := fun value hv =>
      Nat.lt_succ_of_le (hvalues value (List.mem_of_getLast? hv))
    have hinit : ∀ value ∈ values.dropLast, value ≤ 255 := fun value hv =>
      hvalues value (List.mem_of_mem_dropLast hv)
    simp only [hlength, hfour, Bool.and_eq_true, List.all_eq_true, Option.all_eq_true,
      decide_eq_true_eq]
    exact ⟨⟨Nat.le_refl 4, hinit⟩, hlast⟩

theorem tryParse_iff (hq : IsQuad q) :
    tryParse isIPv6 q = true ↔ ∀ o ∈ q.splitOn '.', ¬ BadOctal o := by
  rw [tryParse, if_neg (hq.not_mem (by decide) (by decide)), isIPv4_iff hq]

/-- All entries are read, or none. -/
theorem getStaticDnsAddresses_eq_iff (h : Joined s qs) (hne : qs ≠ []) (hq : ∀ q ∈ qs, IsQuad q) :
    getStaticDnsAddresses isIPv6 s = qs ↔ ∀ o ∈ octetsOf s, ¬ BadOctal o := by
  have hall : qs.all (tryParse isIPv6) = true ↔ ∀ o ∈ octetsOf s, ¬ BadOctal o := by
    rw [octetsOf_eq h hne hq, List.all_eq_true]
    constructor
    · intro hparse o ho
      obtain ⟨q, hmem, ho⟩ := List.mem_flatMap.mp ho
      exact (tryParse_iff (hq q hmem)).mp (hparse q hmem) o ho
    · intro hgood q hmem
      exact (tryParse_iff (hq q hmem)).mpr fun o ho => hgood o (List.mem_flatMap.mpr ⟨q, hmem, ho⟩)
  rw [getStaticDnsAddresses, splitEntries_eq h hne hq, ← hall]
  by_cases hparse : qs.all (tryParse isIPv6) = true
  · simp [hparse]
  · rw [if_neg hparse]
    exact ⟨fun heq => absurd heq.symm hne, fun htrue => absurd htrue hparse⟩

theorem startDnsForwarder_static (h : getStaticDnsAddresses isIPv6 s = qs) (hne : qs ≠ [])
    (wsl primary : List Text) (nameservers : Option Text) :
    startDnsForwarder isIPv6 .static s wsl primary nameservers = some ([','].intercalate qs) := by
  simp only [startDnsForwarder, h]
  exact if_neg (by simpa using hne)

theorem readAsListed_iff (hs : s ≠ []) (h : dnsAddressesIsValid C s = true) :
    ReadAsListed isIPv6 s ↔ ∀ o ∈ octetsOf s, ¬ BadOctal o := by
  have haccepts : (dnsAddressesPattern C).accepts s = true := by
    rw [dnsAddressesIsValid, List.isEmpty_eq_false_iff.mpr hs, Bool.false_or] at h
    exact h
  constructor
  · intro ⟨qs, hne, hjoined, hqs, hget, _⟩
    exact (getStaticDnsAddresses_eq_iff hjoined hne hqs).mp hget
  · intro hgood
    obtain ⟨qs, hne, hjoined, hqs⟩ := accepts_iff.mp haccepts
    have hget : getStaticDnsAddresses isIPv6 s = qs :=
      (getStaticDnsAddresses_eq_iff hjoined hne hqs).mpr hgood
    exact ⟨qs, hne, hjoined, hqs, hget, startDnsForwarder_static hget hne⟩

theorem isValid_of_joined (h : Joined s qs) (hq : ∀ q ∈ qs, IsQuad q) :
    dnsAddressesIsValid C s = true := by
  rw [dnsAddressesIsValid, Bool.or_eq_true]
  by_cases hne : qs = []
  · subst hne
    cases h with
    | nil => exact .inl rfl
  · exact .inr (accepts_iff.mpr ⟨qs, hne, h, hq⟩)

end Consumer

/-- **The validator and the consumer agree** on the accepted texts in which no part has a leading
zero and a digit that is not octal, and what is written without leading zeros is accepted. -/
theorem dnsAddresses_agree (C : WordCharacters) (isIPv6 : Text → Bool) :
    (∀ s, s ≠ [] → dnsAddressesIsValid C s = true →
      (ReadAsListed isIPv6 s ↔ ∀ o ∈ octetsOf s, ¬ BadOctal o)) ∧
    (∀ s qs, Joined s qs → (∀ q ∈ qs, IsCanonical q) → dnsAddressesIsValid C s = true) :=
  ⟨fun _ hs h => readAsListed_iff hs h, fun _ _ h hq => isValid_of_joined h fun q hmem =>
    (hq q hmem).1⟩

/-- The word characters of ASCII. -/
def asciiWordCharacters : WordCharacters where
  isWord c := (48 ≤ c.toNat ∧ c.toNat ≤ 57) ∨ (65 ≤ c.toNat ∧ c.toNat ≤ 90) ∨ c.toNat = 95 ∨
    (97 ≤ c.toNat ∧ c.toNat ≤ 122)
  digit c hlo hhi := decide_eq_true (.inl (isDigit_iff.mp ⟨hlo, hhi⟩))
  whiteSpace c h := by
    simp only [isWhiteSpace, List.mem_cons, List.not_mem_nil, or_false, decide_eq_true_eq] at h
    refine decide_eq_false ?_
    omega
  comma := by decide

theorem isCanonical_same {c : Char} (hc : IsDigit c) : IsCanonical [c, '.', c, '.', c, '.', c] := by
  have hdot : ¬ (c == '.') = true := fun h => absurd hc (eq_of_beq h ▸ by decide)
  refine ⟨⟨[c], [c], [c], [c], isOctet_one hc, isOctet_one hc, isOctet_one hc,
    isOctet_one hc, rfl⟩, ?_⟩
  simp [List.splitOn_cons_eq_if_modifyHead, hdot]

theorem dnsAddresses_agree_two :
    ReadAsListed (fun _ => false) "8.8.8.8 , 1.1.1.1".toList ∧
      dnsAddressesIsValid asciiWordCharacters "8.8.8.8 , 1.1.1.1".toList = true := by
  have hagree := dnsAddresses_agree asciiWordCharacters fun _ => false
  refine ⟨(hagree.1 "8.8.8.8 , 1.1.1.1".toList (by decide) (by decide)).mpr (by decide),
    hagree.2 _ ["8.8.8.8".toList, "1.1.1.1".toList] ?_ ?_⟩
  · have htext : "8.8.8.8 , 1.1.1.1".toList =
        "8.8.8.8".toList ++ [' '] ++ ',' :: [' '] ++ "1.1.1.1".toList := by decide
    rw [htext]
    have hspace : ∀ c ∈ [' '], isWhiteSpace c = true := List.forall_mem_singleton.mpr rfl
    exact .cons hspace hspace (List.cons_ne_nil _ _) (.single _)
  · intro q hq
    simp only [List.mem_cons, List.not_mem_nil, or_false] at hq
    rcases hq with rfl | rfl
    · exact isCanonical_same (c := '8') (by decide)
    · exact isCanonical_same (c := '1') (by decide)

/-- The validator accepts `1.2.3.08`, and the forwarder is not started with it. -/
theorem not_dnsAddresses_agree : ¬ ∀ s, s ≠ [] → dnsAddressesIsValid asciiWordCharacters s = true →
    ReadAsListed (fun _ => false) s := by
  intro h
  obtain ⟨qs, hne, -, -, hget, -⟩ := h "1.2.3.08".toList (by decide) (by decide)
  have hempty : getStaticDnsAddresses (fun _ => false) "1.2.3.08".toList = [] := by decide
  exact hne (hget.symm.trans hempty)

end ContainerDesktop.Configuration
