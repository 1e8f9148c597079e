import Mathlib.Data.List.Basic

/-!
# Percent encoding

A byte that cannot stand for itself in a URL is written as `%` and two hexadecimal digits.
`keep` says which bytes stand for themselves.  Whatever it keeps but `%`, an escaped text is
read back: `unescape_escape`.  Texts that can be read are read one after the other:
`unescape_append`.
-/

namespace PercentEncoding

def percent : UInt8 := 37

def hexDigit (n : Nat) : UInt8 := if n < 10 then UInt8.ofNat (48 + n) else UInt8.ofNat (55 + n)

def hexValue (b : UInt8) : Option Nat :=
  if 48 ≤ b ∧ b ≤ 57 then some (b.toNat - 48)
  else if 65 ≤ b ∧ b ≤ 70 then some (b.toNat - 55)
  else if 97 ≤ b ∧ b ≤ 102 then some (b.toNat - 87)
  else none

def escapeByte (keep : UInt8 → Bool) (b : UInt8) : List UInt8 :=
  if keep b then [b] else [percent, hexDigit (b.toNat / 16), hexDigit (b.toNat % 16)]

def escape (keep : UInt8 → Bool) (s : List UInt8) : List UInt8 := s.flatMap (escapeByte keep)

/-- The byte of two digits. -/
def readHex (h l : UInt8) : Option UInt8 :=
  do return UInt8.ofNat (16 * (← hexValue h) + (← hexValue l))

def unescape : List UInt8 → Option (List UInt8)
  | [] => some []
  | b :: s =>
    if b = percent then
      match s with
      | h :: l :: s => do return (← readHex h l) :: (← unescape s)
      | _ => none
    else do return b :: (← unescape s)

section Reading

variable {keep : UInt8 → Bool} {b : UInt8} {s t x y : List UInt8}

@[simp] theorem escape_nil : escape keep [] = [] := rfl

theorem escape_cons : escape keep (b :: s) = escapeByte keep b ++ escape keep s := List.flatMap_cons

theorem escape_append : escape keep (s ++ t) = escape keep s ++ escape keep t := List.flatMap_append

@[simp] theorem unescape_nil : unescape [] = some [] := rfl

theorem unescape_hex {h l : UInt8} :
    unescape (percent :: h :: l :: s) = (do return (← readHex h l) :: (← unescape s)) := rfl

theorem unescape_cons (hb : b ≠ percent) : unescape (b :: s) = (unescape s).map (b :: ·) := by
  rw [unescape.eq_def]
  simp only [hb, if_false]
  cases unescape s <;> rfl

theorem hexValue_hexDigit : ∀ n : Fin 16, hexValue (hexDigit n) = some n.val := by decide

theorem readHex_hexDigit (b : UInt8) :
    readHex (hexDigit (b.toNat / 16)) (hexDigit (b.toNat % 16)) = some b := by
  have hlt : b.toNat < 256 := b.toNat_lt
  have hhigh := hexValue_hexDigit ⟨b.toNat / 16, by omega⟩
  have hlow := hexValue_hexDigit ⟨b.toNat % 16, by omega⟩
  have hsum : 16 * (b.toNat / 16) + b.toNat % 16 = b.toNat := by omega
  simp only [readHex, hhigh, hlow]
  show some (UInt8.ofNat (16 * (b.toNat / 16) + b.toNat % 16)) = some b
  rw [hsum, UInt8.ofNat_toNat]

/-- What is read off the front does not depend on what follows. -/
theorem unescape_append (h : unescape s = some x) :
    unescape (s ++ t) = (unescape t).map (x ++ ·) := by
  induction hn : s.length using Nat.strongRecOn generalizing s x with
  | ind n ih =>
    cases s with
    | nil =>
      cases h
      exact Option.map_id'.symm
    | cons b s =>
      subst hn
      by_cases hb : b = percent
      · subst hb
        match s, h, ih with
        | [], h, _ => exact nomatch h
        | [_], h, _ => exact nomatch h
        | c :: d :: s, h, ih =>
          rw [unescape_hex] at h
          show unescape (percent :: c :: d :: (s ++ t)) = _
          rw [unescape_hex]
          cases hhex : readHex c d with
          | none =>
            rw [hhex] at h
            exact nomatch h
          | some e =>
            cases hs : unescape s with
            | none =>
              rw [hhex, hs] at h
              exact nomatch h
            | some y =>
              rw [hhex, hs] at h
              cases h
              have hlength : s.length < (percent :: c :: d :: s).length := by
                simp only [List.length_cons]
                omega
              rw [ih s.length hlength hs rfl]
              cases unescape t <;> rfl
      · rw [unescape_cons hb] at h
        obtain ⟨y, hy, rfl⟩ := Option.map_eq_some_iff.mp h
        have hlength : s.length < (b :: s).length := by simp
        rw [List.cons_append, unescape_cons hb, ih s.length hlength hy rfl]
        cases unescape t <;> rfl

theorem unescape_append_some (hs : unescape s = some x) (ht : unescape t = some y) :
    unescape (s ++ t) = some (x ++ y) := by
  rw [unescape_append hs, ht]
  rfl

theorem unescape_escapeByte (hkeep : keep percent = false) (b : UInt8) :
    unescape (escapeByte keep b) = some [b] := by
  rw [escapeByte]
  split
  · rename_i hb
    have hne : b ≠ percent := by
      rintro rfl
      exact Bool.noConfusion (hkeep.symm.trans hb)
    rw [unescape_cons hne]
    rfl
  · rw [unescape_hex, readHex_hexDigit]
    rfl

/-- **What was escaped is read back.** -/
theorem unescape_escape (hkeep : keep percent = false) (s : List UInt8) :
    unescape (escape keep s) = some s := by
  induction s with
  | nil => rfl
  | cons b s ih =>
    rw [escape_cons, unescape_append_some (unescape_escapeByte hkeep b) ih, List.singleton_append]

end Reading

end PercentEncoding
