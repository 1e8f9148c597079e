import Mathlib.Algebra.GroupWithZero.Nat
import Mathlib.Data.List.Basic

/-!
# Splitting a command line

A Windows program splits its command line into arguments itself.  Spaces and tabs
separate, a quote delimits, and a run of backslashes means one thing before a quote
and another elsewhere: `2n` of them give `n` and leave the quote a delimiter,
`2n + 1` give `n` and make the quote a character, and before anything else they are
what they are.

`split_weight` counts what an encoder has to keep: a backslash weighs two and a
quote one, and whatever is inside or outside of quotes, the weight of the arguments
can be read off the command line.
-/

namespace CommandLine

/-- Reads the rest of a command line.  `cur` is the argument begun, if any, without the `n`
backslashes just read; `quoted` says whether a delimiter is open. -/
def splitFrom (cur : Option (List Char)) (quoted : Bool) (n : Nat) : List Char → List (List Char)
  | [] => if cur = none ∧ n = 0 then [] else [cur.getD [] ++ List.replicate n '\\']
  | c :: cs =>
    if c = '\\' then splitFrom cur quoted (n + 1) cs
    else if c = '"' then
      if n % 2 = 0 then splitFrom (some (cur.getD [] ++ List.replicate (n / 2) '\\')) (!quoted) 0 cs
      else splitFrom (some (cur.getD [] ++ List.replicate (n / 2) '\\' ++ ['"'])) quoted 0 cs
    else if (c = ' ' ∨ c = '\t') ∧ quoted = false then
      if cur = none ∧ n = 0 then splitFrom none false 0 cs
      else (cur.getD [] ++ List.replicate n '\\') :: splitFrom none false 0 cs
    else splitFrom (some (cur.getD [] ++ List.replicate n '\\' ++ [c])) quoted 0 cs

/-- The arguments on a command line. -/
def split (line : List Char) : List (List Char) := splitFrom none false 0 line

/-! ## Single steps -/

section Steps

variable {cur : Option (List Char)} {quoted : Bool} {n : Nat} {c : Char} {cs arg : List Char}

theorem splitFrom_nil : splitFrom cur quoted n [] =
    if cur = none ∧ n = 0 then [] else [cur.getD [] ++ List.replicate n '\\'] := rfl

theorem splitFrom_cons : splitFrom cur quoted n (c :: cs) =
    if c = '\\' then splitFrom cur quoted (n + 1) cs
    else if c = '"' then
      if n % 2 = 0 then splitFrom (some (cur.getD [] ++ List.replicate (n / 2) '\\')) (!quoted) 0 cs
      else splitFrom (some (cur.getD [] ++ List.replicate (n / 2) '\\' ++ ['"'])) quoted 0 cs
    else if (c = ' ' ∨ c = '\t') ∧ quoted = false then
      if cur = none ∧ n = 0 then splitFrom none false 0 cs
      else (cur.getD [] ++ List.replicate n '\\') :: splitFrom none false 0 cs
    else splitFrom (some (cur.getD [] ++ List.replicate n '\\' ++ [c])) quoted 0 cs := rfl

@[simp] theorem splitFrom_backslash :
    splitFrom cur quoted n ('\\' :: cs) = splitFrom cur quoted (n + 1) cs := by
  rw [splitFrom_cons, if_pos rfl]

theorem splitFrom_delimiter (h : n % 2 = 0) : splitFrom cur quoted n ('"' :: cs)
    = splitFrom (some (cur.getD [] ++ List.replicate (n / 2) '\\')) (!quoted) 0 cs := by
  rw [splitFrom_cons, if_neg (by decide), if_pos rfl, if_pos h]

theorem splitFrom_literal (h : ¬ n % 2 = 0) : splitFrom cur quoted n ('"' :: cs)
    = splitFrom (some (cur.getD [] ++ List.replicate (n / 2) '\\' ++ ['"'])) quoted 0 cs := by
  rw [splitFrom_cons, if_neg (by decide), if_pos rfl, if_neg h]

theorem splitFrom_char (hb : c ≠ '\\') (hq : c ≠ '"') (hs : quoted = true ∨ c ≠ ' ' ∧ c ≠ '\t') :
    splitFrom cur quoted n (c :: cs)
      = splitFrom (some (cur.getD [] ++ List.replicate n '\\' ++ [c])) quoted 0 cs := by
  have hno : ¬ ((c = ' ' ∨ c = '\t') ∧ quoted = false) := by
    rintro ⟨hc, rfl⟩
    simp_all
  rw [splitFrom_cons, if_neg hb, if_neg hq, if_neg hno]

/-- A space between two arguments. -/
theorem splitFrom_space : splitFrom none false 0 (' ' :: cs) = splitFrom none false 0 cs := by
  simp [splitFrom_cons]

/-- A space after an argument. -/
theorem splitFrom_end_space (h : cur ≠ none ∨ n ≠ 0) : splitFrom cur false n (' ' :: cs)
    = (cur.getD [] ++ List.replicate n '\\') :: splitFrom none false 0 cs := by
  have hno : ¬ (cur = none ∧ n = 0) := fun hc => h.elim (· hc.1) (· hc.2)
  simp [splitFrom_cons, hno]

theorem splitFrom_end (h : cur ≠ none ∨ n ≠ 0) :
    splitFrom cur false n [] = [cur.getD [] ++ List.replicate n '\\'] := by
  rw [splitFrom_nil, if_neg fun hc => h.elim (· hc.1) (· hc.2)]

end Steps

/-! ## Weights -/

/-- What a character weighs. -/
def charWeight (c : Char) : Nat := if c = '\\' then 2 else if c = '"' then 1 else 0

def weight (text : List Char) : Nat := (text.map charWeight).sum

/-- The weight of what is read from the rest of a command line after `n` backslashes. -/
def decodedWeight (n : Nat) : List Char → Nat
  | [] => 2 * n
  | c :: cs =>
    if c = '\\' then decodedWeight (n + 1) cs
    else if c = '"' then n + decodedWeight 0 cs
    else 2 * n + decodedWeight 0 cs

section Weights

@[simp] theorem weight_nil : weight [] = 0 := rfl

@[simp] theorem weight_cons (c : Char) (text : List Char) :
    weight (c :: text) = charWeight c + weight text := List.sum_cons

@[simp] theorem weight_append (a b : List Char) : weight (a ++ b) = weight a + weight b := by
  simp [weight]

@[simp] theorem weight_replicate (n : Nat) : weight (List.replicate n '\\') = 2 * n := by
  simp [weight, charWeight]
  omega

theorem decodedWeight_cons (n : Nat) (c : Char) (cs : List Char) : decodedWeight n (c :: cs) =
    if c = '\\' then decodedWeight (n + 1) cs
    else if c = '"' then n + decodedWeight 0 cs
    else 2 * n + decodedWeight 0 cs := rfl

@[simp] theorem decodedWeight_backslash (n : Nat) (cs : List Char) :
    decodedWeight n ('\\' :: cs) = decodedWeight (n + 1) cs := by
  rw [decodedWeight_cons, if_pos rfl]

@[simp] theorem decodedWeight_quote (n : Nat) (cs : List Char) :
    decodedWeight n ('"' :: cs) = n + decodedWeight 0 cs := by
  rw [decodedWeight_cons, if_neg (by decide), if_pos rfl]

theorem decodedWeight_char {c : Char} (hb : c ≠ '\\') (hq : c ≠ '"') (n : Nat) (cs : List Char) :
    decodedWeight n (c :: cs) = 2 * n + decodedWeight 0 cs := by
  rw [decodedWeight_cons, if_neg hb, if_neg hq]

/-- The weight of the arguments does not depend on what is inside quotes. -/
theorem splitFrom_weight (cs : List Char) : ∀ (cur : Option (List Char)) (quoted : Bool) (n : Nat),
    weight (splitFrom cur quoted n cs).flatten = weight (cur.getD []) + decodedWeight n cs := by
  induction cs with
  | nil =>
    intro cur quoted n
    rw [splitFrom_nil]
    split
    · rename_i h
      simp [h.1, h.2, decodedWeight]
    · simp [decodedWeight]
  | cons c cs ih =>
    intro cur quoted n
    rw [splitFrom_cons, decodedWeight_cons]
    by_cases hb : c = '\\'
    · rw [if_pos hb, if_pos hb, ih]
    · rw [if_neg hb, if_neg hb]
      by_cases hq : c = '"'
      · rw [if_pos hq, if_pos hq]
        split
        · rw [ih]
          simp only [Option.getD_some, weight_append, weight_replicate]
          omega
        · rw [ih]
          simp only [Option.getD_some, weight_append, weight_replicate, weight_cons, weight_nil]
          have hquote : charWeight '"' = 1 := rfl
          omega
      · rw [if_neg hq, if_neg hq]
        have hplain : charWeight c = 0 := by rw [charWeight, if_neg hb, if_neg hq]
        split
        · split
          · rename_i h
            rw [ih, h.1, h.2]
            simp
          · rw [List.flatten_cons, weight_append, ih]
            simp only [weight_append, weight_replicate, Option.getD_none, weight_nil]
            omega
        · rw [ih]
          simp only [Option.getD_some, weight_append, weight_replicate, weight_cons,
            weight_nil, hplain]
          omega

theorem split_weight (line : List Char) : weight (split line).flatten = decodedWeight 0 line := by
  rw [split, splitFrom_weight, Option.getD_none, weight_nil, Nat.zero_add]

end Weights

end CommandLine
