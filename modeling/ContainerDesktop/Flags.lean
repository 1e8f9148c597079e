import Mathlib.Algebra.GroupWithZero.Nat
import Mathlib.Data.List.Basic

/-!
# Command line flags

The flags of a Go program: `-name value`, `--name value` and `-name=value`, each defined as a
text or as an integer.  An integer is written in base ten, or in another one with a
prefix, of which a leading zero is one.

`parseInt_toDigits` is why numbers survive this: a number that is written in decimal has no
leading zero.  `parse_pairs` is about flags that come one by one with their values.
-/

namespace Flags

abbrev Text := List Char

/-! ## Integers -/

/-- The value of a digit in bases up to 36. -/
def digitOf (c : Char) : Option Nat :=
  if c.isDigit then some (c.toNat - 48)
  else if c.toLower.isLower then some (c.toLower.toNat - 87)
  else none

/-- One more digit.  Underscores are skipped, and 64 bits are enough. -/
def pushDigit (base n : Nat) (c : Char) : Option Nat :=
  if c = '_' then some n
  else (digitOf c).bind fun d => if d < base ∧ base * n + d < 2 ^ 64
    then some (base * n + d) else none

def digits (base : Nat) (s : Text) : Option Nat := s.foldlM (pushDigit base) 0

/-- The digits behind the prefix for a base, and the base. -/
def splitBase : Text → Nat × Text
  | '0' :: b :: c :: s =>
    if b.toLower = 'b' then (2, c :: s)
    else if b.toLower = 'o' then (8, c :: s)
    else if b.toLower = 'x' then (16, c :: s)
    else (8, b :: c :: s)
  | '0' :: s => (8, s)
  | s => (10, s)

/-- The loop of `underscoreOK`.  `saw` is `0` after a digit, `_` after an underscore, and something
else otherwise. -/
def scanUnderscores (hex : Bool) (saw : Char) : Text → Bool
  | [] => saw ≠ '_'
  | c :: s =>
    if c.isDigit || (hex && 'a' ≤ c.toLower && c.toLower ≤ 'f') then scanUnderscores hex '0' s
    else if c = '_' then saw == '0' && scanUnderscores hex '_' s
    else saw != '_' && scanUnderscores hex '!' s

/-- Underscores stand between digits, or behind a prefix. -/
def underscoreOK (s : Text) : Bool :=
  match s with
  | '0' :: b :: rest =>
    if ['b', 'o', 'x'].contains b.toLower then scanUnderscores (b.toLower == 'x') '0' rest
    else scanUnderscores false '^' s
  | _ => scanUnderscores false '^' s

/-- `strconv.ParseUint` with base 0 and 64 bits. -/
def parseUint (s : Text) : Option Nat :=
  if s = [] then none
  else if s.contains '_' && !underscoreOK s then none
  else digits (splitBase s).1 (splitBase s).2

/-- `strconv.ParseInt` with base 0 and 64 bits. -/
def parseInt (s : Text) : Option Int :=
  match s with
  | '-' :: s => (parseUint s).bind fun n => if n ≤ 2 ^ 63 then some (-(n : Int)) else none
  | '+' :: s => (parseUint s).bind fun n => if n < 2 ^ 63 then some (n : Int) else none
  | s => (parseUint s).bind fun n => if n < 2 ^ 63 then some (n : Int) else none

section Integers

theorem digitOf_digit {c : Char} (h : c.isDigit = true) : digitOf c = some (c.toNat - 48) :=
  if_pos h

theorem digits_append (base : Nat) (s t : Text) (n : Nat) :
    (s ++ t).foldlM (pushDigit base) n = (s.foldlM (pushDigit base) n).bind fun m =>
      t.foldlM (pushDigit base) m :=
  List.foldlM_append

/-- Decimal digits stand for the number that they are the digits of. -/
theorem digits_toDigits {n : Nat} (h : n < 2 ^ 64) : digits 10 (Nat.toDigits 10 n) = some n := by
  induction n using Nat.strongRecOn with
  | ind n ih =>
    have hpush : ∀ {m d : Nat}, d < 10 → 10 * m + d < 2 ^ 64 →
        pushDigit 10 m d.digitChar = some (10 * m + d) := by
      intro m d hd hm
      have hdigit : d.digitChar.isDigit = true := by rw [Nat.isDigit_digitChar, decide_eq_true hd]
      have hne : d.digitChar ≠ '_' := fun he => absurd (he ▸ hdigit) (by decide)
      rw [pushDigit, if_neg hne, digitOf_digit hdigit, Nat.toNat_digitChar_sub_48_of_lt_ten hd,
        Option.bind_some, if_pos ⟨hd, hm⟩]
    by_cases hn : n < 10
    · rw [Nat.toDigits_of_lt_base hn]
      show (pushDigit 10 0 n.digitChar).bind some = some n
      rw [hpush hn (by omega), Option.bind_some, Nat.mul_zero, Nat.zero_add]
    · have hdiv : n / 10 < n := Nat.div_lt_self (by omega) (by decide)
      have hmod : n % 10 < 10 := Nat.mod_lt n (by decide)
      rw [Nat.toDigits_of_base_le (by decide) (by omega), digits, digits_append]
      have hprior : (Nat.toDigits 10 (n / 10)).foldlM (pushDigit 10) 0 = some (n / 10) :=
        ih (n / 10) hdiv (by omega)
      rw [hprior, Option.bind_some]
      show (pushDigit 10 (n / 10) (n % 10).digitChar).bind some = some n
      rw [hpush hmod (by omega), Option.bind_some]
      exact congrArg some (by omega)

theorem toDigits_head {n : Nat} (hn : 0 < n) : (Nat.toDigits 10 n).head? ≠ some '0' := by
  induction n using Nat.strongRecOn with
  | ind n ih =>
    by_cases hlt : n < 10
    · rw [Nat.toDigits_of_lt_base hlt]
      intro he
      have hzero : n.digitChar = '0' := Option.some.inj he
      rw [Nat.digitChar_eq_zero] at hzero
      omega
    · rw [Nat.toDigits_of_base_le (by decide) (by omega),
        List.head?_append_of_ne_nil _ Nat.toDigits_ne_nil]
      exact ih (n / 10) (Nat.div_lt_self hn (by decide)) (by omega)

theorem isDigit_of_mem {n : Nat} {c : Char} (hc : c ∈ Nat.toDigits 10 n) : c.isDigit = true :=
  Nat.isDigit_of_mem_toDigits (by decide) (by decide) hc

/-- **A number is read back.** -/
theorem parseInt_toDigits {n : Nat} (h : n < 2 ^ 63) :
    parseInt (Nat.toDigits 10 n) = some (n : Int) := by
  have hnot : ∀ {c : Char}, c.isDigit = false → c ∉ Nat.toDigits 10 n := fun hc hmem =>
    absurd (hc.symm.trans (isDigit_of_mem hmem)) Bool.false_ne_true
  have hunderscore : (Nat.toDigits 10 n).contains '_' = false := by
    rw [List.contains_eq_mem, decide_eq_false_iff_not]
    exact hnot rfl
  have huint : parseUint (Nat.toDigits 10 n) = some n := by
    rw [parseUint, if_neg Nat.toDigits_ne_nil, hunderscore, Bool.false_and,
      if_neg Bool.false_ne_true]
    by_cases hzero : n = 0
    · subst hzero
      rfl
    · have hhead := toDigits_head (Nat.pos_of_ne_zero hzero)
      have hsplit : splitBase (Nat.toDigits 10 n) = (10, Nat.toDigits 10 n) := by
        cases hdigits : Nat.toDigits 10 n with
        | nil => rfl
        | cons c s =>
          rw [hdigits] at hhead
          have hc : c ≠ '0' := fun he => hhead (he ▸ rfl)
          unfold splitBase
          split
          · rename_i he
            exact absurd (List.cons.inj he).1 hc
          · rename_i he
            exact absurd (List.cons.inj he).1 hc
          · rfl
      rw [hsplit]
      exact digits_toDigits (by omega)
  unfold parseInt
  split
  · rename_i hdigits
    exact absurd (hdigits ▸ List.mem_cons_self) (hnot (c := '-') rfl)
  · rename_i hdigits
    exact absurd (hdigits ▸ List.mem_cons_self) (hnot (c := '+') rfl)
  · rw [huint, Option.bind_some, if_pos h]

end Integers

/-! ## Flags -/

inductive Kind where
  | text
  | int

inductive Value where
  | text (s : Text)
  | int (n : Int)
  deriving DecidableEq

inductive Error where
  | badSyntax (s : Text)
  | notDefined (name : Text)
  | help
  | needsArgument (name : Text)
  | invalidValue (value name : Text)
  deriving DecidableEq

/-- `Set` of a flag. -/
def Kind.read : Kind → Text → Option Value
  | text, s => some (.text s)
  | int, s => (parseInt s).map .int

/-- What an argument is for the parser. -/
inductive Argument where
  /-- No flag, and no flags come after it. -/
  | plain
  | terminator
  | bad
  | flag (name : Text) (value : Option Text)

/-- The name of a flag, and the value behind an equals sign. -/
def splitName (name : Text) : Argument :=
  match name with
  | [] | '-' :: _ | '=' :: _ => .bad
  | name =>
    match name.dropWhile (· ≠ '=') with
    | [] => .flag name none
    | _ :: value => .flag (name.takeWhile (· ≠ '=')) (some value)

def classify : Text → Argument
  | '-' :: '-' :: [] => .terminator
  | '-' :: '-' :: name => splitName name
  | '-' :: c :: name => splitName (c :: name)
  | _ => .plain

/-- `FlagSet.Parse`: the values that were set, in order, and the arguments behind the flags.  No
flag is boolean. -/
def parse (formal : Text → Option Kind) : List Text → Except Error (List (Text × Value) × List Text)
  | [] => .ok ([], [])
  | s :: args =>
    match classify s with
    | .plain => .ok ([], s :: args)
    | .terminator => .ok ([], args)
    | .bad => .error (.badSyntax s)
    | .flag name value =>
      match formal name with
      | none => .error (if name = "help".toList ∨ name = "h".toList then .help
        else .notDefined name)
      | some kind =>
        match value, args with
        | some v, args =>
          match kind.read v with
          | none => .error (.invalidValue v name)
          | some x => (parse formal args).map fun r => ((name, x) :: r.1, r.2)
        | none, [] => .error (.needsArgument name)
        | none, v :: args =>
          match kind.read v with
          | none => .error (.invalidValue v name)
          | some x => (parse formal args).map fun r => ((name, x) :: r.1, r.2)

/-- The value of a flag for text, which is the last one that was set. -/
def textOf (values : List (Text × Value)) (name default : Text) : Text :=
  match values.reverse.lookup name with
  | some (.text s) => s
  | _ => default

def intOf (values : List (Text × Value)) (name : Text) (default : Int) : Int :=
  match values.reverse.lookup name with
  | some (.int n) => n
  | _ => default

section Settings

variable {formal : Text → Option Kind} {name text : Text} {x : Value}

/-- The flag exists, and the text is a value of it. -/
def Sets (formal : Text → Option Kind) (name text : Text) (x : Value) : Prop :=
  classify ('-' :: name) = .flag name none ∧ (formal name).bind (Kind.read · text) = some x

theorem parse_cons (h : Sets formal name text x) (args : List Text) :
    parse formal (('-' :: name) :: text :: args) = (parse formal args).map fun r =>
      ((name, x) :: r.1, r.2) := by
  obtain ⟨hname, hvalue⟩ := h
  obtain ⟨kind, hkind, hread⟩ := Option.bind_eq_some_iff.mp hvalue
  rw [parse, hname]
  simp only [hkind, hread]

/-- Flags with their values, one after the other, are all read, whatever the values look like. -/
theorem parse_pairs (settings : List (Text × Text × Value))
    (h : ∀ s ∈ settings, Sets formal s.1 s.2.1 s.2.2) :
    parse formal (settings.flatMap fun s => ['-' :: s.1, s.2.1])
      = .ok (settings.map fun s => (s.1, s.2.2), []) := by
  induction settings with
  | nil => rfl
  | cons s settings ih =>
    rw [List.flatMap_cons, List.cons_append, List.cons_append, List.nil_append,
      parse_cons (h s List.mem_cons_self), ih fun t ht => h t (List.mem_cons_of_mem _ ht)]
    rfl

end Settings

end Flags
