import ContainerDesktop.CommandLine
import ContainerDesktop.Configuration.Validation

/-!
# Building command lines

`ArgumentBuilder` joins values with spaces, and puts quotes around those that are
added as quoted.  Inside of them it escapes quotes and nothing else, so a value in
which backslashes come before a quote, its own or the one behind it, is read as
something else.

`import_roundtrips_iff` says which values are read as they were added.
-/

namespace ContainerDesktop.Processes

open ContainerDesktop.Configuration (isWhiteSpace)
open CommandLine

/-! ## The builder -/

abbrev Text := List Char

/-- `string.IsNullOrWhiteSpace` -/
def isNullOrWhiteSpace : Option Text → Bool
  | none => true
  | some value => value.all isWhiteSpace

/-- `value.Replace("\"", "\\\"")` -/
def escape (value : Text) : Text := value.flatMap fun c => if c = '"' then ['\\', '"'] else [c]

/-- The value as it is added when `quoted` is set. -/
def enquote (value : Text) : Text := '"' :: escape value ++ ['"']

structure ArgumentBuilder where
  builder : Text

namespace ArgumentBuilder

def new (value : Option Text) : ArgumentBuilder := ⟨value.getD []⟩

def append (b : ArgumentBuilder) (text : Text) : ArgumentBuilder := ⟨b.builder ++ text⟩

/-- `Add(value, quoted)` -/
def add (b : ArgumentBuilder) (value : Option Text) (quoted : Bool := false) : ArgumentBuilder :=
  match value with
  | none => b
  | some v =>
    if isNullOrWhiteSpace value then b else b.append (' ' :: if quoted then enquote v else v)

/-- `Add(name, value, quoted)` -/
def addNamed (b : ArgumentBuilder) (name value : Option Text) (quoted : Bool := false) :
    ArgumentBuilder :=
  match name, value with
  | some n, some v =>
    if isNullOrWhiteSpace name || isNullOrWhiteSpace value then b
    else b.append (' ' :: n ++ ' ' :: if quoted then enquote v else v)
  | _, _ => b

/-- `AddKeyValues`, with the entries in the order of the dictionary. -/
def addKeyValues (b : ArgumentBuilder) (name : Option Text) (keyValues : List (Text × Text)) :
    ArgumentBuilder :=
  keyValues.foldl (fun b entry => b.addNamed name (some (entry.1 ++ '=' :: entry.2)) true) b

def build (b : ArgumentBuilder) : Text := b.builder

end ArgumentBuilder

/-- The arguments that `WslService.Import` starts `wsl.exe` with. -/
def importArgs (distributionName installLocation rootfsFileName : Option Text) : Text :=
  ((((((ArgumentBuilder.new none).add (some "--import".toList)).add distributionName).add
    installLocation true).add rootfsFileName true).addNamed (some "--version".toList)
    (some "2".toList)).build

/-- A builder to which every value was added as quoted. -/
def addAll (b : ArgumentBuilder) (values : List Text) : ArgumentBuilder :=
  values.foldl (fun b value => b.add (some value) true) b

/-! ## Quoted values on a command line -/

/-- After `n` backslashes, no backslash comes before a quote or before the end. -/
def SafeAfter : Nat → Text → Prop
  | n, [] => n = 0
  | n, c :: cs =>
    if c = '\\' then SafeAfter (n + 1) cs else if c = '"' then n = 0 ∧ SafeAfter 0 cs
      else SafeAfter 0 cs

/-- No backslash of the value comes directly before a quote or at its end. -/
def Safe (value : Text) : Prop := ¬ ['\\', '"'] <:+: value ∧ ¬ ['\\'] <:+ value

instance (value : Text) : Decidable (Safe value) :=
  inferInstanceAs (Decidable (¬ ['\\', '"'] <:+: value ∧ ¬ ['\\'] <:+ value))

section Quoted

variable {value cur rest : Text} {n : Nat}

@[simp] theorem escape_nil : escape [] = [] := rfl

theorem escape_quote (value : Text) : escape ('"' :: value) = '\\' :: '"' :: escape value := rfl

theorem escape_char {c : Char} (h : c ≠ '"') (value : Text) :
    escape (c :: value) = c :: escape value := by
  simp [escape, h]

theorem safe_cons {c : Char} :
    Safe (c :: value) ↔ (c = '\\' → value ≠ [] ∧ value.head? ≠ some '"') ∧ Safe value := by
  unfold Safe
  rw [List.infix_cons_iff, List.suffix_cons_iff, List.cons_prefix_cons, List.cons.injEq,
    eq_comm (a := '\\')]
  cases value with
  | nil => simp
  | cons d value =>
    rw [List.cons_prefix_cons]
    simp only [List.nil_prefix, and_true, List.head?_cons, Option.some.injEq, ne_eq, reduceCtorEq,
      not_false_eq_true, true_and, and_false, false_or]
    grind

theorem safeAfter_iff (n : Nat) (value : Text) :
    SafeAfter n value ↔ (n ≠ 0 → value ≠ [] ∧ value.head? ≠ some '"') ∧ Safe value := by
  induction value generalizing n with
  | nil => simp [SafeAfter, Safe]
  | cons c value ih =>
    rw [SafeAfter, safe_cons]
    by_cases hb : c = '\\'
    · subst hb
      rw [if_pos rfl, ih]
      simp
    · rw [if_neg hb]
      by_cases hq : c = '"'
      · subst hq
        rw [if_pos rfl, ih]
        simp
      · rw [if_neg hq, ih]
        simp [hb, hq]

/-- A safe value is read up to its closing quote. -/
theorem splitFrom_escape (h : SafeAfter n value) :
    splitFrom (some cur) true n (escape value ++ '"' :: rest)
      = splitFrom (some (cur ++ List.replicate n '\\' ++ value)) false 0 rest := by
  induction value generalizing n cur with
  | nil =>
    obtain rfl : n = 0 := h
    rw [escape_nil, List.nil_append, splitFrom_delimiter rfl]
    simp
  | cons c value ih =>
    rw [SafeAfter] at h
    by_cases hb : c = '\\'
    · rw [if_pos hb] at h
      subst hb
      rw [escape_char (by decide), List.cons_append, splitFrom_backslash, ih h]
      simp [List.replicate_succ', List.append_assoc]
    · rw [if_neg hb] at h
      by_cases hq : c = '"'
      · rw [if_pos hq] at h
        obtain ⟨rfl, h⟩ := h
        subst hq
        rw [escape_quote, List.cons_append, List.cons_append, splitFrom_backslash,
          splitFrom_literal (by decide), ih h]
        simp
      · rw [if_neg hq] at h
        rw [escape_char hq, List.cons_append, splitFrom_char hb hq (.inl rfl), ih h]
        simp

/-- A value keeps at most its weight, and all of it only when it is safe. -/
theorem decodedWeight_escape (n : Nat) (value rest : Text) :
    decodedWeight n (escape value ++ '"' :: rest) ≤ 2 * n + weight value + decodedWeight 0 rest ∧
      (2 * n + weight value + decodedWeight 0 rest ≤ decodedWeight n (escape value ++ '"' :: rest) →
        SafeAfter n value) := by
  induction value generalizing n with
  | nil =>
    rw [escape_nil, List.nil_append, decodedWeight_quote, weight_nil]
    exact ⟨by omega, fun h => show n = 0 by omega⟩
  | cons c value ih =>
    rw [SafeAfter, weight_cons, charWeight]
    by_cases hb : c = '\\'
    · subst hb
      rw [escape_char (by decide), List.cons_append, decodedWeight_backslash,
        if_pos rfl, if_pos rfl]
      obtain ⟨hle, hsafe⟩ := ih (n + 1)
      exact ⟨by omega, fun h => hsafe (by omega)⟩
    · rw [if_neg hb, if_neg hb]
      obtain ⟨hle, hsafe⟩ := ih 0
      by_cases hq : c = '"'
      · subst hq
        rw [escape_quote, List.cons_append, List.cons_append, decodedWeight_backslash,
          decodedWeight_quote, if_pos rfl, if_pos rfl]
        exact ⟨by omega, fun h => ⟨by omega, hsafe (by omega)⟩⟩
      · rw [escape_char hq, List.cons_append, decodedWeight_char hb hq, if_neg hq, if_neg hq]
        exact ⟨by omega, fun h => hsafe (by omega)⟩

end Quoted

/-! ## Whole command lines -/

/-- What one call adds: a value as it is, or a quoted one. -/
inductive Piece where
  | plain (text : Text)
  | quoted (value : Text)

namespace Piece

def text : Piece → Text
  | plain text => text
  | quoted value => value

def render : Piece → Text
  | plain text => text
  | quoted value => enquote value

/-- Nothing in a plain piece needs quotes. -/
def WellFormed : Piece → Prop
  | plain text => text ≠ [] ∧ ∀ c ∈ text, c ≠ ' ' ∧ c ≠ '\t' ∧ c ≠ '"' ∧ c ≠ '\\'
  | quoted _ => True

/-- The piece can be read back. -/
def IsSafe : Piece → Prop
  | plain _ => True
  | quoted value => Safe value

end Piece

/-- The text that is built for these pieces. -/
def line (pieces : List Piece) : Text := pieces.flatMap fun piece => ' ' :: piece.render

section Lines

variable {cur : Option Text} {n : Nat} {text rest : Text} {piece : Piece} {pieces : List Piece}

theorem Piece.wellFormed_plain (hne : text ≠ [])
    (h : text.all (fun c => c ≠ ' ' ∧ c ≠ '\t' ∧ c ≠ '"' ∧ c ≠ '\\') = true) :
    (Piece.plain text).WellFormed :=
  ⟨hne, by simpa only [List.all_eq_true, decide_eq_true_eq] using h⟩

theorem splitFrom_plain (h : ∀ c ∈ text, c ≠ ' ' ∧ c ≠ '\t' ∧ c ≠ '"' ∧ c ≠ '\\')
    (hne : text ≠ []) : splitFrom cur false 0 (text ++ rest) = splitFrom
      (some (cur.getD [] ++ text)) false 0 rest := by
  induction text generalizing cur with
  | nil => exact absurd rfl hne
  | cons c text ih =>
    obtain ⟨hspace, htab, hq, hb⟩ := h c List.mem_cons_self
    rw [List.cons_append, splitFrom_char hb hq (.inr ⟨hspace, htab⟩)]
    cases text with
    | nil => simp
    | cons d text =>
      rw [ih (fun x hx => h x (List.mem_cons_of_mem _ hx)) (List.cons_ne_nil _ _)]
      simp

theorem decodedWeight_plain (h : ∀ c ∈ text, c ≠ ' ' ∧ c ≠ '\t' ∧ c ≠ '"' ∧ c ≠ '\\') :
    decodedWeight 0 (text ++ rest) = weight text + decodedWeight 0 rest := by
  induction text with
  | nil => simp
  | cons c text ih =>
    obtain ⟨-, -, hq, hb⟩ := h c List.mem_cons_self
    rw [List.cons_append, decodedWeight_char hb hq, ih fun x hx => h x (List.mem_cons_of_mem _ hx),
      weight_cons, charWeight, if_neg hb, if_neg hq]
    omega

theorem splitFrom_render (hwell : piece.WellFormed) (hsafe : piece.IsSafe) :
    splitFrom none false 0 (piece.render ++ rest) = splitFrom (some piece.text) false 0 rest := by
  cases piece with
  | plain text => exact splitFrom_plain hwell.2 hwell.1
  | quoted value =>
    have hafter : SafeAfter 0 value := (safeAfter_iff 0 value).mpr ⟨fun h => absurd rfl h, hsafe⟩
    show splitFrom none false 0 ('"' :: (escape value ++ ['"']) ++ rest) = _
    rw [List.cons_append, List.append_assoc, splitFrom_delimiter rfl]
    exact splitFrom_escape hafter

/-- An argument ends where the line of the next ones begins. -/
theorem splitFrom_line (text : Text) (pieces : List Piece) :
    splitFrom (some text) false 0 (line pieces) = text :: splitFrom none false 0 (line pieces) := by
  cases pieces with
  | nil =>
    show splitFrom (some text) false 0 [] = text :: splitFrom none false 0 []
    rw [splitFrom_end (.inl (Option.some_ne_none _))]
    simp [splitFrom]
  | cons piece pieces =>
    rw [line, List.flatMap_cons, List.cons_append,
      splitFrom_end_space (.inl (Option.some_ne_none _)), splitFrom_space]
    simp

theorem split_line (hwell : ∀ piece ∈ pieces, piece.WellFormed)
    (hsafe : ∀ piece ∈ pieces, piece.IsSafe) : split (line pieces) = pieces.map Piece.text := by
  induction pieces with
  | nil => rfl
  | cons piece pieces ih =>
    rw [split, line, List.flatMap_cons, List.cons_append, splitFrom_space,
      splitFrom_render (hwell _ List.mem_cons_self) (hsafe _ List.mem_cons_self), ← line,
      splitFrom_line, List.map_cons, ← split,
      ih (fun x hx => hwell x (List.mem_cons_of_mem _ hx)) fun x hx =>
      hsafe x (List.mem_cons_of_mem _ hx)]

/-- A piece keeps at most its weight, and all of it only when it is safe. -/
theorem decodedWeight_render (rest : Text) (hwell : piece.WellFormed) :
    decodedWeight 0 (piece.render ++ rest) ≤ weight piece.text + decodedWeight 0 rest ∧
      (weight piece.text + decodedWeight 0 rest ≤ decodedWeight 0 (piece.render ++ rest) →
        piece.IsSafe) := by
  cases piece with
  | plain text =>
    rw [Piece.render, Piece.text, decodedWeight_plain hwell.2]
    exact ⟨Nat.le_refl _, fun _ => trivial⟩
  | quoted value =>
    obtain ⟨hle, hsafe⟩ := decodedWeight_escape 0 value rest
    have hrender : decodedWeight 0 ((Piece.quoted value).render ++ rest)
        = decodedWeight 0 (escape value ++ '"' :: rest) := by
      show decodedWeight 0 ('"' :: (escape value ++ ['"']) ++ rest) = _
      rw [List.cons_append, List.append_assoc, decodedWeight_quote, Nat.zero_add]
      rfl
    rw [hrender, Piece.text]
    exact ⟨by omega, fun h => ((safeAfter_iff 0 value).mp (hsafe (by omega))).2⟩

theorem decodedWeight_line (hwell : ∀ piece ∈ pieces, piece.WellFormed) :
    decodedWeight 0 (line pieces) ≤ weight (pieces.map Piece.text).flatten ∧
      (weight (pieces.map Piece.text).flatten ≤ decodedWeight 0 (line pieces) →
        ∀ piece ∈ pieces, piece.IsSafe) := by
  induction pieces with
  | nil => exact ⟨Nat.le_refl _, fun _ _ h => absurd h List.not_mem_nil⟩
  | cons piece pieces ih =>
    have hspace : decodedWeight 0 (line (piece :: pieces))
        = decodedWeight 0 (piece.render ++ line pieces) := by
      rw [line, List.flatMap_cons, List.cons_append, decodedWeight_char (by decide) (by decide),
        Nat.mul_zero, Nat.zero_add, ← line]
    obtain ⟨hle, hsafe⟩ := decodedWeight_render (line pieces) (hwell _ List.mem_cons_self)
    obtain ⟨hles, hsafes⟩ := ih fun x hx => hwell x (List.mem_cons_of_mem _ hx)
    rw [hspace, List.map_cons, List.flatten_cons, weight_append]
    refine ⟨by omega, fun h x hx => ?_⟩
    rcases List.mem_cons.mp hx with rfl | hx
    · exact hsafe (by omega)
    · exact hsafes (by omega) x hx

/-- A command line is read back exactly when its quoted values are safe. -/
theorem split_line_iff (hwell : ∀ piece ∈ pieces, piece.WellFormed) :
    split (line pieces) = pieces.map Piece.text ↔ ∀ piece ∈ pieces, piece.IsSafe := by
  constructor
  · intro h
    refine (decodedWeight_line hwell).2 ?_
    rw [← split_weight, h]
  · exact split_line hwell

end Lines

/-! ## What the builder is used for -/

section Built

variable {b : ArgumentBuilder} {value name : Text} {values : List Text}

theorem add_quoted (h : isNullOrWhiteSpace (some value) = false) :
    (b.add (some value) true).build = b.build ++ line [.quoted value] := by
  simp [ArgumentBuilder.add, ArgumentBuilder.append, ArgumentBuilder.build, line, Piece.render, h]

theorem add_plain (h : isNullOrWhiteSpace (some value) = false) :
    (b.add (some value)).build = b.build ++ line [.plain value] := by
  simp [ArgumentBuilder.add, ArgumentBuilder.append, ArgumentBuilder.build, line, Piece.render, h]

theorem addNamed_plain (hname : isNullOrWhiteSpace (some name) = false)
    (hvalue : isNullOrWhiteSpace (some value) = false) :
    (b.addNamed (some name) (some value)).build = b.build ++ line [.plain name, .plain value] := by
  simp [ArgumentBuilder.addNamed, ArgumentBuilder.append, ArgumentBuilder.build, line, Piece.render,
    hname, hvalue]

theorem addAll_build (h : ∀ value ∈ values, isNullOrWhiteSpace (some value) = false) :
    (addAll b values).build = b.build ++ line (values.map .quoted) := by
  induction values generalizing b with
  | nil => exact (List.append_nil _).symm
  | cons value values ih =>
    rw [addAll, List.foldl_cons, ← addAll, ih fun v hv => h v (List.mem_cons_of_mem _ hv),
      add_quoted (h value List.mem_cons_self), List.append_assoc, List.map_cons]
    simp [line]

theorem addNamed_quoted (hname : isNullOrWhiteSpace (some name) = false)
    (hvalue : isNullOrWhiteSpace (some value) = false) :
    (b.addNamed (some name) (some value) true).build = b.build ++ line
      [.plain name, .quoted value] := by
  simp [ArgumentBuilder.addNamed, ArgumentBuilder.append, ArgumentBuilder.build, line, Piece.render,
    hname, hvalue]

/-- An entry of a dictionary is never blank. -/
theorem addKeyValues_build (hname : isNullOrWhiteSpace (some name) = false)
    (keyValues : List (Text × Text)) : (b.addKeyValues (some name) keyValues).build
      = b.build ++ line (keyValues.flatMap fun e =>
        [.plain name, .quoted (e.1 ++ '=' :: e.2)]) := by
  induction keyValues generalizing b with
  | nil => exact (List.append_nil _).symm
  | cons e keyValues ih =>
    have hvalue : isNullOrWhiteSpace (some (e.1 ++ '=' :: e.2)) = false := by
      have hequals : isWhiteSpace '=' = false := by decide
      simp [isNullOrWhiteSpace, hequals]
    rw [ArgumentBuilder.addKeyValues, List.foldl_cons, ← ArgumentBuilder.addKeyValues, ih,
      addNamed_quoted hname hvalue, List.append_assoc, List.flatMap_cons]
    simp [line]

theorem importArgs_eq {distributionName installLocation rootfsFileName : Text}
    (hname : isNullOrWhiteSpace (some distributionName) = false)
    (hlocation : isNullOrWhiteSpace (some installLocation) = false)
    (hrootfs : isNullOrWhiteSpace (some rootfsFileName) = false) :
    importArgs (some distributionName) (some installLocation) (some rootfsFileName)
      = line [.plain "--import".toList, .plain distributionName, .quoted installLocation,
          .quoted rootfsFileName, .plain "--version".toList, .plain "2".toList] := by
  rw [importArgs, addNamed_plain (by decide) (by decide), add_quoted hrootfs, add_quoted hlocation,
    add_plain hname, add_plain (by decide)]
  simp [line, ArgumentBuilder.build, ArgumentBuilder.new]

/-- Quoted values are read back, by themselves and in the command line of `Import`, exactly when
none of them has a backslash directly before a quote or at its end. -/
theorem quoting_roundtrips_iff (values : List Text)
    (hvalues : ∀ value ∈ values, isNullOrWhiteSpace (some value) = false)
    (distributionName installLocation rootfsFileName : Text)
    (hname : (Piece.plain distributionName).WellFormed)
    (hblank : isNullOrWhiteSpace (some distributionName) = false)
    (hlocation : isNullOrWhiteSpace (some installLocation) = false)
    (hrootfs : isNullOrWhiteSpace (some rootfsFileName) = false) :
    (split (addAll (ArgumentBuilder.new none) values).build = values ↔
        ∀ value ∈ values, Safe value) ∧
      (split (importArgs (some distributionName) (some installLocation) (some rootfsFileName))
          = ["--import".toList, distributionName, installLocation, rootfsFileName,
              "--version".toList, "2".toList] ↔ Safe installLocation ∧ Safe rootfsFileName) := by
  constructor
  · have hwell : ∀ piece ∈ values.map Piece.quoted, piece.WellFormed := by
      intro piece hpiece
      obtain ⟨value, -, rfl⟩ := List.mem_map.mp hpiece
      trivial
    have hiff := split_line_iff hwell
    rw [List.map_map] at hiff
    rw [addAll_build hvalues]
    simpa [Function.comp_def, Piece.text, Piece.IsSafe, ArgumentBuilder.build, ArgumentBuilder.new]
      using hiff
  · rw [importArgs_eq hblank hlocation hrootfs]
    have hwell : ∀ piece ∈ [Piece.plain "--import".toList, .plain distributionName,
        .quoted installLocation, .quoted rootfsFileName, .plain "--version".toList,
        .plain "2".toList], piece.WellFormed := by
      simp only [List.forall_mem_cons, List.not_mem_nil, false_imp_iff, implies_true, and_true]
      exact ⟨Piece.wellFormed_plain (by decide) (by decide), hname, trivial, trivial,
        Piece.wellFormed_plain (by decide) (by decide),
        Piece.wellFormed_plain (by decide) (by decide)⟩
    have hiff := split_line_iff hwell
    simpa [Piece.text, Piece.IsSafe] using hiff

end Built

theorem quoting_roundtrips_names :
    (split (addAll (ArgumentBuilder.new none) ["a \"b\"".toList, "C:\\x y".toList]).build
        = ["a \"b\"".toList, "C:\\x y".toList] ↔
      ∀ value ∈ ["a \"b\"".toList, "C:\\x y".toList], Safe value) ∧
      (split (importArgs (some "container-desktop".toList) (some "C:\\data".toList)
          (some "C:\\rootfs.tar".toList))
        = ["--import".toList, "container-desktop".toList, "C:\\data".toList,
            "C:\\rootfs.tar".toList, "--version".toList, "2".toList] ↔
        Safe "C:\\data".toList ∧ Safe "C:\\rootfs.tar".toList) :=
  quoting_roundtrips_iff ["a \"b\"".toList, "C:\\x y".toList] (by decide)
    "container-desktop".toList "C:\\data".toList "C:\\rootfs.tar".toList
    (Piece.wellFormed_plain (by decide) (by decide)) (by decide) (by decide) (by decide)

/-- A directory with a backslash at its end swallows what follows. -/
theorem quoting_swallows :
    ¬ ∀ values : List Text, (∀ value ∈ values, isNullOrWhiteSpace (some value) = false) →
      split (addAll (ArgumentBuilder.new none) values).build = values := by
  intro h
  have hsplit := h ["C:\\dir\\".toList, "b".toList] (by decide)
  exact absurd hsplit (by decide)

end ContainerDesktop.Processes
