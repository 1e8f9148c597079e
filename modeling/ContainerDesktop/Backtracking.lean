import Mathlib.Data.List.Basic
import ContainerDesktop.Regex

/-!
# Backtracking

A backtracking matcher tries the ways to match in an order: the left alternative
before the right one, an option or one more round of a star before going on without.
`outcomes` lists where all ways end, in this order, so the match that is found is the
first of the list (`First`).

A way to match is one of the regular expression without its word boundaries
(`matches_of_mem_outcomes`).  In the other direction the order matters: each `First`
rule says why nothing before the way in question leads anywhere.
-/

/-- Patterns of a backtracking matcher.  Options and stars are greedy. -/
inductive Pattern (α : Type) where
  | char (p : α → Bool)
  | seq (r q : Pattern α)
  | alt (r q : Pattern α)
  | opt (r : Pattern α)
  | star (r : Pattern α)
  /-- `\b`, for these word characters. -/
  | boundary (word : α → Bool)

/-- The character before, and what is left. -/
abbrev Position (α : Type) := Option α × List α

namespace Pattern

variable {α : Type}

/-- At most `fuel` rounds of `f`, each leaving less than it was given, the most rounds first. -/
def greedy (f : Position α → List (Position α)) : Nat → Position α → List (Position α)
  | 0, s => [s]
  | n + 1, s => ((f s).filter fun t => t.2.length < s.2.length).flatMap (greedy f n) ++ [s]

/-- Where the ways to match end, in the order in which they are tried. -/
def outcomes : Pattern α → Position α → List (Position α)
  | char _, (_, []) => []
  | char p, (_, a :: s) => if p a then [(some a, s)] else []
  | seq r q, s => (outcomes r s).flatMap (outcomes q)
  | alt r q, s => outcomes r s ++ outcomes q s
  | opt r, s => outcomes r s ++ [s]
  | star r, s => greedy (outcomes r) s.2.length s
  | boundary word, s => if (s.1.any word) != (s.2.head?.any word) then [s] else []

section Equations

variable (r q : Pattern α) (p word : α → Bool) (s : Position α) (b : Option α) (a : α) (w : List α)
  (f : Position α → List (Position α)) (n : Nat)

theorem greedy_succ : greedy f (n + 1) s =
    ((f s).filter fun t => t.2.length < s.2.length).flatMap (greedy f n) ++ [s] := rfl

theorem outcomes_char_cons :
    outcomes (char p) (b, a :: w) = if p a then [(some a, w)] else [] := rfl

theorem outcomes_seq : outcomes (seq r q) s = (outcomes r s).flatMap (outcomes q) := rfl

theorem outcomes_alt : outcomes (alt r q) s = outcomes r s ++ outcomes q s := rfl

theorem outcomes_opt : outcomes (opt r) s = outcomes r s ++ [s] := rfl

theorem outcomes_star : outcomes (star r) s = greedy (outcomes r) s.2.length s := rfl

theorem outcomes_boundary : outcomes (boundary word) s =
    if (s.1.any word) != (s.2.head?.any word) then [s] else [] := rfl

end Equations

/-- The match that is found at the beginning of the text is all of it. -/
def accepts (r : Pattern α) (s : List α) : Bool :=
  match (outcomes r (none, s)).head? with
  | some (_, []) => true
  | _ => false

/-- Without the word boundaries. -/
def toRegex : Pattern α → Regex α
  | char p => .char p
  | seq r q => .seq r.toRegex q.toRegex
  | alt r q => .alt r.toRegex q.toRegex
  | opt r => .opt r.toRegex
  | star r => .star r.toRegex
  | boundary _ => .eps

/-! ## Every way is a match -/

theorem mem_greedy {r : Regex α} {f : Position α → List (Position α)}
    (hf : ∀ s t, t ∈ f s → r.Matches s.2 t.2) :
    ∀ {n : Nat} {s t : Position α}, t ∈ greedy f n s → r.star.Matches s.2 t.2 := by
  intro n
  induction n with
  | zero =>
    intro s t ht
    obtain rfl := List.mem_singleton.mp ht
    exact .starNil
  | succ n ih =>
    intro s t ht
    rcases List.mem_append.mp ht with ht | ht
    · obtain ⟨u, hu, ht⟩ := List.mem_flatMap.mp ht
      exact .starCons (hf s u (List.mem_filter.mp hu).1) (ih ht)
    · obtain rfl := List.mem_singleton.mp ht
      exact .starNil

theorem matches_of_mem_outcomes : ∀ {r : Pattern α} {s t : Position α}, t ∈ outcomes r s →
    r.toRegex.Matches s.2 t.2 := by
  intro r
  induction r with
  | char p =>
    rintro ⟨b, s⟩ t ht
    cases s with
    | nil => exact absurd ht List.not_mem_nil
    | cons a s =>
      rw [outcomes_char_cons] at ht
      split at ht
      · rename_i hp
        obtain rfl := List.mem_singleton.mp ht
        exact .char hp
      · exact absurd ht List.not_mem_nil
  | seq r q ihr ihq =>
    intro s t ht
    obtain ⟨u, hu, ht⟩ := List.mem_flatMap.mp ht
    exact .seq (ihr hu) (ihq ht)
  | alt r q ihr ihq =>
    intro s t ht
    rcases List.mem_append.mp ht with ht | ht
    · exact .altLeft (ihr ht)
    · exact .altRight (ihq ht)
  | opt r ih =>
    intro s t ht
    rcases List.mem_append.mp ht with ht | ht
    · exact .altLeft (ih ht)
    · obtain rfl := List.mem_singleton.mp ht
      exact .altRight .eps
  | star r ih =>
    intro s t ht
    exact mem_greedy (fun _ _ => ih) ht
  | boundary word =>
    intro s t ht
    rw [outcomes_boundary] at ht
    split at ht
    · obtain rfl := List.mem_singleton.mp ht
      exact .eps
    · exact absurd ht List.not_mem_nil

/-- What is accepted is matched as a whole. -/
theorem matches_of_accepts {r : Pattern α} {s : List α} (h : accepts r s = true) :
    r.toRegex.Matches s [] := by
  unfold accepts at h
  split at h
  · rename_i b hhead
    exact matches_of_mem_outcomes (List.mem_of_head? hhead)
  · exact nomatch h

/-! ## The first way -/

/-- The first way to match ends there. -/
def First (r : Pattern α) (s t : Position α) : Prop := (outcomes r s).head? = some t

/-- There is no way to match. -/
def Fails (r : Pattern α) (s : Position α) : Prop := outcomes r s = []

section Rules

variable {r q : Pattern α} {p : α → Bool} {word : α → Bool} {s t u : Position α} {a : α}
  {b : Option α} {w : List α}

theorem accepts_of_first (h : First r (none, w) (b, [])) : accepts r w = true := by
  rw [accepts, h]

theorem first_char (h : p a = true) : First (char p) (b, a :: w) (some a, w) := by
  rw [First, outcomes_char_cons, if_pos h]
  rfl

theorem fails_char (h : ∀ a ∈ w.head?, p a = false) : Fails (char p) (b, w) := by
  cases w with
  | nil => rfl
  | cons a w =>
    rw [Fails, outcomes_char_cons, if_neg]
    simp [h a rfl]

theorem Fails.seq (h : Fails r s) (q : Pattern α) : Fails (seq r q) s := by
  rw [Fails, outcomes_seq, h, List.flatMap_nil]

/-- The ways of `r` before the one to `t` lead nowhere. -/
theorem first_seq_of {pre post : List (Position α)} (h : outcomes r s = pre ++ t :: post)
    (hpre : ∀ x ∈ pre, Fails q x) (hq : First q t u) : First (seq r q) s u := by
  have hnone : pre.flatMap (outcomes q) = [] := List.flatMap_eq_nil_iff.mpr hpre
  rw [First, outcomes_seq, h, List.flatMap_append, hnone, List.nil_append, List.flatMap_cons,
    List.head?_append, hq]
  rfl

theorem First.seq (hr : First r s t) (hq : First q t u) : First (seq r q) s u := by
  obtain ⟨post, hpost⟩ := List.head?_eq_some_iff.mp hr
  exact first_seq_of (show outcomes r s = [] ++ t :: post from hpost)
    (fun _ h => absurd h List.not_mem_nil) hq

/-- All of the one way of `r` to match fails afterwards. -/
theorem fails_seq_of (h : outcomes r s = [t]) (hq : Fails q t) : Fails (.seq r q) s := by
  rw [Fails, outcomes_seq, h, List.flatMap_singleton, hq]

theorem First.altLeft (h : First r s t) (q : Pattern α) : First (alt r q) s t := by
  rw [First, outcomes_alt, List.head?_append, h]
  rfl

theorem First.altRight (h : First q s t) (hr : Fails r s) : First (alt r q) s t := by
  rw [First, outcomes_alt, hr, List.nil_append, h]

theorem First.opt (h : First r s t) : First (opt r) s t := by
  rw [First, outcomes_opt, List.head?_append, h]
  rfl

theorem first_opt_of_fails (h : Fails r s) : First (opt r) s s := by
  rw [First, outcomes_opt, h]
  rfl

theorem first_boundary (h : (b.any word) ≠ (w.head?.any word)) :
    First (boundary word) (b, w) (b, w) := by
  rw [First, outcomes_boundary, if_pos (by simpa using h)]
  rfl

theorem shorter_nil {l : List (Position α)} (h : s.2.length = 0) :
    l.filter (fun t => decide (t.2.length < s.2.length)) = [] :=
  List.filter_eq_nil_iff.mpr fun t _ hlt => by
    have hlt : t.2.length < s.2.length := of_decide_eq_true hlt
    omega

/-- More fuel than characters changes nothing. -/
theorem greedy_eq (f : Position α → List (Position α)) : ∀ {n m : Nat} {s : Position α},
    s.2.length ≤ n → s.2.length ≤ m → greedy f n s = greedy f m s := by
  intro n
  induction n with
  | zero =>
    intro m s hn hm
    cases m with
    | zero => rfl
    | succ m =>
      rw [greedy_succ, shorter_nil (by omega), List.flatMap_nil, List.nil_append]
      rfl
  | succ n ih =>
    intro m s hn hm
    cases m with
    | zero =>
      rw [greedy_succ, shorter_nil (by omega), List.flatMap_nil, List.nil_append]
      rfl
    | succ m =>
      rw [greedy_succ, greedy_succ, List.flatMap_congr fun t ht => ?_]
      have hlt : t.2.length < s.2.length := of_decide_eq_true (List.mem_filter.mp ht).2
      exact ih (by omega) (by omega)

theorem first_star_stop (h : Fails r s) : First (star r) s s := by
  rw [First, outcomes_star]
  cases s.2.length with
  | zero => rfl
  | succ n =>
    rw [greedy_succ, h, List.filter_nil, List.flatMap_nil]
    rfl

theorem First.star (h : First r s t) (hlt : t.2.length < s.2.length) (hstar : First (star r) t u) :
    First (star r) s u := by
  obtain ⟨n, hn⟩ : ∃ n, s.2.length = n + 1 := ⟨s.2.length - 1, by omega⟩
  obtain ⟨post, hpost⟩ := List.head?_eq_some_iff.mp h
  rw [First, outcomes_star] at hstar ⊢
  rw [hn, greedy_succ, hpost, List.filter_cons_of_pos (by simpa using hlt), List.flatMap_cons,
    List.append_assoc, List.head?_append, greedy_eq (outcomes r) (show t.2.length ≤ n by omega)
    (Nat.le_refl _), hstar]
  rfl

end Rules

/-! ## Runs of characters -/

/-- The character before what follows `w`. -/
def after (b : Option α) (w : List α) : Option α := w.foldl (fun _ a => some a) b

@[simp] theorem after_nil (b : Option α) : after b [] = b := rfl

@[simp] theorem after_cons (b : Option α) (a : α) (w : List α) :
    after b (a :: w) = after (some a) w := rfl

@[simp] theorem after_append (b : Option α) (v w : List α) :
    after b (v ++ w) = after (after b v) w :=
  List.foldl_append

/-- A star of a character takes all of these that there are. -/
theorem first_star_char {p : α → Bool} {w rest : List α} (hw : ∀ a ∈ w, p a = true)
    (hrest : ∀ a ∈ rest.head?, p a = false) (b : Option α) :
    First (star (char p)) (b, w ++ rest) (after b w, rest) := by
  induction w generalizing b with
  | nil => exact first_star_stop (fails_char hrest)
  | cons a w ih =>
    refine (first_char (hw a List.mem_cons_self)).star ?_
      (ih (fun x hx => hw x (List.mem_cons_of_mem _ hx)) _)
    simp

end Pattern
