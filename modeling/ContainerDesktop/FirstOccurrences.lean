import Mathlib.Data.List.Basic

/-!
# First occurrences

`distinctBy` keeps of a list the items whose key does not occur before them, which
is what a set operation does that keeps the order.  `mem_distinctBy` describes the
items that are kept by their position, and `distinctBy_append` lets a chain of
unions be read as one.
-/

variable {α β γ : Type}

/-- The items with another key than all before them. -/
def distinctBy [DecidableEq β] (key : α → β) : List α → List α
  | [] => []
  | x :: xs => x :: (distinctBy key xs).filter fun y => key y ≠ key x

/-- The distinct items of one list followed by another. -/
def unionBy [DecidableEq β] (key : α → β) (xs ys : List α) : List α := distinctBy key (xs ++ ys)

/-- `x` occurs with no item of its key before it. -/
def IsFirst (key : α → β) (x : α) (xs : List α) : Prop :=
  ∃ pre post, xs = pre ++ x :: post ∧ ∀ y ∈ pre, key y ≠ key x

section First

variable {key : α → β} {x y : α} {xs : List α}

theorem IsFirst.mem (h : IsFirst key x xs) : x ∈ xs := by
  obtain ⟨pre, post, rfl, -⟩ := h
  simp

theorem not_isFirst_nil : ¬ IsFirst key x [] := fun h => List.not_mem_nil h.mem

theorem isFirst_cons : IsFirst key x (y :: xs) ↔ x = y ∨ key x ≠ key y ∧ IsFirst key x xs := by
  constructor
  · rintro ⟨pre, post, heq, hpre⟩
    cases pre with
    | nil => exact .inl (List.cons.inj heq).1.symm
    | cons z pre =>
      obtain ⟨rfl, rfl⟩ := List.cons.inj heq
      exact .inr ⟨(hpre _ List.mem_cons_self).symm, pre, post, rfl,
        fun w hw => hpre w (List.mem_cons_of_mem _ hw)⟩
  · rintro (rfl | ⟨hne, pre, post, rfl, hpre⟩)
    · exact ⟨[], xs, rfl, fun _ h => absurd h List.not_mem_nil⟩
    · refine ⟨y :: pre, post, rfl, fun w hw => ?_⟩
      rcases List.mem_cons.mp hw with rfl | hw
      · exact hne.symm
      · exact hpre w hw

theorem isFirst_map {f : γ → α} (hf : Function.Injective f) {z : γ} {zs : List γ} :
    IsFirst key (f z) (zs.map f) ↔ IsFirst (fun y => key (f y)) z zs := by
  induction zs with
  | nil => exact iff_of_false not_isFirst_nil not_isFirst_nil
  | cons y zs ih => rw [List.map_cons, isFirst_cons, isFirst_cons, ih, hf.eq_iff]

/-- Keys are compared, so another key that tells the same items apart will do. -/
theorem isFirst_congr {key' : α → γ} (h : ∀ a b, key a = key b ↔ key' a = key' b) :
    IsFirst key x xs ↔ IsFirst key' x xs := by
  simp only [IsFirst, ne_eq, h]

end First

section Distinct

variable [DecidableEq β] {key : α → β} {x : α} {xs : List α}

theorem mem_distinctBy : x ∈ distinctBy key xs ↔ IsFirst key x xs := by
  induction xs with
  | nil => exact iff_of_false List.not_mem_nil not_isFirst_nil
  | cons y xs ih =>
    rw [distinctBy, List.mem_cons, List.mem_filter, ih, isFirst_cons, decide_eq_true_iff, and_comm]

theorem distinctBy_filter (p : β → Bool) (xs : List α) :
    distinctBy key (xs.filter fun x => p (key x)) = (distinctBy key xs).filter fun x =>
      p (key x) := by
  induction xs with
  | nil => rfl
  | cons y xs ih =>
    rw [List.filter_cons, distinctBy, List.filter_cons]
    cases hp : p (key y) with
    | true =>
      simp only [if_true, distinctBy, ih, List.filter_filter, Bool.and_comm]
    | false =>
      simp only [Bool.false_eq_true, if_false, ih, List.filter_filter]
      -- what has the key of `y` is filtered out anyway
      refine List.filter_congr fun x _ => ?_
      by_cases hkey : key x = key y
      · simp [hkey, hp]
      · simp [hkey]

/-- Items that were dropped once would be dropped again. -/
theorem distinctBy_append (xs ys : List α) :
    distinctBy key (distinctBy key xs ++ ys) = distinctBy key (xs ++ ys) := by
  induction xs with
  | nil => rfl
  | cons x xs ih =>
    have hkeep (zs : List α) : (distinctBy key zs).filter (fun y => decide (key y ≠ key x))
        = distinctBy key (zs.filter fun y => decide (key y ≠ key x)) :=
      (distinctBy_filter (fun b => decide (b ≠ key x)) zs).symm
    simp only [List.cons_append, distinctBy]
    rw [← ih, hkeep (_ ++ ys), hkeep (distinctBy key xs ++ ys)]
    simp only [List.filter_append, List.filter_filter, Bool.and_self]

end Distinct
