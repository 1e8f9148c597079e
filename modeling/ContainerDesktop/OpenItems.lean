import Mathlib.Data.List.Nodup

/-!
# A list kept by opening and closing

A program keeps a list of what is open: an opening adds an item that is not
there, a closing removes the first occurrence of one.  As long as no item is
there twice, the list says which openings have no closing after them.

`OpenAfter` reads this off the history, last mark first; `mem_apply_iff` says that
the list keeps agreeing with it.
-/

/-- An opening or a closing. -/
inductive Mark (α : Type) where
  | opens (a : α)
  | closes (a : α)

namespace Mark

variable {α : Type}

/-- The item was opened and has not been closed since; the last mark comes first. -/
def OpenAfter (ms : List (Mark α)) (a : α) : Prop :=
  ∃ later earlier, ms = later ++ .opens a :: earlier ∧ .closes a ∉ later

theorem not_openAfter_nil (a : α) : ¬ OpenAfter [] a := by
  rintro ⟨later, earlier, h, -⟩
  exact absurd h (by simp)

theorem openAfter_cons {m : Mark α} {ms : List (Mark α)} {a : α} :
    OpenAfter (m :: ms) a ↔ m = .opens a ∨ m ≠ .closes a ∧ OpenAfter ms a := by
  refine ⟨fun ⟨later, earlier, h, hnot⟩ => ?_, fun h => ?_⟩
  · cases later with
    | nil => exact .inl (List.cons.inj h).1
    | cons m' later =>
      obtain ⟨rfl, hms⟩ := List.cons.inj h
      obtain ⟨hm, hlater⟩ := not_or.mp fun hor => hnot (List.mem_cons.mpr hor)
      exact .inr ⟨fun he => hm he.symm, later, earlier, hms, hlater⟩
  · obtain rfl | ⟨hm, later, earlier, rfl, hnot⟩ := h
    · exact ⟨[], ms, rfl, List.not_mem_nil⟩
    · refine ⟨m :: later, earlier, rfl, fun hmem => ?_⟩
      exact (List.mem_cons.mp hmem).elim (fun he => hm he.symm) hnot

variable [DecidableEq α]

/-- What a mark makes of the list. -/
def apply (l : List α) : Mark α → List α
  | .opens a => if a ∈ l then l else l ++ [a]
  | .closes a => l.erase a

theorem nodup_apply {l : List α} (h : l.Nodup) (m : Mark α) : (apply l m).Nodup := by
  cases m with
  | opens a =>
    rw [apply]
    split <;> rename_i ha
    · exact h
    · exact h.append (List.nodup_singleton a) (by simpa using ha)
  | closes a => exact h.erase a

theorem mem_apply_opens {l : List α} {a b : α} : b ∈ apply l (.opens a) ↔ b = a ∨ b ∈ l := by
  rw [apply]
  split <;> rename_i ha
  · exact ⟨.inr, fun h => h.elim (fun he => he ▸ ha) id⟩
  · rw [List.mem_append, List.mem_singleton]
    exact or_comm

theorem mem_apply_closes {l : List α} (h : l.Nodup) {a b : α} :
    b ∈ apply l (.closes a) ↔ b ≠ a ∧ b ∈ l := h.mem_erase_iff

/-- One mark changes the list as it changes what is open. -/
theorem mem_apply_iff {l : List α} {ms : List (Mark α)} (hl : l.Nodup)
    (h : ∀ a, a ∈ l ↔ OpenAfter ms a) (m : Mark α) (a : α) :
    a ∈ apply l m ↔ OpenAfter (m :: ms) a := by
  rw [openAfter_cons, ← h a]
  cases m with
  | opens b =>
    rw [mem_apply_opens]
    by_cases hab : a = b
    · simp [hab]
    · simp [hab, Ne.symm hab]
  | closes b =>
    rw [mem_apply_closes hl]
    by_cases hab : a = b
    · simp [hab]
    · simp [hab, Ne.symm hab]

theorem nodup_foldl {ms : List (Mark α)} : ∀ {l : List α}, l.Nodup → (ms.foldl apply l).Nodup := by
  induction ms with
  | nil => intro l h; exact h
  | cons m ms ih => intro l h; exact ih (nodup_apply h m)

end Mark
