import Mathlib.Data.List.Infix

/-!
# Histories

A run is kept as the list of what has happened, the last thing first.  What came
before an item is the rest of the list behind it, so a statement about every step
of a run is one about every suffix.
-/

/-- Every item stands in the relation `P` to what came before it. -/
def Throughout {α : Type} (P : List α → α → Prop) (history : List α) : Prop :=
  ∀ a before, a :: before <:+ history → P before a

section Throughout

variable {α : Type} {P Q : List α → α → Prop}

theorem throughout_nil : Throughout P [] :=
  fun _ _ h => absurd (List.suffix_nil.mp h) (List.cons_ne_nil _ _)

theorem throughout_cons {a : α} {history : List α} :
    Throughout P (a :: history) ↔ P history a ∧ Throughout P history := by
  refine ⟨fun h => ⟨h a history (List.suffix_refl _), fun b before hb => ?_⟩,
    fun ⟨ha, h⟩ b before hb => ?_⟩
  · exact h b before (hb.trans (List.suffix_cons _ _))
  · obtain hself | hb := List.suffix_cons_iff.mp hb
    · obtain ⟨rfl, rfl⟩ := List.cons.inj hself
      exact ha
    · exact h b before hb

end Throughout

/-! ## Runs of a step relation -/

/-- A step brings the end nearer, or something flows on that need not end. -/
inductive Pace where
  | works
  | flows

def Pace.isWork : Pace → Bool
  | works => true
  | flows => false

/-- The events of a run from `s`, the last one first.  Each takes one step and meets `P` in the
state before it. -/
inductive Runs {σ ε : Type} (Step : σ → ε → σ → Prop) (P : σ → ε → Prop) (s : σ) : List ε → σ → Prop
  | refl : Runs Step P s [] s
  | step {events : List ε} {e : ε} {t u : σ} (h : Runs Step P s events t) (hP : P t e)
    (hstep : Step t e u) : Runs Step P s (e :: events) u

section Runs

variable {σ ε : Type} {Step : σ → ε → σ → Prop} {P : σ → ε → Prop} {s t : σ} {events : List ε}

/-- What holds at the start and is kept by each step holds of every state reached, and of the events
that led to it. -/
theorem Runs.invariant {I : List ε → σ → Prop} (h : Runs Step P s events t) (hstart : I [] s)
    (hkeep : ∀ {events e t u}, I events t → P t e → Step t e u → I (e :: events) u) :
    I events t := by
  induction h with
  | refl => exact hstart
  | step _ hP hstep ih => exact hkeep ih hP hstep

/-- Steps that use up `work` are no more than there was at the start and the other steps have added,
which is no more than `gain` each. -/
theorem Runs.countP_le {I : σ → Prop} (h : Runs Step P s events t) (hs : I s) (isWork : ε → Bool)
    (work : σ → Nat) (gain : Nat) (hkeep : ∀ {e t u}, I t → P t e → Step t e u → I u)
    (hwork : ∀ {e t u}, I t → P t e → Step t e u →
      work u + (isWork e).toNat ≤ work t + gain * (!isWork e).toNat) :
    I t ∧ work t + events.countP isWork ≤ work s + gain * events.countP (!isWork ·) := by
  induction h with
  | refl => exact ⟨hs, Nat.le_refl _⟩
  | @step events e t u _ hP hstep ih =>
    obtain ⟨ht, hle⟩ := ih
    have hone := hwork ht hP hstep
    refine ⟨hkeep ht hP hstep, ?_⟩
    rw [List.countP_cons, List.countP_cons, Nat.mul_add]
    cases hisWork : isWork e with
    | true =>
      simp only [hisWork, Bool.toNat_true, Bool.toNat_false, Bool.not_true, if_true,
        Bool.false_eq_true, if_false, Nat.mul_zero] at hone ⊢
      omega
    | false =>
      simp only [hisWork, Bool.toNat_true, Bool.toNat_false, Bool.not_false, if_true,
        Bool.false_eq_true, if_false, Nat.mul_one] at hone ⊢
      omega

/-- Where each step of one kind uses up some work, a run can be continued until none of them is
left. -/
theorem Runs.exists_end {I : σ → Prop} {e : ε} (h : Runs Step P s events t) (ht : I t)
    (work : σ → Nat) (hkeep : ∀ {t u}, I t → P t e → Step t e u → I u)
    (hwork : ∀ {t u}, I t → P t e → Step t e u → work u < work t) :
    ∃ events u, Runs Step P s events u ∧ I u ∧ ∀ v, P u e → ¬ Step u e v := by
  generalize hn : work t = n
  induction n using Nat.strong_induction_on generalizing events t with
  | _ n ih =>
    by_cases hnext : ∃ u, P t e ∧ Step t e u
    · obtain ⟨u, hP, hstep⟩ := hnext
      exact ih (work u) (hn ▸ hwork ht hP hstep) (h.step hP hstep) (hkeep ht hP hstep) rfl
    · exact ⟨events, t, h, ht, fun v hP hstep => hnext ⟨v, hP, hstep⟩⟩

end Runs
