import Mathlib.Order.Defs.Unbundled

/-!
# Computations that keep their state when they throw

A program that changes its surroundings and throws does not undo what it has
done: `Eff σ ε α` takes a state, and answers a result or an exception together
with the state reached in either case.  `Eff.attempt`, `Eff.catching` and
`Eff.finalize` are the three ways a program goes on after an exception.

Two families of rules say what a composed computation does.  The `run` lemmas
compute: what `m >>= k` does from what `m` did.  The `Moves` lemmas bound: if
every part of a program moves the state inside a preorder `R`, so does the
whole, whatever throws.  `Keeps p` is the preorder "the observation `p` is
unchanged", and is how a frame condition is carried through a program.
-/

/-- A computation over the state `σ` that may throw an `ε`. -/
def Eff (σ ε α : Type) : Type := σ → Except ε α × σ

namespace Eff

variable {σ ε α β ι : Type}

instance : Monad (Eff σ ε) where
  pure a := fun s => (.ok a, s)
  bind m k := fun s =>
    match m s with
    | (.ok a, s') => k a s'
    | (.error e, s') => (.error e, s')

/-- The state now. -/
def get : Eff σ ε σ := fun s => (.ok s, s)

/-- Changes the state. -/
def modify (f : σ → σ) : Eff σ ε Unit := fun s => (.ok (), f s)

/-- Throws. -/
def throw (e : ε) : Eff σ ε α := fun s => (.error e, s)

/-- Answers what was computed already, throwing if that was an exception. -/
def ofExcept (r : Except ε α) : Eff σ ε α := fun s => (r, s)

/-- Runs a computation and hands on its exception as a value. -/
def attempt (m : Eff σ ε α) : Eff σ ε (Except ε α) := fun s => (.ok (m s).1, (m s).2)

/-- `try m catch e => h e`. -/
def catching (m : Eff σ ε α) (h : ε → Eff σ ε α) : Eff σ ε α := fun s =>
  match m s with
  | (.ok a, s') => (.ok a, s')
  | (.error e, s') => h e s'

/-- `try m finally fin`: an exception of `fin` replaces the outcome of `m`. -/
def finalize (m : Eff σ ε α) (fin : Eff σ ε Unit) : Eff σ ε α := fun s =>
  match fin (m s).2 with
  | (.ok (), s') => ((m s).1, s')
  | (.error e, s') => (.error e, s')

/-- `foreach`: the first exception ends the loop. -/
def forEach (f : ι → Eff σ ε Unit) : List ι → Eff σ ε Unit
  | [] => pure ()
  | x :: xs => do
      f x
      forEach f xs

/-! ## Running -/

@[simp] theorem pure_run (a : α) (s : σ) : (pure a : Eff σ ε α) s = (.ok a, s) := rfl

theorem bind_run (m : Eff σ ε α) (k : α → Eff σ ε β) (s : σ) :
    (m >>= k) s = match m s with
      | (.ok a, s') => k a s'
      | (.error e, s') => (.error e, s') := rfl

theorem bind_ok {m : Eff σ ε α} {k : α → Eff σ ε β} {s s' : σ} {a : α} (h : m s = (.ok a, s')) :
    (m >>= k) s = k a s' := by rw [bind_run, h]

theorem bind_error {m : Eff σ ε α} {k : α → Eff σ ε β} {s s' : σ} {e : ε}
    (h : m s = (.error e, s')) : (m >>= k) s = (.error e, s') := by rw [bind_run, h]

@[simp] theorem get_run (s : σ) : (get : Eff σ ε σ) s = (.ok s, s) := rfl

@[simp] theorem modify_run (f : σ → σ) (s : σ) : (modify f : Eff σ ε Unit) s = (.ok (), f s) := rfl

@[simp] theorem throw_run (e : ε) (s : σ) : (throw e : Eff σ ε α) s = (.error e, s) := rfl

@[simp] theorem attempt_run (m : Eff σ ε α) (s : σ) :
    attempt m s = (.ok (m s).1, (m s).2) := rfl

theorem catching_ok {m : Eff σ ε α} {h : ε → Eff σ ε α} {s s' : σ} {a : α}
    (hm : m s = (.ok a, s')) : catching m h s = (.ok a, s') := by rw [catching, hm]

theorem catching_error {m : Eff σ ε α} {h : ε → Eff σ ε α} {s s' : σ} {e : ε}
    (hm : m s = (.error e, s')) : catching m h s = h e s' := by rw [catching, hm]

theorem finalize_ok {m : Eff σ ε α} {fin : Eff σ ε Unit} {s s' : σ}
    (hf : fin (m s).2 = (.ok (), s')) : finalize m fin s = ((m s).1, s') := by rw [finalize, hf]

theorem forEach_cons (f : ι → Eff σ ε Unit) (x : ι) (xs : List ι) :
    forEach f (x :: xs) = f x >>= fun _ => forEach f xs := rfl

/-! ## Ending normally -/

/-- `m` does not throw. -/
def Ends (m : Eff σ ε α) (s : σ) : Prop := ∃ a, (m s).1 = .ok a

theorem ends_modify (f : σ → σ) (s : σ) : Ends (modify f : Eff σ ε Unit) s := ⟨(), rfl⟩

theorem seq_of_ends {m : Eff σ ε Unit} {k : Eff σ ε β} {s : σ} (h : Ends m s) :
    (m >>= fun _ => k) s = k (m s).2 := by
  obtain ⟨a, ha⟩ := h
  rw [bind_run]
  split <;> rename_i e
  · rw [e]
  · rw [e] at ha
    exact nomatch ha

/-- What follows a step that throws is not run. -/
theorem seq_of_not_ends {m : Eff σ ε Unit} {k : Eff σ ε β} {s : σ} (h : ¬ Ends m s) :
    ((m >>= fun _ => k) s).2 = (m s).2 ∧ ¬ Ends (m >>= fun _ => k) s := by
  unfold Ends
  rw [bind_run]
  split <;> rename_i e
  · exact absurd ⟨_, congrArg Prod.fst e⟩ h
  · rw [e]
    exact ⟨rfl, fun ⟨_, hb⟩ => nomatch hb⟩

theorem ends_seq {m : Eff σ ε Unit} {k : Eff σ ε β} {s : σ} :
    Ends (m >>= fun _ => k) s ↔ Ends m s ∧ Ends k (m s).2 := by
  by_cases h : Ends m s
  · rw [and_iff_right h]
    unfold Ends
    rw [seq_of_ends h]
  · exact iff_of_false (seq_of_not_ends h).2 fun hc => h hc.1

/-! ## Moving inside a preorder -/

/-- Whatever `m` ends with, the state has moved along `R`. -/
structure Moves (R : σ → σ → Prop) (m : Eff σ ε α) : Prop where
  run : ∀ s, R s (m s).2

theorem moves_attempt {R : σ → σ → Prop} {m : Eff σ ε α} (hm : Moves R m) : Moves R (attempt m) :=
  ⟨hm.run⟩

section Moves

variable {R : σ → σ → Prop} [IsPreorder σ R]

theorem moves_pure (a : α) : Moves R (pure a : Eff σ ε α) := ⟨refl_of R⟩

theorem moves_get : Moves R (get : Eff σ ε σ) := ⟨refl_of R⟩

theorem moves_throw (e : ε) : Moves R (throw e : Eff σ ε α) := ⟨refl_of R⟩

theorem moves_ofExcept (r : Except ε α) : Moves R (ofExcept r : Eff σ ε α) := ⟨refl_of R⟩

theorem moves_bind {m : Eff σ ε α} {k : α → Eff σ ε β} (hm : Moves R m)
    (hk : ∀ a, Moves R (k a)) : Moves R (m >>= k) := by
  constructor
  intro s
  have h := hm.run s
  rw [bind_run]
  split <;> rename_i e
  · rw [e] at h; exact trans_of R h ((hk _).run _)
  · rw [e] at h; exact h

theorem moves_catching {m : Eff σ ε α} {h : ε → Eff σ ε α} (hm : Moves R m)
    (hh : ∀ e, Moves R (h e)) : Moves R (catching m h) := by
  constructor
  intro s
  have hs := hm.run s
  rw [catching]
  split <;> rename_i e
  · rw [e] at hs; exact hs
  · rw [e] at hs; exact trans_of R hs ((hh _).run _)

theorem moves_finalize {m : Eff σ ε α} {fin : Eff σ ε Unit} (hm : Moves R m)
    (hf : Moves R fin) : Moves R (finalize m fin) := by
  constructor
  intro s
  have hs := hf.run (m s).2
  rw [finalize]
  split <;> rename_i e <;> rw [e] at hs <;> exact trans_of R (hm.run s) hs

theorem moves_forEach {f : ι → Eff σ ε Unit} : ∀ xs : List ι, (∀ x ∈ xs, Moves R (f x)) →
    Moves R (forEach f xs) := by
  intro xs
  induction xs with
  | nil => intro _; exact moves_pure ()
  | cons x xs ih =>
    intro h
    exact moves_bind (h x List.mem_cons_self) (fun _ => ih fun y hy =>
      h y (List.mem_cons_of_mem x hy))

end Moves

/-- The preorder "the observation `p` is the same". -/
def Same (p : σ → β) : σ → σ → Prop := fun s s' => p s' = p s

instance (p : σ → β) : IsPreorder σ (Same p) where
  refl _ := rfl
  trans _ _ _ h₁ h₂ := Eq.trans h₂ h₁

/-- `m` leaves the observation `p` as it was, also when it throws. -/
abbrev Keeps (p : σ → β) (m : Eff σ ε α) : Prop := Moves (Same p) m

theorem keeps_run {p : σ → β} {m : Eff σ ε α} (hm : Keeps p m) {s s' : σ} {o : Except ε α}
    (h : m s = (o, s')) : p s' = p s := by
  have hs := hm.run s
  rw [h] at hs
  exact hs

end Eff
