import ContainerDesktop.Services.Engine

/-!
# Whether the data distribution is ready

`InitializeDataDistro` polls the processes of the data distribution until it sees
`tail`, the last command of the script that initializes it, or until a timer has
run down.  Two things are in the way.  Every line overwrites the flag, so that only
the last line of a poll counts; and what is returned is whether the timer has run
down.  `reportsReadiness_iff` says when the two together are right.

A timer that can be looked at `n` times lets the polls `0, …, n - 1` begin.  All but
the last of them end before it has run down, and the last one may.
-/

namespace ContainerDesktop.Services

/-! ## One poll -/

/-- The request that is polled. -/
abbrev psCommand : Request := .executeCommand "ps -o comm" containerDesktopDataDistroName none

/-- `tailIsRunning` after the lines of one poll, delivered one by one. -/
def tailIsRunning (lines : List String) : Bool := lines.foldl (fun _ s => startsWithTail s) false

theorem foldl_overwrite {α β : Type} (f : α → β) (b : β) (l : List α) :
    l.foldl (fun _ a => f a) b = (l.getLast?.map f).getD b := by
  induction l generalizing b with
  | nil => rfl
  | cons a l ih =>
    rw [List.foldl_cons, ih]
    cases l with
    | nil => rfl
    | cons a' l => simp [List.getLast?_cons]

/-- Each line overwrites what the lines before it have said. -/
theorem tailIsRunning_eq (lines : List String) :
    tailIsRunning lines = (lines.getLast?.map startsWithTail).getD false :=
  foldl_overwrite startsWithTail false lines

theorem exists_line_of_tailIsRunning {lines : List String} (h : tailIsRunning lines = true) :
    ∃ line ∈ lines, startsWithTail line = true := by
  rw [tailIsRunning_eq] at h
  cases hlast : lines.getLast? with
  | none => simp [hlast] at h
  | some line => exact ⟨line, List.mem_of_getLast? hlast, by simpa [hlast] using h⟩

/-! ## All polls -/

section Polls

variable {W : World} {s : EngineState} {outputs : Nat → List String}

/-- The polls that follow on `s` end with an exit code and these lines. -/
def Polled (W : World) (s : EngineState) (outputs : Nat → List String) : Prop :=
  ∀ i, ∃ exitedWithZero, W.reply (s.requests.count psCommand + i) psCommand
    = .ok (exitedWithZero, outputs i)

theorem Polled.first (h : Polled W s outputs) :
    ∃ exitedWithZero s', ask W psCommand s = (.ok (exitedWithZero, outputs 0), s') ∧
      Polled W s' fun i => outputs (i + 1) := by
  obtain ⟨b, hb⟩ := h 0
  refine ⟨b, { s with requests := psCommand :: s.requests }, ?_, fun i => ?_⟩
  · show (W.reply (s.requests.count psCommand) psCommand, _) = _
    rw [← hb, Nat.add_zero]
  · obtain ⟨b', hb'⟩ := h (i + 1)
    refine ⟨b', ?_⟩
    show W.reply ((psCommand :: s.requests).count psCommand + i) psCommand = _
    rw [List.count_cons_self, Nat.add_assoc, Nat.add_comm 1 i]
    exact hb'

/-- What is returned: whether the timer has run down.  A poll ends the loop earlier when its
last line starts with `tail` and the timer can still be looked at twice. -/
theorem waitForDataDistroInitialization_run (n : Nat) (h : Polled W s outputs) :
    ∃ timedOut s', waitForDataDistroInitialization W n s = (.ok timedOut, s') ∧
      (timedOut = true ↔ ∀ i, i + 3 ≤ n → tailIsRunning (outputs i) = false) := by
  induction n generalizing s outputs with
  | zero => exact ⟨true, s, rfl, by simp⟩
  | succ n ih =>
    obtain ⟨b, s₁, hask, hrest⟩ := h.first
    rw [waitForDataDistroInitialization, Eff.bind_ok hask]
    simp only
    rw [← tailIsRunning_eq]
    cases htail : tailIsRunning (outputs 0) with
    | true =>
      refine ⟨decide (n ≤ 1), s₁, rfl, ?_⟩
      rw [decide_eq_true_iff]
      constructor
      · intro hn i hi
        omega
      · intro hall
        refine Nat.le_of_not_lt fun hn => ?_
        have hfirst := hall 0 (by omega)
        rw [htail] at hfirst
        exact nomatch hfirst
    | false =>
      obtain ⟨timedOut, s', hrun, hiff⟩ := ih hrest
      refine ⟨timedOut, s', hrun, hiff.trans ⟨fun hall i hi => ?_, fun hall i hi => ?_⟩⟩
      · cases i with
        | zero => exact htail
        | succ i => exact hall i (by omega)
      · exact hall (i + 1) (by omega)

theorem initializeDataDistro_run (h : Polled W s outputs) :
    ((initializeDataDistro W s).1 = .ok () ∧
        ∀ i, i + 3 ≤ W.dataDistroTimer s.sources → tailIsRunning (outputs i) = false) ∨
      ((initializeDataDistro W s).1
          = .error (.containerEngine "Could not initialize data distribution.") ∧
        ∃ i, i + 3 ≤ W.dataDistroTimer s.sources ∧ tailIsRunning (outputs i) = true) := by
  obtain ⟨timedOut, s', hrun, hiff⟩ :=
    waitForDataDistroInitialization_run (W.dataDistroTimer s.sources) h
  rw [initializeDataDistro, Eff.bind_ok (Eff.get_run s), Eff.bind_ok hrun]
  cases timedOut with
  | true => exact .inl ⟨rfl, hiff.mp rfl⟩
  | false =>
    refine .inr ⟨rfl, ?_⟩
    simpa using hiff

end Polls

/-! ## Ready -/

section Ready

variable {W : World} {s : EngineState} {outputs : Nat → List String} {n : Nat} {lastInTime : Bool}

/-- The poll `i` was completed before the timer ran down.  `lastInTime` says whether this holds
of the last one. -/
def Completed (n : Nat) (lastInTime : Bool) (i : Nat) : Prop :=
  i + 1 < n ∨ i + 1 = n ∧ lastInTime = true

/-- Some poll completed in time has printed a line that starts with `tail`. -/
def Ready (n : Nat) (lastInTime : Bool) (outputs : Nat → List String) : Prop :=
  ∃ i, Completed n lastInTime i ∧ ∃ line ∈ outputs i, startsWithTail line = true

theorem ready_of_tailIsRunning {i : Nat} (hi : i + 3 ≤ n) (h : tailIsRunning (outputs i) = true) :
    Ready n lastInTime outputs :=
  ⟨i, .inl (by omega), exists_line_of_tailIsRunning h⟩

/-- `InitializeDataDistro` returns when the distribution is ready and throws its exception when
it is not. -/
def ReportsReadiness (W : World) (s : EngineState) (lastInTime : Bool)
    (outputs : Nat → List String) : Prop :=
  ((initializeDataDistro W s).1 = .ok () ↔
      Ready (W.dataDistroTimer s.sources) lastInTime outputs) ∧
    ((∃ message, (initializeDataDistro W s).1 = .error (.containerEngine message)) ↔
      ¬ Ready (W.dataDistroTimer s.sources) lastInTime outputs)

/-- `InitializeDataDistro` reports readiness exactly when the distribution is ready and no poll
has shown it in its last line with time left. -/
theorem reportsReadiness_iff (W : World) (s : EngineState) (lastInTime : Bool)
    (outputs : Nat → List String) (h : Polled W s outputs) :
    ReportsReadiness W s lastInTime outputs ↔
      Ready (W.dataDistroTimer s.sources) lastInTime outputs ∧
        ¬ ∃ i, i + 3 ≤ W.dataDistroTimer s.sources ∧ tailIsRunning (outputs i) = true := by
  unfold ReportsReadiness
  rcases initializeDataDistro_run h with ⟨hok, hnone⟩ | ⟨herror, i, hi, htail⟩
  · rw [hok]
    have hno : ¬ ∃ i, i + 3 ≤ W.dataDistroTimer s.sources ∧ tailIsRunning (outputs i) = true := by
      intro ⟨i, hi, htail⟩
      rw [hnone i hi] at htail
      exact nomatch htail
    simp [hno]
  · rw [herror]
    have hready : Ready (W.dataDistroTimer s.sources) lastInTime outputs :=
      ready_of_tailIsRunning hi htail
    have hsome : ∃ i, i + 3 ≤ W.dataDistroTimer s.sources ∧ tailIsRunning (outputs i) = true :=
      ⟨i, hi, htail⟩
    simp [hready, hsome]

end Ready

/-- A calm world in which every poll prints these lines and the timer can be looked at `n`
times. -/
def polling (n : Nat) (lines : List String) : World :=
  { calm with
    reply := fun k r =>
      match r with
      | .executeCommand .. => .ok (true, lines)
      | r => calm.reply k r
    dataDistroTimer := fun _ => n }

theorem polling_polled (n : Nat) (lines : List String) (s : EngineState) :
    Polled (polling n lines) s fun _ => lines := fun _ => ⟨true, rfl⟩

theorem reportsReadiness_ps :
    Polled (polling 5 ["COMMAND", "tail", "ps"]) EngineState.init
        (fun _ => ["COMMAND", "tail", "ps"]) ∧
      ReportsReadiness (polling 5 ["COMMAND", "tail", "ps"]) EngineState.init true
        fun _ => ["COMMAND", "tail", "ps"] := by
  refine ⟨polling_polled _ _ _, (reportsReadiness_iff _ _ _ _ (polling_polled _ _ _)).mpr
    ⟨⟨0, .inl (by decide), "tail", by decide, by decide⟩, ?_⟩⟩
  intro ⟨i, hi, htail⟩
  exact absurd htail (by decide)

/-- A distribution that never ran `tail` is taken for ready. -/
theorem not_reportsReadiness :
    ¬ ∀ (W : World) (s : EngineState) (lastInTime : Bool) (outputs : Nat → List String),
      Polled W s outputs → ReportsReadiness W s lastInTime outputs := by
  intro h
  obtain ⟨hreturns, -⟩ := h (polling 5 ["COMMAND", "ps"]) EngineState.init true _
    (polling_polled _ _ _)
  obtain ⟨i, -, line, hline, htail⟩ := hreturns.mp rfl
  have hno : ∀ line ∈ ["COMMAND", "ps"], ¬ startsWithTail line = true := by decide
  exact hno line hline htail

end ContainerDesktop.Services
