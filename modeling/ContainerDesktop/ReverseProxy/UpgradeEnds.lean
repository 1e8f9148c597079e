import ContainerDesktop.ReverseProxy.Upgrade

/-!
# The end of an upgraded connection

`handleUpgradeResponse` returns after the first error or the second report, and the copiers
report on a channel for one report.  So the copier that comes last may find nobody who
receives, but then it finds the channel empty: `upgrade_ends` says that no copier waits to
report for good, that the four goroutines have few steps of their own, and that both
connections are closed when there are none left.
-/

namespace ContainerDesktop.ReverseProxy

/-- What is left for the function. -/
def Stage.left : Stage → Nat
  | .first => 4
  | .second => 3
  | .received _ => 2
  | .connClosed => 1
  | .returned => 0

namespace Upgrade

variable {can : Side → HalfCloses} {s t u : Upgrade} {p : Pace} {events after : List Pace}

/-- The steps of an upgraded connection, without those that do nothing. -/
inductive Goes (can : Side → HalfCloses) (s : Upgrade) : Pace → Upgrade → Prop
  | flows {r : Relay UInt8} (h : s.relay.Step can r) (hleft : r.left = s.relay.left) :
    Goes can s .flows { s with relay := r }
  | relay {r : Relay UInt8} (h : s.relay.Step can r) (hleft : r.left < s.relay.left) :
    Goes can s .works { s with relay := r }
  | sends (d : Side) {cause : Cause} (h : s.relay.copier d = .writeClosed cause)
    (hempty : s.errc = none) :
    Goes can s .works { s with relay := s.relay.finish d cause, errc := some cause }
  | receiveNil (h : s.stage = .first) (herrc : s.errc = some .eof) :
    Goes can s .works { s with errc := none, stage := .second }
  | receiveError {cause : Cause} (h : s.stage = .first) (herrc : s.errc = some cause)
    (hne : cause ≠ .eof) : Goes can s .works { s with errc := none, stage := .received cause }
  | receiveSecond {cause : Cause} (h : s.stage = .second) (herrc : s.errc = some cause) :
    Goes can s .works { s with errc := none, stage := .received cause }
  | closeConn {cause : Cause} (h : s.stage = .received cause) :
    Goes can s .works { s with relay := s.relay.close .front, stage := .connClosed }
  | closeCh (h : s.stage = .connClosed) :
    Goes can s .works { s with backConnCloseCh := true, stage := .returned }
  | cancels (h : s.cancelled = false) : Goes can s .flows { s with cancelled := true }
  | closeBackend (h : s.cancelled = true ∨ s.backConnCloseCh = true)
    (hopen : (s.relay.conn .back).closed = false) :
    Goes can s .works { s with relay := s.relay.close .back }

theorem Goes.step (h : Goes can s p t) : ∃ e, Step can s e t := by
  cases h with
  | flows h => exact ⟨_, .relay h⟩
  | relay h => exact ⟨_, .relay h⟩
  | sends d h hempty => exact ⟨_, .sends d h hempty⟩
  | receiveNil h herrc => exact ⟨_, .receiveNil h herrc⟩
  | receiveError h herrc hne => exact ⟨_, .receiveError h herrc hne⟩
  | receiveSecond h herrc => exact ⟨_, .receiveSecond h herrc⟩
  | closeConn h => exact ⟨_, .closeConn h⟩
  | closeCh h => exact ⟨_, .closeCh h⟩
  | cancels => exact ⟨_, .cancels⟩
  | closeBackend h => exact ⟨_, .closeBackend h⟩

abbrev Run (can : Side → HalfCloses) : Upgrade → List Pace → Upgrade → Prop :=
  Runs (Goes can) fun _ _ => True

/-! ## The invariant -/

/-- What was sent on the channel is in it, or was received. -/
def Accounted (s : Upgrade) : Stage → Prop
  | .first => s.relay.dones = s.errc.isSome.toNat
  | .second => s.relay.dones = s.errc.isSome.toNat + 1
  | .received _ | .connClosed | .returned => s.errc.isSome.toNat + 1 ≤ s.relay.dones

structure Tidy (s : Upgrade) : Prop where
  accounted : s.Accounted s.stage
  front : s.stage.left ≤ 1 → (s.relay.conn .front).closed = true
  returned : s.stage = .returned → s.backConnCloseCh = true

theorem tidy_start (user backend : List UInt8) : (start user backend).Tidy where
  accounted := rfl
  front := fun h => absurd h (show ¬ 4 ≤ 1 by decide)
  returned := fun h => nomatch h

theorem accounted_of_dones (h : s.Accounted s.stage) (hstage : t.stage = s.stage)
    (herrc : t.errc = s.errc) (hdones : t.relay.dones = s.relay.dones) : t.Accounted t.stage := by
  rw [hstage]
  cases hs : s.stage with
  | first | second | received | connClosed | returned =>
    rw [hs] at h
    simp only [Accounted, herrc, hdones] at h ⊢
    exact h

theorem Tidy.step (h : s.Tidy) (hstep : Goes can s p t) : t.Tidy := by
  have haccounted := h.accounted
  cases hstep with
  | flows hrelay | relay hrelay =>
    refine ⟨accounted_of_dones h.accounted rfl rfl (Relay.dones_step hrelay), fun hle =>
      ?_, h.returned⟩
    exact (hrelay.conns .front).closed.trans (h.front hle)
  | sends d hd hempty =>
    have hdones := Relay.dones_finish hd
    refine ⟨?_, h.front, h.returned⟩
    show Accounted _ s.stage
    cases hs : s.stage with
    | first | second | received | connClosed | returned =>
      rw [hs] at haccounted
      simp only [Accounted, hempty, hdones, Option.isSome_none, Option.isSome_some, Bool.toNat_true,
        Bool.toNat_false] at haccounted ⊢
      omega
  | receiveNil hstage herrc =>
    rw [hstage] at haccounted
    simp only [Accounted, herrc, Option.isSome_some, Bool.toNat_true] at haccounted
    refine ⟨?_, fun hle => absurd hle (show ¬ 3 ≤ 1 by decide), fun he => nomatch he⟩
    simp only [Accounted, Option.isSome_none, Bool.toNat_false]
    omega
  | receiveError hstage herrc | receiveSecond hstage herrc =>
    rw [hstage] at haccounted
    simp only [Accounted, herrc, Option.isSome_some, Bool.toNat_true] at haccounted
    refine ⟨?_, fun hle => absurd hle (show ¬ 2 ≤ 1 by decide), fun he => nomatch he⟩
    simp only [Accounted, Option.isSome_none, Bool.toNat_false]
    omega
  | closeConn hstage =>
    rw [hstage] at haccounted
    exact ⟨haccounted, fun _ => Relay.closed_close_self .front, fun he => nomatch he⟩
  | closeCh hstage =>
    rw [hstage] at haccounted
    refine ⟨haccounted, fun _ => h.front ?_, fun _ => rfl⟩
    rw [hstage]
    exact Nat.le_refl 1
  | cancels => exact ⟨h.accounted, h.front, h.returned⟩
  | closeBackend =>
    exact ⟨h.accounted, fun hle => Relay.closed_close .back (h.front hle), h.returned⟩

/-- What is left for the goroutines. -/
def left (s : Upgrade) : Nat := s.relay.left + s.stage.left + (!(s.relay.conn .back).closed).toNat

theorem left_step (hstep : Goes can s p t) : t.left + p.isWork.toNat ≤ s.left := by
  cases hstep with
  | flows hrelay hleft =>
    simp only [left, hleft, (hrelay.conns .back).closed, Pace.isWork, Bool.toNat_false]
    omega
  | relay hrelay hleft =>
    simp only [left, (hrelay.conns .back).closed, Pace.isWork, Bool.toNat_true]
    omega
  | @sends d cause hd =>
    have hfinish := Relay.left_finish hd
    have hconn : (s.relay.finish d cause).conn = s.relay.conn := rfl
    simp only [left, hconn, Pace.isWork, Bool.toNat_true]
    omega
  | receiveNil hstage | receiveError hstage | receiveSecond hstage | closeCh hstage =>
    simp only [left, hstage, Stage.left, Pace.isWork, Bool.toNat_true]
    omega
  | closeConn hstage =>
    have hback : ((s.relay.close .front).conn .back).closed = (s.relay.conn .back).closed := rfl
    have hleft : (s.relay.close .front).left = s.relay.left := rfl
    simp only [left, hstage, hback, hleft, Stage.left, Pace.isWork, Bool.toNat_true]
    omega
  | cancels => exact Nat.le_refl _
  | closeBackend _ hopen =>
    have hback : ((s.relay.close .back).conn .back).closed = true := Relay.closed_close_self .back
    have hleft : (s.relay.close .back).left = s.relay.left := rfl
    simp only [left, hback, hleft, hopen, Pace.isWork, Bool.not_true, Bool.not_false,
      Bool.toNat_true, Bool.toNat_false]
    omega

/-! ## Nothing stays behind -/

/-- None of the goroutines can do anything but copy. -/
def Stuck (can : Side → HalfCloses) (s : Upgrade) : Prop := ∀ t, ¬ Goes can s .works t

/-- The function has returned, and nothing of it is left. -/
structure Over (s : Upgrade) : Prop where
  stage : s.stage = .returned
  closed : ∀ d, (s.relay.conn d).closed = true
  done : ∀ d, (s.relay.copier d).isDone = true

/-- No copier waits for the channel. -/
theorem Stuck.reported (h : s.Stuck can) (hs : s.Tidy) (d : Side) (cause : Cause) :
    s.relay.copier d ≠ .writeClosed cause := by
  intro hd
  cases herrc : s.errc with
  | none => exact h _ (.sends d hd herrc)
  | some report =>
    have haccounted := hs.accounted
    have hnot : s.relay.dones ≤ 1 := by
      have hle := Bool.toNat_le (s.relay.copier d.other).isDone
      rw [Relay.dones_eq _ d, hd]
      show 0 + _ ≤ 1
      omega
    cases hstage : s.stage with
    | first =>
      by_cases hreport : report = .eof
      · exact h _ (.receiveNil hstage (hreport ▸ herrc))
      · exact h _ (.receiveError hstage herrc hreport)
    | second => exact h _ (.receiveSecond hstage herrc)
    | received | connClosed | returned =>
      -- both reports were sent
      rw [hstage] at haccounted
      simp only [Accounted, herrc, Option.isSome_some, Bool.toNat_true] at haccounted
      omega

theorem Stuck.returned (h : s.Stuck can) (hwaits : ¬ s.stage.Waits) : s.stage = .returned := by
  cases hstage : s.stage with
  | first | second =>
    rw [hstage] at hwaits
    exact absurd trivial hwaits
  | received cause => exact absurd (.closeConn hstage) (h _)
  | connClosed => exact absurd (.closeCh hstage) (h _)
  | returned => rfl

/-- A copier that cannot go on by itself copies, or is done. -/
theorem Stuck.copier (h : s.Stuck can) (hs : s.Tidy) (d : Side) :
    (∃ pending, s.relay.copier d = .running (.copying pending)) ∨
      (s.relay.copier d).isDone = true := by
  cases hd : s.relay.copier d with
  | running k =>
    cases k with
    | copying pending => exact .inl ⟨pending, rfl⟩
    | ended cause =>
      have hpair := Relay.left_pair (r := s.relay)
        (c := d.pair (Relay.closeRead (can d) (s.relay.conn d)) (s.relay.conn d.other)) (d := d)
        (x := .readClosed cause)
      rw [hd] at hpair
      simp only [Copier.left] at hpair
      exact absurd (.relay (.closeRead d hd) (by omega)) (h _)
  | readClosed cause =>
    have hpair := Relay.left_pair (r := s.relay)
      (c := d.pair (s.relay.conn d) (Relay.closeWrite (can d.other) (s.relay.conn d.other)))
      (d := d) (x := .writeClosed cause)
    rw [hd] at hpair
    simp only [Copier.left] at hpair
    exact absurd (.relay (.closeWrite d hd) (by omega)) (h _)
  | writeClosed cause => exact absurd hd (h.reported hs d cause)
  | done cause => exact .inr rfl

theorem Stuck.over (h : s.Stuck can) (hs : s.Tidy) (hwaits : ¬ s.stage.Waits) : s.Over := by
  have hreturned := h.returned hwaits
  have hclosed : ∀ d, (s.relay.conn d).closed = true := by
    intro d
    cases d with
    | front =>
      refine hs.front ?_
      rw [hreturned]
      exact Nat.zero_le 1
    | back =>
      cases hback : (s.relay.conn .back).closed with
      | true => rfl
      | false => exact absurd (.closeBackend (.inr (hs.returned hreturned)) hback) (h _)
  refine ⟨hreturned, hclosed, fun d => (h.copier hs d).resolve_left ?_⟩
  rintro ⟨pending, hd⟩
  have hleft : 1 < (s.relay.copier d).left := by
    rw [hd]
    exact (by decide : 1 < 4)
  obtain ⟨r, hrelay, hless⟩ := Relay.exists_step can hclosed hleft
  exact h _ (.relay hrelay hless)

theorem Run.tidy (h : Run can s events t) (hs : s.Tidy) : t.Tidy :=
  Runs.invariant (I := fun _ s => s.Tidy) h hs fun hi _ hstep => hi.step hstep

/-- **An upgraded connection comes to its end.**  Its goroutines take thirteen steps at most besides
copying.  When they can take no more, each copier is in its copy or done, so that none waits to
report; and once the function waits for no report, it has returned and both connections are
closed. -/
theorem upgrade_ends (user backend : List UInt8) (h : Run can (start user backend) events s) :
    events.countP Pace.isWork ≤ 13 ∧
      (s.Stuck can → (∀ d, (∃ pending, s.relay.copier d = .running (.copying pending)) ∨
          (s.relay.copier d).isDone = true) ∧ (¬ s.stage.Waits → s.Over)) := by
  have hs := h.tidy (tidy_start user backend)
  have hbound := Runs.countP_le (I := fun _ => True) h trivial Pace.isWork left 0
    (fun _ _ _ => trivial) fun _ _ hstep => (left_step hstep).trans (Nat.le_add_right _ _)
  rw [Nat.zero_mul, Nat.add_zero] at hbound
  exact ⟨(Nat.le_add_left _ _).trans hbound.2, fun hstuck =>
    ⟨fun d => hstuck.copier hs d, fun hwaits => hstuck.over hs hwaits⟩⟩

/-- The function does not go back. -/
theorem returned_step (hreturned : s.stage = .returned) (hstep : Goes can s p t) :
    t.stage = .returned := by
  cases hstep with
  | receiveNil hstage | receiveError hstage | receiveSecond hstage | closeCh hstage
  | closeConn hstage =>
    exact nomatch hstage.symm.trans hreturned
  | flows | relay | sends | cancels | closeBackend => exact hreturned

/-- The backend breaks off, and the user is still there: the function returns, and then the copiers
come to their ends. -/
theorem upgrade_ends_broken : ∃ events s, Run (fun _ => ⟨false, false⟩) (start [] []) events s ∧
    events.countP Pace.isWork ≤ 13 ∧ s.Stuck (fun _ => ⟨false, false⟩) ∧ s.Over := by
  have hbreaks : Run (fun _ => ⟨false, false⟩) (start [] []) _ _ :=
    Runs.refl.step trivial (.flows (.peer .back .breaksRead) rfl)
  have hfails := ((hbreaks.step trivial (.relay (.copy .back rfl (.readFails (.inl rfl)))
    (by decide))).step trivial
    (.relay (.closeRead .back rfl) (by decide))).step trivial
    (.relay (.closeWrite .back rfl) (by decide))
  have hreported := (hfails.step trivial (.sends .back rfl rfl)).step trivial
    (.receiveError rfl rfl (fun he => nomatch he))
  have hreturned := (hreported.step trivial (.closeConn rfl)).step trivial (.closeCh rfl)
  obtain ⟨events, s, hend, hstage, hstuck⟩ :=
    Runs.exists_end (I := fun s => s.stage = .returned) (e := .works)
    hreturned rfl left (fun hstage _ hstep => returned_step hstage hstep) fun _ _ hstep =>
      left_step (p := .works) hstep
  obtain ⟨hbound, hover⟩ := upgrade_ends [] [] hend
  have hrests : s.Stuck (fun _ => ⟨false, false⟩) := fun t => hstuck t trivial
  refine ⟨events, s, hend, hbound, hrests, (hover hrests).2 ?_⟩
  rw [hstage]
  exact id

end Upgrade

end ContainerDesktop.ReverseProxy
