import ContainerDesktop.Streams
import Mathlib.Logic.Relation

/-!
# The TCP proxy

A `clientLoop` whose backend was dialed: its two brokers, the goroutine that waits for
them and the loop itself.  A broker copies from one connection to the other and then
shuts down the half that it read and the half that it wrote.  All of them work on the same
two connections, in any order.

The halves of the two brokers are different ones, so none ends the copy of the other, and
`clientLoop` closes the connections after both, unless `Run` has ended:
`relays_faithfully`.
-/

namespace ContainerDesktop.PortForwarder

/-- Where the loop itself is. -/
inductive LoopStage where
  /-- In the `select`. -/
  | waiting
  | selected
  | clientClosed
  | backendClosed
  | returned

/-- The connections are the one of the client in front and the one of the backend in the back.  The
broker of a connection reads it, and is done after `wg.Done()`. -/
structure ClientLoop where
  relay : Relay UInt8
  wg : Nat
  /-- `finish` is closed. -/
  finish : Bool
  /-- `quit` is closed: `Run` has ended. -/
  quit : Bool
  stage : LoopStage

namespace ClientLoop

/-- A TCP connection has `CloseRead` and `CloseWrite`. -/
def tcpConn : Side → HalfCloses := fun _ => ⟨true, true⟩

/-- The backend was dialed, and the goroutines are started.  Some of what the peers send has
arrived. -/
def dialed (client backend : List UInt8) (quit : Bool) : ClientLoop where
  relay := .start client backend
  wg := 2
  finish := false
  quit := quit
  stage := .waiting

inductive Step (s : ClientLoop) : ClientLoop → Prop
  /-- A peer, or a broker before its `wg.Done()`. -/
  | relay {r : Relay UInt8} (h : s.relay.Step tcpConn r) : Step s { s with relay := r }
  | done (d : Side) {cause : Cause} (h : s.relay.copier d = .writeClosed cause) :
    Step s { s with relay := s.relay.finish d cause, wg := s.wg - 1 }
  /-- `wg.Wait()` and `close(finish)`. -/
  | waited (h : s.wg = 0) : Step s { s with finish := true }
  | runEnds : Step s { s with quit := true }
  | select (h : s.stage = .waiting) (hready : s.quit = true ∨ s.finish = true) :
    Step s { s with stage := .selected }
  | closeClient (h : s.stage = .selected) :
    Step s { s with relay := s.relay.close .front, stage := .clientClosed }
  | closeBackend (h : s.stage = .clientClosed) :
    Step s { s with relay := s.relay.close .back, stage := .backendClosed }
  | returns (h : s.stage = .backendClosed) (hfinish : s.finish = true) :
    Step s { s with stage := .returned }

abbrev Reaches : ClientLoop → ClientLoop → Prop := Relation.ReflTransGen Step

/-! ## What should hold -/

/-- The end of a copy lies in its own direction: all that the peer has sent was delivered, or
reading from the one peer or writing to the other is broken. -/
def EndsFor (src dst : Conn UInt8) : Cause → Prop
  | .eof => src.finished = true ∧ dst.delivered = src.received
  | .readFailed => src.readBroken = true ∧ dst.delivered = src.read
  | .writeFailed => dst.writeBroken = true

structure RelaysFaithfully (r : Relay UInt8) : Prop where
  /-- Bytes are delivered in order, none twice. -/
  ordered : ∀ d, (r.conn d.other).delivered <+: (r.conn d).received
  /-- A FIN comes after the copy, with everything read delivered unless a write has failed. -/
  finAfter : ∀ d, (r.conn d.other).writeClosed = true → ∃ cause, (r.copier d).copy = .ended cause ∧
    ((r.conn d.other).delivered = (r.conn d).read ∨ cause = .writeFailed)
  /-- A copy that goes on has both its halves, whatever became of the other copy. -/
  goesOn : ∀ d pending, (r.copier d).copy = .copying pending →
    (r.conn d).Readable ∧ (r.conn d.other).Writable
  endsAlone : ∀ d cause, (r.copier d).copy = .ended cause →
    EndsFor (r.conn d) (r.conn d.other) cause
  closedLast : ∀ d, (r.conn d).closed = true → ∀ e, (r.copier e).isDone = true

/-! ## The invariant -/

/-- How many brokers are done. -/
def dones (f : Side → Copier UInt8) : Nat := (f .front).isDone.toNat + (f .back).isDone.toNat

structure Invariant (s : ClientLoop) : Prop where
  sound : s.relay.Sound
  wg : s.wg + dones s.relay.copier = 2
  finish : s.finish = true → ∀ d, (s.relay.copier d).isDone = true
  stage : s.stage ≠ .waiting → s.finish = true
  closed : ∀ d, (s.relay.conn d).closed = true → s.stage ≠ .waiting

theorem dones_eq (f : Side → Copier UInt8) (d : Side) :
    dones f = (f d).isDone.toNat + (f d.other).isDone.toNat := by
  cases d with
  | front => rfl
  | back => exact Nat.add_comm _ _

section Steps

variable {s t : ClientLoop}

theorem Invariant.done_of_closed (h : s.Invariant) {d : Side}
    (hd : (s.relay.conn d).closed = true) (e : Side) :
    (s.relay.copier e).isDone = true := h.finish (h.stage (h.closed d hd)) e

/-- No connection is closed while a broker is at work. -/
theorem Invariant.open_of_not_done (h : s.Invariant) {d : Side}
    (hd : (s.relay.copier d).isDone = false) (e : Side) : (s.relay.conn e).closed = false := by
  cases he : (s.relay.conn e).closed with
  | false => rfl
  | true => exact absurd (hd.symm.trans (h.done_of_closed he d)) Bool.false_ne_true

theorem Invariant.relay (h : s.Invariant) {r : Relay UInt8} (hstep : s.relay.Step tcpConn r) :
    Invariant { s with relay := r } where
  sound := h.sound.step hstep fun d k hd => h.open_of_not_done (d := d) (by rw [hd]; rfl)
  wg := by
    show s.wg + dones r.copier = 2
    rw [dones, hstep.isDone, hstep.isDone]
    exact h.wg
  finish := fun hfinish d => (hstep.isDone d).trans (h.finish hfinish d)
  stage := h.stage
  closed := fun d hd => h.closed d ((hstep.conns d).closed.symm.trans hd)

theorem Invariant.done (h : s.Invariant) {d : Side} {cause : Cause}
    (hd : s.relay.copier d = .writeClosed cause) :
    Invariant { s with relay := s.relay.finish d cause, wg := s.wg - 1 } := by
  have hdone : (s.relay.copier d).isDone = false := by rw [hd]; rfl
  refine ⟨h.sound.finish hd, ?_, fun hfinish => ?_, h.stage, h.closed⟩
  · have hwg := h.wg
    have hle := Bool.toNat_le (s.relay.copier d.other).isDone
    rw [dones_eq _ d, hdone] at hwg
    show s.wg - 1 + dones (d.pair (.done cause) (s.relay.copier d.other)) = 2
    rw [dones_eq _ d, Side.pair_self, Side.pair_other]
    simp only [Bool.toNat_false, Copier.isDone, Bool.toNat_true] at hwg hle ⊢
    omega
  · exact absurd (hdone.symm.trans (h.finish hfinish d)) Bool.false_ne_true

/-- The waiter goes on when both brokers are done. -/
theorem Invariant.done_of_wg (h : s.Invariant) (hwg : s.wg = 0) (d : Side) :
    (s.relay.copier d).isDone = true := by
  have hdones := h.wg
  have hle := Bool.toNat_le (s.relay.copier d.other).isDone
  rw [hwg, dones_eq _ d] at hdones
  cases hd : (s.relay.copier d).isDone with
  | true => rfl
  | false =>
    rw [hd, Bool.toNat_false] at hdones
    omega

/-- The loop closes a connection. -/
theorem Invariant.close (h : s.Invariant) (d : Side) {stage : LoopStage} (hfinish : s.finish = true)
    (hstage : stage ≠ .waiting) : Invariant
      { s with relay := s.relay.close d, stage := stage } where
  sound := h.sound.close d
  wg := h.wg
  finish := h.finish
  stage := fun _ => hfinish
  closed := fun _ _ => hstage

theorem Invariant.step (h : s.Invariant) (hstep : Step s t) (hquit : t.quit = false) :
    t.Invariant := by
  cases hstep with
  | relay hrelay => exact h.relay hrelay
  | done d hd => exact h.done hd
  | waited hwg => exact ⟨h.sound, h.wg, fun _ => h.done_of_wg hwg, fun _ => rfl, h.closed⟩
  | runEnds => exact nomatch hquit
  | select hstage hready =>
    have hfinish : s.finish = true :=
      hready.resolve_left fun he => absurd (hquit.symm.trans he) Bool.false_ne_true
    exact ⟨h.sound, h.wg, h.finish, fun _ => hfinish, fun _ _ h => nomatch h⟩
  | closeClient hstage =>
    exact h.close .front (h.stage (hstage ▸ fun h => nomatch h)) fun h => nomatch h
  | closeBackend hstage =>
    exact h.close .back (h.stage (hstage ▸ fun h => nomatch h)) fun h => nomatch h
  | returns hstage hfinish =>
    exact ⟨h.sound, h.wg, h.finish, fun _ => hfinish, fun _ _ h => nomatch h⟩

/-! ## Runs -/

theorem invariant_dialed (client backend : List UInt8) (quit : Bool) :
    (dialed client backend quit).Invariant where
  sound := Relay.sound_start client backend
  wg := rfl
  finish := fun h => nomatch h
  stage := fun h => absurd rfl h
  closed := fun d h => by cases d <;> exact nomatch h

theorem Step.quit (hstep : Step s t) (hquit : t.quit = false) : s.quit = false := by
  cases hstep with
  | runEnds => exact nomatch hquit
  | _ => exact hquit

theorem Reaches.invariant (h : Reaches s t) (hs : s.Invariant) (hquit : t.quit = false) :
    t.Invariant := by
  induction h with
  | refl => exact hs
  | tail _ hstep ih => exact (ih (hstep.quit hquit)).step hstep hquit

theorem endsFor_of_copied {src dst : Conn UInt8} {cause : Cause}
    (h : Copy.Copied src dst (.ended cause)) :
    EndsFor src dst cause ∧ (dst.delivered = src.read ∨ cause = .writeFailed) := by
  cases cause with
  | eof =>
    obtain ⟨hall, hunread, hfinished⟩ := h
    refine ⟨⟨hfinished, hall⟩, .inl ?_⟩
    rw [hall, Conn.received, hunread, List.append_nil]
  | readFailed => exact ⟨⟨h.2, h.1⟩, .inl h.1⟩
  | writeFailed => exact ⟨h.2, .inr rfl⟩

theorem Invariant.relaysFaithfully (h : s.Invariant) : RelaysFaithfully s.relay where
  ordered := fun d => (h.sound d).copied.delivered_prefix.trans (List.prefix_append _ _)
  finAfter := by
    intro d hfin
    obtain ⟨cause, hcause⟩ := (h.sound d).ended hfin
    have hcopied := (h.sound d).copied
    rw [hcause] at hcopied
    exact ⟨cause, hcause, (endsFor_of_copied hcopied).2⟩
  goesOn := by
    intro d pending hcopying
    have hhalves := (h.sound d).halves
    cases hx : s.relay.copier d with
    | running k =>
      rw [hx] at hhalves
      have hopen := h.open_of_not_done (d := d) (by rw [hx]; rfl)
      exact ⟨⟨hhalves.1, hopen d⟩, hhalves.2, hopen d.other⟩
    | _ =>
      rw [hx] at hcopying
      exact nomatch hcopying
  endsAlone := by
    intro d cause hcause
    have hcopied := (h.sound d).copied
    rw [hcause] at hcopied
    exact (endsFor_of_copied hcopied).1
  closedLast := fun _ hd e => h.done_of_closed hd e

/-- **The relay loses nothing, and each direction ends on its own.** -/
theorem relays_faithfully (client backend : List UInt8) (quit : Bool) (t : ClientLoop)
    (h : Reaches (dialed client backend quit) t) (hquit : t.quit = false) :
    RelaysFaithfully t.relay :=
  (h.invariant (invariant_dialed client backend quit) hquit).relaysFaithfully

end Steps

/-- The client has sent `hi` and its FIN, and both were passed on. -/
theorem relays_faithfully_halfClosed :
    ∃ t, Reaches (dialed [104, 105] [] false) t ∧ (t.relay.conn .back).delivered = [104, 105] ∧
      (t.relay.conn .back).writeClosed = true ∧ RelaysFaithfully t.relay := by
  have hread : Reaches (dialed [104, 105] [] false) _ :=
    .single (.relay (.copy .front rfl (.read 2 ⟨rfl, rfl⟩ (by decide) (by decide))))
  have hwrite := hread.tail (.relay (.copy .front rfl
    (.write 2 ⟨rfl, rfl⟩ (by decide) (by decide))))
  have hfinish := hwrite.tail (.relay (.peer .front .finishes))
  have heof := hfinish.tail (.relay (.copy .front rfl (.eof (.inl ⟨rfl, rfl⟩))))
  have hcloseRead := heof.tail (.relay (.closeRead .front rfl))
  have hreaches := hcloseRead.tail (.relay (.closeWrite .front rfl))
  exact ⟨_, hreaches, rfl, rfl, relays_faithfully [104, 105] [] false _ hreaches rfl⟩

end ClientLoop

end ContainerDesktop.PortForwarder
