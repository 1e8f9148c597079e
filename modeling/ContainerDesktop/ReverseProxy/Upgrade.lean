import ContainerDesktop.Histories
import ContainerDesktop.Streams

/-!
# Upgraded connections

`handleUpgradeResponse` after it has hijacked the connection of the user and handed on the
response: the two goroutines of its `switchProtocolCopier`, the one that closes the backend
when the request is done, and the function itself, which waits for the copiers on `errc`.

It waits for both as long as they report no error.  An error ends it at once, and its
deferred call closes the connection of the user, whatever the other copier still has to
deliver.  `output_delivered` says that this is all that can go wrong: the output of the
backend is delivered if `copyToBackend` reports errors only after the last of it, and an
error reported before can always cut it off.
-/

namespace ContainerDesktop.ReverseProxy

/-- Where `handleUpgradeResponse` is. -/
inductive Stage where
  /-- At the first `<-errc`. -/
  | first
  /-- At the second one, after a nil. -/
  | second
  | received (cause : Cause)
  /-- After the deferred `conn.Close()`. -/
  | connClosed
  | returned

/-- It waits for a copier. -/
def Stage.Waits : Stage → Prop
  | first | second => True
  | received _ | connClosed | returned => False

/-- The user is in front and the backend in the back.  So `copyToBackend` is the copier of the front
and `copyFromBackend` the one of the back, and each is done when it has sent on `errc`. -/
structure Upgrade where
  relay : Relay UInt8
  /-- What the channel holds: why the copy ended, which is a nil for the end of the stream. -/
  errc : Option Cause
  /-- The context of the request is done. -/
  cancelled : Bool
  /-- `backConnCloseCh` is closed. -/
  backConnCloseCh : Bool
  stage : Stage

/-- A report on `errc`, or something else. -/
inductive Event where
  | sends (d : Side) (cause : Cause)
  | silent

namespace Upgrade

/-- The copiers are started.  Some of what the user and the backend send has arrived. -/
def start (user backend : List UInt8) : Upgrade where
  relay := .start user backend
  errc := none
  cancelled := false
  backConnCloseCh := false
  stage := .first

inductive Step (can : Side → HalfCloses) (s : Upgrade) : Event → Upgrade → Prop
  /-- The user, the backend, or a copier before it sends. -/
  | relay {r : Relay UInt8} (h : s.relay.Step can r) : Step can s .silent { s with relay := r }
  | sends (d : Side) {cause : Cause} (h : s.relay.copier d = .writeClosed cause)
    (hempty : s.errc = none) :
    Step can s (.sends d cause) { s with relay := s.relay.finish d cause, errc := some cause }
  | receiveNil (h : s.stage = .first) (herrc : s.errc = some .eof) :
    Step can s .silent { s with errc := none, stage := .second }
  | receiveError {cause : Cause} (h : s.stage = .first) (herrc : s.errc = some cause)
    (hne : cause ≠ .eof) : Step can s .silent { s with errc := none, stage := .received cause }
  | receiveSecond {cause : Cause} (h : s.stage = .second) (herrc : s.errc = some cause) :
    Step can s .silent { s with errc := none, stage := .received cause }
  | closeConn {cause : Cause} (h : s.stage = .received cause) :
    Step can s .silent { s with relay := s.relay.close .front, stage := .connClosed }
  | closeCh (h : s.stage = .connClosed) :
    Step can s .silent { s with backConnCloseCh := true, stage := .returned }
  | cancels : Step can s .silent { s with cancelled := true }
  | closeBackend (h : s.cancelled = true ∨ s.backConnCloseCh = true) :
    Step can s .silent { s with relay := s.relay.close .back }

/-! ## What should hold, and when it does -/

/-- The backend has come to its end, and all that it has sent was written to the user. -/
structure AllDelivered (r : Relay UInt8) : Prop where
  finished : (r.conn .back).finished = true
  delivered : (r.conn .front).delivered = (r.conn .back).received

/-- The request goes on, writing to the user works, and so does reading from the backend till its
end. -/
structure Undisturbed (s : Upgrade) : Prop where
  cancelled : s.cancelled = false
  user : (s.relay.conn .front).writeBroken = false
  backend : (s.relay.conn .back).readBroken = false

/-- The connection of the user is closed after all of the output. -/
def DeliversAll (s : Upgrade) : Prop := (s.relay.conn .front).closed = true → AllDelivered s.relay

/-- `copyToBackend` reports an error only after all of the output. -/
def Safe (s : Upgrade) (e : Event) : Prop :=
  ∀ cause, e = .sends .front cause → cause ≠ .eof → AllDelivered s.relay

/-! ## Output that is delivered stays so -/

/-- All of the output was delivered, and nothing of it is on the way. -/
structure Drained (r : Relay UInt8) : Prop where
  finished : (r.conn .back).finished = true
  unread : (r.conn .back).unread = []
  delivered : (r.conn .front).delivered = (r.conn .back).read
  pending : ∀ pending, r.copier .back = .running (.copying pending) → pending = []

theorem Drained.allDelivered {r : Relay UInt8} (h : Drained r) : AllDelivered r where
  finished := h.finished
  delivered := by rw [h.delivered, Conn.received, h.unread, List.append_nil]

theorem Drained.of_kept {r r' : Relay UInt8} (h : Drained r)
    (hback : Conn.SourceKept (r.conn .back) (r'.conn .back))
    (hfront : Conn.SinkKept (r.conn .front) (r'.conn .front))
    (hpending : ∀ pending, r'.copier .back = .running (.copying pending) → pending = []) :
    Drained r' where
  finished := (hback.finished h.finished).1
  unread := (hback.finished h.finished).2.trans h.unread
  delivered := by rw [hfront.delivered, hback.read, h.delivered]
  pending := hpending

/-- What a copier has delivered in full is drained. -/
theorem drained_of_copied {r : Relay UInt8} (h : AllDelivered r)
    (hcopied : Copy.Copied (r.conn .back) (r.conn .front) (r.copier .back).copy) : Drained r := by
  obtain ⟨rest, hrest⟩ := hcopied.delivered_prefix
  have hnil : rest = [] ∧ (r.conn .back).unread = [] := by
    have hall := h.delivered
    rw [Conn.received, ← hrest, List.append_assoc, List.self_eq_append_right] at hall
    obtain ⟨hrest, hunread⟩ := List.append_eq_nil_iff.mp hall
    exact ⟨hrest, hunread⟩
  obtain ⟨rfl, hunread⟩ := hnil
  rw [List.append_nil] at hrest
  refine ⟨h.finished, hunread, hrest, fun pending hpending => ?_⟩
  rw [hpending] at hcopied
  have hread : (r.conn .front).delivered ++ pending = (r.conn .back).read := hcopied
  rw [← hrest] at hread
  exact List.self_eq_append_right.mp hread.symm

theorem Drained.step {can : Side → HalfCloses} {r r' : Relay UInt8} (h : Drained r)
    (hstep : r.Step can r') : Drained r' := by
  cases hstep with
  | peer d hpeer =>
    cases d with
    | front => exact h.of_kept (.refl _) (.of_peer hpeer) h.pending
    | back => exact h.of_kept (.of_peer hpeer) (.refl _) h.pending
  | copy d hd hcopy =>
    cases d with
    | front => exact h.of_kept hcopy.sourceKept hcopy.sinkKept h.pending
    | back =>
      obtain ⟨pending, rfl⟩ := hcopy.copying
      obtain rfl := h.pending pending hd
      -- nothing is left to be read or written
      cases hcopy with
      | read n _ hn hlen =>
        have hnone : (r.conn .back).unread.length = 0 := by rw [h.unread]; rfl
        omega
      | write n _ hn hlen => exact absurd hlen (by simpa using Nat.ne_of_gt hn)
      | writeFails hne => exact absurd rfl hne
      | eof | readFails => exact h.of_kept (.refl _) (.refl _) fun _ hpending => nomatch hpending
  | closeRead d hd =>
    cases d with
    | front => exact h.of_kept (.refl _) (Relay.sinkKept_closeRead _ _) h.pending
    | back =>
      exact h.of_kept (Relay.sourceKept_closeRead _ _) (.refl _) fun _ hpending => nomatch hpending
  | closeWrite d hd =>
    cases d with
    | front => exact h.of_kept (Relay.sourceKept_closeWrite _ _) (.refl _) h.pending
    | back =>
      exact h.of_kept (.refl _) (Relay.sinkKept_closeWrite _ _) fun _ hpending => nomatch hpending

theorem Drained.finish {r : Relay UInt8} (h : Drained r) (d : Side) (cause : Cause) :
    Drained (r.finish d cause) := by
  refine h.of_kept (.refl _) (.refl _) fun pending hpending => ?_
  cases d with
  | front => exact h.pending pending hpending
  | back => exact nomatch hpending

theorem Drained.close {r : Relay UInt8} (h : Drained r) (d : Side) : Drained (r.close d) := by
  cases d with
  | front => exact h.of_kept (.refl _) (Conn.sinkKept_close _) h.pending
  | back => exact h.of_kept (Conn.sourceKept_close _) (.refl _) h.pending

/-! ## Runs whose reports are safe -/

section Steps

variable {can : Side → HalfCloses} {s t : Upgrade} {e : Event}

theorem Undisturbed.of_step (hstep : Step can s e t) (h : Undisturbed t) : Undisturbed s := by
  have hcalm : ∀ {r : Relay UInt8}, s.cancelled = false →
      (∀ d, Conn.Lasts (s.relay.conn d) (r.conn d)) → (r.conn .front).writeBroken = false →
      (r.conn .back).readBroken = false → Undisturbed s := by
    intro r hcancelled hlasts huser hbackend
    refine ⟨hcancelled, Bool.eq_false_iff.mpr fun hbroken => ?_, Bool.eq_false_iff.mpr
      fun hbroken => ?_⟩
    · exact absurd (huser.symm.trans ((hlasts .front).writeBroken hbroken)) Bool.false_ne_true
    · exact absurd (hbackend.symm.trans ((hlasts .back).readBroken hbroken)) Bool.false_ne_true
  cases hstep with
  | relay hrelay => exact hcalm h.cancelled hrelay.conns h.user h.backend
  | cancels => exact absurd h.cancelled (fun h => nomatch h)
  | _ => exact ⟨h.cancelled, h.user, h.backend⟩

/-- While the function waits, no connection is closed and the copies are sound; after that all of
the output is delivered. -/
structure Invariant (s : Upgrade) : Prop where
  sound : s.stage.Waits → s.relay.Sound
  isOpen : s.stage.Waits → s.backConnCloseCh = false ∧ ∀ d, (s.relay.conn d).closed = false
  reported : ∀ cause, s.errc = some cause → ∃ d, s.relay.copier d = .done cause
  /-- The nil was of one copier, and the report in the channel is of the other. -/
  second : s.stage = .second → ∃ d, s.relay.copier d = .done .eof ∧
    ∀ cause, s.errc = some cause → s.relay.copier d.other = .done cause
  safe : ∀ cause, s.relay.copier .front = .done cause → cause ≠ .eof → Drained s.relay
  drained : ¬ s.stage.Waits → Drained s.relay

theorem invariant_start (user backend : List UInt8) : (start user backend).Invariant where
  sound := fun _ => Relay.sound_start user backend
  isOpen := fun _ => ⟨rfl, fun d => by cases d <;> rfl⟩
  reported := fun _ h => nomatch h
  second := fun h => nomatch h
  safe := fun _ h => nomatch h
  drained := fun h => absurd trivial h

/-- A `copyFromBackend` that has ended has delivered everything. -/
theorem Invariant.drained_of_back (h : s.Invariant) (hs : Undisturbed s) (hwaits : s.stage.Waits)
    {cause : Cause} (hback : s.relay.copier .back = .done cause) : Drained s.relay := by
  have hcopied := (h.sound hwaits .back).copied
  rw [hback] at hcopied
  cases cause with
  | eof =>
    refine drained_of_copied ⟨hcopied.2.2, hcopied.1⟩ ?_
    rw [hback]
    exact hcopied
  | readFailed => exact absurd (hs.backend.symm.trans hcopied.2) Bool.false_ne_true
  | writeFailed => exact absurd (hs.user.symm.trans hcopied.2) Bool.false_ne_true

/-- An error that was received comes from `copyToBackend`, and so after all of the output. -/
theorem Invariant.drained_of_error (h : s.Invariant) (hs : Undisturbed s) (hwaits : s.stage.Waits)
    {cause : Cause} (herrc : s.errc = some cause) (hne : cause ≠ .eof) : Drained s.relay := by
  obtain ⟨d, hd⟩ := h.reported cause herrc
  cases d with
  | front => exact h.safe cause hd hne
  | back => exact h.drained_of_back hs hwaits hd

/-- After both reports `copyFromBackend` has ended. -/
theorem Invariant.drained_of_second (h : s.Invariant) (hs : Undisturbed s)
    (hstage : s.stage = .second) {cause : Cause} (herrc : s.errc = some cause) :
    Drained s.relay := by
  have hwaits : s.stage.Waits := by rw [hstage]; trivial
  obtain ⟨d, hd, hother⟩ := h.second hstage
  cases d with
  | front => exact h.drained_of_back hs hwaits (hother cause herrc)
  | back => exact h.drained_of_back hs hwaits hd

theorem Invariant.relay (h : s.Invariant) {r : Relay UInt8} (hstep : s.relay.Step can r) :
    Invariant { s with relay := r } where
  sound := fun hwaits => (h.sound hwaits).step hstep fun _ _ _ => (h.isOpen hwaits).2
  isOpen := fun hwaits => ⟨(h.isOpen hwaits).1, fun d =>
    (hstep.conns d).closed.trans ((h.isOpen hwaits).2 d)⟩
  reported := by
    intro cause herrc
    obtain ⟨d, hd⟩ := h.reported cause herrc
    exact ⟨d, (hstep.done d).mpr hd⟩
  second := by
    intro hstage
    obtain ⟨d, hd, hother⟩ := h.second hstage
    exact ⟨d, (hstep.done d).mpr hd, fun cause herrc =>
      (hstep.done d.other).mpr (hother cause herrc)⟩
  safe := fun cause hfront hne => (h.safe cause ((hstep.done .front).mp hfront) hne).step hstep
  drained := fun hstage => (h.drained hstage).step hstep

theorem Invariant.sends (h : s.Invariant) {d : Side} {cause : Cause}
    (hd : s.relay.copier d = .writeClosed cause) (hsafe : Safe s (.sends d cause)) :
    Invariant { s with relay := s.relay.finish d cause, errc := some cause } where
  sound := fun hwaits => (h.sound hwaits).finish hd
  isOpen := h.isOpen
  reported := by
    intro cause' herrc
    obtain rfl := Option.some.inj herrc
    exact ⟨d, Side.pair_self d _ _⟩
  second := by
    intro hstage
    obtain ⟨d', hd', -⟩ := h.second hstage
    obtain rfl | rfl := d.eq_or_other d'
    · exact nomatch hd.symm.trans hd'
    · refine ⟨d.other, (Side.pair_other d _ _).trans hd', fun cause' herrc => ?_⟩
      obtain rfl := Option.some.inj herrc
      rw [Side.other_other]
      exact Side.pair_self d _ _
  safe := by
    intro cause' hfront hne
    cases d with
    | front =>
      obtain rfl := Copier.done.inj hfront
      have hall := hsafe cause rfl hne
      by_cases hwaits : s.stage.Waits
      · exact (drained_of_copied hall (h.sound hwaits .back).copied).finish .front cause
      · exact (h.drained hwaits).finish .front cause
    | back => exact (h.safe cause' hfront hne).finish .back cause
  drained := fun hstage => (h.drained hstage).finish d cause

/-- When the function waits no more, it is enough that the output is delivered. -/
theorem invariant_of_drained (hwaits : ¬ s.stage.Waits)
    (hreported : ∀ cause, s.errc = some cause → ∃ d, s.relay.copier d = .done cause)
    (hdrained : Drained s.relay) : s.Invariant where
  sound := fun hw => absurd hw hwaits
  isOpen := fun hw => absurd hw hwaits
  reported := hreported
  second := by
    intro hstage
    rw [hstage] at hwaits
    exact absurd trivial hwaits
  safe := fun _ _ _ => hdrained
  drained := fun _ => hdrained

theorem Invariant.step (h : s.Invariant) (hstep : Step can s e t) (hsafe : Safe s e)
    (ht : Undisturbed t) : t.Invariant := by
  have hs := ht.of_step hstep
  cases hstep with
  | relay hrelay => exact h.relay hrelay
  | sends d hd => exact h.sends hd hsafe
  | receiveNil hstage herrc =>
    have hwaits : s.stage.Waits := by rw [hstage]; trivial
    obtain ⟨d, hd⟩ := h.reported .eof herrc
    exact ⟨fun _ => h.sound hwaits, fun _ => h.isOpen hwaits, fun _ h => (nomatch h),
      fun _ => ⟨d, hd, fun _ h => nomatch h⟩, h.safe, fun hstage => absurd trivial hstage⟩
  | receiveError hstage herrc hne =>
    have hwaits : s.stage.Waits := by rw [hstage]; trivial
    exact invariant_of_drained id (fun _ h => nomatch h) (h.drained_of_error hs hwaits herrc hne)
  | receiveSecond hstage herrc =>
    exact invariant_of_drained id (fun _ h => nomatch h) (h.drained_of_second hs hstage herrc)
  | closeConn hstage =>
    have hdrained := h.drained (by rw [hstage]; exact id)
    exact invariant_of_drained id h.reported (hdrained.close .front)
  | closeCh hstage =>
    have hdrained := h.drained (by rw [hstage]; exact id)
    exact invariant_of_drained id h.reported hdrained
  | cancels => exact absurd ht.cancelled (fun h => nomatch h)
  | closeBackend hdone =>
    have hch : s.backConnCloseCh = true :=
      hdone.resolve_left fun hc => absurd (hs.cancelled.symm.trans hc) Bool.false_ne_true
    have hwaits : ¬ s.stage.Waits := fun hwaits =>
      absurd ((h.isOpen hwaits).1.symm.trans hch) Bool.false_ne_true
    exact invariant_of_drained hwaits h.reported ((h.drained hwaits).close .back)

theorem invariant_of_runs {user backend : List UInt8} {events : List Event}
    (h : Runs (Step can) Safe (start user backend) events t) (ht : Undisturbed t) :
    t.Invariant := by
  have hkeep := h.invariant (I := fun _ s => Undisturbed s → s.Invariant)
    (fun _ => invariant_start user backend)
    fun ih hsafe hstep hu => (ih (hu.of_step hstep)).step hstep hsafe hu
  exact hkeep ht

theorem Invariant.deliversAll (h : s.Invariant) : DeliversAll s := by
  intro hclosed
  by_cases hwaits : s.stage.Waits
  · exact absurd (((h.isOpen hwaits).2 .front).symm.trans hclosed) Bool.false_ne_true
  · exact (h.drained hwaits).allDelivered

/-! ## Errors that are reported too early -/

/-- An error is reported while output is outstanding.  Nothing has been received by then. -/
theorem Invariant.first_of_early (h : s.Invariant) (hs : Undisturbed s) {cause : Cause}
    (hd : s.relay.copier .front = .writeClosed cause) (hearly : ¬ AllDelivered s.relay) :
    s.stage = .first := by
  cases hstage : s.stage with
  | first => rfl
  | second =>
    obtain ⟨d, hdone, -⟩ := h.second hstage
    cases d with
    | front => exact nomatch hd.symm.trans hdone
    | back =>
      have hwaits : s.stage.Waits := by rw [hstage]; trivial
      exact absurd (h.drained_of_back hs hwaits hdone).allDelivered hearly
  | _ => exact absurd (h.drained (by rw [hstage]; exact id)).allDelivered hearly

/-- The function takes the error and closes the connection of the user, and the output is cut
off. -/
theorem cut_off (h : s.Invariant) (hs : Undisturbed s) (hstep : Step can s e t)
    (hearly : ¬ Safe s e) :
    ∃ events u, Runs (Step can) (fun _ _ => True) t events u ∧ Undisturbed u ∧ ¬ DeliversAll u := by
  obtain ⟨cause, he, hne, hnot⟩ :
      ∃ cause, e = .sends .front cause ∧ cause ≠ .eof ∧ ¬ AllDelivered s.relay := by
    by_contra hsafe
    exact hearly fun cause he hne => by_contra fun hnot => hsafe ⟨cause, he, hne, hnot⟩
  subst he
  cases hstep with
  | sends _ hd hempty =>
    have hfirst := h.first_of_early hs hd hnot
    have hstart : Runs (Step can) (fun _ _ => True)
        { s with relay := s.relay.finish .front cause, errc := some cause } [] _ := .refl
    have hreceive := hstart.step trivial (.receiveError hfirst rfl hne)
    have hclose := hreceive.step trivial (.closeConn rfl)
    refine ⟨_, _, hclose, ⟨hs.cancelled, hs.user, hs.backend⟩, fun hdelivers => ?_⟩
    have hall := hdelivers rfl
    exact hnot ⟨hall.finished, hall.delivered⟩

/-- **When all the output of an upgraded connection is delivered.**  It is in every run in which
`copyToBackend` reports errors after all of it, and an error that it reports before leads on to a
state in which the connection of the user is closed without it. -/
theorem output_delivered (can : Side → HalfCloses) (user backend : List UInt8) :
    (∀ events t, Runs (Step can) Safe (start user backend) events t → Undisturbed t →
        DeliversAll t) ∧
      ∀ events s e t, Runs (Step can) Safe (start user backend) events s → Step can s e t →
        Undisturbed t →
        ¬ Safe s e →
          ∃ rest u, Runs (Step can) (fun _ _ => True) t rest u ∧ Undisturbed u ∧
          ¬ DeliversAll u := by
  refine ⟨fun events t h ht => (invariant_of_runs h ht).deliversAll,
    fun events s e t h hstep ht hearly => ?_⟩
  have hs := ht.of_step hstep
  exact cut_off (invariant_of_runs h hs) hs hstep hearly

end Steps

/-! ## A container that no longer reads its input -/

/-- The connections of the proxy can be half-closed. -/
def halfClosable : Side → HalfCloses := fun _ => ⟨true, true⟩

theorem safe_silent (s : Upgrade) : Safe s .silent := fun _ he => nomatch he

/-- Writing the byte of the user fails after the last byte of the output. -/
theorem output_delivered_late :
    ∃ events t, Runs (Step halfClosable) Safe (start [105] [111]) events t ∧
      (t.relay.conn .front).closed = true ∧ AllDelivered t.relay := by
  have hstart : Runs (Step halfClosable) Safe (start [105] [111]) [] _ := .refl
  have hoRead := hstart.step (safe_silent _)
    (.relay (.copy .back rfl (.read 1 ⟨rfl, rfl⟩ (by decide) (by decide))))
  have hoWrite := hoRead.step (safe_silent _)
    (.relay (.copy .back rfl (.write 1 ⟨rfl, rfl⟩ (by decide) (by decide))))
  have hoFinish := hoWrite.step (safe_silent _) (.relay (.peer .back .finishes))
  have hread := hoFinish.step (safe_silent _)
    (.relay (.copy .front rfl (.read 1 ⟨rfl, rfl⟩ (by decide) (by decide))))
  have hbreak := hread.step (safe_silent _) (.relay (.peer .back .breaksWrite))
  have hfails := hbreak.step (safe_silent _)
    (.relay (.copy .front rfl (.writeFails (fun h => nomatch h) (.inl rfl))))
  have hcloseRead := hfails.step (safe_silent _) (.relay (.closeRead .front rfl))
  have hcloseWrite := hcloseRead.step (safe_silent _) (.relay (.closeWrite .front rfl))
  have hsends := hcloseWrite.step (fun _ _ _ => ⟨rfl, rfl⟩) (.sends .front rfl rfl)
  have hreceive := hsends.step (safe_silent _) (.receiveError rfl rfl (fun h => nomatch h))
  have hclose := hreceive.step (safe_silent _) (.closeConn rfl)
  exact ⟨_, _, hclose, rfl, (output_delivered halfClosable [105] [111]).1 _ _ hclose
    ⟨rfl, rfl, rfl⟩ rfl⟩

/-- Writing the byte of the user fails while the output is still there to be read. -/
theorem output_cut_off :
    ¬ ∀ (can : Side → HalfCloses) (user backend : List UInt8) (events : List Event) (t : Upgrade),
      Runs (Step can) (fun _ _ => True) (start user backend) events t → Undisturbed t →
      DeliversAll t := by
  intro hall
  have hstart : Runs (Step halfClosable) (fun _ _ => True) (start [105] [111]) [] _ := .refl
  have hread := hstart.step trivial
    (.relay (.copy .front rfl (.read 1 ⟨rfl, rfl⟩ (by decide) (by decide))))
  have hbreak := hread.step trivial (.relay (.peer .back .breaksWrite))
  have hfails := hbreak.step trivial
    (.relay (.copy .front rfl (.writeFails (fun h => nomatch h) (.inl rfl))))
  have hcloseRead := hfails.step trivial (.relay (.closeRead .front rfl))
  have hcloseWrite := hcloseRead.step trivial (.relay (.closeWrite .front rfl))
  have hsends := hcloseWrite.step trivial (.sends .front rfl rfl)
  have hreceive := hsends.step trivial (.receiveError rfl rfl (fun h => nomatch h))
  have hclose := hreceive.step trivial (.closeConn rfl)
  have hdelivered := hall _ _ _ _ _ hclose ⟨rfl, rfl, rfl⟩ rfl
  exact nomatch hdelivered.finished

end Upgrade

end ContainerDesktop.ReverseProxy
