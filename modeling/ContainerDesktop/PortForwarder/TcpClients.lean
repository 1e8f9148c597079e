import ContainerDesktop.Histories
import ContainerDesktop.PortForwarder.TcpProxy
import Mathlib.Algebra.GroupWithZero.Nat

/-!
# The clients of the TCP proxy

`Run` starts a goroutine for each client that it accepts.  The goroutine dials the backend and
then is a `ClientLoop`, or closes the client.  When `Accept` fails, as it does after `Close`,
`Run` returns and closes `quit`, which all the goroutines have.

Till then the clients know nothing of each other, and each loop relays faithfully.  After it
every goroutine goes on until both of its connections are closed and its brokers have
ended: `clients_are_closed`.  The brokers do so because they work on closed connections.
-/

namespace ContainerDesktop.PortForwarder

/-- The goroutine of a client. -/
inductive Client where
  | dialing
  /-- The backend was not dialed. -/
  | refused
  | clientClosed
  | looping (l : ClientLoop)

namespace Client

/-- `close(quit)` -/
def quits : Client → Client
  | looping l => looping { l with quit := true }
  | c => c

/-- One step of a goroutine, or of the goroutines that it has started. -/
inductive Step (quit : Bool) : Client → Pace → Client → Prop
  /-- Some of what the client and the backend send has arrived. -/
  | dial (client backend : List UInt8) :
    Step quit dialing .works (looping (.dialed client backend quit))
  | dialFails : Step quit dialing .works refused
  | closeRefused : Step quit refused .works clientClosed
  | flows {l : ClientLoop} {r : Relay UInt8} (h : l.relay.Step ClientLoop.tcpConn r)
    (hleft : r.left = l.relay.left) : Step quit (looping l) .flows (looping { l with relay := r })
  | relay {l : ClientLoop} {r : Relay UInt8} (h : l.relay.Step ClientLoop.tcpConn r)
    (hleft : r.left < l.relay.left) : Step quit (looping l) .works (looping { l with relay := r })
  | done {l : ClientLoop} (d : Side) {cause : Cause} (h : l.relay.copier d = .writeClosed cause) :
    Step quit (looping l) .works
      (looping { l with relay := l.relay.finish d cause, wg := l.wg - 1 })
  | waited {l : ClientLoop} (h : l.wg = 0) (hfinish : l.finish = false) :
    Step quit (looping l) .works (looping { l with finish := true })
  | select {l : ClientLoop} (h : l.stage = .waiting) (hready : l.quit = true ∨ l.finish = true) :
    Step quit (looping l) .works (looping { l with stage := .selected })
  | closeClient {l : ClientLoop} (h : l.stage = .selected) :
    Step quit (looping l) .works
      (looping { l with relay := l.relay.close .front, stage := .clientClosed })
  | closeBackend {l : ClientLoop} (h : l.stage = .clientClosed) :
    Step quit (looping l) .works
      (looping { l with relay := l.relay.close .back, stage := .backendClosed })
  | returns {l : ClientLoop} (h : l.stage = .backendClosed) (hfinish : l.finish = true) :
    Step quit (looping l) .works (looping { l with stage := .returned })

/-- The steps of a loop are those of the loop by itself. -/
theorem Step.loop {quit : Bool} {l : ClientLoop} {p : Pace} {c : Client}
    (h : Step quit (looping l) p c) : ∃ l', c = looping l' ∧ l.Step l' ∧ l'.quit = l.quit := by
  cases h with
  | flows h => exact ⟨_, rfl, .relay h, rfl⟩
  | relay h => exact ⟨_, rfl, .relay h, rfl⟩
  | done d h => exact ⟨_, rfl, .done d h, rfl⟩
  | waited h => exact ⟨_, rfl, .waited h, rfl⟩
  | select h hready => exact ⟨_, rfl, .select h hready, rfl⟩
  | closeClient h => exact ⟨_, rfl, .closeClient h, rfl⟩
  | closeBackend h => exact ⟨_, rfl, .closeBackend h, rfl⟩
  | returns h hfinish => exact ⟨_, rfl, .returns h hfinish, rfl⟩

end Client

/-- `Run` with the goroutines that it has started. -/
structure TCPProxy where
  /-- `Run` has not returned. -/
  accepting : Bool
  clients : List Client

namespace TCPProxy

def init : TCPProxy := ⟨true, []⟩

inductive Step (s : TCPProxy) : Pace → TCPProxy → Prop
  | accept (h : s.accepting = true) : Step s .works { s with clients := .dialing :: s.clients }
  /-- `Run` returns, and closes `quit`. -/
  | acceptFails (h : s.accepting = true) : Step s .works ⟨false, s.clients.map Client.quits⟩
  | client {pre post : List Client} {c c' : Client} {p : Pace} (h : s.clients = pre ++ c :: post)
    (hstep : c.Step (!s.accepting) p c') : Step s p { s with clients := pre ++ c' :: post }

abbrev Run : TCPProxy → List Pace → TCPProxy → Prop := Runs Step fun _ _ => True

end TCPProxy

/-! ## One client -/

namespace ClientLoop

/-- What is left for the loop itself. -/
def LoopStage.left : LoopStage → Nat
  | .waiting => 4
  | .selected => 3
  | .clientClosed => 2
  | .backendClosed => 1
  | .returned => 0

def left (l : ClientLoop) : Nat := l.relay.left + (!l.finish).toNat + LoopStage.left l.stage

/-- What holds of a loop whatever `quit` is. -/
structure Tidy (l : ClientLoop) : Prop where
  wg : l.wg + dones l.relay.copier = 2
  finish : l.finish = true → ∀ d, (l.relay.copier d).isDone = true
  front : LoopStage.left l.stage ≤ 2 → (l.relay.conn .front).closed = true
  back : LoopStage.left l.stage ≤ 1 → (l.relay.conn .back).closed = true
  returned : l.stage = .returned → l.finish = true

theorem tidy_dialed (client backend : List UInt8) (quit : Bool) :
    (dialed client backend quit).Tidy where
  wg := rfl
  finish := fun h => nomatch h
  front := fun h => absurd h (show ¬ 4 ≤ 2 by decide)
  back := fun h => absurd h (show ¬ 4 ≤ 1 by decide)
  returned := fun h => nomatch h

theorem Tidy.quits {l : ClientLoop} (h : l.Tidy) : Tidy { l with quit := true } :=
  ⟨h.wg, h.finish, h.front, h.back, h.returned⟩

variable {l l' : ClientLoop}

theorem Tidy.done (h : l.Tidy) {d : Side} {cause : Cause}
    (hd : l.relay.copier d = .writeClosed cause) :
    Tidy { l with relay := l.relay.finish d cause, wg := l.wg - 1 } := by
  have hdone : (l.relay.copier d).isDone = false := by rw [hd]; rfl
  refine ⟨?_, fun hfinish => ?_, h.front, h.back, h.returned⟩
  · have hwg := h.wg
    have hle := Bool.toNat_le (l.relay.copier d.other).isDone
    rw [dones_eq _ d, hdone] at hwg
    show l.wg - 1 + dones (d.pair (.done cause) (l.relay.copier d.other)) = 2
    rw [dones_eq _ d, Side.pair_self, Side.pair_other]
    simp only [Bool.toNat_false, Copier.isDone, Bool.toNat_true] at hwg hle ⊢
    omega
  · exact absurd (hdone.symm.trans (h.finish hfinish d)) Bool.false_ne_true

theorem Tidy.done_of_wg (h : l.Tidy) (hwg : l.wg = 0) (d : Side) :
    (l.relay.copier d).isDone = true := by
  have hdones := h.wg
  have hle := Bool.toNat_le (l.relay.copier d.other).isDone
  rw [hwg, dones_eq _ d] at hdones
  cases hd : (l.relay.copier d).isDone with
  | true => rfl
  | false =>
    rw [hd, Bool.toNat_false] at hdones
    omega

theorem Tidy.step {quit : Bool} {p : Pace} (h : l.Tidy)
    (hstep : Client.Step quit (.looping l) p (.looping l')) : l'.Tidy := by
  have hmono : ∀ {stage : LoopStage} {n : Nat}, l.stage = stage → LoopStage.left stage ≤ n →
      LoopStage.left l.stage ≤ n := fun hstage hle => hstage ▸ hle
  cases hstep with
  | flows hrelay | relay hrelay =>
    refine ⟨?_, fun hfinish d => (hrelay.isDone d).trans (h.finish hfinish d), fun hle => ?_,
      fun hle => ?_, h.returned⟩
    · rw [dones, hrelay.isDone, hrelay.isDone]
      exact h.wg
    · exact (hrelay.conns .front).closed.trans (h.front hle)
    · exact (hrelay.conns .back).closed.trans (h.back hle)
  | done d hd => exact h.done hd
  | waited hwg => exact ⟨h.wg, fun _ => h.done_of_wg hwg, h.front, h.back, fun _ => rfl⟩
  | select =>
    exact ⟨h.wg, h.finish, fun hle => absurd hle (show ¬ 3 ≤ 2 by decide),
      fun hle => absurd hle (show ¬ 3 ≤ 1 by decide), fun he => LoopStage.noConfusion he⟩
  | closeClient =>
    exact ⟨h.wg, h.finish, fun _ => Relay.closed_close_self .front, fun hle =>
      absurd hle (show ¬ 2 ≤ 1 by decide), fun he => LoopStage.noConfusion he⟩
  | closeBackend hstage =>
    exact ⟨h.wg, h.finish, fun _ => Relay.closed_close .back
      (h.front (hmono hstage (Nat.le_refl 2))),
      fun _ => Relay.closed_close_self .back, fun he => LoopStage.noConfusion he⟩
  | returns hstage hfinish =>
    exact ⟨h.wg, h.finish, fun _ => h.front (hmono hstage (show 1 ≤ 2 by decide)),
      fun _ => h.back (hmono hstage (Nat.le_refl 1)), fun _ => hfinish⟩

theorem left_step {quit : Bool} {p : Pace} (hstep : Client.Step quit (.looping l) p (.looping l')) :
    l'.left + p.isWork.toNat ≤ l.left := by
  cases hstep with
  | flows _ hleft =>
    simp only [left, hleft, Pace.isWork, Bool.toNat_false]
    omega
  | relay _ hleft =>
    simp only [left, Pace.isWork, Bool.toNat_true]
    omega
  | done d hd =>
    have hfinish := Relay.left_finish hd
    simp only [left, Pace.isWork, Bool.toNat_true]
    omega
  | waited _ hfinish =>
    simp only [left, hfinish, Pace.isWork, Bool.not_true, Bool.not_false, Bool.toNat_true,
      Bool.toNat_false]
    omega
  | select hstage | closeClient hstage | closeBackend hstage | returns hstage =>
    simp only [left, hstage, LoopStage.left, Pace.isWork, Bool.toNat_true, Relay.left, Relay.close]
    omega

/-- The loop has returned, and nothing of it is left. -/
structure Over (l : ClientLoop) : Prop where
  stage : l.stage = .returned
  closed : ∀ d, (l.relay.conn d).closed = true
  done : ∀ d, (l.relay.copier d).isDone = true

/-- **A loop whose `quit` is closed goes on until it is over.** -/
theorem Tidy.over (h : l.Tidy) (hquit : l.quit = true)
    (hstuck : ∀ c, ¬ Client.Step true (.looping l) .works c) : l.Over := by
  have hends : LoopStage.left l.stage ≤ 1 := by
    cases hstage : l.stage with
    | waiting => exact absurd (.select hstage (.inl hquit)) (hstuck _)
    | selected => exact absurd (.closeClient hstage) (hstuck _)
    | clientClosed => exact absurd (.closeBackend hstage) (hstuck _)
    | backendClosed => exact Nat.le_refl 1
    | returned => exact Nat.zero_le 1
  have hclosed : ∀ d, (l.relay.conn d).closed = true := by
    intro d
    cases d with
    | front => exact h.front (Nat.le_succ_of_le hends)
    | back => exact h.back hends
  have hdone : ∀ d, (l.relay.copier d).isDone = true := by
    intro d
    by_cases hleft : 1 < (l.relay.copier d).left
    · obtain ⟨r, hrelay, hless⟩ := Relay.exists_step tcpConn hclosed hleft
      exact absurd (.relay hrelay hless) (hstuck _)
    · cases hd : l.relay.copier d with
      | running k =>
        rw [hd] at hleft
        cases k <;> exact absurd (Nat.succ_lt_succ (Nat.succ_pos _)) hleft
      | readClosed cause =>
        rw [hd] at hleft
        exact absurd (by decide : 1 < 2) hleft
      | writeClosed cause => exact absurd (.done d hd) (hstuck _)
      | done cause => rfl
  have hwg : l.wg = 0 := by
    have hdones := h.wg
    rw [dones, hdone, hdone, Bool.toNat_true] at hdones
    omega
  have hfinish : l.finish = true := by
    cases hf : l.finish with
    | true => rfl
    | false => exact absurd (.waited hwg hf) (hstuck _)
  refine ⟨?_, hclosed, hdone⟩
  cases hstage : l.stage with
  | backendClosed => exact absurd (.returns hstage hfinish) (hstuck _)
  | returned => rfl
  | waiting | selected | clientClosed =>
    rw [hstage] at hends
    exact absurd hends (by decide)

end ClientLoop

/-! ## All the clients -/

namespace Client

/-- What is left for the goroutine. -/
def left : Client → Nat
  | dialing => 14
  | refused => 1
  | clientClosed => 0
  | looping l => l.left

/-- Both connections are closed, and the goroutines have ended. -/
def Over : Client → Prop
  | clientClosed => True
  | looping l => l.Over
  | dialing | refused => False

/-- A loop has the `quit` of `Run`, and relays faithfully as long as that is open. -/
def Fits (quit : Bool) : Client → Prop
  | looping l => l.Tidy ∧ l.quit = quit ∧ (quit = false → l.Invariant)
  | dialing | refused | clientClosed => True

variable {quit : Bool} {p : Pace} {c c' : Client}

theorem Fits.quits (h : c.Fits quit) : c.quits.Fits true := by
  cases c with
  | looping l => exact ⟨h.1.quits, rfl, fun he => nomatch he⟩
  | dialing | refused | clientClosed => trivial

theorem Fits.step (h : c.Fits quit) (hstep : c.Step quit p c') : c'.Fits quit := by
  cases c with
  | dialing =>
    cases hstep with
    | dial client backend =>
      exact ⟨ClientLoop.tidy_dialed client backend quit, rfl, fun _ =>
        ClientLoop.invariant_dialed client backend quit⟩
    | dialFails => trivial
  | refused =>
    cases hstep with
    | closeRefused => trivial
  | clientClosed => exact nomatch hstep
  | looping l =>
    obtain ⟨htidy, hquit, hinvariant⟩ := h
    obtain ⟨l', rfl, hloop, hquit'⟩ := hstep.loop
    exact ⟨htidy.step hstep, hquit'.trans hquit, fun hopen =>
      (hinvariant hopen).step hloop ((hquit'.trans hquit).trans hopen)⟩

theorem left_step (hstep : c.Step quit p c') : c'.left + p.isWork.toNat ≤ c.left := by
  cases c with
  | dialing =>
    cases hstep with
    | dial client backend => exact Nat.le_refl 14
    | dialFails => exact Nat.le_of_lt (by decide : 2 < 14)
  | refused =>
    cases hstep with
    | closeRefused => exact Nat.le_refl 1
  | clientClosed => exact nomatch hstep
  | looping l =>
    obtain ⟨l', rfl, -, -⟩ := hstep.loop
    exact ClientLoop.left_step hstep

theorem Fits.over (h : c.Fits true) (hstuck : ∀ c', ¬ c.Step true .works c') : c.Over := by
  cases c with
  | dialing => exact absurd .dialFails (hstuck _)
  | refused => exact absurd .closeRefused (hstuck _)
  | clientClosed => trivial
  | looping l => exact h.1.over h.2.1 hstuck

end Client

namespace TCPProxy

variable {s t : TCPProxy} {p : Pace} {events after : List Pace}

/-- What is left when nobody is accepted any more. -/
def left (s : TCPProxy) : Nat := (s.clients.map Client.left).sum

def Fits (s : TCPProxy) : Prop := ∀ c ∈ s.clients, c.Fits (!s.accepting)

/-- No goroutine can do anything by itself. -/
def Stuck (s : TCPProxy) : Prop := ∀ t, ¬ Step s .works t

theorem Fits.step (h : s.Fits) (hstep : Step s p t) : t.Fits := by
  cases hstep with
  | accept => exact List.forall_mem_cons.mpr ⟨trivial, h⟩
  | acceptFails =>
    intro c hc
    obtain ⟨c, hmem, rfl⟩ := List.mem_map.mp hc
    exact (h c hmem).quits
  | @client pre post c c' p hs hclient =>
    intro d hd
    rcases List.mem_cons.mp (List.perm_middle.mem_iff.mp hd) with rfl | hd
    · exact (h c (hs ▸ List.mem_append_right _ List.mem_cons_self)).step hclient
    · exact h d (hs ▸ List.perm_middle.mem_iff.mpr (List.mem_cons_of_mem _ hd))

theorem left_step (hended : s.accepting = false) (hstep : Step s p t) :
    t.left + p.isWork.toNat ≤ s.left := by
  cases hstep with
  | accept h | acceptFails h => exact nomatch hended.symm.trans h
  | client hs hclient =>
    have hle := Client.left_step hclient
    simp only [left, hs, List.map_append, List.map_cons, List.sum_append, List.sum_cons]
    omega

theorem accepting_step (hended : s.accepting = false) (hstep : Step s p t) :
    t.accepting = false := by
  cases hstep with
  | accept h | acceptFails h => exact nomatch hended.symm.trans h
  | client => exact hended

theorem length_step (hended : s.accepting = false) (hstep : Step s p t) :
    t.clients.length = s.clients.length := by
  cases hstep with
  | accept h | acceptFails h => exact nomatch hended.symm.trans h
  | client hs => simp only [hs, List.length_append, List.length_cons]

theorem Run.fits (h : Run s events t) (hs : s.Fits) : t.Fits :=
  Runs.invariant (I := fun _ s => s.Fits) h hs fun hfits _ hstep => hfits.step hstep

theorem Fits.over (h : s.Fits) (hended : s.accepting = false) (hstuck : s.Stuck) :
    ∀ c ∈ s.clients, c.Over := by
  intro c hc
  obtain ⟨pre, post, hs⟩ := List.append_of_mem hc
  have hfits := h c hc
  have hquit : (!s.accepting) = true := by rw [hended]; rfl
  rw [hquit] at hfits
  refine hfits.over fun c' hstep => ?_
  rw [← hquit] at hstep
  exact hstuck _ (.client hs hstep)

/-- **Every client is served faithfully until `Run` ends, and then all that was opened is closed.**
What the goroutines still do is bounded, but for bytes on connections that are open. -/
theorem clients_are_closed (h : Run init events s) :
    (s.accepting = true → ∀ l, .looping l ∈ s.clients → ClientLoop.RelaysFaithfully l.relay) ∧
      (s.accepting = false → ∀ after t, Run s after t →
        after.countP Pace.isWork ≤ s.left ∧ (t.Stuck → ∀ c ∈ t.clients, c.Over)) := by
  have hfits := h.fits fun c hc => absurd hc List.not_mem_nil
  constructor
  · intro haccepting l hl
    obtain ⟨-, -, hinvariant⟩ := hfits (.looping l) hl
    exact (hinvariant (by rw [haccepting]; rfl)).relaysFaithfully
  · intro hended after t hafter
    have hbound := Runs.countP_le (I := fun s => s.accepting = false) hafter hended
      Pace.isWork left 0 (fun hended _ hstep => accepting_step hended hstep)
      fun hended _ hstep => (left_step hended hstep).trans (Nat.le_add_right _ _)
    rw [Nat.zero_mul, Nat.add_zero] at hbound
    exact ⟨(Nat.le_add_left _ _).trans hbound.2, (hafter.fits hfits).over hbound.1⟩

/-- A client has sent `hi`, which is passed on, and then `Run` ends.  The goroutines go on until the
client is over. -/
theorem clients_are_closed_hi : ∃ (s t : TCPProxy) (after : List Pace) (c : Client), Run s after t ∧
    after.countP Pace.isWork ≤ s.left ∧ t.Stuck ∧ t.clients = [c] ∧ c.Over := by
  have hserved := (((Runs.refl : Run init [] init).step trivial (.accept rfl)).step trivial
    (.client (show _ = [] ++ _ from rfl) (.dial [104, 105] []))).step trivial
    (.client (show _ = [] ++ _ from rfl)
      (.flows (.copy .front rfl (.read 2 ⟨rfl, rfl⟩ (by decide) (by decide))) rfl))
  have hended := hserved.step trivial (.acceptFails rfl)
  have hstart : ∀ {events s}, Run init events s → Run s [] s := fun _ => .refl
  obtain ⟨after, t, hafter, ⟨-, hlength⟩, hstuck⟩ := Runs.exists_end
    (I := fun t => t.accepting = false ∧ t.clients.length = 1) (e := .works) (hstart hended)
    ⟨rfl, rfl⟩ left (fun ⟨hnot, hlength⟩ _ hstep =>
      ⟨accepting_step hnot hstep, (length_step hnot hstep).trans hlength⟩)
    fun ⟨hnot, _⟩ _ hstep => left_step hnot hstep
  obtain ⟨c, hc⟩ := List.length_eq_one_iff.mp hlength
  obtain ⟨hbound, hover⟩ := (clients_are_closed hended).2 rfl after t hafter
  have hrests : t.Stuck := fun u => hstuck u trivial
  exact ⟨_, t, after, c, hafter, hbound, hrests, hc,
    hover hrests c (hc ▸ List.mem_singleton_self c)⟩

end TCPProxy

end ContainerDesktop.PortForwarder
