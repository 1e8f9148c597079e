import ContainerDesktop.PortForwarder.UdpProxy

/-!
# Every datagram once

A running proxy is not closed, its dials and its writes to open sockets succeed, and
a datagram that is written is written whole.  `Relays` are the steps of such a proxy
(`Relays.step`), labelled with what is received and read as well.

The loops that write go on while bytes remain, so a datagram without bytes is not
written at all; and the socket that `Run` has found can be closed by its `replyLoop`
before `Run` writes to it.  `datagrams_relayed_once` says that nothing else is lost
and that nothing is sent twice, whatever the order of the steps.
-/

namespace ContainerDesktop.PortForwarder

/-- `UDPBufSize` -/
def udpBufSize : Nat := 65507

/-- What a step of a running proxy does. -/
inductive Activity where
  | received (d : Datagram)
  /-- `Run`, which has received `d`, writes these bytes as one datagram. -/
  | written (conn : Nat) (d : Datagram) (bytes : List UInt8)
  | read (conn : Nat) (bytes : List UInt8)
  | sent (conn : Nat) (addr : UDPAddr) (bytes : List UInt8)
  | removed (conn : Nat)
  | closed (conn : Nat)
  | silent

/-- As an event of the proxy. -/
def Activity.event : Activity → Event
  | written conn d bytes => .write conn d bytes
  | sent conn addr bytes => .reply conn addr bytes
  | removed conn => .remove conn
  | received _ | read .. | closed _ | silent => .silent

namespace UDPProxy

/-- The steps of a running proxy. -/
inductive Relays (family : IPVersion) (s : UDPProxy) : Activity → UDPProxy → Prop
  | receive {d : Datagram} (h : s.run = .reading) (hip : d.source.ip.length = family.len)
    (hlength : d.data.length ≤ udpBufSize) :
    Relays family s (.received d) { s with run := .received d }
  | lock {d : Datagram} (h : s.run = .received d) (hlock : s.connTrackLock = false) :
    Relays family s .silent { s with run := .locked d, connTrackLock := true }
  | hit {d : Datagram} {conn : Nat} (h : s.run = .locked d)
    (hlookup : s.connTrackTable.lookup (newConnTrackKey d.source) = some conn) :
    Relays family s .silent { s with run := .found d conn }
  | dial {d : Datagram} (h : s.run = .locked d)
    (hlookup : s.connTrackTable.lookup (newConnTrackKey d.source) = none) :
    Relays family s .silent { s with run := .dialed d s.conns, conns := s.conns + 1 }
  | insert {d : Datagram} {conn : Nat} (h : s.run = .dialed d conn) :
    Relays family s .silent
      { s with
        connTrackTable := s.connTrackTable.insert (newConnTrackKey d.source) conn
        run := .found d conn
        replyLoops := ⟨⟨conn, d.source, newConnTrackKey d.source⟩, .reading⟩ :: s.replyLoops }
  | unlock {d : Datagram} {conn : Nat} (h : s.run = .found d conn) :
    Relays family s .silent { s with run := .writing d conn 0, connTrackLock := false }
  | write {d : Datagram} {conn i : Nat} (h : s.run = .writing d conn i) (hi : i ≠ d.data.length)
    (hle : i ≤ d.data.length) (hopen : conn ∉ s.closed) :
    Relays family s (.written conn d (d.data.drop i))
      { s with run := .writing d conn d.data.length }
  /-- Writing to a closed socket fails. -/
  | writeClosed {d : Datagram} {conn i : Nat} (h : s.run = .writing d conn i)
    (hi : i ≠ d.data.length)
    (hclosed : conn ∈ s.closed) : Relays family s .silent { s with run := .reading }
  | written {d : Datagram} {conn : Nat} (h : s.run = .writing d conn d.data.length) :
    Relays family s .silent { s with run := .reading }
  | read {pre post : List ReplyLoop} {x : Session} (readBuf : List UInt8)
    (h : s.replyLoops = pre ++ ⟨x, .reading⟩ :: post) (hopen : x.proxyConn ∉ s.closed)
    (hlength : readBuf.length ≤ udpBufSize) :
    Relays family s (.read x.proxyConn readBuf)
      { s with replyLoops := pre ++ ⟨x, .delivering readBuf 0⟩ :: post }
  | refused {pre post : List ReplyLoop} {x : Session}
    (h : s.replyLoops = pre ++ ⟨x, .reading⟩ :: post) : Relays family s .silent s
  | expire {pre post : List ReplyLoop} {x : Session}
    (h : s.replyLoops = pre ++ ⟨x, .reading⟩ :: post) :
    Relays family s .silent { s with replyLoops := pre ++ ⟨x, .returned⟩ :: post }
  | deliver {pre post : List ReplyLoop} {x : Session} {readBuf : List UInt8} {i : Nat}
    (h : s.replyLoops = pre ++ ⟨x, .delivering readBuf i⟩ :: post) (hi : i ≠ readBuf.length)
    (hle : i ≤ readBuf.length) :
    Relays family s (.sent x.proxyConn x.clientAddr (readBuf.drop i))
      { s with replyLoops := pre ++ ⟨x, .delivering readBuf readBuf.length⟩ :: post }
  | delivered {pre post : List ReplyLoop} {x : Session} {readBuf : List UInt8}
    (h : s.replyLoops = pre ++ ⟨x, .delivering readBuf readBuf.length⟩ :: post) :
    Relays family s .silent { s with replyLoops := pre ++ ⟨x, .reading⟩ :: post }
  | acquire {pre post : List ReplyLoop} {x : Session}
    (h : s.replyLoops = pre ++ ⟨x, .returned⟩ :: post) (hlock : s.connTrackLock = false) :
    Relays family s .silent
      { s with connTrackLock := true, replyLoops := pre ++ ⟨x, .locked⟩ :: post }
  | remove {pre post : List ReplyLoop} {x : Session}
    (h : s.replyLoops = pre ++ ⟨x, .locked⟩ :: post) : Relays family s (.removed x.proxyConn)
      { s with
        connTrackTable := s.connTrackTable.erase x.clientKey
        replyLoops := pre ++ ⟨x, .removed⟩ :: post }
  | release {pre post : List ReplyLoop} {x : Session}
    (h : s.replyLoops = pre ++ ⟨x, .removed⟩ :: post) : Relays family s .silent
      { s with connTrackLock := false, replyLoops := pre ++ ⟨x, .unlocked⟩ :: post }
  | close {pre post : List ReplyLoop} {x : Session}
    (h : s.replyLoops = pre ++ ⟨x, .unlocked⟩ :: post) : Relays family s (.closed x.proxyConn)
      { s with closed := x.proxyConn :: s.closed, replyLoops := pre ++ ⟨x, .closed⟩ :: post }

/-- A step of a running proxy is one of the proxy. -/
theorem Relays.step {family : IPVersion} {s t : UDPProxy} {a : Activity} (h : Relays family s a t) :
    Step family s a.event t := by
  cases h with
  | receive h hip => exact .receive h hip
  | lock h hlock => exact .lock h hlock
  | hit h hlookup => exact .hit h hlookup
  | dial h hlookup => exact .dial h hlookup
  | insert h => exact .insert h
  | unlock h => exact .unlock h
  | @write d conn i h hi hle hopen =>
    have hstep : Step family s _ _ := Step.write (d.data.length - i) h hi (by omega) hopen
    rw [List.take_of_length_le (by simp), Nat.add_sub_cancel' hle] at hstep
    exact hstep
  | writeClosed h hi => exact .writeFails h hi
  | written h => exact .written h
  | read readBuf h hopen => exact .read readBuf h hopen
  | refused h => exact .refused h
  | expire h => exact .readFails h
  | @deliver pre post x readBuf i h hi hle =>
    have hstep : Step family s _ _ := Step.deliver (readBuf.length - i) h hi (by omega)
    rw [List.take_of_length_le (by simp), Nat.add_sub_cancel' hle] at hstep
    exact hstep
  | delivered h => exact .delivered h
  | acquire h hlock => exact .acquire h hlock
  | remove h => exact .remove h
  | release h => exact .release h
  | close h => exact .close h

/-! ## What should hold -/

/-- What `Run` has received, the last one first. -/
def receivedOf (events : List Activity) : List Datagram :=
  events.filterMap fun
    | .received d => some d
    | _ => none

/-- What `Run` has written, with the datagrams that it had received. -/
def writtenOf (events : List Activity) : List (Datagram × List UInt8) :=
  events.filterMap fun
    | .written _ d bytes => some (d, bytes)
    | _ => none

/-- What was read from a socket. -/
def readOf (conn : Nat) (events : List Activity) : List (List UInt8) :=
  events.filterMap fun
    | .read conn' bytes => if conn' = conn then some bytes else none
    | _ => none

/-- What the loop of a socket has sent, and to whom. -/
def sentOf (conn : Nat) (events : List Activity) : List (UDPAddr × List UInt8) :=
  events.filterMap fun
    | .sent conn' addr bytes => if conn' = conn then some (addr, bytes) else none
    | _ => none

end UDPProxy

/-- The datagram that `Run` has yet to write. -/
def RunStage.unwritten : RunStage → List Datagram
  | .received d | .locked d | .dialed d _ | .found d _ => [d]
  | .writing d _ i => if i = 0 then [d] else []
  | .reading | .failed | .stopped => []

/-- The reply that a loop has yet to send. -/
def ReplyStage.unsent : ReplyStage → List (List UInt8)
  | .delivering readBuf i => if i = 0 then [readBuf] else []
  | .reading | .returned | .locked | .removed | .unlocked | .closed => []

namespace UDPProxy

/-- The replies read from a socket that its loop has yet to send. -/
def unsentOf (conn : Nat) (s : UDPProxy) : List (List UInt8) :=
  s.replyLoops.flatMap fun l => if l.session.proxyConn = conn then l.stage.unsent else []

/-- Every datagram received was written once, with its bytes and as one datagram, but for the one
that is about to be; and every reply read was sent to the client once, but for those about to be. -/
structure RelayedOnce (events : List Activity) (s : UDPProxy) : Prop where
  datagrams : (receivedOf events).map (fun d => (d, d.data))
    = s.run.unwritten.map (fun d => (d, d.data)) ++ writtenOf events
  replies : ∀ x ∈ s.sessions, (readOf x.proxyConn events).map (fun bytes => (x.clientAddr, bytes))
    = (unsentOf x.proxyConn s).map (fun bytes => (x.clientAddr, bytes)) ++ sentOf x.proxyConn events

/-- `Run` is about to write to the socket. -/
def AboutToWrite (s : UDPProxy) (conn : Nat) : Prop :=
  ∃ d, s.run = .found d conn ∨ s.run = .writing d conn 0

/-- A step that loses nothing: what comes in has bytes, and no socket is closed that `Run` is about
to write to. -/
def Keeps (s : UDPProxy) : Activity → Prop
  | .received d => d.data ≠ []
  | .read _ bytes => bytes ≠ []
  | .closed conn => ¬ s.AboutToWrite conn
  | _ => True

end UDPProxy

/-! ## The invariant -/

/-- `Run` has a datagram with bytes, of which it has written none or all. -/
def RunStage.Whole : RunStage → Prop
  | .received d | .locked d | .dialed d _ | .found d _ => d.data ≠ []
  | .writing d _ i => d.data ≠ [] ∧ (i = 0 ∨ i = d.data.length)
  | .reading | .failed | .stopped => True

/-- The loop has a reply with bytes, of which it has sent none or all. -/
def ReplyStage.Whole : ReplyStage → Prop
  | .delivering readBuf i => readBuf ≠ [] ∧ (i = 0 ∨ i = readBuf.length)
  | .reading | .returned | .locked | .removed | .unlocked | .closed => True

namespace UDPProxy

structure Intact (events : List Activity) (s : UDPProxy) : Prop where
  relayed : RelayedOnce events s
  held : ∀ conn, s.AboutToWrite conn → conn ∉ s.closed
  run : s.run.Whole
  loops : ∀ l ∈ s.replyLoops, l.stage.Whole
  /-- Nothing was read from or sent for a socket without a session. -/
  unused : ∀ conn, (∀ x ∈ s.sessions, x.proxyConn ≠ conn) → readOf conn events = [] ∧
    sentOf conn events = []

section Intact

variable {family : IPVersion} {s t : UDPProxy} {events : List Activity} {a : Activity}
  {pre post : List ReplyLoop} {x : Session} {stage stage' : ReplyStage}

theorem intact_init : Intact [] init where
  relayed := ⟨rfl, fun _ h => nomatch h⟩
  held := fun _ ⟨_, h⟩ => by rcases h with h | h <;> exact nomatch h
  run := trivial
  loops := fun _ h => nomatch h
  unused := fun _ _ => ⟨rfl, rfl⟩

theorem Intact.whole (h : Intact events s) (hs : s.replyLoops = pre ++ ⟨x, stage⟩ :: post) :
    stage.Whole :=
  h.loops ⟨x, stage⟩ (hs ▸ List.mem_append_right _ List.mem_cons_self)

/-- The step neither reads nor sends for the socket. -/
def Silent (a : Activity) (events : List Activity) (conn : Nat) : Prop :=
  readOf conn (a :: events) = readOf conn events ∧ sentOf conn (a :: events) = sentOf conn events

/-- A step of `Run`. -/
theorem Intact.run_step (h : Intact events s) (hsilent : ∀ conn, Silent a events conn)
    (hloops : t.replyLoops = s.replyLoops) (hclosed : t.closed = s.closed)
    (hdatagrams : (receivedOf (a :: events)).map (fun d => (d, d.data))
      = t.run.unwritten.map (fun d => (d, d.data)) ++ writtenOf (a :: events))
    (hheld : ∀ conn, t.AboutToWrite conn → conn ∉ s.closed) (hrun : t.run.Whole) :
    Intact (a :: events) t := by
  have hsessions : t.sessions = s.sessions := by rw [sessions, sessions, hloops]
  refine ⟨⟨hdatagrams, fun x hx => ?_⟩, hclosed ▸ hheld, hrun, hloops ▸ h.loops,
    fun conn hconn => ?_⟩
  · have hunsent : unsentOf x.proxyConn t = unsentOf x.proxyConn s := by
      rw [unsentOf, unsentOf, hloops]
    rw [(hsilent _).1, (hsilent _).2, hunsent]
    exact h.relayed.replies x (hsessions ▸ hx)
  · rw [(hsilent _).1, (hsilent _).2]
    exact h.unused conn (hsessions ▸ hconn)

theorem unsentOf_middle (conn : Nat) (hs : s.replyLoops = pre ++ ⟨x, stage⟩ :: post) :
    unsentOf conn s = pre.flatMap (fun l => if l.session.proxyConn = conn
        then l.stage.unsent else [])
      ++ ((if x.proxyConn = conn then stage.unsent else [])
        ++ post.flatMap fun l => if l.session.proxyConn = conn then l.stage.unsent else []) := by
  rw [unsentOf, hs, List.flatMap_append, List.flatMap_cons]

/-- What is unsent on the socket of a loop is with this loop. -/
theorem Invariant.unsentOf_own (hi : Invariant family s)
    (hs : s.replyLoops = pre ++ ⟨x, stage⟩ :: post) : unsentOf x.proxyConn s = stage.unsent := by
  have hnone : ∀ ls : List ReplyLoop, (∀ l ∈ ls, l.session.proxyConn ≠ x.proxyConn) →
      ls.flatMap (fun l => if l.session.proxyConn = x.proxyConn then l.stage.unsent
        else []) = [] := by
    intro ls hls
    exact List.flatMap_eq_nil_iff.mpr fun l hl => if_neg (hls l hl)
  have hother := hi.other hs
  rw [unsentOf_middle _ hs, hnone pre fun l hl => hother l (List.mem_append_left _ hl),
    hnone post fun l hl => hother l (List.mem_append_right _ hl), if_pos rfl, List.nil_append,
    List.append_nil]

theorem unsentOf_other {conn : Nat} (hne : x.proxyConn ≠ conn)
    (hs : s.replyLoops = pre ++ ⟨x, stage⟩ :: post)
    (ht : t.replyLoops = pre ++ ⟨x, stage'⟩ :: post) : unsentOf conn t = unsentOf conn s := by
  rw [unsentOf_middle _ hs, unsentOf_middle _ ht, if_neg hne, if_neg hne]

/-- A step of a `replyLoop`. -/
theorem Intact.loop_step (h : Intact events s) (hi : Invariant family s) (hi' : Invariant family t)
    (hs : s.replyLoops = pre ++ ⟨x, stage⟩ :: post) (ht : t.replyLoops = pre ++ ⟨x, stage'⟩ :: post)
    (hrun : t.run = s.run) (hclosed : ∀ conn ∈ t.closed, conn ∈ s.closed ∨ ¬ s.AboutToWrite conn)
    (hreceived : receivedOf (a :: events) = receivedOf events)
    (hwritten : writtenOf (a :: events) = writtenOf events)
    (hsilent : ∀ conn, conn ≠ x.proxyConn → Silent a events conn) (hstage : stage'.Whole)
    (hreplies : (readOf x.proxyConn events).map (fun bytes => (x.clientAddr, bytes))
        = stage.unsent.map (fun bytes => (x.clientAddr, bytes)) ++ sentOf x.proxyConn events →
      (readOf x.proxyConn (a :: events)).map (fun bytes => (x.clientAddr, bytes))
        = stage'.unsent.map (fun bytes => (x.clientAddr, bytes)) ++ sentOf x.proxyConn
        (a :: events)) :
    Intact (a :: events) t := by
  have hsessions := sessions_replace hs ht
  have hx : x ∈ s.sessions := by
    rw [sessions, hs]
    exact List.mem_map.mpr ⟨_, List.mem_append_right _ List.mem_cons_self, rfl⟩
  refine ⟨⟨?_, fun y hy => ?_⟩, fun conn habout hmem => ?_, hrun ▸ h.run, fun l hl => ?_,
    fun conn hconn => ?_⟩
  · rw [hreceived, hwritten, hrun]
    exact h.relayed.datagrams
  · rw [hsessions] at hy
    have hold := h.relayed.replies y hy
    by_cases hconn : y.proxyConn = x.proxyConn
    · obtain rfl := hi.session_eq hy hx hconn
      rw [hi.unsentOf_own hs] at hold
      rw [hi'.unsentOf_own ht]
      exact hreplies hold
    · rw [(hsilent _ hconn).1, (hsilent _ hconn).2, unsentOf_other (Ne.symm hconn) hs ht]
      exact hold
  · have habout : s.AboutToWrite conn := by rwa [AboutToWrite, ← hrun]
    rcases hclosed conn hmem with hold | hnot
    · exact h.held conn habout hold
    · exact hnot habout
  · rw [ht] at hl
    rcases List.mem_append.mp hl with hl | hl
    · exact h.loops l (hs ▸ List.mem_append_left _ hl)
    · rcases List.mem_cons.mp hl with rfl | hl
      · exact hstage
      · exact h.loops l (hs ▸ List.mem_append_right _ (List.mem_cons_of_mem _ hl))
  · rw [hsessions] at hconn
    have hne : conn ≠ x.proxyConn := fun he => hconn x hx he.symm
    rw [(hsilent _ hne).1, (hsilent _ hne).2]
    exact h.unused conn hconn

/-- A loop goes on without reading, sending or closing. -/
theorem Intact.loop_silent (h : Intact events s) (hi : Invariant family s)
    (hi' : Invariant family t) (ha : a = .silent ∨ ∃ conn, a = .removed conn)
    (hs : s.replyLoops = pre ++ ⟨x, stage⟩ :: post) (ht : t.replyLoops = pre ++ ⟨x, stage'⟩ :: post)
    (hrun : t.run = s.run) (hclosed : t.closed = s.closed)
    (hunsent : stage.unsent = []) (hstage : stage'.Whole) (hunsent' : stage'.unsent = []) :
    Intact (a :: events) t := by
  obtain ⟨hreceived, hwritten, hsilent⟩ : receivedOf (a :: events) = receivedOf events ∧
      writtenOf (a :: events) = writtenOf events ∧ ∀ conn, Silent a events conn := by
    rcases ha with rfl | ⟨conn, rfl⟩ <;> exact ⟨rfl, rfl, fun _ => ⟨rfl, rfl⟩⟩
  refine h.loop_step hi hi' hs ht hrun (fun conn hconn => .inl (hclosed ▸ hconn)) hreceived hwritten
    (fun conn _ => hsilent conn) hstage fun hold => ?_
  rw [(hsilent _).1, (hsilent _).2, hunsent', ← hunsent]
  exact hold

/-- `Run` goes on with the datagram that it has, or without one. -/
theorem Intact.run_silent (h : Intact events s) (hloops : t.replyLoops = s.replyLoops)
    (hclosed : t.closed = s.closed) (hunwritten : t.run.unwritten = s.run.unwritten)
    (hheld : ∀ conn, t.AboutToWrite conn → conn ∉ s.closed) (hrun : t.run.Whole) :
    Intact (.silent :: events) t :=
  h.run_step (fun _ => ⟨rfl, rfl⟩) hloops hclosed (hunwritten ▸ h.relayed.datagrams) hheld hrun

/-- A socket with an entry is open. -/
theorem Invariant.isOpen (hi : Invariant family s) {key : ConnTrackKey} {conn : Nat}
    (hlookup : s.connTrackTable.lookup key = some conn) : conn ∉ s.closed := by
  intro hclosed
  obtain ⟨l, hl, hlive, -, rfl⟩ := (hi.table _ _).mp hlookup
  obtain ⟨l', hl', hstage, hconn⟩ := hi.closed _ hclosed
  obtain ⟨pre, post, hs⟩ := List.append_of_mem hl
  rw [hs] at hl'
  rcases List.mem_append.mp hl' with hl' | hl'
  · exact hi.other hs l' (List.mem_append_left _ hl') hconn
  · rcases List.mem_cons.mp hl' with rfl | hl'
    · rw [hstage] at hlive
      exact hlive
    · exact hi.other hs l' (List.mem_append_right _ hl') hconn

/-- A new session: its socket is open, and nothing was read from it. -/
theorem Intact.insert (h : Intact events s) (hi : Invariant family s) {d : Datagram} {conn : Nat}
    (hrun : s.run = .dialed d conn) :
    Intact (.silent :: events)
      { s with
        connTrackTable := s.connTrackTable.insert (newConnTrackKey d.source) conn
        run := .found d conn
        replyLoops := ⟨⟨conn, d.source, newConnTrackKey d.source⟩, .reading⟩ :: s.replyLoops } := by
  have hfits := hi.run
  have hwhole := h.run
  have hdatagrams := h.relayed.datagrams
  rw [hrun] at hfits hwhole hdatagrams
  obtain ⟨-, -, -, hfree⟩ := hfits
  refine ⟨⟨hdatagrams, fun y hy => ?_⟩, fun conn' habout hmem => ?_, hwhole, fun l hl => ?_,
    fun conn' hconn => ?_⟩
  · have hunsent : ∀ c, unsentOf c { s with
        connTrackTable := s.connTrackTable.insert (newConnTrackKey d.source) conn
        run := .found d conn
        replyLoops := ⟨⟨conn, d.source, newConnTrackKey d.source⟩, .reading⟩ :: s.replyLoops }
          = unsentOf c s := by
      intro c
      show (if conn = c then [] else []) ++ unsentOf c s = unsentOf c s
      rw [ite_self, List.nil_append]
    rw [hunsent]
    rcases List.mem_cons.mp hy with rfl | hy
    · obtain ⟨hread, hsent⟩ := h.unused conn hfree
      have hnone : unsentOf conn s = [] := List.flatMap_eq_nil_iff.mpr fun l hl =>
        if_neg (hfree l.session (List.mem_map_of_mem hl))
      show (readOf conn events).map _ = (unsentOf conn s).map _ ++ sentOf conn events
      rw [hread, hsent, hnone]
      rfl
    · exact h.relayed.replies y hy
  · obtain ⟨d', hfound | hwriting⟩ := habout
    · obtain ⟨rfl, rfl⟩ := RunStage.found.inj hfound
      obtain ⟨l, hl, -, hconn⟩ := hi.closed _ hmem
      exact hfree _ (List.mem_map_of_mem hl) hconn
    · exact nomatch hwriting
  · rcases List.mem_cons.mp hl with rfl | hl
    · trivial
    · exact h.loops l hl
  · exact h.unused conn' fun y hy => hconn y (List.mem_cons_of_mem _ hy)

theorem not_aboutToWrite {conn : Nat} (hfound : ∀ d, t.run ≠ .found d conn)
    (hwriting : ∀ d, t.run ≠ .writing d conn 0) : ¬ t.AboutToWrite conn := by
  intro ⟨d, h⟩
  exact h.elim (hfound d) (hwriting d)

/-- Where `Run` is not about to write no socket has to be open. -/
theorem Intact.run_quiet (h : Intact events s) (hloops : t.replyLoops = s.replyLoops)
    (hclosed : t.closed = s.closed) (hunwritten : t.run.unwritten = s.run.unwritten)
    (hnot : ∀ conn, ¬ t.AboutToWrite conn) (hrun : t.run.Whole) : Intact (.silent :: events) t :=
  h.run_silent hloops hclosed hunwritten (fun conn habout => absurd habout (hnot conn)) hrun

theorem unwritten_written {d : Datagram} (conn : Nat) (hbytes : d.data ≠ []) :
    (RunStage.writing d conn d.data.length).unwritten = [] :=
  if_neg (mt List.length_eq_zero_iff.mp hbytes)

theorem unsent_delivered {readBuf : List UInt8} (hbytes : readBuf ≠ []) :
    (ReplyStage.delivering readBuf readBuf.length).unsent = [] :=
  if_neg (mt List.length_eq_zero_iff.mp hbytes)

/-- All of a datagram is written at once. -/
theorem Intact.write (h : Intact events s) {d : Datagram} {conn i : Nat}
    (hrun : s.run = .writing d conn i) (hne : i ≠ d.data.length) :
    Intact (.written conn d (d.data.drop i) :: events)
      { s with run := .writing d conn d.data.length } := by
  have hwhole := h.run
  have hdatagrams := h.relayed.datagrams
  rw [hrun] at hwhole hdatagrams
  obtain ⟨hbytes, hi0⟩ : d.data ≠ [] ∧ (i = 0 ∨ i = d.data.length) := hwhole
  obtain rfl : i = 0 := hi0.resolve_right hne
  refine h.run_step (fun _ => ⟨rfl, rfl⟩) rfl rfl ?_ (fun conn' habout => ?_) ⟨hbytes, .inr rfl⟩
  · show (receivedOf events).map _
      = (RunStage.writing d conn d.data.length).unwritten.map _ ++ (d, d.data.drop 0)
      :: writtenOf events
    rw [unwritten_written conn hbytes, hdatagrams]
    rfl
  · obtain ⟨d', hfound | hwriting⟩ := habout
    · exact nomatch hfound
    · obtain ⟨-, -, he⟩ := RunStage.writing.inj hwriting
      exact absurd he.symm hne

theorem Intact.read (h : Intact events s) (hi : Invariant family s) (hi' : Invariant family t)
    {readBuf : List UInt8} (hs : s.replyLoops = pre ++ ⟨x, .reading⟩ :: post)
    (ht : t = { s with replyLoops := pre ++ ⟨x, .delivering readBuf 0⟩ :: post })
    (hbytes : readBuf ≠ []) : Intact (.read x.proxyConn readBuf :: events) t := by
  subst ht
  refine h.loop_step hi hi' hs rfl rfl (fun conn hconn => .inl hconn) rfl rfl (fun conn hne => ?_)
    ⟨hbytes, .inl rfl⟩ fun hold => ?_
  · exact ⟨by simp [readOf, Ne.symm hne], rfl⟩
  · have hread : readOf x.proxyConn (.read x.proxyConn readBuf :: events)
        = readBuf :: readOf x.proxyConn events := by simp [readOf]
    rw [hread, List.map_cons, hold]
    rfl

/-- All of a reply is sent at once. -/
theorem Intact.deliver (h : Intact events s) (hi : Invariant family s) (hi' : Invariant family t)
    {readBuf : List UInt8} {i : Nat} (hs : s.replyLoops = pre ++ ⟨x, .delivering readBuf i⟩ :: post)
    (ht : t = { s with replyLoops := pre ++ ⟨x, .delivering readBuf readBuf.length⟩ :: post })
    (hne : i ≠ readBuf.length) :
    Intact (.sent x.proxyConn x.clientAddr (readBuf.drop i) :: events) t := by
  subst ht
  obtain ⟨hbytes, hi0⟩ : readBuf ≠ [] ∧ (i = 0 ∨ i = readBuf.length) := h.whole hs
  obtain rfl : i = 0 := hi0.resolve_right hne
  refine h.loop_step hi hi' hs rfl rfl (fun conn hconn => .inl hconn) rfl rfl
    (fun conn hother => ?_) ⟨hbytes, .inr rfl⟩ fun hold => ?_
  · exact ⟨rfl, by simp [sentOf, Ne.symm hother]⟩
  · have hsent : sentOf x.proxyConn (.sent x.proxyConn x.clientAddr (readBuf.drop 0) :: events)
        = (x.clientAddr, readBuf) :: sentOf x.proxyConn events := by simp [sentOf]
    rw [unsent_delivered hbytes, hsent]
    exact hold

/-- **What one step keeps.** -/
theorem Intact.step (h : Intact events s) (hi : Invariant family s) (hkeeps : Keeps s a)
    (hstep : Relays family s a t) : Intact (a :: events) t := by
  have hi' := hi.step hstep.step
  have hwhole := h.run
  have hdatagrams := h.relayed.datagrams
  cases hstep with
  | @receive d hrun =>
    rw [hrun] at hdatagrams
    refine h.run_step (fun _ => ⟨rfl, rfl⟩) rfl rfl ?_ (fun conn habout => ?_) hkeeps
    · exact congrArg ((d, d.data) :: ·) hdatagrams
    · exact absurd habout (not_aboutToWrite (fun _ => nofun) fun _ => nofun)
  | lock hrun =>
    rw [hrun] at hwhole
    exact h.run_quiet rfl rfl (by rw [hrun]; rfl) (fun _ => not_aboutToWrite (fun _ => nofun)
      fun _ => nofun) hwhole
  | hit hrun hlookup =>
    rw [hrun] at hwhole
    refine h.run_silent rfl rfl (by rw [hrun]; rfl) (fun conn habout => ?_) hwhole
    obtain ⟨d', hfound | hwriting⟩ := habout
    · obtain ⟨rfl, rfl⟩ := RunStage.found.inj hfound
      exact hi.isOpen hlookup
    · exact nomatch hwriting
  | dial hrun hlookup =>
    rw [hrun] at hwhole
    exact h.run_quiet rfl rfl (by rw [hrun]; rfl) (fun _ => not_aboutToWrite (fun _ => nofun)
      fun _ => nofun) hwhole
  | insert hrun => exact h.insert hi hrun
  | @unlock d conn hrun =>
    rw [hrun] at hwhole
    refine h.run_silent rfl rfl (by rw [hrun]; rfl) (fun conn' habout => ?_) ⟨hwhole, .inl rfl⟩
    obtain ⟨d', hfound | hwriting⟩ := habout
    · exact nomatch hfound
    · obtain ⟨rfl, rfl, -⟩ := RunStage.writing.inj hwriting
      exact h.held _ ⟨_, .inl hrun⟩
  | write hrun hne => exact h.write hrun hne
  | writeClosed hrun hne hclosed =>
    rw [hrun] at hwhole
    obtain ⟨-, rfl | rfl⟩ := hwhole
    · exact absurd hclosed (h.held _ ⟨_, .inr hrun⟩)
    · exact absurd rfl hne
  | @written d conn hrun =>
    rw [hrun] at hwhole
    refine h.run_quiet rfl rfl ?_ (fun _ => not_aboutToWrite (fun _ => nofun) fun _ =>
      nofun) trivial
    rw [hrun]
    exact (unwritten_written conn hwhole.1).symm
  | read readBuf hs => exact h.read hi hi' hs rfl hkeeps
  | refused => exact ⟨⟨hdatagrams, h.relayed.replies⟩, h.held, h.run, h.loops, h.unused⟩
  | expire hs => exact h.loop_silent hi hi' (.inl rfl) hs rfl rfl rfl rfl trivial rfl
  | deliver hs hne => exact h.deliver hi hi' hs rfl hne
  | @delivered pre post x readBuf hs =>
    obtain ⟨hbytes, -⟩ : readBuf ≠ [] ∧ (readBuf.length = 0 ∨ readBuf.length = readBuf.length) :=
      h.whole hs
    exact h.loop_silent hi hi' (.inl rfl) hs rfl rfl rfl (unsent_delivered hbytes) trivial rfl
  | acquire hs => exact h.loop_silent hi hi' (.inl rfl) hs rfl rfl rfl rfl trivial rfl
  | remove hs => exact h.loop_silent hi hi' (.inr ⟨_, rfl⟩) hs rfl rfl rfl rfl trivial rfl
  | release hs => exact h.loop_silent hi hi' (.inl rfl) hs rfl rfl rfl rfl trivial rfl
  | @close pre post x hs =>
    refine h.loop_step hi hi' hs rfl rfl (fun conn hconn => ?_) rfl rfl
      (fun _ _ => ⟨rfl, rfl⟩) trivial id
    rcases List.mem_cons.mp hconn with rfl | hconn
    · exact .inr hkeeps
    · exact .inl hconn

end Intact

/-! ## Runs -/

/-- **Every datagram once.**  In a run in which what comes in has bytes, and no loop closes a socket
that `Run` is about to write to, nothing is lost, changed or sent twice. -/
theorem datagrams_relayed_once (family : IPVersion) (events : List Activity) (s : UDPProxy)
    (h : Runs (Relays family) Keeps init events s) : RelayedOnce events s :=
  (h.invariant (I := fun events s => Invariant family s ∧ Intact events s)
    ⟨invariant_init, intact_init⟩
    fun ⟨hi, hintact⟩ hkeeps hstep => ⟨hi.step hstep.step, hintact.step hi hkeeps hstep⟩).2.relayed

theorem keeping_step {family : IPVersion} {events : List Activity} {s t u : UDPProxy} {a : Activity}
    (h : Runs (Relays family) Keeps s events t) (hstep : Relays family t a u) (hkeeps : Keeps t a) :
    Runs (Relays family) Keeps s (a :: events) u := h.step hkeeps hstep

/-- A datagram and its reply are relayed. -/
theorem datagrams_relayed_once_hello : ∃ events s,
    receivedOf events = [hello] ∧ writtenOf events = [(hello, hello.data)] ∧
      readOf 0 events = [[111, 107]] ∧ RelayedOnce events s := by
  have hreceived : Runs (Relays .ipv4) Keeps init _ _ :=
    keeping_step .refl (.receive (d := hello) rfl rfl (by decide)) (List.cons_ne_nil _ _)
  have hlocked := keeping_step hreceived (.lock rfl rfl) trivial
  have hdialed := keeping_step hlocked (.dial rfl rfl) trivial
  have hfound := keeping_step hdialed (.insert rfl) trivial
  have hwriting := keeping_step hfound (.unlock rfl) trivial
  have hwritten := keeping_step hwriting (.write rfl (by decide) (by decide) (by decide)) trivial
  have hback := keeping_step hwritten (.written rfl) trivial
  have hread := keeping_step hback (.read [111, 107] (show _ = [] ++ _ from rfl)
    (by decide) (by decide)) (List.cons_ne_nil _ _)
  have hsent := keeping_step hread (.deliver (show _ = [] ++ _ from rfl) (by decide)
    (by decide)) trivial
  exact ⟨_, _, rfl, rfl, rfl, datagrams_relayed_once .ipv4 _ _ hsent⟩

/-- The client of `hello` sends a datagram without bytes. -/
def empty : Datagram := ⟨hello.source, []⟩

/-- It is not written. -/
theorem not_relayed_once :
    ¬ ∀ (family : IPVersion) (events : List Activity) (s : UDPProxy),
      Runs (Relays family) (fun _ _ => True) init events s → RelayedOnce events s := by
  intro h
  have hrun : Runs (Relays .ipv4) (fun _ _ => True) init _ _ :=
    (((((Runs.refl.step trivial (.receive (d := empty) rfl rfl (by decide))).step trivial
      (.lock rfl rfl)).step trivial (.dial rfl rfl)).step trivial (.insert rfl)).step trivial
      (.unlock rfl)).step trivial (.written rfl)
  exact nomatch (h .ipv4 _ _ hrun).datagrams

end UDPProxy

end ContainerDesktop.PortForwarder
