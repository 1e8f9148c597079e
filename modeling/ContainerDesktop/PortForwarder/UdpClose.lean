import ContainerDesktop.PortForwarder.UdpProxy
import Mathlib.Algebra.GroupWithZero.Nat

/-!
# Closing the UDP proxy

`Close` closes the listener and then, with the lock, every socket of the table.  `Run` and the
`replyLoop`s find out by their next call on a socket that is closed, and may be anywhere
when it happens: `Run` can have a datagram from before, and dial a socket for it after the
sweep.

That socket is the only one: `only_last_left_open`.  The lock is always free or held by
somebody who goes on, so nobody waits for good, and what is left to do after the listener is
closed is bounded.  `close_drains` says that the proxy comes to rest with everything closed.
-/

namespace ContainerDesktop.PortForwarder

/-- Where `Close` is. -/
inductive CloseStage where
  | notCalled
  | listenerClosed
  /-- With the lock, and the sockets that the loop has before it. -/
  | sweeping (conns : List Nat)
  | returned

/-- The proxy while `Close` runs.  The sockets in `swept` were closed by it. -/
structure Closing where
  proxy : UDPProxy
  close : CloseStage
  swept : List Nat

/-- What a step is for the one who waits for the end. -/
inductive Effort where
  | works
  /-- A `Read` of this socket returns, and the loop reads on. -/
  | hears (conn : Nat)

def Effort.isWork : Effort → Bool
  | works => true
  | hears _ => false

/-- Who has the lock. -/
def RunStage.holds : RunStage → Nat
  | .locked _ | .dialed _ _ | .found _ _ | .failed => 1
  | .reading | .received _ | .writing .. | .stopped => 0

def ReplyStage.holds : ReplyStage → Nat
  | .locked | .removed => 1
  | .reading | .delivering .. | .returned | .unlocked | .closed => 0

def CloseStage.holds : CloseStage → Nat
  | .sweeping _ => 1
  | .notCalled | .listenerClosed | .returned => 0

/-- How many steps are left.  A dialed socket brings a loop with it, and an entry to sweep. -/
def RunStage.work : RunStage → Nat
  | .received _ => 13
  | .locked _ => 12
  | .dialed _ _ => 11
  | .found _ _ => 4
  | .writing d _ i => if i = d.data.length then 2 else 3
  | .failed => 2
  | .reading => 1
  | .stopped => 0

def ReplyStage.work : ReplyStage → Nat
  | .delivering _ _ => 6
  | .reading => 5
  | .returned => 4
  | .locked => 3
  | .removed => 2
  | .unlocked => 1
  | .closed => 0

def CloseStage.work (loops : Nat) : CloseStage → Nat
  | .notCalled => loops + 3
  | .listenerClosed => loops + 2
  | .sweeping conns => conns.length + 1
  | .returned => 0

/-- `Run` has a datagram, and no socket for it in the table. -/
def RunStage.Pending : RunStage → Prop
  | .received _ | .locked _ | .dialed _ _ => True
  | .reading | .found _ _ | .failed | .writing .. | .stopped => False

/-- How many sockets `Run` may dial for the datagram it has. -/
def RunStage.dials : RunStage → Nat
  | .received _ | .locked _ => 1
  | .reading | .dialed _ _ | .found _ _ | .failed | .writing .. | .stopped => 0

namespace Closing

def init : Closing := ⟨.init, .notCalled, []⟩

/-- One step of `Run`, of a `replyLoop` or of `Close`.  A call on a closed socket fails, and a
datagram is written whole. -/
inductive Step (family : IPVersion) (s : Closing) : Effort → Closing → Prop
  | receive {d : Datagram} (h : s.proxy.run = .reading) (hip : d.source.ip.length = family.len)
    (hlistener : s.close = .notCalled) : Step family s .works { s with proxy.run := .received d }
  | receiveFails (h : s.proxy.run = .reading) :
    Step family s .works { s with proxy.run := .stopped }
  | lock {d : Datagram} (h : s.proxy.run = .received d) (hlock : s.proxy.connTrackLock = false) :
    Step family s .works { s with proxy.run := .locked d, proxy.connTrackLock := true }
  | hit {d : Datagram} {conn : Nat} (h : s.proxy.run = .locked d)
    (hlookup : s.proxy.connTrackTable.lookup (newConnTrackKey d.source) = some conn) :
    Step family s .works { s with proxy.run := .found d conn }
  | dial {d : Datagram} (h : s.proxy.run = .locked d)
    (hlookup : s.proxy.connTrackTable.lookup (newConnTrackKey d.source) = none) :
    Step family s .works
    { s with proxy.run := .dialed d s.proxy.conns, proxy.conns := s.proxy.conns + 1 }
  | dialFails {d : Datagram} (h : s.proxy.run = .locked d)
    (hlookup : s.proxy.connTrackTable.lookup (newConnTrackKey d.source) = none) :
    Step family s .works { s with proxy.run := .failed }
  | insert {d : Datagram} {conn : Nat} (h : s.proxy.run = .dialed d conn) :
    Step family s .works
      { s with
        proxy.connTrackTable := s.proxy.connTrackTable.insert (newConnTrackKey d.source) conn
        proxy.run := .found d conn
        proxy.replyLoops := ⟨⟨conn, d.source, newConnTrackKey d.source⟩, .reading⟩
          :: s.proxy.replyLoops }
  | unlock {d : Datagram} {conn : Nat} (h : s.proxy.run = .found d conn) :
    Step family s .works { s with proxy.run := .writing d conn 0, proxy.connTrackLock := false }
  | unlockFailed (h : s.proxy.run = .failed) :
    Step family s .works { s with proxy.run := .reading, proxy.connTrackLock := false }
  | write {d : Datagram} {conn i : Nat} (h : s.proxy.run = .writing d conn i)
    (hi : i < d.data.length) (hopen : conn ∉ s.proxy.closed) (hswept : conn ∉ s.swept) :
    Step family s .works { s with proxy.run := .writing d conn d.data.length }
  | writeFails {d : Datagram} {conn i : Nat} (h : s.proxy.run = .writing d conn i)
    (hi : i ≠ d.data.length) : Step family s .works { s with proxy.run := .reading }
  | written {d : Datagram} {conn : Nat} (h : s.proxy.run = .writing d conn d.data.length) :
    Step family s .works { s with proxy.run := .reading }
  | read {pre post : List ReplyLoop} {x : Session} (readBuf : List UInt8)
    (h : s.proxy.replyLoops = pre ++ ⟨x, .reading⟩ :: post) (hopen : x.proxyConn ∉ s.proxy.closed)
    (hswept : x.proxyConn ∉ s.swept) :
    Step family s (.hears x.proxyConn)
    { s with proxy.replyLoops := pre ++ ⟨x, .delivering readBuf 0⟩ :: post }
  | refused {pre post : List ReplyLoop} {x : Session}
    (h : s.proxy.replyLoops = pre ++ ⟨x, .reading⟩ :: post) (hswept : x.proxyConn ∉ s.swept) :
    Step family s (.hears x.proxyConn) s
  | readFails {pre post : List ReplyLoop} {x : Session}
    (h : s.proxy.replyLoops = pre ++ ⟨x, .reading⟩ :: post) :
    Step family s .works { s with proxy.replyLoops := pre ++ ⟨x, .returned⟩ :: post }
  | deliver {pre post : List ReplyLoop} {x : Session} {readBuf : List UInt8} {i : Nat}
    (h : s.proxy.replyLoops = pre ++ ⟨x, .delivering readBuf i⟩ :: post) (hi : i < readBuf.length)
    (hlistener : s.close = .notCalled) :
    Step family s .works
      { s with proxy.replyLoops := pre ++ ⟨x, .delivering readBuf readBuf.length⟩ :: post }
  | deliverFails {pre post : List ReplyLoop} {x : Session} {readBuf : List UInt8} {i : Nat}
    (h : s.proxy.replyLoops = pre ++ ⟨x, .delivering readBuf i⟩ :: post) (hi : i ≠ readBuf.length) :
    Step family s .works { s with proxy.replyLoops := pre ++ ⟨x, .returned⟩ :: post }
  | delivered {pre post : List ReplyLoop} {x : Session} {readBuf : List UInt8}
    (h : s.proxy.replyLoops = pre ++ ⟨x, .delivering readBuf readBuf.length⟩ :: post) :
    Step family s .works { s with proxy.replyLoops := pre ++ ⟨x, .reading⟩ :: post }
  | acquire {pre post : List ReplyLoop} {x : Session}
    (h : s.proxy.replyLoops = pre ++ ⟨x, .returned⟩ :: post)
    (hlock : s.proxy.connTrackLock = false) :
    Step family s .works
      { s with proxy.connTrackLock := true, proxy.replyLoops := pre ++ ⟨x, .locked⟩ :: post }
  | remove {pre post : List ReplyLoop} {x : Session}
    (h : s.proxy.replyLoops = pre ++ ⟨x, .locked⟩ :: post) : Step family s .works
      { s with
        proxy.connTrackTable := s.proxy.connTrackTable.erase x.clientKey
        proxy.replyLoops := pre ++ ⟨x, .removed⟩ :: post }
  | release {pre post : List ReplyLoop} {x : Session}
    (h : s.proxy.replyLoops = pre ++ ⟨x, .removed⟩ :: post) : Step family s .works
      { s with proxy.connTrackLock := false, proxy.replyLoops := pre ++ ⟨x, .unlocked⟩ :: post }
  | close {pre post : List ReplyLoop} {x : Session}
    (h : s.proxy.replyLoops = pre ++ ⟨x, .unlocked⟩ :: post) : Step family s .works
      { s with
        proxy.closed := x.proxyConn :: s.proxy.closed
        proxy.replyLoops := pre ++ ⟨x, .closed⟩ :: post }
  | closeListener (h : s.close = .notCalled) :
    Step family s .works { s with close := .listenerClosed }
  /-- The loop meets the entries in any order. -/
  | closeLocks {conns : List Nat} (h : s.close = .listenerClosed)
    (hlock : s.proxy.connTrackLock = false)
    (hconns : conns.Perm (s.proxy.connTrackTable.entries.map Sigma.snd)) :
    Step family s .works { s with close := .sweeping conns, proxy.connTrackLock := true }
  | sweep {conn : Nat} {conns : List Nat} (h : s.close = .sweeping (conn :: conns)) :
    Step family s .works { s with close := .sweeping conns, swept := conn :: s.swept }
  | closeReturns (h : s.close = .sweeping []) :
    Step family s .works { s with close := .returned, proxy.connTrackLock := false }

/-- Without `Close`, this is a step of the proxy. -/
theorem Step.proxy {family : IPVersion} {s t : Closing} {e : Effort} (h : Step family s e t) :
    (∃ event, UDPProxy.Step family s.proxy event t.proxy) ∨
      ∃ lock, t.proxy = { s.proxy with connTrackLock := lock } := by
  cases h with
  | receive h hip => exact .inl ⟨_, .receive h hip⟩
  | receiveFails h => exact .inl ⟨_, .receiveFails h⟩
  | lock h hlock => exact .inl ⟨_, .lock h hlock⟩
  | hit h hlookup => exact .inl ⟨_, .hit h hlookup⟩
  | dial h hlookup => exact .inl ⟨_, .dial h hlookup⟩
  | dialFails h hlookup => exact .inl ⟨_, .dialFails h hlookup⟩
  | insert h => exact .inl ⟨_, .insert h⟩
  | unlock h => exact .inl ⟨_, .unlock h⟩
  | unlockFailed h => exact .inl ⟨_, .unlockFailed h⟩
  | @write d conn i h hi hopen =>
    have hstep : UDPProxy.Step family s.proxy _ _ :=
      UDPProxy.Step.write (d.data.length - i) h (by omega) (by omega) hopen
    rw [Nat.add_sub_cancel' (by omega)] at hstep
    exact .inl ⟨_, hstep⟩
  | writeFails h hi => exact .inl ⟨_, .writeFails h hi⟩
  | written h => exact .inl ⟨_, .written h⟩
  | read readBuf h hopen => exact .inl ⟨_, .read readBuf h hopen⟩
  | refused h => exact .inl ⟨_, .refused h⟩
  | readFails h => exact .inl ⟨_, .readFails h⟩
  | @deliver pre post x readBuf i h hi =>
    have hstep : UDPProxy.Step family s.proxy _ _ :=
      UDPProxy.Step.deliver (readBuf.length - i) h (by omega) (by omega)
    rw [Nat.add_sub_cancel' (by omega)] at hstep
    exact .inl ⟨_, hstep⟩
  | deliverFails h hi => exact .inl ⟨_, .deliverFails h hi⟩
  | delivered h => exact .inl ⟨_, .delivered h⟩
  | acquire h hlock => exact .inl ⟨_, .acquire h hlock⟩
  | remove h => exact .inl ⟨_, .remove h⟩
  | release h => exact .inl ⟨_, .release h⟩
  | close h => exact .inl ⟨_, .close h⟩
  | closeListener | sweep => exact .inr ⟨s.proxy.connTrackLock, rfl⟩
  | closeLocks => exact .inr ⟨true, rfl⟩
  | closeReturns => exact .inr ⟨false, rfl⟩

/-! ## The invariant -/

/-- What the loops add up to. -/
def total (f : ReplyStage → Nat) (loops : List ReplyLoop) : Nat :=
  (loops.map fun l => f l.stage).sum

def holders (s : Closing) : Nat :=
  s.proxy.run.holds + total ReplyStage.holds s.proxy.replyLoops + s.close.holds

/-- What is left to do. -/
def work (s : Closing) : Nat :=
  s.proxy.run.work + total ReplyStage.work s.proxy.replyLoops
    + s.close.work s.proxy.replyLoops.length

/-- Where the sockets of the table are, for the loop of `Close`. -/
def Swept (s : Closing) : CloseStage → Prop
  | .notCalled | .listenerClosed => True
  | .sweeping conns =>
    ∀ key conn, s.proxy.connTrackTable.lookup key = some conn → conn ∈ conns ∨ conn ∈ s.swept
  | .returned => ∀ key conn, s.proxy.connTrackTable.lookup key = some conn →
      conn ∈ s.swept ∨ (conn + 1 = s.proxy.conns ∧ ¬ s.proxy.run.Pending)

/-- Every dialed socket has a session, or is in the hands of `Run`. -/
def Covered (p : UDPProxy) : Prop := ∀ conn < p.conns, (∃ x ∈ p.sessions, x.proxyConn = conn) ∨
  ∃ d, p.run = .dialed d conn

structure Invariant (family : IPVersion) (s : Closing) : Prop where
  proxy : s.proxy.Invariant family
  /-- The lock has one holder, or none. -/
  lock : s.holders = s.proxy.connTrackLock.toNat
  covered : Covered s.proxy
  latest : ∀ d conn, s.proxy.run = .dialed d conn → conn + 1 = s.proxy.conns
  ended : ∀ l ∈ s.proxy.replyLoops, l.stage = .closed → l.session.proxyConn ∈ s.proxy.closed
  swept : s.Swept s.close

section Total

variable {pre post : List ReplyLoop} {x : Session} {stage stage' : ReplyStage}

theorem total_middle (f : ReplyStage → Nat) :
    total f (pre ++ ⟨x, stage⟩ :: post) = f stage + total f (pre ++ post) := by
  simp only [total, List.map_append, List.map_cons, List.sum_append, List.sum_cons]
  omega

theorem length_middle :
    (pre ++ (⟨x, stage⟩ : ReplyLoop) :: post).length = (pre ++ post).length + 1 := by
  simp only [List.length_append, List.length_cons]
  omega

theorem total_cons (f : ReplyStage → Nat) (l : ReplyLoop) (loops : List ReplyLoop) :
    total f (l :: loops) = f l.stage + total f loops := List.sum_cons

end Total

section Invariant

variable {family : IPVersion} {s t : Closing} {e : Effort}

theorem invariant_init (family : IPVersion) : init.Invariant family where
  proxy := UDPProxy.invariant_init
  lock := rfl
  covered := fun _ h => nomatch h
  latest := fun _ _ h => nomatch h
  ended := fun _ h => nomatch h
  swept := trivial

theorem proxy_step (h : s.proxy.Invariant family) (hstep : Step family s e t) :
    t.proxy.Invariant family := by
  rcases hstep.proxy with ⟨event, hproxy⟩ | ⟨lock, hproxy⟩
  · exact h.step hproxy
  · rw [hproxy]
    exact h.run_step h.run lock

/-- Everybody who takes the lock found it free, and gives it back. -/
theorem lock_step (h : s.holders = s.proxy.connTrackLock.toNat) (hstep : Step family s e t) :
    t.holders = t.proxy.connTrackLock.toNat := by
  cases hstep with
  | receive hrun | receiveFails hrun | hit hrun | dial hrun | dialFails hrun | write hrun
  | writeFails hrun
  | written hrun =>
    rw [holders, hrun] at h
    exact h
  | lock hrun hlock =>
    simp only [holders, hrun, hlock, RunStage.holds, Bool.toNat_true, Bool.toNat_false] at h ⊢
    omega
  | insert hrun =>
    simp only [holders, hrun, RunStage.holds, total_cons, ReplyStage.holds] at h ⊢
    omega
  | unlock hrun | unlockFailed hrun =>
    have hle := Bool.toNat_le s.proxy.connTrackLock
    simp only [holders, hrun, RunStage.holds, Bool.toNat_false] at h ⊢
    omega
  | read _ hs | readFails hs | deliver hs | deliverFails hs | delivered hs | close hs =>
    simp only [holders, hs, total_middle, ReplyStage.holds] at h ⊢
    omega
  | refused => exact h
  | closeListener hclose =>
    rw [holders, hclose] at h
    exact h
  | acquire hs hlock =>
    simp only [holders, hs, hlock, total_middle, ReplyStage.holds, Bool.toNat_true,
      Bool.toNat_false] at h ⊢
    omega
  | remove hs =>
    simp only [holders, hs, total_middle, ReplyStage.holds] at h ⊢
    omega
  | release hs =>
    have hle := Bool.toNat_le s.proxy.connTrackLock
    simp only [holders, hs, total_middle, ReplyStage.holds, Bool.toNat_false] at h ⊢
    omega
  | closeLocks hclose hlock =>
    simp only [holders, hclose, hlock, CloseStage.holds, Bool.toNat_true, Bool.toNat_false] at h ⊢
    omega
  | sweep hclose =>
    simp only [holders, hclose, CloseStage.holds] at h ⊢
    omega
  | closeReturns hclose =>
    have hle := Bool.toNat_le s.proxy.connTrackLock
    simp only [holders, hclose, CloseStage.holds, Bool.toNat_false] at h ⊢
    omega

/-- The entries are no more than the loops. -/
theorem entries_length_le {p : UDPProxy} (h : p.Invariant family) :
    p.connTrackTable.entries.length ≤ p.replyLoops.length := by
  have hsub : p.connTrackTable.keys ⊆ p.replyLoops.map (·.session.clientKey) := by
    intro key hkey
    obtain ⟨conn, hlookup⟩ := Option.isSome_iff_exists.mp (AList.lookup_isSome.mpr hkey)
    obtain ⟨l, hl, -, hclient, -⟩ := (h.table key conn).mp hlookup
    exact List.mem_map.mpr ⟨l, hl, hclient⟩
  have hle := (List.subperm_of_subset p.connTrackTable.keys_nodup hsub).length_le
  rwa [AList.keys, List.keys, List.length_map, List.length_map] at hle

/-- Every step uses up work once the listener is closed, but for reads. -/
theorem work_step (hproxy : s.proxy.Invariant family) (hclose : s.close ≠ .notCalled)
    (hstep : Step family s e t) : t.work + e.isWork.toNat ≤ s.work + (!e.isWork).toNat := by
  cases hstep with
  | receive _ _ hlistener | deliver _ _ hlistener | closeListener hlistener =>
    exact absurd hlistener hclose
  | receiveFails hrun | lock hrun | hit hrun | dial hrun | dialFails hrun | unlockFailed hrun =>
    simp only [work, hrun, RunStage.work, Effort.isWork, Bool.toNat_true, Bool.not_true,
      Bool.toNat_false]
    omega
  | insert hrun =>
    have hle : s.close.work (s.proxy.replyLoops.length + 1)
        ≤ s.close.work s.proxy.replyLoops.length + 1 := by
      cases s.close with
      | notCalled | listenerClosed => exact Nat.le_of_eq (Nat.add_right_comm _ _ _)
      | sweeping conns | returned => exact Nat.le_succ _
    simp only [work, hrun, RunStage.work, total_cons, ReplyStage.work, List.length_cons,
      Effort.isWork, Bool.toNat_true, Bool.not_true, Bool.toNat_false]
    omega
  | unlock hrun =>
    simp only [work, hrun, RunStage.work, Effort.isWork, Bool.toNat_true, Bool.not_true,
      Bool.toNat_false]
    split <;> omega
  | write hrun hi =>
    simp only [work, hrun, RunStage.work, Effort.isWork, Bool.toNat_true, Bool.not_true,
      Bool.toNat_false, if_true, if_neg (Nat.ne_of_lt hi)]
    omega
  | writeFails hrun hi =>
    simp only [work, hrun, RunStage.work, Effort.isWork, Bool.toNat_true, Bool.not_true,
      Bool.toNat_false, if_neg hi]
    omega
  | written hrun =>
    simp only [work, hrun, RunStage.work, Effort.isWork, Bool.toNat_true, Bool.not_true,
      Bool.toNat_false, if_true]
    omega
  | read _ hs | readFails hs | deliverFails hs | delivered hs | acquire hs | remove hs
  | release hs | close hs =>
    simp only [work, hs, total_middle, length_middle, ReplyStage.work, Effort.isWork,
      Bool.toNat_true, Bool.not_true, Bool.toNat_false, Bool.not_false]
    omega
  | refused => exact Nat.le_succ _
  | closeLocks hlistener hlock hconns =>
    have hle := entries_length_le hproxy
    have hlength := hconns.length_eq
    rw [List.length_map] at hlength
    simp only [work, hlistener, CloseStage.work, Effort.isWork, Bool.toNat_true, Bool.not_true,
      Bool.toNat_false]
    omega
  | sweep hsweep =>
    simp only [work, hsweep, CloseStage.work, List.length_cons, Effort.isWork, Bool.toNat_true,
      Bool.not_true, Bool.toNat_false]
    omega
  | closeReturns hsweep =>
    simp only [work, hsweep, CloseStage.work, List.length_nil, Effort.isWork, Bool.toNat_true,
      Bool.not_true, Bool.toNat_false]
    omega

/-- Nobody else is at the table while `Close` is. -/
theorem sweeping_alone (h : s.holders = s.proxy.connTrackLock.toNat) {conns : List Nat}
    (hclose : s.close = .sweeping conns) :
    s.proxy.run.holds = 0 ∧ total ReplyStage.holds s.proxy.replyLoops = 0 := by
  have hle := Bool.toNat_le s.proxy.connTrackLock
  simp only [holders, hclose, CloseStage.holds] at h
  omega

/-- A step that puts no socket into the table. -/
theorem swept_mono (h : s.Swept s.close) (hclose : t.close = s.close) (hswept : t.swept = s.swept)
    (hconns : t.proxy.conns = s.proxy.conns) (hpending : t.proxy.run.Pending → s.proxy.run.Pending)
    (htable : ∀ key conn, t.proxy.connTrackTable.lookup key = some conn →
      s.proxy.connTrackTable.lookup key = some conn) : t.Swept t.close := by
  rw [hclose]
  cases hstage : s.close with
  | notCalled | listenerClosed => trivial
  | sweeping conns =>
    rw [hstage] at h
    intro key conn hlookup
    rw [hswept]
    exact h key conn (htable key conn hlookup)
  | returned =>
    rw [hstage] at h
    intro key conn hlookup
    rw [hswept, hconns]
    exact (h key conn (htable key conn hlookup)).imp_right fun ⟨hlast, hno⟩ =>
      ⟨hlast, fun hp => hno (hpending hp)⟩

/-- `Run` goes on to a place where it has a socket, or no datagram. -/
theorem swept_run (h : s.Swept s.close) {r : RunStage} (hr : r.Pending → s.proxy.run.Pending)
    (lock : Bool) : Swept { s with proxy.run := r, proxy.connTrackLock := lock } s.close :=
  swept_mono (t := { s with proxy.run := r, proxy.connTrackLock := lock }) h rfl rfl rfl hr
    fun _ _ h => h

/-- Before `Run` has a socket for its datagram, all the others are swept. -/
theorem swept_of_pending (h : s.Swept .returned) (hpending : s.proxy.run.Pending)
    {key : ConnTrackKey} {conn : Nat}
    (hlookup : s.proxy.connTrackTable.lookup key = some conn) : conn ∈ s.swept :=
  (h key conn hlookup).resolve_right fun ⟨_, hno⟩ => hno hpending

theorem lookup_of_erase {p : UDPProxy} {key key' : ConnTrackKey} {conn : Nat}
    (h : (p.connTrackTable.erase key').lookup key = some conn) :
    p.connTrackTable.lookup key = some conn := by
  by_cases hkey : key = key'
  · rw [hkey, AList.lookup_erase] at h
    exact nomatch h
  · rwa [AList.lookup_erase_ne hkey] at h

theorem swept_step (h : s.Invariant family) (hstep : Step family s e t) : t.Swept t.close := by
  have hswept := h.swept
  cases hstep with
  | receive _ _ hlistener =>
    show Swept _ s.close
    rw [hlistener]
    trivial
  | receiveFails | unlock | unlockFailed | writeFails | written | write | hit | dialFails =>
    refine swept_run hswept ?_ _
    exact False.elim
  | lock hrun => exact swept_run hswept (fun _ => hrun ▸ trivial) true
  | @dial d hrun =>
    have hpending : s.proxy.run.Pending := hrun ▸ trivial
    show Swept _ s.close
    cases hclose : s.close with
    | notCalled | listenerClosed => trivial
    | sweeping conns =>
      have halone := (sweeping_alone h.lock hclose).1
      rw [hrun] at halone
      exact absurd halone Nat.one_ne_zero
    | returned =>
      rw [hclose] at hswept
      exact fun key conn hlookup => .inl (swept_of_pending hswept hpending hlookup)
  | @insert d conn hrun =>
    have hpending : s.proxy.run.Pending := hrun ▸ trivial
    show Swept _ s.close
    cases hclose : s.close with
    | notCalled | listenerClosed => trivial
    | sweeping conns =>
      have halone := (sweeping_alone h.lock hclose).1
      rw [hrun] at halone
      exact absurd halone Nat.one_ne_zero
    | returned =>
      rw [hclose] at hswept
      intro key conn' hlookup
      by_cases hkey : key = newConnTrackKey d.source
      · have hlast := h.latest d conn hrun
        rw [hkey, AList.lookup_insert] at hlookup
        exact .inr ⟨Option.some.inj hlookup ▸ hlast, id⟩
      · rw [AList.lookup_insert_ne hkey] at hlookup
        exact .inl (swept_of_pending hswept hpending hlookup)
  | read | readFails | deliver | deliverFails | delivered | acquire | release | close =>
    exact swept_mono hswept rfl rfl rfl id fun _ _ h => h
  | refused => exact hswept
  | remove => exact swept_mono hswept rfl rfl rfl id fun _ _ h => lookup_of_erase h
  | closeListener => trivial
  | closeLocks _ _ hconns =>
    intro key conn hlookup
    have hmem : conn ∈ s.proxy.connTrackTable.entries.map Sigma.snd :=
      List.mem_map.mpr ⟨⟨key, conn⟩, AList.mem_lookup_iff.mp hlookup, rfl⟩
    exact .inl (hconns.mem_iff.mpr hmem)
  | sweep hclose =>
    rw [hclose] at hswept
    intro key conn hlookup
    rcases hswept key conn hlookup with hmem | hmem
    · rcases List.mem_cons.mp hmem with rfl | hmem
      · exact .inr List.mem_cons_self
      · exact .inl hmem
    · exact .inr (List.mem_cons_of_mem _ hmem)
  | closeReturns hclose =>
    rw [hclose] at hswept
    exact fun key conn hlookup => .inl ((hswept key conn hlookup).resolve_left List.not_mem_nil)

theorem covered_congr {p q : UDPProxy} (h : Covered p) (hsessions : q.sessions = p.sessions)
    (hconns : q.conns = p.conns)
    (hrun : ∀ d conn, p.run = .dialed d conn → q.run = .dialed d conn) : Covered q := by
  intro conn hconn
  rw [hsessions]
  exact (h conn (hconns ▸ hconn)).imp_right fun ⟨d, hd⟩ => ⟨d, hrun d conn hd⟩

theorem covered_step (h : Covered s.proxy) (hstep : Step family s e t) : Covered t.proxy := by
  cases hstep with
  | receive hrun | receiveFails hrun | lock hrun | hit hrun | dialFails hrun | unlock hrun
  | unlockFailed hrun
  | write hrun | writeFails hrun | written hrun =>
    exact covered_congr h rfl rfl fun d conn hd => nomatch hrun.symm.trans hd
  | @dial d hrun =>
    intro conn hconn
    rcases Nat.lt_succ_iff_lt_or_eq.mp hconn with hlt | rfl
    · exact (h conn hlt).imp_right fun ⟨d', hd⟩ => nomatch hrun.symm.trans hd
    · exact .inr ⟨d, rfl⟩
  | @insert d conn hrun =>
    intro conn' hconn
    rcases h conn' hconn with ⟨x, hx, he⟩ | ⟨d', hd⟩
    · exact .inl ⟨x, List.mem_cons_of_mem _ hx, he⟩
    · cases hrun.symm.trans hd
      exact .inl ⟨_, List.mem_cons_self, rfl⟩
  | read _ hs | readFails hs | deliver hs | deliverFails hs | delivered hs | acquire hs
  | remove hs | release hs
  | close hs => exact covered_congr h (UDPProxy.sessions_replace hs rfl) rfl fun _ _ => id
  | refused | closeListener | closeLocks | sweep | closeReturns => exact h

theorem latest_step (h : ∀ d conn, s.proxy.run = .dialed d conn → conn + 1 = s.proxy.conns)
    (hstep : Step family s e t) :
    ∀ d conn, t.proxy.run = .dialed d conn → conn + 1 = t.proxy.conns := by
  cases hstep with
  | receive | receiveFails | lock | hit | dialFails | insert | unlock | unlockFailed | write
  | writeFails | written =>
    exact fun _ _ hrun => nomatch hrun
  | dial =>
    intro d conn hrun
    cases hrun
    rfl
  | read | readFails | deliver | deliverFails | delivered | acquire | remove | release | close
  | refused | closeListener | closeLocks | sweep | closeReturns => exact h

theorem ended_replace {p q : UDPProxy} {pre post : List ReplyLoop} {x : Session}
    {stage stage' : ReplyStage}
    (h : ∀ l ∈ p.replyLoops, l.stage = .closed → l.session.proxyConn ∈ p.closed)
    (hs : p.replyLoops = pre ++ ⟨x, stage⟩ :: post) (ht : q.replyLoops = pre ++ ⟨x, stage'⟩ :: post)
    (hclosed : p.closed ⊆ q.closed) (hx : stage' = .closed → x.proxyConn ∈ q.closed) :
    ∀ l ∈ q.replyLoops, l.stage = .closed → l.session.proxyConn ∈ q.closed := by
  intro l hl hstage
  rw [ht] at hl
  rcases List.mem_cons.mp (List.perm_middle.mem_iff.mp hl) with rfl | hl
  · exact hx hstage
  · refine hclosed (h l ?_ hstage)
    rw [hs]
    exact List.perm_middle.mem_iff.mpr (List.mem_cons_of_mem _ hl)

theorem ended_step (h : ∀ l ∈ s.proxy.replyLoops, l.stage = .closed →
      l.session.proxyConn ∈ s.proxy.closed)
    (hstep : Step family s e t) :
    ∀ l ∈ t.proxy.replyLoops, l.stage = .closed → l.session.proxyConn ∈ t.proxy.closed := by
  cases hstep with
  | receive | receiveFails | lock | hit | dial | dialFails | unlock | unlockFailed | write
  | writeFails | written
  | refused | closeListener | closeLocks | sweep | closeReturns => exact h
  | insert =>
    intro l hl hstage
    rcases List.mem_cons.mp hl with rfl | hl
    · exact nomatch hstage
    · exact h l hl hstage
  | read _ hs | readFails hs | deliver hs | deliverFails hs | delivered hs | acquire hs | remove hs
  | release hs => exact ended_replace h hs rfl (List.Subset.refl _) fun hc => nomatch hc
  | close hs => exact ended_replace h hs rfl (List.subset_cons_self _ _) fun _ => List.mem_cons_self

/-- **What one step keeps.** -/
theorem Invariant.step (h : s.Invariant family) (hstep : Step family s e t) :
    t.Invariant family where
  proxy := proxy_step h.proxy hstep
  lock := lock_step h.lock hstep
  covered := covered_step h.covered hstep
  latest := latest_step h.latest hstep
  ended := ended_step h.ended hstep
  swept := swept_step h hstep

end Invariant

/-! ## What should hold -/

/-- Nobody has anything to do but to wait for datagrams. -/
def Stuck (family : IPVersion) (s : Closing) : Prop := ∀ t, ¬ Step family s .works t

/-- Everything is closed, and every goroutine has ended. -/
structure ShutDown (s : Closing) : Prop where
  run : s.proxy.run = .stopped
  close : s.close = .returned
  loops : ∀ l ∈ s.proxy.replyLoops, l.stage = .closed
  table : ∀ key, s.proxy.connTrackTable.lookup key = none
  sockets : ∀ conn < s.proxy.conns, conn ∈ s.proxy.closed
  lock : s.proxy.connTrackLock = false

section Runs

variable {family : IPVersion} {s t : Closing} {events after : List Effort}

abbrev Run (family : IPVersion) : Closing → List Effort → Closing → Prop :=
  Runs (Step family) fun _ _ => True

theorem Run.invariant (h : Run family s events t) (hs : s.Invariant family) : t.Invariant family :=
  Runs.invariant (I := fun _ s => s.Invariant family) h hs fun hi _ hstep => hi.step hstep

/-- A loop that cannot go on waits for the lock, or has ended. -/
theorem Stuck.loop (h : s.Stuck family) {l : ReplyLoop} (hl : l ∈ s.proxy.replyLoops) :
    l.stage = .closed ∨ (l.stage = .returned ∧ s.proxy.connTrackLock = true) := by
  obtain ⟨pre, post, hs⟩ := List.append_of_mem hl
  obtain ⟨x, stage⟩ := l
  cases stage with
  | reading => exact absurd (.readFails hs) (h _)
  | delivering readBuf i =>
    by_cases hi : i = readBuf.length
    · subst hi
      exact absurd (.delivered hs) (h _)
    · exact absurd (.deliverFails hs hi) (h _)
  | returned =>
    cases hlock : s.proxy.connTrackLock with
    | true => exact .inr ⟨rfl, rfl⟩
    | false => exact absurd (.acquire hs hlock) (h _)
  | locked => exact absurd (.remove hs) (h _)
  | removed => exact absurd (.release hs) (h _)
  | unlocked => exact absurd (.close hs) (h _)
  | closed => exact .inl rfl

theorem Stuck.run (h : s.Stuck family) :
    s.proxy.run = .stopped ∨ ∃ d, s.proxy.run = .received d ∧ s.proxy.connTrackLock = true := by
  cases hrun : s.proxy.run with
  | reading => exact absurd (.receiveFails hrun) (h _)
  | received d =>
    cases hlock : s.proxy.connTrackLock with
    | true => exact .inr ⟨d, rfl, rfl⟩
    | false => exact absurd (.lock hrun hlock) (h _)
  | locked d =>
    cases hlookup : s.proxy.connTrackTable.lookup (newConnTrackKey d.source) with
    | none => exact absurd (.dialFails hrun hlookup) (h _)
    | some conn => exact absurd (.hit hrun hlookup) (h _)
  | dialed d conn => exact absurd (.insert hrun) (h _)
  | found d conn => exact absurd (.unlock hrun) (h _)
  | failed => exact absurd (.unlockFailed hrun) (h _)
  | writing d conn i =>
    by_cases hi : i = d.data.length
    · subst hi
      exact absurd (.written hrun) (h _)
    · exact absurd (.writeFails hrun hi) (h _)
  | stopped => exact .inl rfl

theorem Stuck.close (h : s.Stuck family) :
    s.close = .returned ∨ (s.close = .listenerClosed ∧ s.proxy.connTrackLock = true) := by
  cases hclose : s.close with
  | notCalled => exact absurd (.closeListener hclose) (h _)
  | listenerClosed =>
    cases hlock : s.proxy.connTrackLock with
    | true => exact .inr ⟨rfl, rfl⟩
    | false => exact absurd (.closeLocks hclose hlock (List.Perm.refl _)) (h _)
  | sweeping conns =>
    cases conns with
    | nil => exact absurd (.closeReturns hclose) (h _)
    | cons conn conns => exact absurd (.sweep hclose) (h _)
  | returned => exact .inl rfl

/-- Nobody waits for a lock that nobody gives back. -/
theorem Stuck.unlocked (h : s.Stuck family) (hi : s.Invariant family) :
    s.proxy.connTrackLock = false := by
  have hrun : s.proxy.run.holds = 0 := by
    rcases h.run with hrun | ⟨d, hrun, _⟩ <;> rw [hrun] <;> rfl
  have hloops : total ReplyStage.holds s.proxy.replyLoops = 0 := by
    refine List.sum_eq_zero fun n hn => ?_
    obtain ⟨l, hl, rfl⟩ := List.mem_map.mp hn
    rcases h.loop hl with hstage | ⟨hstage, _⟩ <;> rw [hstage] <;> rfl
  have hclose : s.close.holds = 0 := by
    rcases h.close with hclose | ⟨hclose, _⟩ <;> rw [hclose] <;> rfl
  have hlock := hi.lock
  rw [holders, hrun, hloops, hclose] at hlock
  cases hheld : s.proxy.connTrackLock with
  | false => rfl
  | true =>
    rw [hheld] at hlock
    exact absurd hlock Nat.zero_ne_one

theorem Stuck.shutDown (h : s.Stuck family) (hi : s.Invariant family) : s.ShutDown := by
  have hlock := h.unlocked hi
  have hnot : s.proxy.connTrackLock ≠ true :=
    fun he => absurd (hlock.symm.trans he) Bool.false_ne_true
  have hrun : s.proxy.run = .stopped := h.run.resolve_right fun ⟨_, _, he⟩ => hnot he
  have hloops : ∀ l ∈ s.proxy.replyLoops, l.stage = .closed := fun l hl =>
    (h.loop hl).resolve_right fun ⟨_, he⟩ => hnot he
  refine ⟨hrun, h.close.resolve_right fun ⟨_, he⟩ => hnot he, hloops, fun key => ?_,
    fun conn hconn => ?_, hlock⟩
  · cases hlookup : s.proxy.connTrackTable.lookup key with
    | none => rfl
    | some conn =>
      obtain ⟨l, hl, hlive, -⟩ := (hi.proxy.table key conn).mp hlookup
      rw [hloops l hl] at hlive
      exact hlive.elim
  · rcases hi.covered conn hconn with ⟨x, hx, rfl⟩ | ⟨d, hd⟩
    · obtain ⟨l, hl, rfl⟩ := List.mem_map.mp hx
      exact hi.ended l hl (hloops l hl)
    · exact nomatch hrun.symm.trans hd

/-- `Close` is not undone. -/
theorem Step.called (hstep : Step family s e t) (h : s.close ≠ .notCalled) :
    t.close ≠ .notCalled := by
  cases hstep with
  | closeListener | closeLocks | sweep | closeReturns => exact fun he => nomatch he
  | _ => exact h

theorem Step.conns (hstep : Step family s e t) : s.proxy.conns ≤ t.proxy.conns := by
  cases hstep with
  | dial => exact Nat.le_succ _
  | _ => exact Nat.le_refl _

theorem Step.stays_returned (hstep : Step family s e t) (h : s.close = .returned) :
    t.close = .returned := by
  cases hstep with
  | closeListener hclose | closeLocks hclose | sweep hclose | closeReturns hclose =>
    exact nomatch hclose.symm.trans h
  | _ => exact h

/-- Nothing is received any more, so what `Run` has is the last datagram. -/
theorem dials_step (h : s.close = .returned) (hstep : Step family s e t) :
    t.proxy.conns + t.proxy.run.dials ≤ s.proxy.conns + s.proxy.run.dials := by
  cases hstep with
  | receive _ _ hlistener => exact nomatch hlistener.symm.trans h
  | receiveFails hrun | lock hrun | hit hrun | dial hrun | dialFails hrun
  | insert hrun | unlock hrun
  | unlockFailed hrun | write hrun | writeFails hrun | written hrun =>
    simp only [hrun, RunStage.dials]
    omega
  | _ => exact Nat.le_refl _

theorem Run.dials (h : Run family s after t) (hclose : s.close = .returned) :
    t.proxy.conns + t.proxy.run.dials ≤ s.proxy.conns + s.proxy.run.dials := by
  have hboth := Runs.invariant (I := fun _ t => t.close = .returned ∧
    t.proxy.conns + t.proxy.run.dials ≤ s.proxy.conns + s.proxy.run.dials) h ⟨hclose, Nat.le_refl _⟩
    fun ⟨hreturned, hle⟩ _ hstep => ⟨hstep.stays_returned hreturned,
      (dials_step hreturned hstep).trans hle⟩
  exact hboth.2

/-- What `Close` leaves behind. -/
structure LeavesLast (family : IPVersion) (s : Closing) : Prop where
  /-- A loop that goes on has a closed socket, or the one that was dialed last. -/
  live : ∀ l ∈ s.proxy.replyLoops, l.stage.Live → l.session.proxyConn ∈ s.swept ∨
    (l.session.proxyConn + 1 = s.proxy.conns ∧ ¬ s.proxy.run.Pending)
  hears : ∀ conn t, Step family s (.hears conn) t → conn + 1 = s.proxy.conns
  /-- One socket more at most, and none if `Run` has no datagram. -/
  dials : ∀ after t, Run family s after t → t.proxy.conns ≤ s.proxy.conns + s.proxy.run.dials

/-- **When `Close` has returned, one socket at most is still open for its client**, and it is the
one for the datagram that `Run` had. -/
theorem only_last_left_open (h : Run family init events s) (hclose : s.close = .returned) :
    LeavesLast family s := by
  have hi := h.invariant (invariant_init family)
  have hswept := hi.swept
  rw [hclose] at hswept
  have hlive : ∀ l ∈ s.proxy.replyLoops, l.stage.Live → l.session.proxyConn ∈ s.swept ∨
      (l.session.proxyConn + 1 = s.proxy.conns ∧ ¬ s.proxy.run.Pending) := by
    intro l hl hstage
    exact hswept l.session.clientKey l.session.proxyConn
      ((hi.proxy.table _ _).mpr ⟨l, hl, hstage, rfl, rfl⟩)
  have hreads : ∀ {pre post : List ReplyLoop} {x : Session},
    s.proxy.replyLoops = pre ++ ⟨x, .reading⟩ :: post →
      x.proxyConn ∉ s.swept → x.proxyConn + 1 = s.proxy.conns := by
    intro pre post x hs hopen
    exact ((hlive ⟨x, .reading⟩ (hs ▸ List.mem_append_right _ List.mem_cons_self)
      trivial).resolve_left hopen).1
  refine ⟨hlive, fun conn t hstep => ?_, fun after t hrun => ?_⟩
  · cases hstep with
    | read _ hs _ hopen => exact hreads hs hopen
    | refused hs hopen => exact hreads hs hopen
  · have hle := hrun.dials hclose
    omega

/-- **A proxy that is closed comes to rest.**  What it still does is bounded, but for reads from a
socket that is open, and it stops nowhere but where everything is closed. -/
theorem close_drains (h : Run family init events s) (hclose : s.close ≠ .notCalled)
    (hafter : Run family s after t) :
    after.countP Effort.isWork ≤ s.work + after.countP (!Effort.isWork ·) ∧
      (t.Stuck family → t.ShutDown) := by
  have hi := h.invariant (invariant_init family)
  have hbound := Runs.countP_le (I := fun s => s.Invariant family ∧ s.close ≠ .notCalled)
    hafter ⟨hi, hclose⟩
    Effort.isWork work 1 (fun ⟨hi, hclose⟩ _ hstep => ⟨hi.step hstep, hstep.called hclose⟩)
    fun ⟨hi, hclose⟩ _ hstep => (work_step hi.proxy hclose hstep).trans_eq (by rw [Nat.one_mul])
  rw [Nat.one_mul] at hbound
  exact ⟨(Nat.le_add_left _ _).trans hbound.2, fun hstuck => hstuck.shutDown (hafter.invariant hi)⟩

end Runs

/-- `Run` has a datagram when `Close` comes, and dials a socket for it when `Close` has returned. -/
theorem only_last_left_open_late :
    ∃ s : Closing, s.close = .returned ∧ s.proxy.closed = [] ∧ s.swept = [] ∧
    s.proxy.connTrackTable.lookup (newConnTrackKey UDPProxy.hello.source) = some 0 ∧
      LeavesLast .ipv4 s := by
  have hclosed : Run .ipv4 init _ _ :=
    (((Runs.refl.step trivial (.receive (d := UDPProxy.hello) rfl rfl rfl)).step trivial
      (.closeListener rfl)).step
      trivial (.closeLocks rfl rfl (List.Perm.refl _))).step trivial (.closeReturns rfl)
  have hlate := ((hclosed.step trivial (.lock rfl rfl)).step trivial (.dial rfl rfl)).step
    trivial (.insert rfl)
  exact ⟨_, rfl, rfl, rfl, AList.lookup_insert _, only_last_left_open hlate rfl⟩

/-- A session is swept, and the proxy comes to rest. -/
theorem close_drains_swept : ∃ (s t : Closing) (after : List Effort), Run .ipv4 s after t ∧
    after.countP Effort.isWork ≤ s.work + after.countP (!Effort.isWork ·) ∧ t.Stuck .ipv4 ∧
      0 < t.proxy.conns ∧
    t.ShutDown := by
  have hopened : Run .ipv4 init _ _ :=
    ((((((Runs.refl.step trivial (.receive (d := UDPProxy.hello) rfl rfl rfl)).step trivial
      (.lock rfl rfl)).step
      trivial (.dial rfl rfl)).step trivial (.insert rfl)).step trivial (.unlock rfl)).step trivial
      (.write rfl (by decide) (by decide) (by decide))).step trivial (.written rfl)
  have hclosing := hopened.step trivial (.closeListener rfl)
  have hstart : ∀ {events t}, Run .ipv4 init events t → Run .ipv4 t [] t := fun _ => .refl
  have hswept := ((hstart hclosing).step trivial (.closeLocks rfl rfl (List.Perm.refl _))).step
    trivial (.sweep rfl)
  have hi := Run.invariant hclosing (invariant_init .ipv4)
  obtain ⟨after, t, hafter, ⟨-, -, hconns⟩, hstuck⟩ := Runs.exists_end
    (I := fun t => t.Invariant .ipv4 ∧ t.close ≠ .notCalled ∧ 0 < t.proxy.conns)
    (e := .works) hswept ⟨Run.invariant hswept hi, (fun he => nomatch he), Nat.one_pos⟩ work
    (fun ⟨hi, hclose, hconns⟩ _ hstep =>
      ⟨hi.step hstep, hstep.called hclose, Nat.lt_of_lt_of_le hconns hstep.conns⟩)
    fun ⟨hi, hclose, _⟩ _ hstep => work_step hi.proxy hclose hstep
  have hrests : t.Stuck .ipv4 := fun u => hstuck u trivial
  obtain ⟨hbound, hdown⟩ := close_drains hclosing (fun he => nomatch he) hafter
  exact ⟨_, t, after, hafter, hbound, hrests, hconns, hdown hrests⟩

end Closing

end ContainerDesktop.PortForwarder
