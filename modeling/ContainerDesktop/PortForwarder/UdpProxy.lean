import ContainerDesktop.Histories
import ContainerDesktop.PortForwarder.ConnTrack

/-!
# The UDP proxy

`Run` hands each datagram on to a socket that is dialed for its client, and a
`replyLoop` for each of these sockets hands the replies back.  `Run` puts the socket
into the table, when the client has none there; the `replyLoop` takes it out again
by the key and then closes it.  Each does so under the lock, and everything else
they do may come in between.

What a key stands for can change under a `replyLoop` only if someone else takes its
entry out.  Nobody does: a key is free only after the loop that put it there has
removed it, and so `sessions_stay_isolated` holds after every run.
-/

namespace ContainerDesktop.PortForwarder

structure Datagram where
  source : UDPAddr
  data : List UInt8
  deriving DecidableEq

/-- Where `Run` is. -/
inductive RunStage where
  | reading
  /-- Before the lock. -/
  | received (d : Datagram)
  | locked (d : Datagram)
  | dialed (d : Datagram) (conn : Nat)
  /-- With the lock, and the socket to write to. -/
  | found (d : Datagram) (conn : Nat)
  /-- With the lock, and no socket. -/
  | failed
  | writing (d : Datagram) (conn : Nat) (i : Nat)
  | stopped

/-- The arguments of a `replyLoop`. -/
structure Session where
  proxyConn : Nat
  clientAddr : UDPAddr
  clientKey : ConnTrackKey

/-- Where a `replyLoop` is.  From `returned` on it is in its deferred function. -/
inductive ReplyStage where
  | reading
  | delivering (readBuf : List UInt8) (i : Nat)
  | returned
  | locked
  | removed
  | unlocked
  | closed

/-- It has not removed its entry. -/
def ReplyStage.Live : ReplyStage → Prop
  | .reading | .delivering .. | .returned | .locked => True
  | .removed | .unlocked | .closed => False

structure ReplyLoop where
  session : Session
  stage : ReplyStage

/-- The proxy with its goroutines.  Sockets are numbered, and `conns` of them have been dialed. -/
structure UDPProxy where
  connTrackTable : AList fun _ : ConnTrackKey => Nat
  connTrackLock : Bool
  conns : Nat
  closed : List Nat
  run : RunStage
  replyLoops : List ReplyLoop

/-- What goes over the sockets, and the removals of entries. -/
inductive Event where
  | write (conn : Nat) (d : Datagram) (bytes : List UInt8)
  | reply (conn : Nat) (addr : UDPAddr) (bytes : List UInt8)
  | remove (conn : Nat)
  | silent

namespace UDPProxy

def init : UDPProxy := ⟨∅, false, 0, [], .reading, []⟩

def sessions (s : UDPProxy) : List Session := s.replyLoops.map (·.session)

/-- One step of `Run` or of a `replyLoop`.  The entry and the goroutine for it are made in one step,
since the lock is held from before the one till after the other. -/
inductive Step (family : IPVersion) (s : UDPProxy) : Event → UDPProxy → Prop
  | receive {d : Datagram} (h : s.run = .reading) (hip : d.source.ip.length = family.len) :
    Step family s .silent { s with run := .received d }
  | receiveFails (h : s.run = .reading) : Step family s .silent { s with run := .stopped }
  | lock {d : Datagram} (h : s.run = .received d) (hlock : s.connTrackLock = false) :
    Step family s .silent { s with run := .locked d, connTrackLock := true }
  | hit {d : Datagram} {conn : Nat} (h : s.run = .locked d)
    (hlookup : s.connTrackTable.lookup (newConnTrackKey d.source) = some conn) :
    Step family s .silent { s with run := .found d conn }
  | dial {d : Datagram} (h : s.run = .locked d)
    (hlookup : s.connTrackTable.lookup (newConnTrackKey d.source) = none) :
    Step family s .silent { s with run := .dialed d s.conns, conns := s.conns + 1 }
  | dialFails {d : Datagram} (h : s.run = .locked d)
    (hlookup : s.connTrackTable.lookup (newConnTrackKey d.source) = none) :
    Step family s .silent { s with run := .failed }
  | insert {d : Datagram} {conn : Nat} (h : s.run = .dialed d conn) :
    Step family s .silent
      { s with
        connTrackTable := s.connTrackTable.insert (newConnTrackKey d.source) conn
        run := .found d conn
        replyLoops := ⟨⟨conn, d.source, newConnTrackKey d.source⟩, .reading⟩ :: s.replyLoops }
  | unlock {d : Datagram} {conn : Nat} (h : s.run = .found d conn) :
    Step family s .silent { s with run := .writing d conn 0, connTrackLock := false }
  | unlockFailed (h : s.run = .failed) :
    Step family s .silent { s with run := .reading, connTrackLock := false }
  | write {d : Datagram} {conn i : Nat} (written : Nat) (h : s.run = .writing d conn i)
    (hi : i ≠ d.data.length) (hwritten : i + written ≤ d.data.length) (hopen : conn ∉ s.closed) :
    Step family s (.write conn d ((d.data.drop i).take written))
      { s with run := .writing d conn (i + written) }
  | writeFails {d : Datagram} {conn i : Nat} (h : s.run = .writing d conn i)
    (hi : i ≠ d.data.length) : Step family s .silent { s with run := .reading }
  | written {d : Datagram} {conn : Nat} (h : s.run = .writing d conn d.data.length) :
    Step family s .silent { s with run := .reading }
  | read {pre post : List ReplyLoop} {x : Session} (readBuf : List UInt8)
    (h : s.replyLoops = pre ++ ⟨x, .reading⟩ :: post) (hopen : x.proxyConn ∉ s.closed) :
    Step family s .silent { s with replyLoops := pre ++ ⟨x, .delivering readBuf 0⟩ :: post }
  /-- `goto again` after `ECONNREFUSED`. -/
  | refused {pre post : List ReplyLoop} {x : Session}
    (h : s.replyLoops = pre ++ ⟨x, .reading⟩ :: post) : Step family s .silent s
  | readFails {pre post : List ReplyLoop} {x : Session}
    (h : s.replyLoops = pre ++ ⟨x, .reading⟩ :: post) :
    Step family s .silent { s with replyLoops := pre ++ ⟨x, .returned⟩ :: post }
  | deliver {pre post : List ReplyLoop} {x : Session} {readBuf : List UInt8} {i : Nat}
    (written : Nat)
    (h : s.replyLoops = pre ++ ⟨x, .delivering readBuf i⟩ :: post) (hi : i ≠ readBuf.length)
    (hwritten : i + written ≤ readBuf.length) :
    Step family s (.reply x.proxyConn x.clientAddr ((readBuf.drop i).take written))
      { s with replyLoops := pre ++ ⟨x, .delivering readBuf (i + written)⟩ :: post }
  | deliverFails {pre post : List ReplyLoop} {x : Session} {readBuf : List UInt8} {i : Nat}
    (h : s.replyLoops = pre ++ ⟨x, .delivering readBuf i⟩ :: post) (hi : i ≠ readBuf.length) :
    Step family s .silent { s with replyLoops := pre ++ ⟨x, .returned⟩ :: post }
  | delivered {pre post : List ReplyLoop} {x : Session} {readBuf : List UInt8}
    (h : s.replyLoops = pre ++ ⟨x, .delivering readBuf readBuf.length⟩ :: post) :
    Step family s .silent { s with replyLoops := pre ++ ⟨x, .reading⟩ :: post }
  | acquire {pre post : List ReplyLoop} {x : Session}
    (h : s.replyLoops = pre ++ ⟨x, .returned⟩ :: post) (hlock : s.connTrackLock = false) :
    Step family s .silent
      { s with connTrackLock := true, replyLoops := pre ++ ⟨x, .locked⟩ :: post }
  | remove {pre post : List ReplyLoop} {x : Session}
    (h : s.replyLoops = pre ++ ⟨x, .locked⟩ :: post) : Step family s (.remove x.proxyConn)
      { s with
        connTrackTable := s.connTrackTable.erase x.clientKey
        replyLoops := pre ++ ⟨x, .removed⟩ :: post }
  | release {pre post : List ReplyLoop} {x : Session}
    (h : s.replyLoops = pre ++ ⟨x, .removed⟩ :: post) : Step family s .silent
      { s with connTrackLock := false, replyLoops := pre ++ ⟨x, .unlocked⟩ :: post }
  | close {pre post : List ReplyLoop} {x : Session}
    (h : s.replyLoops = pre ++ ⟨x, .unlocked⟩ :: post) : Step family s .silent
      { s with closed := x.proxyConn :: s.closed, replyLoops := pre ++ ⟨x, .closed⟩ :: post }

/-! ## What should hold -/

/-- The socket is the client's: it is open, only datagrams of the client were written to it, and one
`replyLoop` reads it, which has not removed its entry and hands on to the client only. -/
structure Serves (events : List Event) (s : UDPProxy) (conn : Nat) (client : UDPAddr) : Prop where
  isOpen : conn ∉ s.closed
  writes : ∀ d bytes, .write conn d bytes ∈ events → d.source.endpoint = client.endpoint
  reads : ∃ pre x stage post, s.replyLoops = pre ++ ⟨x, stage⟩ :: post ∧ x.proxyConn = conn ∧
    x.clientAddr.endpoint = client.endpoint ∧ stage.Live ∧ ∀ l ∈ pre ++ post,
    l.session.proxyConn ≠ conn
  replies : ∀ addr bytes, .reply conn addr bytes ∈ events → addr.endpoint = client.endpoint

/-- Each entry is for one client, and each client has one at most. -/
structure Isolated (events : List Event) (s : UDPProxy) : Prop where
  serves : ∀ key conn, s.connTrackTable.lookup key = some conn →
    ∃ client, key = newConnTrackKey client ∧ Serves events s conn client
  unique : ∀ key conn key' conn' client client', s.connTrackTable.lookup key = some conn →
    s.connTrackTable.lookup key' = some conn' → Serves events s conn client →
    Serves events s conn' client' → client.endpoint = client'.endpoint → key = key' ∧ conn = conn'

/-- A removal takes out the entry with the socket of the loop, and no other. -/
def RemovesOwn (s t : UDPProxy) (conn : Nat) : Prop :=
  (∃ key, s.connTrackTable.lookup key = some conn) ∧
    ∀ key conn', t.connTrackTable.lookup key = some conn' ↔
      s.connTrackTable.lookup key = some conn' ∧ conn' ≠ conn

/-! ## The invariant -/

/-- `Run` has the datagram of a client of the family, and the socket of a session for it or one that
belongs to no session. -/
def RunFits (family : IPVersion) (s : UDPProxy) : RunStage → Prop
  | .reading | .failed | .stopped => True
  | .received d | .locked d => d.source.ip.length = family.len
  | .dialed d conn => d.source.ip.length = family.len ∧
      s.connTrackTable.lookup (newConnTrackKey d.source) = none ∧ conn < s.conns ∧
      ∀ x ∈ s.sessions, x.proxyConn ≠ conn
  | .found d conn | .writing d conn _ => d.source.ip.length = family.len ∧
      ∃ x ∈ s.sessions, x.proxyConn = conn ∧ x.clientKey = newConnTrackKey d.source

structure Invariant (family : IPVersion) (s : UDPProxy) : Prop where
  clients : ∀ x ∈ s.sessions, x.clientAddr.ip.length = family.len ∧
    x.clientKey = newConnTrackKey x.clientAddr
  conns : ∀ x ∈ s.sessions, x.proxyConn < s.conns
  nodup : (s.sessions.map (·.proxyConn)).Nodup
  /-- The entries are those of the loops that have not removed theirs. -/
  table : ∀ key conn, s.connTrackTable.lookup key = some conn ↔
    ∃ l ∈ s.replyLoops, l.stage.Live ∧ l.session.clientKey = key ∧ l.session.proxyConn = conn
  closed : ∀ conn ∈ s.closed, ∃ l ∈ s.replyLoops, l.stage = .closed ∧ l.session.proxyConn = conn
  run : RunFits family s s.run

section Invariant

variable {family : IPVersion} {s t : UDPProxy} {pre post : List ReplyLoop} {x : Session}
  {stage stage' : ReplyStage}

theorem exists_mem_middle {α : Type} {P : α → Prop} {a : α} {pre post : List α} :
    (∃ l ∈ pre ++ a :: post, P l) ↔ P a ∨ ∃ l ∈ pre ++ post, P l := by
  rw [← List.exists_mem_cons_iff]
  exact exists_congr fun l => and_congr_left' List.perm_middle.mem_iff

theorem invariant_init : Invariant family init where
  clients := fun _ h => nomatch h
  conns := fun _ h => nomatch h
  nodup := List.nodup_nil
  table := fun _ _ => ⟨fun h => (nomatch h), fun ⟨_, h, _⟩ => (nomatch h)⟩
  closed := fun _ h => nomatch h
  run := trivial

theorem sessions_replace (hs : s.replyLoops = pre ++ ⟨x, stage⟩ :: post)
    (ht : t.replyLoops = pre ++ ⟨x, stage'⟩ :: post) : t.sessions = s.sessions := by
  rw [sessions, sessions, hs, ht, List.map_append, List.map_append, List.map_cons, List.map_cons]

theorem mem_sessions_replace (hs : s.replyLoops = pre ++ ⟨x, stage⟩ :: post)
    (ht : t.replyLoops = pre ++ ⟨x, stage'⟩ :: post) {y : Session} :
    y ∈ t.sessions ↔ y ∈ s.sessions := by
  rw [sessions_replace hs ht]

theorem RunFits.mono {r : RunStage} (h : RunFits family s r) (hsessions : t.sessions = s.sessions)
    (hconns : t.conns = s.conns)
    (hnone : ∀ key, s.connTrackTable.lookup key = none → t.connTrackTable.lookup key = none) :
    RunFits family t r := by
  cases r with
  | reading | failed | stopped => trivial
  | received d | locked d => exact h
  | dialed d conn =>
    obtain ⟨hip, hlookup, hlt, hfree⟩ := h
    exact ⟨hip, hnone _ hlookup, hconns ▸ hlt, hsessions ▸ hfree⟩
  | found d conn => exact ⟨h.1, hsessions ▸ h.2⟩
  | writing d conn i => exact ⟨h.1, hsessions ▸ h.2⟩

/-- A closed socket is of a loop that has ended, and it is still there. -/
theorem Invariant.closed_replace (h : Invariant family s)
    (hs : s.replyLoops = pre ++ ⟨x, stage⟩ :: post) (hnot : stage ≠ .closed) {conn : Nat}
    (hconn : conn ∈ s.closed) :
    ∃ l ∈ pre ++ ⟨x, stage'⟩ :: post, l.stage = .closed ∧ l.session.proxyConn = conn := by
  have hold := h.closed conn hconn
  rw [hs, exists_mem_middle] at hold
  rcases hold with ⟨hc, -⟩ | hrest
  · exact absurd hc hnot
  · exact exists_mem_middle.mpr (.inr hrest)

/-- Another stage for one of the loops. -/
theorem Invariant.replace (h : Invariant family s) (hs : s.replyLoops = pre ++ ⟨x, stage⟩ :: post)
    (ht : t.replyLoops = pre ++ ⟨x, stage'⟩ :: post) (hconns : t.conns = s.conns)
    (hrun : t.run = s.run) (htable : ∀ key conn, t.connTrackTable.lookup key = some conn ↔
      ∃ l ∈ t.replyLoops, l.stage.Live ∧ l.session.clientKey = key ∧ l.session.proxyConn = conn)
    (hclosed : ∀ conn ∈ t.closed, ∃ l ∈ t.replyLoops, l.stage = .closed ∧
      l.session.proxyConn = conn)
    (hnone : ∀ key, s.connTrackTable.lookup key = none → t.connTrackTable.lookup key = none) :
    Invariant family t := by
  have hsessions := sessions_replace hs ht
  exact ⟨hsessions ▸ h.clients, hsessions ▸ hconns ▸ h.conns, hsessions ▸ h.nodup, htable, hclosed,
    hrun ▸ h.run.mono hsessions hconns hnone⟩

/-- A step of a loop that neither removes the entry nor closes the socket. -/
theorem Invariant.advance (h : Invariant family s) (stage' : ReplyStage)
    (hs : s.replyLoops = pre ++ ⟨x, stage⟩ :: post) (hlive : stage'.Live ↔ stage.Live)
    (hnot : stage ≠ .closed) (lock : Bool) : Invariant family
      { s with connTrackLock := lock, replyLoops := pre ++ ⟨x, stage'⟩ :: post } := by
  refine h.replace hs rfl rfl rfl (fun key conn => ?_) (fun _ => h.closed_replace hs hnot)
    fun _ hnone => hnone
  rw [exists_mem_middle, h.table, hs, exists_mem_middle, hlive]

/-- No other loop has the socket. -/
theorem Invariant.other (h : Invariant family s) (hs : s.replyLoops = pre ++ ⟨x, stage⟩ :: post) :
    ∀ l ∈ pre ++ post, l.session.proxyConn ≠ x.proxyConn := by
  intro l hl he
  have hnodup := h.nodup
  rw [sessions, hs, List.map_map, List.map_append, List.map_cons] at hnodup
  refine (List.nodup_cons.mp (List.nodup_middle.mp hnodup)).1 ?_
  rw [← List.map_append]
  exact List.mem_map.mpr ⟨l, hl, he⟩

/-- The entry of a loop that has not removed it. -/
theorem Invariant.lookup (h : Invariant family s) (hs : s.replyLoops = pre ++ ⟨x, stage⟩ :: post)
    (hlive : stage.Live) : s.connTrackTable.lookup x.clientKey = some x.proxyConn := by
  rw [h.table, hs]
  exact exists_mem_middle.mpr (.inl ⟨hlive, rfl, rfl⟩)

/-- The socket of a loop is under its key only. -/
theorem Invariant.lookup_conn (h : Invariant family s)
    (hs : s.replyLoops = pre ++ ⟨x, stage⟩ :: post)
    {key : ConnTrackKey} (hlookup : s.connTrackTable.lookup key = some x.proxyConn) :
    key = x.clientKey := by
  rw [h.table, hs, exists_mem_middle] at hlookup
  rcases hlookup with ⟨-, rfl, -⟩ | ⟨l, hl, -, -, hconn⟩
  · rfl
  · exact absurd hconn (h.other hs l hl)

/-- A loop takes out its own entry. -/
theorem Invariant.removesOwn (h : Invariant family s)
    (hs : s.replyLoops = pre ++ ⟨x, .locked⟩ :: post)
    (ht : t.connTrackTable = s.connTrackTable.erase x.clientKey) : RemovesOwn s t x.proxyConn := by
  have hown := h.lookup hs trivial
  refine ⟨⟨_, hown⟩, fun key conn => ?_⟩
  rw [ht]
  by_cases hkey : key = x.clientKey
  · rw [hkey, AList.lookup_erase, hown]
    exact iff_of_false (fun hc => nomatch hc) fun ⟨he, hne⟩ => hne (Option.some.inj he).symm
  · rw [AList.lookup_erase_ne hkey]
    refine (and_iff_left_of_imp fun hlookup => ?_).symm
    rintro rfl
    exact hkey (h.lookup_conn hs hlookup)

theorem Invariant.remove (h : Invariant family s)
    (hs : s.replyLoops = pre ++ ⟨x, .locked⟩ :: post) : Invariant family
      { s with
        connTrackTable := s.connTrackTable.erase x.clientKey
        replyLoops := pre ++ ⟨x, .removed⟩ :: post } := by
  have hown := h.removesOwn hs (t := { s with
    connTrackTable := s.connTrackTable.erase x.clientKey
    replyLoops := pre ++ ⟨x, .removed⟩ :: post }) rfl
  refine h.replace hs rfl rfl rfl (fun key conn => ?_)
    (fun _ => h.closed_replace hs fun hc => nomatch hc) fun key hnone => ?_
  · rw [hown.2, h.table, hs, exists_mem_middle, exists_mem_middle]
    constructor
    · rintro ⟨⟨-, -, rfl⟩ | hrest, hne⟩
      · exact absurd rfl hne
      · exact .inr hrest
    · rintro (⟨hlive, -⟩ | ⟨l, hl, hlive, hkey, rfl⟩)
      · exact hlive.elim
      · exact ⟨.inr ⟨l, hl, hlive, hkey, rfl⟩, h.other hs l hl⟩
  · by_cases hkey : key = x.clientKey
    · rw [hkey, AList.lookup_erase]
    · rw [AList.lookup_erase_ne hkey, hnone]

theorem Invariant.close (h : Invariant family s)
    (hs : s.replyLoops = pre ++ ⟨x, .unlocked⟩ :: post) : Invariant family
      { s with closed := x.proxyConn :: s.closed, replyLoops := pre ++ ⟨x, .closed⟩ :: post } := by
  refine h.replace hs rfl rfl rfl (fun key conn => ?_) (fun conn hconn => ?_) fun _ hnone => hnone
  · rw [exists_mem_middle, h.table, hs, exists_mem_middle]
    rfl
  · rcases List.mem_cons.mp hconn with rfl | hconn
    · exact exists_mem_middle.mpr (.inl ⟨rfl, rfl⟩)
    · exact h.closed_replace hs (fun hc => nomatch hc) hconn

/-- `Run` goes on without a change of table, sockets or loops. -/
theorem Invariant.run_step (h : Invariant family s) {r : RunStage} (hrun : RunFits family s r)
    (lock : Bool) : Invariant family { s with run := r, connTrackLock := lock } :=
  ⟨h.clients, h.conns, h.nodup, h.table, h.closed, hrun⟩

/-- A socket is dialed for a client without an entry. -/
theorem Invariant.dial (h : Invariant family s) {d : Datagram}
    (hip : d.source.ip.length = family.len)
    (hlookup : s.connTrackTable.lookup (newConnTrackKey d.source) = none) :
    Invariant family { s with run := .dialed d s.conns, conns := s.conns + 1 } where
  clients := h.clients
  conns := fun x hx => Nat.lt_succ_of_lt (h.conns x hx)
  nodup := h.nodup
  table := h.table
  closed := h.closed
  run := ⟨hip, hlookup, Nat.lt_succ_self _, fun x hx => Nat.ne_of_lt (h.conns x hx)⟩

/-- The entry and the loop are made for it. -/
theorem Invariant.insert (h : Invariant family s) {d : Datagram} {conn : Nat}
    (hrun : s.run = .dialed d conn) :
    Invariant family
      { s with
        connTrackTable := s.connTrackTable.insert (newConnTrackKey d.source) conn
        run := .found d conn
        replyLoops := ⟨⟨conn, d.source, newConnTrackKey d.source⟩, .reading⟩ :: s.replyLoops } := by
  have hfits := h.run
  rw [hrun] at hfits
  obtain ⟨hip, hlookup, hlt, hfree⟩ := hfits
  refine ⟨fun x hx => ?_, fun x hx => ?_, ?_, fun key conn' => ?_, fun conn' hconn => ?_, hip, ?_⟩
  · rcases List.mem_cons.mp hx with rfl | hx
    · exact ⟨hip, rfl⟩
    · exact h.clients x hx
  · rcases List.mem_cons.mp hx with rfl | hx
    · exact hlt
    · exact h.conns x hx
  · refine List.nodup_cons.mpr ⟨fun hmem => ?_, h.nodup⟩
    obtain ⟨x, hx, he⟩ := List.mem_map.mp hmem
    exact hfree x hx he
  · rw [List.exists_mem_cons_iff, ← h.table]
    by_cases hkey : key = newConnTrackKey d.source
    · rw [hkey, AList.lookup_insert, hlookup]
      constructor
      · intro hc
        exact .inl ⟨trivial, rfl, Option.some.inj hc⟩
      · rintro (⟨-, -, rfl⟩ | hc)
        · rfl
        · exact nomatch hc
    · rw [AList.lookup_insert_ne hkey]
      refine (or_iff_right fun ⟨_, hc, _⟩ => hkey hc.symm).symm
  · obtain ⟨l, hl, hl'⟩ := h.closed conn' hconn
    exact ⟨l, List.mem_cons_of_mem _ hl, hl'⟩
  · exact ⟨_, List.mem_cons_self, rfl, rfl⟩

/-- **What one step keeps.** -/
theorem Invariant.step (h : Invariant family s) {e : Event} (hstep : Step family s e t) :
    Invariant family t := by
  have hfits := h.run
  cases hstep with
  | receive hrun hip => exact h.run_step (r := .received _) hip _
  | receiveFails => exact h.run_step (r := .stopped) trivial s.connTrackLock
  | lock hrun =>
    rw [hrun] at hfits
    exact h.run_step (r := .locked _) hfits true
  | hit hrun hlookup =>
    rw [hrun] at hfits
    obtain ⟨l, hl, -, hkey, hconn⟩ := (h.table _ _).mp hlookup
    exact h.run_step (r := .found _ _) ⟨hfits, l.session, List.mem_map_of_mem hl, hconn, hkey⟩
      s.connTrackLock
  | dial hrun hlookup =>
    rw [hrun] at hfits
    exact h.dial hfits hlookup
  | dialFails => exact h.run_step (r := .failed) trivial s.connTrackLock
  | insert hrun => exact h.insert hrun
  | unlock hrun =>
    rw [hrun] at hfits
    exact h.run_step (r := .writing _ _ _) hfits false
  | unlockFailed => exact h.run_step (r := .reading) trivial false
  | write written hrun =>
    rw [hrun] at hfits
    exact h.run_step (r := .writing _ _ (_ + written)) hfits s.connTrackLock
  | writeFails => exact h.run_step (r := .reading) trivial s.connTrackLock
  | written => exact h.run_step (r := .reading) trivial s.connTrackLock
  | read readBuf hs => exact h.advance (.delivering readBuf 0) hs Iff.rfl (fun hc => nomatch hc) _
  | refused => exact h
  | readFails hs => exact h.advance .returned hs Iff.rfl (fun hc => nomatch hc) _
  | deliver written hs =>
    exact h.advance (.delivering _ (_ + written)) hs Iff.rfl (fun hc => nomatch hc) _
  | deliverFails hs => exact h.advance .returned hs Iff.rfl (fun hc => nomatch hc) _
  | delivered hs => exact h.advance .reading hs Iff.rfl (fun hc => nomatch hc) _
  | acquire hs => exact h.advance .locked hs Iff.rfl (fun hc => nomatch hc) true
  | remove hs => exact h.remove hs
  | release hs => exact h.advance .unlocked hs Iff.rfl (fun hc => nomatch hc) false
  | close hs => exact h.close hs

end Invariant

/-! ## What went over the sockets -/

/-- The datagrams written to a socket, and the replies of its loop, are its client's. -/
structure Logged (events : List Event) (s : UDPProxy) : Prop where
  writes : ∀ conn d bytes, .write conn d bytes ∈ events →
    ∃ x ∈ s.sessions, x.proxyConn = conn ∧ d.source.endpoint = x.clientAddr.endpoint
  replies : ∀ conn addr bytes, .reply conn addr bytes ∈ events →
    ∃ x ∈ s.sessions, x.proxyConn = conn ∧ addr = x.clientAddr

section Logged

variable {family : IPVersion} {s t : UDPProxy} {events : List Event} {e : Event}

/-- Sessions are not forgotten. -/
theorem Step.sessions_subset (h : Step family s e t) : s.sessions ⊆ t.sessions := by
  cases h with
  | receive | receiveFails | lock | hit | dial | dialFails | unlock | unlockFailed
  | write | writeFails
  | written | refused => exact List.Subset.refl _
  | insert => exact List.subset_cons_self _ _
  | read _ hs | readFails hs | deliver _ hs | deliverFails hs | delivered hs
  | acquire hs | remove hs
  | release hs | close hs => exact fun y hy => (mem_sessions_replace hs rfl).mpr hy

/-- What `Run` writes goes to the socket of the client it is from. -/
theorem Invariant.write_client (h : Invariant family s) {conn : Nat} {d : Datagram}
    {bytes : List UInt8} (hstep : Step family s (.write conn d bytes) t) :
    ∃ x ∈ s.sessions, x.proxyConn = conn ∧ d.source.endpoint = x.clientAddr.endpoint := by
  have hfits := h.run
  cases hstep with
  | write written hrun =>
    rw [hrun] at hfits
    obtain ⟨hip, x, hx, hconn, hkey⟩ := hfits
    obtain ⟨hclient, hown⟩ := h.clients x hx
    exact ⟨x, hx, hconn, newConnTrackKey_inj hip hclient (hkey.symm.trans hown)⟩

/-- What a loop hands on goes to its client. -/
theorem Step.reply_client {conn : Nat} {addr : UDPAddr} {bytes : List UInt8}
    (hstep : Step family s (.reply conn addr bytes) t) :
    ∃ x ∈ s.sessions, x.proxyConn = conn ∧ addr = x.clientAddr := by
  cases hstep with
  | @deliver pre post x readBuf i written hs =>
    refine ⟨x, ?_, rfl, rfl⟩
    rw [sessions, hs]
    exact List.mem_map.mpr ⟨_, List.mem_append_right _ List.mem_cons_self, rfl⟩

theorem Logged.step (h : Logged events s) (hi : Invariant family s) (hstep : Step family s e t) :
    Logged (e :: events) t := by
  have hsub := hstep.sessions_subset
  constructor
  · intro conn d bytes hmem
    have hold : ∃ x ∈ s.sessions, x.proxyConn = conn ∧
        d.source.endpoint = x.clientAddr.endpoint := by
      rcases List.mem_cons.mp hmem with rfl | hmem
      · exact hi.write_client hstep
      · exact h.writes conn d bytes hmem
    obtain ⟨x, hx, hx'⟩ := hold
    exact ⟨x, hsub hx, hx'⟩
  · intro conn addr bytes hmem
    have hold : ∃ x ∈ s.sessions, x.proxyConn = conn ∧ addr = x.clientAddr := by
      rcases List.mem_cons.mp hmem with rfl | hmem
      · exact hstep.reply_client
      · exact h.replies conn addr bytes hmem
    obtain ⟨x, hx, hx'⟩ := hold
    exact ⟨x, hsub hx, hx'⟩

/-- A socket is of one session. -/
theorem Invariant.session_eq (h : Invariant family s) {x y : Session} (hx : x ∈ s.sessions)
    (hy : y ∈ s.sessions) (hconn : x.proxyConn = y.proxyConn) : x = y :=
  List.inj_on_of_nodup_map h.nodup hx hy hconn

/-- The entry of a loop that has not removed it is its client's. -/
theorem Invariant.serves (h : Invariant family s) (hlog : Logged events s) {l : ReplyLoop}
    (hl : l ∈ s.replyLoops) (hlive : l.stage.Live) :
    Serves events s l.session.proxyConn l.session.clientAddr := by
  obtain ⟨pre, post, hs⟩ := List.append_of_mem hl
  have hmem : l.session ∈ s.sessions := List.mem_map_of_mem hl
  refine ⟨fun hclosed => ?_, fun d bytes hwrite => ?_,
    ⟨pre, l.session, l.stage, post, hs, rfl, rfl, hlive, h.other hs⟩, fun addr bytes hreply => ?_⟩
  · have hold := h.closed _ hclosed
    rw [hs, exists_mem_middle] at hold
    rcases hold with ⟨hstage, -⟩ | ⟨l', hl', -, hconn⟩
    · rw [hstage] at hlive
      exact hlive
    · exact h.other hs l' hl' hconn
  · obtain ⟨x, hx, hconn, he⟩ := hlog.writes _ d bytes hwrite
    exact h.session_eq hx hmem hconn ▸ he
  · obtain ⟨x, hx, hconn, rfl⟩ := hlog.replies _ addr bytes hreply
    exact congrArg (·.clientAddr.endpoint) (h.session_eq hx hmem hconn)

theorem Invariant.isolated (h : Invariant family s) (hlog : Logged events s) :
    Isolated events s := by
  have hkey : ∀ key conn client, s.connTrackTable.lookup key = some conn →
    Serves events s conn client →
      key = newConnTrackKey client := by
    intro key conn client hlookup hserves
    obtain ⟨pre, x, stage, post, hs, rfl, hclient, -, -⟩ := hserves.reads
    have hmem : x ∈ s.sessions := by
      rw [sessions, hs]
      exact List.mem_map.mpr ⟨_, List.mem_append_right _ List.mem_cons_self, rfl⟩
    rw [h.lookup_conn hs hlookup, (h.clients x hmem).2, newConnTrackKey_congr hclient]
  constructor
  · intro key conn hlookup
    obtain ⟨l, hl, hlive, rfl, rfl⟩ := (h.table key conn).mp hlookup
    exact ⟨l.session.clientAddr, (h.clients _ (List.mem_map_of_mem hl)).2, h.serves hlog hl hlive⟩
  · intro key conn key' conn' client client' hlookup hlookup' hserves hserves' hsame
    have he : key = key' := by
      rw [hkey key conn client hlookup hserves, hkey key' conn' client' hlookup' hserves',
        newConnTrackKey_congr hsame]
    rw [← he, hlookup] at hlookup'
    exact ⟨he, Option.some.inj hlookup'⟩

end Logged

/-! ## Runs -/

/-- **Sessions stay isolated.**  After every run of the proxy each entry is for one client, with an
open socket that carries its datagrams only and one loop that hands on to it only; each client has
one entry at most; and a loop that ends removes its own entry. -/
theorem sessions_stay_isolated (family : IPVersion) (events : List Event) (s : UDPProxy)
    (h : Runs (Step family) (fun _ _ => True) init events s) :
    Isolated events s ∧ ∀ conn t, Step family s (.remove conn) t → RemovesOwn s t conn := by
  obtain ⟨hi, hlog⟩ := h.invariant (I := fun events s => Invariant family s ∧ Logged events s)
    ⟨invariant_init, fun _ _ _ h => (nomatch h), fun _ _ _ h => (nomatch h)⟩
    fun ⟨hi, hlog⟩ _ hstep => ⟨hi.step hstep, hlog.step hi hstep⟩
  refine ⟨hi.isolated hlog, fun conn t hstep => ?_⟩
  cases hstep with
  | remove hs => exact hi.removesOwn hs rfl

/-- A datagram of one client. -/
def hello : Datagram := ⟨⟨[192, 168, 1, 5], 5000, ""⟩, [104, 105]⟩

/-- The session of a client expires; the client comes back before the socket of it is closed, and
the new session is left alone. -/
theorem sessions_stay_isolated_again : ∃ events s,
    s.connTrackTable.lookup (newConnTrackKey hello.source) = some 1 ∧ s.closed = [0] ∧
      Isolated events s := by
  have hfirst : Runs (Step .ipv4) (fun _ _ => True) init _ _ :=
    ((((((Runs.refl.step trivial (.receive (d := hello) rfl rfl)).step trivial
      (.lock rfl rfl)).step trivial
      (.dial rfl rfl)).step trivial (.insert rfl)).step trivial (.unlock rfl)).step trivial
      (.write 2 rfl (by decide) (by decide) (by decide))).step trivial (.written rfl)
  have hexpired := (((hfirst.step trivial (.readFails (show _ = [] ++ _ from rfl))).step trivial
    (.acquire (show _ = [] ++ _ from rfl) rfl)).step trivial
    (.remove (show _ = [] ++ _ from rfl))).step trivial (.release (show _ = [] ++ _ from rfl))
  have hagain := ((((hexpired.step trivial (.receive (d := hello) rfl rfl)).step trivial
    (.lock rfl rfl)).step
    trivial (.dial rfl (AList.lookup_erase _ _))).step trivial (.insert rfl)).step trivial
    (.close (show _ = [_] ++ _ from rfl))
  exact ⟨_, _, AList.lookup_insert _, rfl, (sessions_stay_isolated .ipv4 _ _ hagain).1⟩

end UDPProxy

end ContainerDesktop.PortForwarder
