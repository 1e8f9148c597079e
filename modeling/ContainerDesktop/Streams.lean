import Mathlib.Data.List.Infix

/-!
# Connections and copies between them

`Conn` is one end of a connection, with what its peer has sent so far and what was sent
to the peer.  Either half of it can be shut down on its own, here or by the peer, and
either half can break.

A `Copy` reads from one connection and writes to another until the source ends or
something fails.  `Copied` says what has become of the bytes at each of its stages; a
copy keeps it as long as nobody else shuts down the halves that it uses, and what
happens to the other halves does not matter (`SourceKept`, `SinkKept`).

A `Relay` copies between two connections in both directions, and each of its copiers
shuts down the halves that it has used.  These are never the halves of the other copier,
so a relay stays `Sound` until somebody closes a connection under it.
-/

/-- One end of a connection that carries `α`s. -/
structure Conn (α : Type) where
  read : List α
  /-- What has arrived and was not read. -/
  unread : List α
  /-- The peer sends nothing after that. -/
  finished : Bool
  readBroken : Bool
  delivered : List α
  writeBroken : Bool
  readClosed : Bool
  writeClosed : Bool
  closed : Bool

namespace Conn

variable {α : Type}

/-- A new connection, on which `unread` has arrived. -/
def new (unread : List α) : Conn α := ⟨[], unread, false, false, [], false, false, false, false⟩

/-- All that has arrived. -/
def received (c : Conn α) : List α := c.read ++ c.unread

def closeRead (c : Conn α) : Conn α := { c with readClosed := true }

def closeWrite (c : Conn α) : Conn α := { c with writeClosed := true }

def close (c : Conn α) : Conn α := { c with closed := true }

/-- The half that is read was not shut down here. -/
structure Readable (c : Conn α) : Prop where
  readClosed : c.readClosed = false
  closed : c.closed = false

/-- The half that is written was not shut down here. -/
structure Writable (c : Conn α) : Prop where
  writeClosed : c.writeClosed = false
  closed : c.closed = false

/-- What the peer and the network can do. -/
inductive Peer (c : Conn α) : Conn α → Prop
  | sends (items : List α) (h : c.finished = false) : Peer c { c with unread := c.unread ++ items }
  | finishes : Peer c { c with finished := true }
  | breaksRead : Peer c { c with readBroken := true }
  | breaksWrite : Peer c { c with writeBroken := true }

/-- Nothing was read, and what the peer has said stands. -/
structure SourceKept (c c' : Conn α) : Prop where
  read : c'.read = c.read
  received : c.received <+: c'.received
  finished : c.finished = true → c'.finished = true ∧ c'.unread = c.unread
  readBroken : c.readBroken = true → c'.readBroken = true

/-- Nothing was delivered. -/
structure SinkKept (c c' : Conn α) : Prop where
  delivered : c'.delivered = c.delivered
  writeBroken : c.writeBroken = true → c'.writeBroken = true

theorem SourceKept.refl (c : Conn α) : SourceKept c c :=
  ⟨rfl, List.prefix_refl _, fun h => ⟨h, rfl⟩, id⟩

theorem SinkKept.refl (c : Conn α) : SinkKept c c := ⟨rfl, id⟩

theorem SourceKept.of_peer {c c' : Conn α} (h : Peer c c') : SourceKept c c' := by
  cases h with
  | sends items hfinished =>
    refine ⟨rfl, ?_, fun hf => absurd (hfinished.symm.trans hf) Bool.false_ne_true, id⟩
    exact ⟨items, by simp [Conn.received]⟩
  | finishes => exact ⟨rfl, List.prefix_refl _, fun _ => ⟨rfl, rfl⟩, id⟩
  | breaksRead => exact ⟨rfl, List.prefix_refl _, fun h => ⟨h, rfl⟩, fun _ => rfl⟩
  | breaksWrite => exact ⟨rfl, List.prefix_refl _, fun h => ⟨h, rfl⟩, id⟩

theorem SinkKept.of_peer {c c' : Conn α} (h : Peer c c') : SinkKept c c' := by
  cases h with
  | breaksWrite => exact ⟨rfl, fun _ => rfl⟩
  | _ => exact ⟨rfl, id⟩

/-- The connection is closed now if it was before, and what is broken stays so. -/
structure Lasts (c c' : Conn α) : Prop where
  closed : c'.closed = c.closed
  readBroken : c.readBroken = true → c'.readBroken = true
  writeBroken : c.writeBroken = true → c'.writeBroken = true

theorem Lasts.refl (c : Conn α) : Lasts c c := ⟨rfl, id, id⟩

theorem Lasts.of_peer {c c' : Conn α} (h : Peer c c') : Lasts c c' := by
  cases h with
  | sends => exact ⟨rfl, id, id⟩
  | finishes => exact ⟨rfl, id, id⟩
  | breaksRead => exact ⟨rfl, fun _ => rfl, id⟩
  | breaksWrite => exact ⟨rfl, id, fun _ => rfl⟩

/-- The peer shuts nothing down here. -/
theorem Peer.flags {c c' : Conn α} (h : Peer c c') :
    c'.readClosed = c.readClosed ∧ c'.writeClosed = c.writeClosed := by
  cases h <;> exact ⟨rfl, rfl⟩

section Closing

variable (c : Conn α)

theorem sourceKept_closeRead : SourceKept c c.closeRead :=
  ⟨rfl, List.prefix_refl _, fun h => ⟨h, rfl⟩, id⟩

theorem sourceKept_closeWrite : SourceKept c c.closeWrite :=
  ⟨rfl, List.prefix_refl _, fun h => ⟨h, rfl⟩, id⟩

theorem sourceKept_close : SourceKept c c.close := ⟨rfl, List.prefix_refl _, fun h => ⟨h, rfl⟩, id⟩

theorem sinkKept_closeRead : SinkKept c c.closeRead := ⟨rfl, id⟩

theorem sinkKept_closeWrite : SinkKept c c.closeWrite := ⟨rfl, id⟩

theorem sinkKept_close : SinkKept c c.close := ⟨rfl, id⟩

end Closing

end Conn

/-! ## Copies -/

/-- Why a copy has ended. -/
inductive Cause where
  | eof
  | readFailed
  | writeFailed
  deriving DecidableEq

/-- A copy, with what it has read and not yet written. -/
inductive Copy (α : Type) where
  | copying (pending : List α)
  | ended (cause : Cause)

namespace Copy

variable {α : Type}

/-- One step of a copy from `src` to `dst`.  A write can go through in part before it fails. -/
inductive Step (src dst : Conn α) : Copy α → Conn α → Conn α → Copy α → Prop
  | read (n : Nat) (h : src.Readable) (hn : 0 < n) (hlen : n ≤ src.unread.length) :
    Step src dst (.copying [])
      { src with read := src.read ++ src.unread.take n, unread := src.unread.drop n } dst
      (.copying (src.unread.take n))
  | eof (h : src.unread = [] ∧ src.finished = true ∨ src.readClosed = true) :
    Step src dst (.copying []) src dst (.ended .eof)
  | readFails (h : src.readBroken = true ∨ src.closed = true) :
    Step src dst (.copying []) src dst (.ended .readFailed)
  | write {pending : List α} (n : Nat) (h : dst.Writable) (hn : 0 < n) (hlen : n ≤ pending.length) :
    Step src dst (.copying pending) src { dst with delivered := dst.delivered ++ pending.take n }
      (.copying (pending.drop n))
  | writeFails {pending : List α} (hne : pending ≠ [])
    (h : dst.writeBroken = true ∨ dst.writeClosed = true ∨ dst.closed = true) :
    Step src dst (.copying pending) src dst (.ended .writeFailed)

theorem Step.sinkKept {src dst src' dst' : Conn α} {k k' : Copy α}
    (h : Step src dst k src' dst' k') : Conn.SinkKept src src' := by
  cases h <;> exact ⟨rfl, id⟩

theorem Step.sourceKept {src dst src' dst' : Conn α} {k k' : Copy α}
    (h : Step src dst k src' dst' k') : Conn.SourceKept dst dst' := by
  cases h <;> exact ⟨rfl, List.prefix_refl _, fun h => ⟨h, rfl⟩, id⟩

/-- A copy shuts nothing down. -/
theorem Step.flags {src dst src' dst' : Conn α} {k k' : Copy α} (h : Step src dst k src' dst' k') :
    (src'.readClosed = src.readClosed ∧ src'.writeClosed = src.writeClosed) ∧
      dst'.readClosed = dst.readClosed ∧ dst'.writeClosed = dst.writeClosed := by
  cases h <;> exact ⟨⟨rfl, rfl⟩, rfl, rfl⟩

theorem Step.lasts {src dst src' dst' : Conn α} {k k' : Copy α} (h : Step src dst k src' dst' k') :
    Conn.Lasts src src' ∧ Conn.Lasts dst dst' := by
  cases h <;> exact ⟨⟨rfl, id, id⟩, rfl, id, id⟩

theorem Step.copying {src dst src' dst' : Conn α} {k k' : Copy α}
    (h : Step src dst k src' dst' k') : ∃ pending, k = .copying pending := by
  cases h <;> exact ⟨_, rfl⟩

/-- What was read is delivered or pending, and a copy ends for a reason that lies in what it copies
from or to. -/
def Copied (src dst : Conn α) : Copy α → Prop
  | .copying pending => dst.delivered ++ pending = src.read
  | .ended .eof => dst.delivered = src.received ∧ src.unread = [] ∧ src.finished = true
  | .ended .readFailed => dst.delivered = src.read ∧ src.readBroken = true
  | .ended .writeFailed => dst.delivered <+: src.read ∧ dst.writeBroken = true

theorem copied_new (src : List α) (dst : List α) : Copied (Conn.new src) (Conn.new dst)
    (.copying []) := rfl

/-- What was delivered was read. -/
theorem Copied.delivered_prefix {src dst : Conn α} {k : Copy α} (h : Copied src dst k) :
    dst.delivered <+: src.read := by
  match k with
  | .copying pending => exact ⟨pending, h⟩
  | .ended .eof =>
    obtain ⟨hall, hunread, -⟩ := h
    rw [hall, Conn.received, hunread, List.append_nil]
  | .ended .readFailed => exact h.1 ▸ List.prefix_refl _
  | .ended .writeFailed => exact h.1

theorem Copied.of_kept {src dst src' dst' : Conn α} {k : Copy α} (h : Copied src dst k)
    (hsrc : Conn.SourceKept src src') (hdst : Conn.SinkKept dst dst') : Copied src' dst' k := by
  match k with
  | .copying pending =>
    show dst'.delivered ++ pending = src'.read
    rw [hdst.delivered, hsrc.read]
    exact h
  | .ended .eof =>
    obtain ⟨hall, hunread, hfinished⟩ := h
    obtain ⟨hfinished', hunread'⟩ := hsrc.finished hfinished
    refine ⟨?_, hunread'.trans hunread, hfinished'⟩
    rw [hdst.delivered, hall, Conn.received, Conn.received, hunread', hsrc.read]
  | .ended .readFailed =>
    refine ⟨?_, hsrc.readBroken h.2⟩
    rw [hdst.delivered, hsrc.read]
    exact h.1
  | .ended .writeFailed =>
    refine ⟨?_, hdst.writeBroken h.2⟩
    rw [hdst.delivered, hsrc.read]
    exact h.1

/-- **A step of a copy whose halves are not shut down.** -/
theorem Copied.step {src dst src' dst' : Conn α} {k k' : Copy α} (h : Copied src dst k)
    (hsrc : src.Readable) (hdst : dst.Writable) (hstep : Step src dst k src' dst' k') :
    Copied src' dst' k' := by
  cases hstep with
  | read n =>
    have hread : dst.delivered = src.read := (List.append_nil _).symm.trans h
    show dst.delivered ++ src.unread.take n = src.read ++ src.unread.take n
    rw [hread]
  | eof hend =>
    have hread : dst.delivered = src.read := (List.append_nil _).symm.trans h
    obtain ⟨hunread, hfinished⟩ | hclosed := hend
    · refine ⟨?_, hunread, hfinished⟩
      rw [hread, Conn.received, hunread, List.append_nil]
    · exact absurd (hsrc.readClosed.symm.trans hclosed) Bool.false_ne_true
  | readFails hend =>
    obtain hbroken | hclosed := hend
    · exact ⟨(List.append_nil _).symm.trans h, hbroken⟩
    · exact absurd (hsrc.closed.symm.trans hclosed) Bool.false_ne_true
  | @write pending n =>
    show dst.delivered ++ pending.take n ++ pending.drop n = src.read
    rw [List.append_assoc, List.take_append_drop]
    exact h
  | @writeFails pending _ hend =>
    obtain hbroken | hclosed | hclosed := hend
    · exact ⟨⟨pending, h⟩, hbroken⟩
    · exact absurd (hdst.writeClosed.symm.trans hclosed) Bool.false_ne_true
    · exact absurd (hdst.closed.symm.trans hclosed) Bool.false_ne_true

end Copy

/-! ## Relays -/

/-- The two connections of a relay. -/
inductive Side where
  | front
  | back
  deriving DecidableEq

namespace Side

def other : Side → Side
  | front => back
  | back => front

@[simp] theorem other_other (d : Side) : d.other.other = d := by cases d <;> rfl

theorem other_ne (d : Side) : d.other ≠ d := by cases d <;> decide

theorem eq_or_other (d e : Side) : e = d ∨ e = d.other := by
  cases d <;> cases e <;> decide

/-- `a` for `d`, and `b` for the other one. -/
def pair {β : Type} (d : Side) (a b : β) : Side → β := fun e => if e = d then a else b

@[simp] theorem pair_self {β : Type} (d : Side) (a b : β) : d.pair a b d = a := if_pos rfl

@[simp] theorem pair_other {β : Type} (d : Side) (a b : β) : d.pair a b d.other = b :=
  if_neg d.other_ne

end Side

/-- Where a copier is: in its copy, behind the shutdowns of the half that it read and of the one
that it wrote, and at its end. -/
inductive Copier (α : Type) where
  | running (k : Copy α)
  | readClosed (cause : Cause)
  | writeClosed (cause : Cause)
  | done (cause : Cause)

namespace Copier

variable {α : Type}

/-- What has become of the copy. -/
def copy : Copier α → Copy α
  | running k => k
  | readClosed cause | writeClosed cause | done cause => .ended cause

def isDone : Copier α → Bool
  | done _ => true
  | _ => false

theorem isDone_iff {x : Copier α} : x.isDone = true ↔ ∃ cause, x = .done cause := by
  cases x with
  | done cause => exact iff_of_true rfl ⟨cause, rfl⟩
  | _ => exact iff_of_false (fun h => nomatch h) fun ⟨_, h⟩ => nomatch h

end Copier

/-- Which halves of a connection can be shut down on their own. -/
structure HalfCloses where
  read : Bool
  write : Bool

/-- The copier of a side reads its connection and writes to the other one. -/
structure Relay (α : Type) where
  conn : Side → Conn α
  copier : Side → Copier α

namespace Relay

variable {α : Type}

def start (front back : List α) : Relay α where
  conn := Side.front.pair (Conn.new front) (Conn.new back)
  copier := fun _ => .running (.copying [])

def closeRead (can : HalfCloses) (c : Conn α) : Conn α := if can.read then c.closeRead else c

def closeWrite (can : HalfCloses) (c : Conn α) : Conn α := if can.write then c.closeWrite else c

/-- One step of a peer or of a copier up to its end. -/
inductive Step (can : Side → HalfCloses) (r : Relay α) : Relay α → Prop
  | peer (d : Side) {c : Conn α} (h : (r.conn d).Peer c) :
    Step can r { r with conn := d.pair c (r.conn d.other) }
  | copy (d : Side) {k k' : Copy α} {src dst : Conn α} (h : r.copier d = .running k)
    (hstep : Copy.Step (r.conn d) (r.conn d.other) k src dst k') :
    Step can r ⟨d.pair src dst, d.pair (.running k') (r.copier d.other)⟩
  | closeRead (d : Side) {cause : Cause} (h : r.copier d = .running (.ended cause)) :
    Step can r
      ⟨d.pair (closeRead (can d) (r.conn d)) (r.conn d.other),
        d.pair (.readClosed cause) (r.copier d.other)⟩
  | closeWrite (d : Side) {cause : Cause} (h : r.copier d = .readClosed cause) :
    Step can r
      ⟨d.pair (r.conn d) (closeWrite (can d.other) (r.conn d.other)),
        d.pair (.writeClosed cause) (r.copier d.other)⟩

/-- The copier of `d` comes to its end. -/
def finish (r : Relay α) (d : Side) (cause : Cause) : Relay α :=
  { r with copier := d.pair (.done cause) (r.copier d.other) }

def close (r : Relay α) (d : Side) : Relay α :=
  { r with conn := d.pair (r.conn d).close (r.conn d.other) }

/-- The halves that a copier has not shut down yet. -/
def Halves (src dst : Conn α) : Copier α → Prop
  | .running _ => src.readClosed = false ∧ dst.writeClosed = false
  | .readClosed _ => dst.writeClosed = false
  | .writeClosed _ | .done _ => True

/-- One copier with what it reads and writes. -/
structure Direction (src dst : Conn α) (x : Copier α) : Prop where
  copied : Copy.Copied src dst x.copy
  halves : Halves src dst x

/-- Each copier has accounted for its bytes, and its halves are as it left them. -/
def Sound (r : Relay α) : Prop := ∀ d, Direction (r.conn d) (r.conn d.other) (r.copier d)

section Flags

variable (can : HalfCloses) (c : Conn α)

theorem sourceKept_closeRead : Conn.SourceKept c (closeRead can c) := by
  unfold closeRead
  split
  · exact Conn.sourceKept_closeRead c
  · exact .refl c

theorem sinkKept_closeRead : Conn.SinkKept c (closeRead can c) := by
  unfold closeRead
  split
  · exact Conn.sinkKept_closeRead c
  · exact .refl c

theorem sourceKept_closeWrite : Conn.SourceKept c (closeWrite can c) := by
  unfold closeWrite
  split
  · exact Conn.sourceKept_closeWrite c
  · exact .refl c

theorem sinkKept_closeWrite : Conn.SinkKept c (closeWrite can c) := by
  unfold closeWrite
  split
  · exact Conn.sinkKept_closeWrite c
  · exact .refl c

theorem writeClosed_closeRead : (closeRead can c).writeClosed = c.writeClosed := by
  unfold closeRead
  split <;> rfl

theorem readClosed_closeWrite : (closeWrite can c).readClosed = c.readClosed := by
  unfold closeWrite
  split <;> rfl

theorem lasts_closeRead : Conn.Lasts c (closeRead can c) := by
  unfold closeRead
  split <;> exact ⟨rfl, id, id⟩

theorem lasts_closeWrite : Conn.Lasts c (closeWrite can c) := by
  unfold closeWrite
  split <;> exact ⟨rfl, id, id⟩

end Flags

theorem Direction.of_kept {src dst src' dst' : Conn α} {x : Copier α} (h : Direction src dst x)
    (hsrc : Conn.SourceKept src src') (hdst : Conn.SinkKept dst dst')
    (hread : src'.readClosed = src.readClosed) (hwrite : dst'.writeClosed = dst.writeClosed) :
    Direction src' dst' x := by
  refine ⟨h.copied.of_kept hsrc hdst, ?_⟩
  have hhalves := h.halves
  cases x with
  | running k => exact ⟨hread.trans hhalves.1, hwrite.trans hhalves.2⟩
  | readClosed cause => exact hwrite.trans hhalves
  | _ => trivial

/-- The FIN of a direction comes after its copy. -/
theorem Direction.ended {src dst : Conn α} {x : Copier α} (h : Direction src dst x)
    (hfin : dst.writeClosed = true) : ∃ cause, x.copy = .ended cause := by
  have hhalves := h.halves
  cases x with
  | running k => exact absurd (hhalves.2.symm.trans hfin) Bool.false_ne_true
  | readClosed cause => exact absurd (Eq.trans (Eq.symm hhalves) hfin) Bool.false_ne_true
  | writeClosed cause => exact ⟨cause, rfl⟩
  | done cause => exact ⟨cause, rfl⟩

variable {can : Side → HalfCloses} {r r' : Relay α}

theorem sound_start (front back : List α) : (start front back).Sound := by
  intro d
  cases d <;> exact ⟨Copy.copied_new _ _, rfl, rfl⟩

theorem Sound.back (h : r.Sound) (d : Side) :
    Direction (r.conn d.other) (r.conn d) (r.copier d.other) := by
  have hback := h d.other
  rwa [Side.other_other] at hback

theorem sound_pair {d : Side} {a b : Conn α} {f : Side → Copier α} (h : Direction a b (f d))
    (h' : Direction b a (f d.other)) : Sound ⟨d.pair a b, f⟩ := by
  intro e
  show Direction (d.pair a b e) (d.pair a b e.other) (f e)
  obtain rfl | rfl := d.eq_or_other e
  · rw [Side.pair_self, Side.pair_other]
    exact h
  · rw [Side.pair_other, Side.other_other, Side.pair_self]
    exact h'

theorem sound_pairs {d : Side} {a b : Conn α} {x y : Copier α} (h : Direction a b x)
    (h' : Direction b a y) : Sound ⟨d.pair a b, d.pair x y⟩ :=
  sound_pair (f := d.pair x y) (by rwa [Side.pair_self]) (by rwa [Side.pair_other])

/-- **A step of a relay, when no connection is closed under a copy.** -/
theorem Sound.step (h : r.Sound) (hstep : Step can r r')
    (hopen : ∀ d k, r.copier d = .running k → ∀ e, (r.conn e).closed = false) : r'.Sound := by
  cases hstep with
  | peer d hpeer =>
    obtain ⟨hread, hwrite⟩ := hpeer.flags
    exact sound_pair ((h d).of_kept (.of_peer hpeer) (.refl _) hread rfl)
      ((h.back d).of_kept (.refl _) (.of_peer hpeer) rfl hwrite)
  | copy d hd hcopy =>
    have hclosed := hopen d _ hd
    obtain ⟨⟨hread, hwrite⟩, hread', hwrite'⟩ := hcopy.flags
    have hforth := h d
    rw [hd] at hforth
    refine sound_pairs ⟨hforth.copied.step ?_ ?_ hcopy, ?_⟩ ?_
    · exact ⟨hforth.halves.1, hclosed d⟩
    · exact ⟨hforth.halves.2, hclosed d.other⟩
    · exact ⟨hread.trans hforth.halves.1, hwrite'.trans hforth.halves.2⟩
    · exact (h.back d).of_kept hcopy.sourceKept hcopy.sinkKept hread' hwrite
  | closeRead d hd =>
    have hforth := h d
    rw [hd] at hforth
    refine sound_pairs ⟨?_, hforth.halves.2⟩ ?_
    · exact hforth.copied.of_kept (sourceKept_closeRead _ _) (.refl _)
    · exact (h.back d).of_kept (.refl _) (sinkKept_closeRead _ _) rfl (writeClosed_closeRead _ _)
  | closeWrite d hd =>
    have hforth := h d
    rw [hd] at hforth
    refine sound_pairs ⟨?_, trivial⟩ ?_
    · exact hforth.copied.of_kept (.refl _) (sinkKept_closeWrite _ _)
    · exact (h.back d).of_kept (sourceKept_closeWrite _ _) (.refl _) (readClosed_closeWrite _ _) rfl

theorem Sound.finish (h : r.Sound) {d : Side} {cause : Cause}
    (hd : r.copier d = .writeClosed cause) : (r.finish d cause).Sound := by
  intro e
  show Direction (r.conn e) (r.conn e.other) (d.pair (.done cause) (r.copier d.other) e)
  obtain rfl | rfl := d.eq_or_other e
  · have hforth := h e
    rw [hd] at hforth
    rw [Side.pair_self]
    exact ⟨hforth.copied, trivial⟩
  · rw [Side.pair_other]
    exact h d.other

theorem Sound.close (h : r.Sound) (d : Side) : (r.close d).Sound :=
  sound_pair ((h d).of_kept (Conn.sourceKept_close _) (.refl _) rfl rfl)
    ((h.back d).of_kept (.refl _) (Conn.sinkKept_close _) rfl rfl)

/-- What a step does to each of the two connections. -/
theorem pair_rel {P : Conn α → Conn α → Prop} {d : Side} {a b : Conn α} {f : Side → Conn α}
    (ha : P (f d) a) (hb : P (f d.other) b) (e : Side) : P (f e) (d.pair a b e) := by
  obtain rfl | rfl := d.eq_or_other e
  · rwa [Side.pair_self]
  · rwa [Side.pair_other]

/-- No connection is closed by a step, and what is broken stays so. -/
theorem Step.conns (hstep : Step can r r') (e : Side) : Conn.Lasts (r.conn e) (r'.conn e) := by
  cases hstep with
  | peer d hpeer => exact pair_rel (.of_peer hpeer) (.refl _) e
  | copy d _ hcopy => exact pair_rel hcopy.lasts.1 hcopy.lasts.2 e
  | closeRead d => exact pair_rel (lasts_closeRead _ _) (.refl _) e
  | closeWrite d => exact pair_rel (.refl _) (lasts_closeWrite _ _) e

theorem pair_done {d : Side} {x : Copier α} {f : Side → Copier α} (hx : x.isDone = false)
    (hd : (f d).isDone = false) (e : Side) {cause : Cause} :
    d.pair x (f d.other) e = .done cause ↔ f e = .done cause := by
  obtain rfl | rfl := d.eq_or_other e
  · rw [Side.pair_self]
    refine iff_of_false (fun h => ?_) fun h => ?_
    · exact Bool.false_ne_true (hx.symm.trans (Copier.isDone_iff.mpr ⟨cause, h⟩))
    · exact Bool.false_ne_true (hd.symm.trans (Copier.isDone_iff.mpr ⟨cause, h⟩))
  · rw [Side.pair_other]

/-- No copier comes to its end by a step, and none that has leaves it. -/
theorem Step.done (hstep : Step can r r') (e : Side) {cause : Cause} :
    r'.copier e = .done cause ↔ r.copier e = .done cause := by
  cases hstep with
  | peer => exact Iff.rfl
  | copy d hd => exact pair_done rfl (hd ▸ rfl) e
  | closeRead d hd => exact pair_done rfl (hd ▸ rfl) e
  | closeWrite d hd => exact pair_done rfl (hd ▸ rfl) e

theorem Step.isDone (hstep : Step can r r') (e : Side) :
    (r'.copier e).isDone = (r.copier e).isDone := by
  rw [Bool.eq_iff_iff, Copier.isDone_iff, Copier.isDone_iff]
  exact exists_congr fun cause => hstep.done e

end Relay

/-! ## Relays that come to their end -/

/-- How many steps a copier has before it, when its copy fails at once. -/
def Copier.left {α : Type} : Copier α → Nat
  | running (.copying _) => 4
  | running (.ended _) => 3
  | readClosed _ => 2
  | writeClosed _ => 1
  | done _ => 0

namespace Relay

variable {α : Type} {can : Side → HalfCloses} {r r' : Relay α}

def left (r : Relay α) : Nat := (r.copier .front).left + (r.copier .back).left

theorem left_eq (f : Side → Copier α) (d : Side) :
    (f .front).left + (f .back).left = (f d).left + (f d.other).left := by
  cases d with
  | front => rfl
  | back => exact Nat.add_comm _ _

theorem left_pair {c : Side → Conn α} {d : Side} {x : Copier α} :
    left ⟨c, d.pair x (r.copier d.other)⟩ + (r.copier d).left = r.left + x.left := by
  have hnew := left_eq (d.pair x (r.copier d.other)) d
  rw [Side.pair_self, Side.pair_other] at hnew
  rw [left, left, hnew, left_eq r.copier d]
  omega

theorem left_finish {d : Side} {cause : Cause} (h : r.copier d = .writeClosed cause) :
    (r.finish d cause).left + 1 = r.left := by
  have hpair := left_pair (r := r) (c := r.conn) (d := d) (x := .done cause)
  rw [h] at hpair
  exact hpair

/-- Under closed connections a copier can go on by itself until it is through with the shutdowns. -/
theorem exists_step (can : Side → HalfCloses) (hclosed : ∀ d, (r.conn d).closed = true) {d : Side}
    (hleft : 1 < (r.copier d).left) : ∃ r', Step can r r' ∧ r'.left < r.left := by
  have hless : ∀ {c : Side → Conn α} {x : Copier α}, x.left < (r.copier d).left →
      left ⟨c, d.pair x (r.copier d.other)⟩ < r.left := by
    intro c x hx
    have hpair := left_pair (r := r) (c := c) (d := d) (x := x)
    omega
  cases hx : r.copier d with
  | running k =>
    rw [hx] at hless
    cases k with
    | copying pending =>
      cases pending with
      | nil => exact ⟨_, .copy d hx (.readFails (.inr (hclosed d))), hless (Nat.lt_succ_self _)⟩
      | cons item pending =>
        exact ⟨_, .copy d hx (.writeFails (List.cons_ne_nil _ _) (.inr (.inr (hclosed d.other)))),
          hless (Nat.lt_succ_self _)⟩
    | ended cause => exact ⟨_, .closeRead d hx, hless (Nat.lt_succ_self _)⟩
  | readClosed cause =>
    rw [hx] at hless
    exact ⟨_, .closeWrite d hx, hless (Nat.lt_succ_self _)⟩
  | writeClosed cause =>
    rw [hx] at hleft
    exact absurd hleft (Nat.lt_irrefl 1)
  | done cause =>
    rw [hx] at hleft
    exact absurd hleft (Nat.not_lt_zero 1)

/-- Closing one more connection opens none. -/
theorem closed_close {e : Side} (d : Side) (h : (r.conn e).closed = true) :
    ((r.close d).conn e).closed = true := by
  obtain rfl | rfl := d.eq_or_other e
  · show (e.pair (r.conn e).close (r.conn e.other) e).closed = true
    rw [Side.pair_self]
    rfl
  · show (d.pair (r.conn d).close (r.conn d.other) d.other).closed = true
    rwa [Side.pair_other]

theorem closed_close_self (d : Side) : ((r.close d).conn d).closed = true := by
  show (d.pair (r.conn d).close (r.conn d.other) d).closed = true
  rw [Side.pair_self]
  rfl

/-- How many copiers have come to their end. -/
def dones (r : Relay α) : Nat := (r.copier .front).isDone.toNat + (r.copier .back).isDone.toNat

theorem dones_eq (r : Relay α) (d : Side) :
    r.dones = (r.copier d).isDone.toNat + (r.copier d.other).isDone.toNat := by
  cases d with
  | front => rfl
  | back => exact Nat.add_comm _ _

theorem dones_step (hstep : Step can r r') : r'.dones = r.dones := by
  rw [dones, hstep.isDone, hstep.isDone]
  rfl

theorem dones_finish {d : Side} {cause : Cause} (h : r.copier d = .writeClosed cause) :
    (r.finish d cause).dones = r.dones + 1 := by
  have hself : ((r.finish d cause).copier d).isDone = true := by
    show (d.pair (.done cause) (r.copier d.other) d).isDone = true
    rw [Side.pair_self]
    rfl
  have hother : (r.finish d cause).copier d.other = r.copier d.other := Side.pair_other d _ _
  rw [dones_eq _ d, dones_eq r d, hself, hother, h, Bool.toNat_true]
  show 1 + _ = 0 + _ + 1
  omega

end Relay
