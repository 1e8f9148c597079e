import ContainerDesktop.HeaderMap
import ContainerDesktop.Rewrite.MapPath
import Mathlib.Logic.Relation

/-!
# Copying the body of a response

The loop of `copyBuffer` and the `maxLatencyWriter` under it, whose timer flushes in a
goroutine of its own.  Reads and writes have any result, and the timer fires at any time.
The mutex makes the three methods of the writer single steps.

`copies_faithfully` is about the bytes: a copy that ends without an error has written the
whole body.  `flushes_in_time` is about when they leave: with an interval and a writer that
can flush, what is written and not flushed has a timer that flushes it, or was flushed with
the write, and nobody flushes after `stop`.
-/

namespace ContainerDesktop.ReverseProxy

open Rewrite (GoString)

inductive ReadError where
  | eof
  | failed (text : GoString)

/-- What `copyBuffer` returns when it is not nil. -/
inductive CopyError where
  | read (text : GoString)
  | write (text : GoString)
  /-- `io.ErrShortWrite` -/
  | shortWrite

/-- The writer that `copyResponse` copies to. -/
inductive Flushing where
  /-- The one of the client itself. -/
  | never
  /-- A `maxLatencyWriter` with a negative latency. -/
  | atOnce
  /-- One with a positive latency. -/
  | within
  deriving DecidableEq

def eventStream : GoString := "text/event-stream".toList

/-- `flushInterval`, from `FlushInterval` and the response. -/
def flushInterval (interval : Int) (header : HeaderMap) (contentLength : Int) : Int :=
  if header.get "Content-Type".toList = eventStream then -1
  else if contentLength = -1 then -1
  else interval

/-- The first lines of `copyResponse`. -/
def flushing (interval : Int) (isWriteFlusher : Bool) : Flushing :=
  if interval ≠ 0 ∧ isWriteFlusher then (if interval < 0 then .atOnce else .within) else .never

/-- Where `copyBuffer` is, and `copyResponse` after it. -/
inductive CopyStage where
  | reading
  | writing (data : List UInt8) (rerr : Option ReadError)
  | returned (err : Option CopyError)
  /-- After the deferred `mlw.stop()`. -/
  | stopped (err : Option CopyError)

/-- After the `if nr > 0`. -/
def CopyStage.next : Option ReadError → CopyStage
  | none => reading
  | some .eof => returned none
  | some (.failed text) => returned (some (.read text))

/-- The error that the copy has ended with. -/
def CopyStage.result : CopyStage → Option (Option CopyError)
  | reading | writing _ _ => none
  | returned err | stopped err => some err

structure Copying where
  /-- What the body has given, and its last error. -/
  read : List UInt8
  rerr : Option ReadError
  /-- What has left for the client. -/
  sent : List UInt8
  /-- What was written and not flushed. -/
  buffered : List UInt8
  stage : CopyStage
  flushPending : Bool
  /-- The timer `t` runs. -/
  armed : Bool
  /-- How many calls of `delayedFlush` the timer has started that do not have the mutex yet. -/
  fired : Nat
  /-- The calls of `dst.Flush`. -/
  flushes : Nat

namespace Copying

def written (s : Copying) : List UInt8 := s.sent ++ s.buffered

/-- Headers are flushed by the timer too, so it runs from the start. -/
def start (f : Flushing) : Copying where
  read := []
  rerr := none
  sent := []
  buffered := []
  stage := .reading
  flushPending := f ≠ .never
  armed := f ≠ .never
  fired := 0
  flushes := 0

/-- `dst.Flush()` -/
def flush (s : Copying) : Copying :=
  { s with sent := s.sent ++ s.buffered, buffered := [], flushes := s.flushes + 1 }

/-- `Write`, of which `n` bytes of the data were taken. -/
def write (s : Copying) (f : Flushing) (accepted : List UInt8) : Copying :=
  let s := { s with buffered := s.buffered ++ accepted }
  match f with
  | .never => s
  | .atOnce => s.flush
  | .within => if s.flushPending then s else { s with armed := true, flushPending := true }

/-- `copyBuffer` after a write of `n` bytes. -/
def afterWrite (data : List UInt8) (rerr : Option ReadError) (n : Nat) : Option GoString → CopyStage
  | some text => .returned (some (.write text))
  | none => if data.length ≠ n then .returned (some .shortWrite) else .next rerr

def delayedFlush (s : Copying) : Copying :=
  let s := { s with fired := s.fired - 1 }
  if s.flushPending then { s.flush with flushPending := false } else s

def stop (s : Copying) (err : Option CopyError) : Copying :=
  { s with flushPending := false, armed := false, stage := .stopped err }

/-- The steps of the timer. -/
inductive TimerStep (s : Copying) : Copying → Prop
  | fires (h : s.armed = true) : TimerStep s { s with armed := false, fired := s.fired + 1 }
  | delayedFlush (h : 0 < s.fired) : TimerStep s s.delayedFlush

inductive Step (f : Flushing) (s : Copying) : Copying → Prop
  | read (data : List UInt8) (rerr : Option ReadError) (h : s.stage = .reading) :
    Step f s { s with
      read := s.read ++ data
      rerr := rerr
      stage := if data = [] then .next rerr else .writing data rerr }
  | write {data : List UInt8} {rerr : Option ReadError} (n : Nat) (werr : Option GoString)
    (h : s.stage = .writing data rerr) (hn : n ≤ data.length) :
    Step f s { s.write f (data.take n) with stage := afterWrite data rerr n werr }
  /-- The writer of the client has a buffer that can be full. -/
  | drains (n : Nat) :
    Step f s { s with sent := s.sent ++ s.buffered.take n, buffered := s.buffered.drop n }
  | timer {t : Copying} (h : TimerStep s t) : Step f s t
  | stops {err : Option CopyError} (h : s.stage = .returned err) : Step f s (s.stop err)

abbrev Reaches (f : Flushing) : Copying → Copying → Prop := Relation.ReflTransGen (Step f)

/-! ## What should hold -/

structure CopiesFaithfully (s : Copying) : Prop where
  /-- The client gets the bytes of the body in order, none twice. -/
  ordered : s.sent <+: s.read
  complete : s.stage.result = some none → s.rerr = some .eof ∧ s.written = s.read
  /-- An error of the body is reported, with everything before it written. -/
  readFails : ∀ text, s.stage.result = some (some (.read text)) → s.rerr = some (.failed text) ∧
    s.written = s.read

/-- The copy and `copyResponse` go on. -/
def Running (s : Copying) : Prop := ∀ err, s.stage ≠ .stopped err

/-- For the interval that `copyResponse` is called with. -/
structure FlushesInTime (interval : Int) (isWriteFlusher : Bool) (s : Copying) : Prop where
  /-- Whatever was written has left. -/
  atOnce : interval < 0 → isWriteFlusher = true → s.buffered = []
  /-- Or the timer gets it out, whatever the copy waits for. -/
  within : interval ≠ 0 → isWriteFlusher = true → s.Running →
    ∃ t, Relation.ReflTransGen TimerStep s t ∧ t.sent = s.written ∧ t.buffered = []
  /-- Without an interval, or a writer that can, nothing is flushed. -/
  never : interval = 0 ∨ isWriteFlusher = false → s.flushes = 0
  /-- The writer of the client is left alone after the copy. -/
  afterStop : ∀ err t, s.stage = .stopped err → Reaches (flushing interval isWriteFlusher) s t →
    t.flushes = s.flushes

/-! ## The bytes -/

/-- What the stage says about the bytes. -/
def Accounted (s : Copying) : CopyStage → Prop
  | .reading => s.written = s.read ∧ s.rerr = none
  | .writing data rerr => s.written ++ data = s.read ∧ s.rerr = rerr
  | .returned err | .stopped err =>
    match err with
    | none => s.written = s.read ∧ s.rerr = some .eof
    | some (.read text) => s.written = s.read ∧ s.rerr = some (.failed text)
    | some _ => s.written <+: s.read

section Bytes

variable {f : Flushing} {s t : Copying}

theorem flush_written : s.flush.written = s.written := List.append_nil _

theorem write_written (s : Copying) (f : Flushing) (accepted : List UInt8) :
    (s.write f accepted).written = s.written ++ accepted := by
  cases f with
  | never => exact (List.append_assoc _ _ _).symm
  | atOnce => exact flush_written.trans (List.append_assoc _ _ _).symm
  | within =>
    rw [write]
    split <;> exact (List.append_assoc _ _ _).symm

theorem write_frame (s : Copying) (f : Flushing) (accepted : List UInt8) :
    (s.write f accepted).read = s.read ∧ (s.write f accepted).rerr = s.rerr := by
  cases f with
  | within =>
    rw [write]
    split <;> exact ⟨rfl, rfl⟩
  | _ => exact ⟨rfl, rfl⟩

theorem delayedFlush_frame (s : Copying) :
    s.delayedFlush.written = s.written ∧ s.delayedFlush.read = s.read
    ∧ s.delayedFlush.rerr = s.rerr ∧ s.delayedFlush.stage = s.stage := by
  rw [delayedFlush]
  split
  · exact ⟨flush_written, rfl, rfl, rfl⟩
  · exact ⟨rfl, rfl, rfl, rfl⟩

theorem drain_written (s : Copying) (n : Nat) :
    (s.sent ++ s.buffered.take n) ++ s.buffered.drop n = s.written := by
  rw [List.append_assoc, List.take_append_drop, written]

theorem Accounted.congr {stage : CopyStage} (h : s.Accounted stage) (hw : t.written = s.written)
    (hr : t.read = s.read) (he : t.rerr = s.rerr) : t.Accounted stage := by
  cases stage with
  | reading => exact ⟨hw.trans (h.1.trans hr.symm), he.trans h.2⟩
  | writing data rerr => exact ⟨by rw [hw, hr]; exact h.1, he.trans h.2⟩
  | returned err | stopped err =>
    cases err with
    | none => exact ⟨hw.trans (h.1.trans hr.symm), he.trans h.2⟩
    | some err =>
      cases err with
      | read text => exact ⟨hw.trans (h.1.trans hr.symm), he.trans h.2⟩
      | _ =>
        show t.written <+: t.read
        rw [hw, hr]
        exact h

theorem accounted_next {rerr : Option ReadError} (hw : s.written = s.read) (he : s.rerr = rerr) :
    s.Accounted (.next rerr) := by
  cases rerr with
  | none => exact ⟨hw, he⟩
  | some rerr => cases rerr <;> exact ⟨hw, he⟩

theorem Accounted.prefix {stage : CopyStage} (h : s.Accounted stage) : s.written <+: s.read := by
  cases stage with
  | reading => exact h.1 ▸ List.prefix_refl _
  | writing data rerr => exact ⟨data, h.1⟩
  | returned err | stopped err =>
    cases err with
    | none => exact h.1 ▸ List.prefix_refl _
    | some err =>
      cases err with
      | read text => exact h.1 ▸ List.prefix_refl _
      | _ => exact h

/-- A write is followed by the next read, or by the end of the copy. -/
theorem accounted_afterWrite {data : List UInt8} {rerr : Option ReadError} {n : Nat}
    {werr : Option GoString} (hr : s.written ++ data.drop n = s.read) (he : s.rerr = rerr) :
    s.Accounted (afterWrite data rerr n werr) := by
  have hpre : s.written <+: s.read := ⟨data.drop n, hr⟩
  cases werr with
  | some text => exact hpre
  | none =>
    rw [afterWrite]
    split
    · exact hpre
    · rename_i hlen
      have hdrop : data.drop n = [] := List.drop_eq_nil_of_le (by omega)
      rw [hdrop, List.append_nil] at hr
      exact accounted_next hr he

theorem Accounted.step (h : s.Accounted s.stage) (hstep : Step f s t) : t.Accounted t.stage := by
  cases hstep with
  | read data rerr hstage =>
    rw [hstage] at h
    by_cases hdata : data = []
    · subst hdata
      refine accounted_next ?_ rfl
      show s.written = s.read ++ []
      rw [List.append_nil]
      exact h.1
    · simp only [hdata, if_false]
      exact ⟨congrArg (· ++ data) h.1, rfl⟩
  | @write data rerr n werr hstage hn =>
    rw [hstage] at h
    have hsame := write_frame s f (data.take n)
    refine accounted_afterWrite (s := { s.write f (data.take n) with stage := _ }) ?_
      (hsame.2.trans h.2)
    show (s.write f (data.take n)).written ++ data.drop n = (s.write f (data.take n)).read
    rw [write_written, List.append_assoc, List.take_append_drop, hsame.1]
    exact h.1
  | drains n => exact h.congr (drain_written s n) rfl rfl
  | timer htimer =>
    cases htimer with
    | fires _ => exact h.congr rfl rfl rfl
    | delayedFlush _ =>
      obtain ⟨hw, hr, he, hstage⟩ := delayedFlush_frame s
      rw [hstage]
      exact h.congr hw hr he
  | stops hstage =>
    rw [hstage] at h
    exact Accounted.congr (t := s.stop _) h rfl rfl rfl

theorem Reaches.accounted (h : Reaches f (start f) t) : t.Accounted t.stage := by
  induction h with
  | refl => exact ⟨rfl, rfl⟩
  | tail _ hstep ih => exact ih.step hstep

/-- **A copy that ends without an error has written the whole body, and no copy writes anything
else.** -/
theorem copies_faithfully (f : Flushing) (t : Copying) (h : Reaches f (start f) t) :
    CopiesFaithfully t := by
  have hacc := h.accounted
  refine ⟨(List.prefix_append _ _).trans hacc.prefix, fun hresult => ?_, fun text hresult => ?_⟩
  all_goals
    cases hstage : t.stage with
    | reading | writing _ _ =>
      rw [hstage] at hresult
      exact nomatch hresult
    | returned err | stopped err =>
      rw [hstage] at hresult hacc
      cases hresult
      exact ⟨hacc.2, hacc.1⟩

/-- A body of two bytes and its end, and the timer fires in between. -/
theorem copies_faithfully_hi :
    ∃ t, t.stage.result = some none ∧ t.sent = [104, 105] ∧ CopiesFaithfully t := by
  have hread : Reaches .within (start .within) _ := .single (.read [104, 105] (some .eof) rfl)
  have hfires := hread.tail (.timer (.fires rfl))
  have hwrite := hfires.tail (.write 2 none rfl (by decide))
  have hflush := hwrite.tail (.timer (.delayedFlush (by decide)))
  exact ⟨_, rfl, rfl, copies_faithfully .within _ hflush⟩

end Bytes

/-! ## The flushes -/

structure Timed (f : Flushing) (s : Copying) : Prop where
  /-- A pending flush has the timer or a goroutine of it, and never both. -/
  pending : s.Running → s.armed.toNat + s.fired = s.flushPending.toNat
  stopped : ∀ err, s.stage = .stopped err → s.flushPending = false ∧ s.armed = false
  atOnce : f = .atOnce → s.buffered = []
  within : f = .within → s.Running → s.buffered ≠ [] → s.flushPending = true
  never : f = .never → s.flushPending = false ∧ s.flushes = 0

section Flushes

variable {f : Flushing} {s t : Copying}

theorem not_stopped_next (rerr : Option ReadError) (err : Option CopyError) :
    CopyStage.next rerr ≠ .stopped err := by
  cases rerr with
  | none => exact fun h => nomatch h
  | some rerr => cases rerr <;> exact fun h => nomatch h

theorem not_stopped_afterWrite (data : List UInt8) (rerr : Option ReadError) (n : Nat)
    (werr : Option GoString) (err : Option CopyError) :
    afterWrite data rerr n werr ≠ .stopped err := by
  cases werr with
  | some text => exact fun h => nomatch h
  | none =>
    rw [afterWrite]
    split
    · exact fun h => nomatch h
    · exact not_stopped_next rerr err

/-- The copy goes on as before the step: nothing else of the writer has changed. -/
theorem Timed.restage (h : s.Timed f) {read : List UInt8} {rerr : Option ReadError}
    {stage : CopyStage} (hs : s.Running) (hstage : ∀ err, stage ≠ .stopped err) :
    Timed f { s with read := read, rerr := rerr, stage := stage } where
  pending := fun _ => h.pending hs
  stopped := fun err he => absurd he (hstage err)
  atOnce := h.atOnce
  within := fun hf _ => h.within hf hs
  never := h.never

theorem Timed.write (h : s.Timed f) (hs : s.Running) (accepted : List UInt8) :
    (s.write f accepted).Timed f := by
  have hpending := h.pending hs
  have hnot : ∀ err, s.stage = .stopped err → False := fun err he => hs err he
  cases f with
  | never =>
    exact ⟨fun _ => hpending, fun err he => (hnot err he).elim, (fun he => nomatch he),
      (fun he => nomatch he), h.never⟩
  | atOnce =>
    exact ⟨fun _ => hpending, fun err he => (hnot err he).elim, fun _ => rfl,
      (fun he => nomatch he), fun he => nomatch he⟩
  | within =>
    rw [Copying.write]
    by_cases hflush : s.flushPending = true
    · rw [if_pos hflush]
      exact ⟨fun _ => hpending, fun err he => (hnot err he).elim, (fun he => nomatch he),
        fun _ _ _ => hflush, fun he => nomatch he⟩
    · rw [if_neg hflush]
      have hfired : s.fired = 0 := by
        rw [Bool.of_not_eq_true hflush, Bool.toNat_false] at hpending
        omega
      refine ⟨fun _ => ?_, fun err he => (hnot err he).elim, (fun he => nomatch he),
        fun _ _ _ => rfl, fun he => nomatch he⟩
      show true.toNat + s.fired = true.toNat
      rw [hfired]
      rfl

theorem Timed.fires (h : s.Timed f) (harmed : s.armed = true) :
    Timed f { s with armed := false, fired := s.fired + 1 } where
  pending := by
    intro hs
    have hpending := h.pending hs
    rw [harmed, Bool.toNat_true] at hpending
    show false.toNat + (s.fired + 1) = s.flushPending.toNat
    rw [Bool.toNat_false]
    omega
  stopped := fun err he => ⟨(h.stopped err he).1, rfl⟩
  atOnce := h.atOnce
  within := h.within
  never := h.never

theorem Timed.delayedFlush (h : s.Timed f) (hfired : 0 < s.fired) : s.delayedFlush.Timed f := by
  rw [Copying.delayedFlush]
  by_cases hflush : s.flushPending = true
  · rw [if_pos hflush]
    refine ⟨fun hs => ?_, fun err he => ⟨rfl, (h.stopped err he).2⟩, fun _ => rfl,
      fun _ _ hne => absurd rfl hne, fun hf => ?_⟩
    · have hpending := h.pending hs
      rw [hflush, Bool.toNat_true] at hpending
      show s.armed.toNat + (s.fired - 1) = false.toNat
      rw [Bool.toNat_false]
      omega
    · exact nomatch (h.never hf).1.symm.trans hflush
  · rw [if_neg hflush]
    refine ⟨fun hs => ?_, h.stopped, h.atOnce, h.within, h.never⟩
    have hpending := h.pending hs
    rw [Bool.of_not_eq_true hflush, Bool.toNat_false] at hpending
    omega

theorem Timed.timer (h : s.Timed f) (hstep : TimerStep s t) : t.Timed f := by
  cases hstep with
  | fires harmed => exact h.fires harmed
  | delayedFlush hfired => exact h.delayedFlush hfired

theorem write_stage (s : Copying) (f : Flushing) (accepted : List UInt8) :
    (s.write f accepted).stage = s.stage := by
  cases f with
  | within =>
    rw [Copying.write]
    split <;> rfl
  | _ => rfl

theorem Timed.step (h : s.Timed f) (hstep : Step f s t) : t.Timed f := by
  cases hstep with
  | read data rerr hstage =>
    refine h.restage (fun err he => nomatch hstage.symm.trans he) fun err => ?_
    split
    · exact not_stopped_next rerr err
    · exact fun he => nomatch he
  | @write data rerr n werr hstage _ =>
    have hs : s.Running := fun err he => nomatch hstage.symm.trans he
    have hwritten : (s.write f (data.take n)).Running := fun err he =>
      hs err ((write_stage s f _).symm.trans he)
    exact (h.write hs (data.take n)).restage hwritten (not_stopped_afterWrite data rerr n werr)
  | drains n =>
    refine ⟨h.pending, h.stopped, fun hf => ?_, fun hf hs hne => h.within hf hs fun hnil => hne ?_,
      h.never⟩
    · show s.buffered.drop n = []
      rw [h.atOnce hf, List.drop_nil]
    · show s.buffered.drop n = []
      rw [hnil, List.drop_nil]
  | timer htimer => exact h.timer htimer
  | stops hstage =>
    exact ⟨fun hs => absurd rfl (hs _), fun _ _ => ⟨rfl, rfl⟩, h.atOnce,
      fun _ hs => absurd rfl (hs _), fun hf => ⟨rfl, (h.never hf).2⟩⟩

theorem timed_start (f : Flushing) : (start f).Timed f where
  pending := by cases f <;> intro _ <;> rfl
  stopped := fun _ he => nomatch he
  atOnce := fun _ => rfl
  within := fun _ _ hne => absurd rfl hne
  never := by
    rintro rfl
    exact ⟨rfl, rfl⟩

theorem Reaches.timed (h : Reaches f (start f) t) : t.Timed f := by
  induction h with
  | refl => exact timed_start f
  | tail _ hstep ih => exact ih.step hstep

/-- The goroutine of the timer flushes everything. -/
theorem flushes_of_fired (hflush : s.flushPending = true) (hfired : 0 < s.fired) :
    ∃ t, Relation.ReflTransGen TimerStep s t ∧ t.sent = s.written ∧ t.buffered = [] := by
  refine ⟨_, .single (.delayedFlush hfired), ?_⟩
  rw [Copying.delayedFlush, if_pos hflush]
  exact ⟨rfl, rfl⟩

theorem Timed.flushes (h : s.Timed f) (hs : s.Running) (hflush : s.flushPending = true) :
    ∃ t, Relation.ReflTransGen TimerStep s t ∧ t.sent = s.written ∧ t.buffered = [] := by
  have hpending := h.pending hs
  rw [hflush, Bool.toNat_true] at hpending
  by_cases hfired : 0 < s.fired
  · exact flushes_of_fired hflush hfired
  · have harmed : s.armed = true := by
      cases harmed : s.armed with
      | true => rfl
      | false =>
        rw [harmed, Bool.toNat_false] at hpending
        omega
    obtain ⟨t, ht, hsent⟩ :=
      flushes_of_fired (s := { s with armed := false, fired := s.fired + 1 }) hflush
      (Nat.succ_pos _)
    exact ⟨t, .head (.fires harmed) ht, hsent⟩

/-- A writer that was stopped stays so. -/
theorem stopped_step {err : Option CopyError} (hstage : s.stage = .stopped err)
    (hflush : s.flushPending = false) (hstep : Step f s t) :
    t.stage = .stopped err ∧ t.flushPending = false ∧ t.flushes = s.flushes := by
  cases hstep with
  | read data rerr h => exact nomatch hstage.symm.trans h
  | write n werr h hn => exact nomatch hstage.symm.trans h
  | drains n => exact ⟨hstage, hflush, rfl⟩
  | timer htimer =>
    cases htimer with
    | fires _ => exact ⟨hstage, hflush, rfl⟩
    | delayedFlush _ =>
      rw [Copying.delayedFlush, if_neg (by rw [hflush]; exact Bool.false_ne_true)]
      exact ⟨hstage, hflush, rfl⟩
  | stops h => exact nomatch hstage.symm.trans h

theorem stopped_run {err : Option CopyError} (hstage : s.stage = .stopped err)
    (hflush : s.flushPending = false) (h : Reaches f s t) :
    t.stage = .stopped err ∧ t.flushPending = false ∧ t.flushes = s.flushes := by
  induction h with
  | refl => exact ⟨hstage, hflush, rfl⟩
  | tail _ hstep ih =>
    obtain ⟨hstage', hflush', hflushes⟩ := stopped_step ih.1 ih.2.1 hstep
    exact ⟨hstage', hflush', hflushes.trans ih.2.2⟩

theorem flushing_atOnce {interval : Int} (h : interval < 0) : flushing interval true = .atOnce := by
  rw [flushing, if_pos ⟨by omega, rfl⟩, if_pos h]

theorem flushing_within {interval : Int} (h : 0 < interval) : flushing interval true = .within := by
  rw [flushing, if_pos ⟨by omega, rfl⟩, if_neg (by omega)]

theorem flushing_never {interval : Int} {isWriteFlusher : Bool}
    (h : interval = 0 ∨ isWriteFlusher = false) : flushing interval isWriteFlusher = .never := by
  refine if_neg fun ⟨hinterval, hflusher⟩ => ?_
  rcases h with h | h
  · exact hinterval h
  · exact nomatch h.symm.trans hflusher

theorem Reaches.flushesInTime {interval : Int} {isWriteFlusher : Bool}
    (hf : f = flushing interval isWriteFlusher) (h : Reaches f (start f) t) :
    FlushesInTime interval isWriteFlusher t where
  atOnce := by
    rintro hneg rfl
    exact h.timed.atOnce (hf.trans (flushing_atOnce hneg))
  within := by
    rintro hne rfl hs
    by_cases hbuffered : t.buffered = []
    · exact ⟨t, .refl, by rw [written, hbuffered, List.append_nil], hbuffered⟩
    · rcases Int.lt_or_gt_of_ne hne with hneg | hpos
      · exact absurd (h.timed.atOnce (hf.trans (flushing_atOnce hneg))) hbuffered
      · exact h.timed.flushes hs (h.timed.within (hf.trans (flushing_within hpos)) hs hbuffered)
  never := fun hnever => (h.timed.never (hf.trans (flushing_never hnever))).2
  afterStop := fun err _ hstage ht => (stopped_run hstage (h.timed.stopped err hstage).1 ht).2.2

/-- The response is a stream of events, or has no length. -/
def Streaming (header : HeaderMap) (contentLength : Int) : Prop :=
  header.get "Content-Type".toList = eventStream ∨ contentLength = -1

theorem flushInterval_streaming {interval : Int} {header : HeaderMap} {contentLength : Int}
    (h : Streaming header contentLength) : flushInterval interval header contentLength = -1 := by
  rw [flushInterval]
  rcases h with h | h
  · rw [if_pos h]
  · rw [if_pos h, ite_self]

/-- **No byte is left behind by the flushes**, whenever the timer fires, if there is an interval and
a writer that can flush; else there are none.  A stream is flushed with each write, so that the
client has all of it while the copy waits for more. -/
theorem flushes_in_time (interval : Int) (isWriteFlusher : Bool) (header : HeaderMap)
    (contentLength : Int) (f : Flushing)
    (hf : f = flushing (flushInterval interval header contentLength) isWriteFlusher) (t : Copying)
    (h : Reaches f (start f) t) :
    FlushesInTime (flushInterval interval header contentLength) isWriteFlusher t ∧
      (Streaming header contentLength → isWriteFlusher = true → t.stage = .reading →
        t.sent = t.read) := by
  have hflushes := h.flushesInTime hf
  refine ⟨hflushes, fun hstreaming hflusher hstage => ?_⟩
  have hneg : flushInterval interval header contentLength < 0 := by
    rw [flushInterval_streaming hstreaming]
    decide
  have hbuffered := hflushes.atOnce hneg hflusher
  have hacc := h.accounted
  rw [hstage] at hacc
  have hwritten : t.written = t.read := hacc.1
  rwa [written, hbuffered, List.append_nil] at hwritten

/-- A response of unknown length, while the backend is silent. -/
theorem flushes_in_time_events :
    ∃ t, FlushesInTime (flushInterval 0 ∅ (-1)) true t ∧ t.stage = .reading ∧
      t.sent = [104, 105] := by
  have hread : Reaches .atOnce (start .atOnce) _ := .single (.read [104, 105] none rfl)
  have hwrite := hread.tail (.write 2 none rfl (by decide))
  obtain ⟨hflushes, hsent⟩ := flushes_in_time 0 true ∅ (-1) .atOnce rfl _ hwrite
  exact ⟨_, hflushes, rfl, hsent (Or.inr rfl) rfl rfl⟩

end Flushes

end Copying

end ContainerDesktop.ReverseProxy
