import ContainerDesktop.Histories
import ContainerDesktop.Services.Frame
import Mathlib.Logic.Relation

/-!
# The background loops

`Start` leaves two loops behind.  Each runs a command, and runs it again a little
later, until the cancellation source in a field of the engine is cancelled: `_cts`
for the data distribution, and for the port listener `_portforwardListenerCts`,
which is linked to it.  `Stop` cancels the source in `_cts`.

A loop looks at the field and not at the source it was begun with, and the delay
between two commands cannot be cancelled.  A `Start` that comes before the next
look of a stopped loop puts another source there, and the loop goes on.
`stopped_loops_stay_stopped` says what has to be avoided for a stopped loop to
stay stopped, in every order of steps.
-/

namespace ContainerDesktop.Services

/-! ## The cancellation sources -/

/-- How far an attempt of `Start` has come with sources and loops. -/
inductive Phase where
  /-- No attempt is at it: before its first line, or with its loops begun. -/
  | idle
  | created
  | dataBegun
  | linked
  deriving DecidableEq

inductive LoopKind where
  | dataDistro
  | portForwardListener
  deriving DecidableEq

/-- The fields with the cancellation sources.  A linked source is written as the one that it is
linked to, since nothing else cancels it. -/
structure Controls where
  cts : Option Nat
  portforwardListenerCts : Option Nat
  sources : Nat
  cancelled : List Nat
  phase : Phase
  deriving DecidableEq

/-- What `Start` and `Stop` do with them. -/
inductive Control where
  | createSource
  | beginData
  | linkSource
  | beginListener
  /-- The attempt ends here, and `Stop` does not come to its `_cts.Cancel()`. -/
  | abandon
  | cancel
  deriving DecidableEq

namespace Controls

def init : Controls := ⟨none, none, 0, [], .idle⟩

/-- One step of `Start` or `Stop`.  A failed attempt cancels from where it was. -/
def perform (c : Controls) : Control → Option Controls
  | .createSource =>
    if c.phase = .idle then
      some { c with cts := some c.sources, sources := c.sources + 1, phase := .created }
    else none
  | .beginData => if c.phase = .created then some { c with phase := .dataBegun } else none
  | .linkSource =>
    if c.phase = .dataBegun then some { c with portforwardListenerCts := c.cts, phase := .linked }
    else none
  | .beginListener => if c.phase = .linked then some { c with phase := .idle } else none
  | .abandon => some { c with phase := .idle }
  | .cancel => c.cts.map fun source => { c with cancelled := source :: c.cancelled, phase := .idle }

/-- The source in the field that a loop looks at. -/
def field (c : Controls) : LoopKind → Option Nat
  | .dataDistro => c.cts
  | .portForwardListener => c.portforwardListenerCts

/-- `IsCancellationRequested` of it. -/
def requested (c : Controls) (kind : LoopKind) : Bool := (c.field kind).any (· ∈ c.cancelled)

end Controls

/-! ## The loops -/

/-- Where a loop is. -/
inductive LoopStage where
  /-- At the condition of the `while`. -/
  | checking
  /-- Behind it, with the command still to be run. -/
  | entering
  /-- Awaiting the command that was run with this token. -/
  | running (token : Nat)
  /-- At the `if` behind the command. -/
  | returned
  | delaying
  | ended
  deriving DecidableEq

/-- A loop, with the source that was in `_cts` when `Start` began it. -/
structure Loop where
  kind : LoopKind
  source : Nat
  stage : LoopStage
  deriving DecidableEq

inductive LoopEvent where
  | check
  | run
  | exit
  | throw
  | recheck
  | wake
  deriving DecidableEq

/-- One step of a loop.  A command with a cancelled token does not come to its end but throws. -/
def LoopStage.perform (c : Controls) (kind : LoopKind) : LoopStage → LoopEvent → Option LoopStage
  | .checking, .check => some (if c.requested kind then .ended else .entering)
  | .entering, .run => (c.field kind).map .running
  | .entering, .throw => some .ended
  | .running token, .exit => if token ∈ c.cancelled then none else some .returned
  | .running _, .throw => some .ended
  | .returned, .recheck => some (if c.requested kind then .checking else .delaying)
  | .delaying, .wake => some .checking
  | _, _ => none

/-- The loop that a step of `Start` begins. -/
def Control.begins : Control → Option LoopKind
  | .beginData => some .dataDistro
  | .beginListener => some .portForwardListener
  | .createSource | .linkSource | .abandon | .cancel => none

/-- The engine's sources and the loops begun so far. -/
structure Background where
  controls : Controls
  loops : List Loop
  deriving DecidableEq

namespace Background

def init : Background := ⟨.init, []⟩

inductive Event where
  | control (e : Control)
  | loop (n : Nat) (e : LoopEvent)
  deriving DecidableEq

/-- The loop that `e` begins, by the source in `_cts`. -/
def begun (c : Controls) (e : Control) : List Loop :=
  match e.begins, c.cts with
  | some kind, some source => [⟨kind, source, .checking⟩]
  | _, _ => []

/-- One step of `Start` or `Stop`, or of the loop numbered `n`. -/
def perform (s : Background) : Event → Option Background
  | .control e => (s.controls.perform e).map fun c => ⟨c, s.loops ++ begun s.controls e⟩
  | .loop n e => do
    let l ← s.loops[n]?
    let stage ← l.stage.perform s.controls l.kind e
    return { s with loops := s.loops.set n { l with stage := stage } }

def Step (s : Background) (e : Event) (t : Background) : Prop := s.perform e = some t

end Background

/-! ## What should hold -/

/-- The next step of the loop can begin another iteration. -/
def Loop.Begins (c : Controls) (l : Loop) : Prop :=
  ∃ e stage, l.stage.perform c l.kind e = some stage ∧
    (stage = .entering ∨ ∃ token, stage = .running token)

/-- The loop runs no command any more: it has ended, or it awaits one that only throws. -/
def Loop.Over (c : Controls) (l : Loop) : Prop :=
  l.stage = .ended ∨ ∃ token ∈ c.cancelled, l.stage = .running token

instance (c : Controls) (l : Loop) : Decidable (l.Over c) := inferInstanceAs (Decidable (_ ∨ _))

namespace Background

/-- A loop whose source was cancelled does not go on, and one loop of each kind runs commands. -/
structure Sound (s : Background) : Prop where
  stopped : ∀ l ∈ s.loops, l.source ∈ s.controls.cancelled → ¬ l.Begins s.controls
  alone : s.loops.Pairwise fun l l' => l.kind = l'.kind → l.Over s.controls ∨ l'.Over s.controls

/-- It is sound, and so it is with the loop that an attempt of `Start` begins next. -/
def Safe (s : Background) : Prop :=
  Sound s ∧ ∀ e t, e.begins ≠ none → s.perform (.control e) = some t → Sound t

/-- **The field that a loop looks at is replaced only when the loop is over, and its source is not
cancelled between its check and its command.** -/
def Timely (s : Background) : Event → Prop
  | .control .createSource => ∀ l ∈ s.loops, l.kind = .dataDistro → l.Over s.controls
  | .control .linkSource => ∀ l ∈ s.loops, l.kind = .portForwardListener → l.Over s.controls
  | .control .cancel => ∀ l ∈ s.loops, l.stage = .entering → s.controls.cts ≠ some l.source
  | .control .beginData | .control .beginListener | .control .abandon | .loop .. => True

instance (s : Background) : ∀ e : Event, Decidable (Timely s e)
  | .control .createSource | .control .linkSource | .control .cancel =>
    inferInstanceAs (Decidable (∀ l ∈ s.loops, _ → _))
  | .control .beginData | .control .beginListener | .control .abandon | .loop .. =>
    inferInstanceAs (Decidable True)

end Background

/-! ## One step of a loop -/

/-- What one step makes of the stage. -/
inductive LoopStage.Step (c : Controls) (kind : LoopKind) : LoopStage → LoopStage → Prop
  | leave (h : c.requested kind = true) : Step c kind .checking .ended
  | enter (h : c.requested kind = false) : Step c kind .checking .entering
  | run {token : Nat} (h : c.field kind = some token) : Step c kind .entering (.running token)
  | fail : Step c kind .entering .ended
  | exit {token : Nat} (h : token ∉ c.cancelled) : Step c kind (.running token) .returned
  | throw {token : Nat} : Step c kind (.running token) .ended
  | skip : Step c kind .returned .checking
  | delay : Step c kind .returned .delaying
  | wake : Step c kind .delaying .checking

/-- The loop is the one that belongs to its field. -/
structure Loop.Current (c : Controls) (l : Loop) : Prop where
  field : c.field l.kind = some l.source
  entering : l.stage = .entering → l.source ∉ c.cancelled
  running : ∀ token, l.stage = .running token → token = l.source

section Loop

variable {c c' : Controls} {l : Loop} {e : LoopEvent} {stage : LoopStage}

theorem LoopStage.step_of_perform {kind : LoopKind} {stage' : LoopStage}
    (h : stage.perform c kind e = some stage') : stage.Step c kind stage' := by
  unfold LoopStage.perform at h
  split at h
  · obtain rfl := Option.some.inj h
    split
    · exact .leave ‹_›
    · exact .enter (Bool.eq_false_iff.mpr ‹_›)
  · obtain ⟨token, hfield, rfl⟩ := Option.map_eq_some_iff.mp h
    exact .run hfield
  · obtain rfl := Option.some.inj h
    exact .fail
  · obtain ⟨hmem, hsome⟩ := Option.ite_none_left_eq_some.mp h
    obtain rfl := Option.some.inj hsome
    exact .exit hmem
  · obtain rfl := Option.some.inj h
    exact .throw
  · obtain rfl := Option.some.inj h
    split
    · exact .skip
    · exact .delay
  · obtain rfl := Option.some.inj h
    exact .wake
  · exact nomatch h

theorem Controls.requested_of_field {kind : LoopKind} {source : Nat}
    (h : c.field kind = some source) : c.requested kind = decide (source ∈ c.cancelled) := by
  rw [requested, h, Option.any_some]

theorem Loop.Over.mono (h : l.Over c) (hcancelled : c.cancelled ⊆ c'.cancelled) : l.Over c' :=
  h.imp_right fun ⟨token, hmem, hstage⟩ => ⟨token, hcancelled hmem, hstage⟩

/-- A loop that is over ends. -/
theorem Loop.Over.step (h : l.Over c) (hstep : l.stage.Step c l.kind stage) : stage = .ended := by
  rcases h with hstage | ⟨token, hmem, hstage⟩
  · rw [hstage] at hstep
    exact nomatch hstep
  · rw [hstage] at hstep
    cases hstep with
    | exit hnot => exact absurd hmem hnot
    | throw => rfl

theorem Loop.Over.not_begins (h : l.Over c) : ¬ l.Begins c := by
  intro ⟨e, stage, hperform, hbegins⟩
  obtain rfl := h.step (LoopStage.step_of_perform hperform)
  rcases hbegins with hentering | ⟨token, hrunning⟩
  · exact nomatch hentering
  · exact nomatch hrunning

/-- A loop whose source was cancelled leaves at its next check. -/
theorem Loop.Current.not_begins (h : l.Current c) (hmem : l.source ∈ c.cancelled) :
    ¬ l.Begins c := by
  obtain ⟨kind, source, stage⟩ := l
  intro ⟨e, stage', hperform, hbegins⟩
  have hstep := LoopStage.step_of_perform hperform
  rcases hbegins with rfl | ⟨token, rfl⟩
  · cases hstep with
    | enter hrequested =>
      rw [Controls.requested_of_field h.field] at hrequested
      exact of_decide_eq_false hrequested hmem
  · cases hstep with
    | run => exact h.entering rfl hmem

/-- The loop of a field stays the one of the field, or it ends. -/
theorem Loop.Current.step (h : l.Current c) (hstep : l.stage.Step c l.kind stage) :
    stage = .ended ∨ Loop.Current c { l with stage := stage } := by
  obtain ⟨kind, source, before⟩ := l
  cases hstep with
  | leave | fail | throw => exact .inl rfl
  | enter hrequested =>
    rw [Controls.requested_of_field h.field] at hrequested
    exact .inr ⟨h.field, fun _ => of_decide_eq_false hrequested, fun _ hr => (nomatch hr)⟩
  | run hfield =>
    refine .inr ⟨h.field, fun he => (nomatch he), fun token hr => ?_⟩
    obtain rfl := LoopStage.running.inj hr
    exact Option.some.inj (hfield.symm.trans h.field)
  | exit | skip | delay | wake =>
    exact .inr ⟨h.field, fun he => (nomatch he), fun _ hr => (nomatch hr)⟩

end Loop

/-! ## The invariant -/

namespace Background

/-- Every loop is over or the one of its field, and the one of a field that was just written has not
been begun. -/
structure Invariant (s : Background) : Prop where
  source : s.controls.phase ≠ .idle → s.controls.cts ≠ none
  loops : ∀ l ∈ s.loops, l.Over s.controls ∨ l.Current s.controls
  alone : s.loops.Pairwise fun l l' => l.kind = l'.kind → l.Over s.controls ∨ l'.Over s.controls
  created : s.controls.phase = .created → ∀ l ∈ s.loops, l.kind = .dataDistro → l.Over s.controls
  linked : s.controls.phase = .linked → s.controls.portforwardListenerCts = s.controls.cts ∧
    ∀ l ∈ s.loops, l.kind = .portForwardListener → l.Over s.controls

section Invariant

variable {s t : Background}

theorem Invariant.sound (h : Invariant s) : Sound s where
  stopped := by
    intro l hl hmem
    rcases h.loops l hl with hover | hcurrent
    · exact hover.not_begins
    · exact hcurrent.not_begins hmem
  alone := h.alone

theorem invariant_init : Invariant init where
  source := fun h => absurd rfl h
  loops := fun _ h => nomatch h
  alone := List.Pairwise.nil
  created := fun h => nomatch h
  linked := fun h => nomatch h

/-- One item of a list is replaced by one that stands in the relation wherever it did. -/
theorem pairwise_set {α : Type} {R : α → α → Prop} {a b : α} (hleft : ∀ x, R x a → R x b)
    (hright : ∀ x, R a x → R b x) : ∀ {l : List α} {n : Nat}, l.Pairwise R → l[n]? = some a →
      (l.set n b).Pairwise R := by
  intro l
  induction l with
  | nil => intro n h _; exact h
  | cons x l ih =>
    intro n h ha
    obtain ⟨hx, hl⟩ := List.pairwise_cons.mp h
    cases n with
    | zero =>
      obtain rfl : x = a := Option.some.inj ha
      exact List.pairwise_cons.mpr ⟨fun y hy => hright y (hx y hy), hl⟩
    | succ n =>
      refine List.pairwise_cons.mpr ⟨fun y hy => ?_, ih hl ha⟩
      rcases List.mem_or_eq_of_mem_set hy with hy | rfl
      · exact hx y hy
      · exact hleft x (hx a (List.mem_of_getElem? ha))

/-- A step of a loop. -/
theorem Invariant.loop (h : Invariant s) {n : Nat} {e : LoopEvent} (hstep : Step s (.loop n e) t) :
    Invariant t := by
  obtain ⟨l, hl, hbind⟩ := Option.bind_eq_some_iff.mp hstep
  obtain ⟨stage, hperform, hsome⟩ := Option.bind_eq_some_iff.mp hbind
  obtain rfl := Option.some.inj hsome
  have hstage := LoopStage.step_of_perform hperform
  have hmem := List.mem_of_getElem? hl
  have hover : l.Over s.controls → Loop.Over s.controls { l with stage := stage } := fun hover =>
    .inl (hover.step hstage)
  have hall : ∀ kind, (∀ l ∈ s.loops, l.kind = kind → l.Over s.controls) →
      ∀ l' ∈ s.loops.set n { l with stage := stage }, l'.kind = kind → l'.Over s.controls := by
    intro kind hover' l' hl' hkind
    rcases List.mem_or_eq_of_mem_set hl' with hl' | rfl
    · exact hover' l' hl' hkind
    · exact hover (hover' l hmem hkind)
  refine ⟨h.source, fun l' hl' => ?_, ?_, fun hphase => hall _ (h.created hphase), fun hphase =>
    ⟨(h.linked hphase).1, hall _ (h.linked hphase).2⟩⟩
  · rcases List.mem_or_eq_of_mem_set hl' with hl' | rfl
    · exact h.loops l' hl'
    · rcases h.loops l hmem with hold | hcurrent
      · exact .inl (hover hold)
      · exact (hcurrent.step hstage).imp_left .inl
  · exact pairwise_set (fun x hx hkind => (hx hkind).imp_right hover)
      (fun x hx hkind => (hx hkind).imp_left hover) h.alone hl

/-- A change of the sources that begins no loop. -/
theorem Invariant.controls (h : Invariant s) {c : Controls}
    (hsource : c.phase ≠ .idle → c.cts ≠ none) (hcancelled : s.controls.cancelled ⊆ c.cancelled)
    (hcurrent : ∀ l ∈ s.loops, l.Current s.controls → l.Over c ∨ l.Current c)
    (hcreated : c.phase = .created → ∀ l ∈ s.loops, l.kind = .dataDistro → l.Over c)
    (hlinked : c.phase = .linked → c.portforwardListenerCts = c.cts ∧
      ∀ l ∈ s.loops, l.kind = .portForwardListener → l.Over c) : Invariant ⟨c, s.loops⟩ where
  source := hsource
  loops := by
    intro l hl
    rcases h.loops l hl with hover | hc
    · exact .inl (hover.mono hcancelled)
    · exact hcurrent l hl hc
  alone := h.alone.imp fun hpair hkind =>
    (hpair hkind).imp (·.mono hcancelled) (·.mono hcancelled)
  created := hcreated
  linked := hlinked

theorem begun_of_none {c : Controls} {e : Control} (h : e.begins = none) : begun c e = [] := by
  rw [begun, h]

theorem begun_of_some {c : Controls} {e : Control} {kind : LoopKind} {source : Nat}
    (h : e.begins = some kind) (hcts : c.cts = some source) :
    begun c e = [⟨kind, source, .checking⟩] := by
  rw [begun, h, hcts]

/-- An attempt of `Start` goes on, or ends, and no field changes. -/
theorem Invariant.phase (h : Invariant s) {phase : Phase}
    (hsource : phase ≠ .idle → s.controls.cts ≠ none)
    (hcreated : phase ≠ .created) (hlinked : phase ≠ .linked) :
    Invariant ⟨{ s.controls with phase := phase }, s.loops⟩ :=
  h.controls hsource (List.Subset.refl _)
    (fun _ _ hcurrent => .inr ⟨hcurrent.field, hcurrent.entering, hcurrent.running⟩)
    (fun hphase => absurd hphase hcreated) fun hphase => absurd hphase hlinked

/-- A loop is begun for a field that was just written. -/
theorem Invariant.begin (h : Invariant s) {e : Control} (kind : LoopKind) {phase : Phase}
    (hbegins : e.begins = some kind) (hsource : s.controls.cts ≠ none)
    (hfield : s.controls.field kind = s.controls.cts)
    (hover : ∀ l ∈ s.loops, l.kind = kind → l.Over s.controls) (hcreated : phase ≠ .created)
    (hlinked : phase ≠ .linked) :
    Invariant ⟨{ s.controls with phase := phase }, s.loops ++ begun s.controls e⟩ := by
  have hphase := h.phase (fun _ => hsource) hcreated hlinked
  obtain ⟨source, hcts⟩ := Option.ne_none_iff_exists'.mp hsource
  rw [begun_of_some hbegins hcts]
  refine ⟨fun _ => hsource, fun l hl => ?_, ?_, fun hp => absurd hp hcreated, fun hp =>
    absurd hp hlinked⟩
  · rcases List.mem_append.mp hl with hl | hl
    · exact hphase.loops l hl
    · obtain rfl := List.mem_singleton.mp hl
      exact .inr ⟨hfield.trans hcts, fun he => (nomatch he), fun _ hr => (nomatch hr)⟩
  · refine List.pairwise_append.mpr ⟨hphase.alone, List.pairwise_singleton _ _,
      fun l hl l' hl' hkind => ?_⟩
    obtain rfl := List.mem_singleton.mp hl'
    exact .inl (hover l hl hkind)

/-- A field is written, and the loops that look at it are over. -/
theorem Invariant.write (h : Invariant s) {c : Controls} (kind : LoopKind)
    (hsource : c.cts ≠ none) (hcancelled : c.cancelled = s.controls.cancelled)
    (hfield : ∀ kind', kind' ≠ kind → c.field kind' = s.controls.field kind')
    (hover : ∀ l ∈ s.loops, l.kind = kind → l.Over s.controls)
    (hcreated : c.phase = .created → kind = .dataDistro)
    (hlinked : c.phase = .linked → kind = .portForwardListener ∧ c.portforwardListenerCts = c.cts) :
    Invariant ⟨c, s.loops⟩ := by
  have hsame : ∀ {l : Loop}, l.Over s.controls → l.Over c := fun h =>
    h.mono (hcancelled ▸ List.Subset.refl _)
  refine h.controls (fun _ => hsource) (hcancelled ▸ List.Subset.refl _) (fun l hl hcurrent => ?_)
    (fun hphase l hl hkind => hsame (hover l hl (hkind.trans (hcreated hphase).symm))) fun hphase =>
    ⟨(hlinked hphase).2, fun l hl hkind => hsame (hover l hl (hkind.trans (hlinked hphase).1.symm))⟩
  by_cases hkind : l.kind = kind
  · exact .inl (hsame (hover l hl hkind))
  · exact .inr ⟨(hfield _ hkind).trans hcurrent.field, hcancelled ▸ hcurrent.entering,
      hcurrent.running⟩

/-- A step of `Start` or `Stop`. -/
theorem Invariant.control (h : Invariant s) {e : Control} (htimely : Timely s (.control e))
    (hstep : Step s (.control e) t) : Invariant t := by
  obtain ⟨c, hperform, rfl⟩ := Option.map_eq_some_iff.mp hstep
  cases e with
  | createSource =>
    obtain ⟨-, hc⟩ := Option.ite_none_right_eq_some.mp hperform
    obtain rfl := Option.some.inj hc
    rw [begun_of_none rfl, List.append_nil]
    refine h.write .dataDistro (fun hn => nomatch hn) rfl (fun kind hkind => ?_) htimely
      (fun _ => rfl) fun hp => nomatch hp
    cases kind with
    | dataDistro => exact absurd rfl hkind
    | portForwardListener => rfl
  | beginData =>
    obtain ⟨hphase, hc⟩ := Option.ite_none_right_eq_some.mp hperform
    obtain rfl := Option.some.inj hc
    exact h.begin .dataDistro rfl (h.source (hphase ▸ fun hn => nomatch hn)) rfl (h.created hphase)
      (fun hp => nomatch hp) fun hp => nomatch hp
  | linkSource =>
    obtain ⟨hphase, hc⟩ := Option.ite_none_right_eq_some.mp hperform
    obtain rfl := Option.some.inj hc
    rw [begun_of_none rfl, List.append_nil]
    refine h.write .portForwardListener (h.source (hphase ▸ fun hn => nomatch hn)) rfl
      (fun kind hkind => ?_) htimely (fun hp => nomatch hp) fun _ => ⟨rfl, rfl⟩
    cases kind with
    | dataDistro => rfl
    | portForwardListener => exact absurd rfl hkind
  | beginListener =>
    obtain ⟨hphase, hc⟩ := Option.ite_none_right_eq_some.mp hperform
    obtain rfl := Option.some.inj hc
    obtain ⟨hlinked, hover⟩ := h.linked hphase
    exact h.begin .portForwardListener rfl (h.source (hphase ▸ fun hn => nomatch hn)) hlinked hover
      (fun hp => nomatch hp) fun hp => nomatch hp
  | abandon =>
    obtain rfl := Option.some.inj hperform
    rw [begun_of_none rfl, List.append_nil]
    exact h.phase (fun hp => absurd rfl hp) (fun hp => nomatch hp) fun hp => nomatch hp
  | cancel =>
    obtain ⟨source, hcts, rfl⟩ := Option.map_eq_some_iff.mp hperform
    rw [begun_of_none rfl, List.append_nil]
    refine h.controls (fun hp => absurd rfl hp) (List.subset_cons_self _ _)
      (fun l hl hcurrent => .inr ?_) (fun hp => nomatch hp) fun hp => nomatch hp
    refine ⟨hcurrent.field, fun hentering hmem => ?_, hcurrent.running⟩
    rcases List.mem_cons.mp hmem with rfl | hmem
    · exact htimely l hl hentering hcts
    · exact hcurrent.entering hentering hmem

theorem Invariant.step (h : Invariant s) {e : Event} (htimely : Timely s e) (hstep : Step s e t) :
    Invariant t := by
  cases e with
  | control e => exact h.control htimely hstep
  | loop n e => exact h.loop hstep

theorem Invariant.safe (h : Invariant s) : Safe s := by
  refine ⟨h.sound, fun e t hbegins hstep => (h.step ?_ hstep).sound⟩
  cases e with
  | beginData | beginListener => trivial
  | createSource | linkSource | abandon | cancel => exact absurd rfl hbegins

/-- A loop that is begun next to one of its kind shows that the other is over. -/
theorem over_of_safe (h : Safe s) {e : Control} {kind : LoopKind} {source : Nat} {c : Controls}
    (hbegins : e.begins = some kind) (hcts : s.controls.cts = some source)
    (hperform : s.controls.perform e = some c) (hcancelled : c.cancelled = s.controls.cancelled) :
    ∀ l ∈ s.loops, l.kind = kind → l.Over s.controls := by
  intro l hl hkind
  have hstep : s.perform (.control e) = some ⟨c, s.loops ++ [⟨kind, source, .checking⟩]⟩ := by
    rw [perform, hperform, Option.map_some, begun_of_some hbegins hcts]
  have hsound := h.2 e _ (hbegins ▸ fun hn => nomatch hn) hstep
  have hpair := (List.pairwise_append.mp hsound.alone).2.2 l hl _ (List.mem_singleton_self _) hkind
  rcases hpair with hover | hstage | ⟨_, _, hstage⟩
  · exact hover.mono (hcancelled ▸ List.Subset.refl _)
  · exact nomatch hstage
  · exact nomatch hstage

/-- A step that does harm is one that is not timely. -/
theorem Invariant.timely_iff (h : Invariant s) {e : Event} (hstep : Step s e t) :
    Timely s e ↔ Safe t := by
  refine ⟨fun htimely => (h.step htimely hstep).safe, fun hsafe => ?_⟩
  cases e with
  | loop n e => trivial
  | control e =>
    obtain ⟨c, hperform, rfl⟩ := Option.map_eq_some_iff.mp hstep
    cases e with
    | beginData | beginListener | abandon => trivial
    | createSource =>
      obtain ⟨-, hc⟩ := Option.ite_none_right_eq_some.mp hperform
      obtain rfl := Option.some.inj hc
      rw [begun_of_none rfl, List.append_nil] at hsafe
      exact fun l hl hkind => (over_of_safe hsafe (e := .beginData) rfl rfl rfl rfl l hl hkind).mono
        (List.Subset.refl _)
    | linkSource =>
      obtain ⟨hphase, hc⟩ := Option.ite_none_right_eq_some.mp hperform
      obtain rfl := Option.some.inj hc
      rw [begun_of_none rfl, List.append_nil] at hsafe
      obtain ⟨source, hcts⟩ := Option.ne_none_iff_exists'.mp
        (h.source (hphase ▸ fun hn => nomatch hn))
      exact fun l hl hkind => (over_of_safe hsafe (e := .beginListener) rfl hcts rfl rfl l
        hl hkind).mono (List.Subset.refl _)
    | cancel =>
      obtain ⟨source, hcts, rfl⟩ := Option.map_eq_some_iff.mp hperform
      rw [begun_of_none rfl, List.append_nil] at hsafe
      intro l hl hentering hsource
      obtain rfl := Option.some.inj (hcts.symm.trans hsource)
      refine hsafe.1.stopped l hl List.mem_cons_self ⟨.run, .running l.source, ?_, .inr ⟨_, rfl⟩⟩
      rcases h.loops l hl with hended | hcurrent
      · rcases hended with hstage | ⟨_, _, hstage⟩ <;> exact nomatch hentering.symm.trans hstage
      · rw [hentering, LoopStage.perform]
        exact congrArg (Option.map LoopStage.running) hcurrent.field

end Invariant

/-! ## Runs -/

/-- **Stopped loops stay stopped.**  In every order of the steps of `Start`, `Stop` and the loops,
if each time a field is replaced only when the loop that looks at it is over, and no source is
cancelled between a check of it and the command; and the first step that does otherwise ends this,
at once or with the loop that `Start` begins next. -/
theorem stopped_loops_stay_stopped (events : List Event) (s : Background)
    (h : Runs Step Timely init events s) :
    Sound s ∧ ∀ e t, Step s e t → (Timely s e ↔ Safe t) := by
  have hi : Invariant s := h.invariant (I := fun _ s => Invariant s) invariant_init
    fun hi htimely hstep => hi.step htimely hstep
  exact ⟨hi.sound, fun e t hstep => hi.timely_iff hstep⟩

/-- A start, one round of the loop for the data distribution, a stop that it takes notice of, and
another start. -/
theorem stopped_loops_stay_stopped_restart :
    Sound ⟨⟨some 1, some 0, 2, [0], .dataBegun⟩,
      [⟨.dataDistro, 0, .ended⟩, ⟨.portForwardListener, 0, .checking⟩,
        ⟨.dataDistro, 1, .checking⟩]⟩ :=
  (stopped_loops_stay_stopped
    [.control .beginData, .control .createSource, .loop 0 .throw, .control .cancel, .loop 0 .run,
      .loop 0 .check, .control .beginListener, .control .linkSource, .control .beginData,
      .control .createSource] _
    (.step (.step (.step (.step (.step (.step (.step (.step (.step (.step .refl
      (by decide) rfl) trivial rfl) (by decide) rfl) trivial rfl) trivial rfl) trivial rfl)
      (by decide) rfl) trivial rfl) (by decide) rfl) trivial rfl)).1

/-- The loop for the data distribution waits while the engine restarts, and goes on with the source
of the second start. -/
theorem stopped_loop_resumes :
    ¬ ∀ (events : List Event) (s : Background), Runs Step
      (fun _ _ => True) init events s → Sound s := by
  intro hall
  have hsound : Sound ⟨⟨some 1, some 0, 2, [0], .created⟩,
      [⟨.dataDistro, 0, .checking⟩, ⟨.portForwardListener, 0, .checking⟩]⟩ := by
    refine hall [.loop 0 .wake, .control .createSource, .control .cancel, .loop 0 .recheck,
      .loop 0 .exit,
      .loop 0 .run, .loop 0 .check, .control .beginListener, .control .linkSource,
      .control .beginData, .control .createSource] _ ?_
    exact .step (.step (.step (.step (.step (.step (.step (.step (.step (.step (.step .refl
      trivial rfl) trivial rfl) trivial rfl) trivial rfl) trivial rfl) trivial rfl) trivial
      rfl) trivial rfl) trivial rfl) trivial rfl) trivial rfl
  refine hsound.stopped ⟨.dataDistro, 0, .checking⟩ List.mem_cons_self List.mem_cons_self ?_
  exact ⟨.check, .entering, rfl, .inl rfl⟩

end Background

/-! ## The operations of the engine -/

/-- The sources of the engine, in the given phase. -/
def EngineState.controls (s : EngineState) (phase : Phase) : Controls :=
  ⟨s.cts, s.portforwardListenerCts, s.sources, s.cancelled, phase⟩

/-- Some steps of `Start` and `Stop` lead from the one to the other. -/
def Controls.Leads : Controls → Controls → Prop :=
  Relation.ReflTransGen fun c c' => ∃ e, c.perform e = some c'

/-- The computation takes such steps from the phase `p`, to `q` unless it throws. -/
def Advances {α : Type} (p q : Phase) (m : EngineM α) : Prop :=
  ∀ s : EngineState,
    (s.controls p).Leads ((m s).2.controls (match (m s).1 with | .ok _ => q | .error _ => .idle))

section Advances

variable {W : World} {cfg : Settings} {α β : Type} {p q r : Phase}

theorem ignores_controls : Ignores (·.controls .idle) :=
  ⟨fun _ _ => rfl, fun _ _ => rfl, fun _ _ => rfl, fun _ _ => rfl, fun _ _ => rfl, fun _ _ => rfl⟩

theorem Controls.leads_abandon (c : Controls) : c.Leads { c with phase := .idle } :=
  .single ⟨.abandon, rfl⟩

theorem advances_of_keeps {m : EngineM α} (h : Eff.Keeps (·.controls .idle) m) (p : Phase) :
    Advances p p m := by
  intro s
  have hsame : ∀ phase, (m s).2.controls phase = s.controls phase := fun phase =>
    congrArg (fun c : Controls => { c with phase := phase }) (h.run s)
  rw [hsame]
  split
  · exact .refl
  · exact (s.controls p).leads_abandon

theorem advances_bind {m : EngineM α} {k : α → EngineM β} (hm : Advances p q m)
    (hk : ∀ a, Advances q r (k a)) : Advances p r (m >>= k) := by
  intro s
  have h := hm s
  rw [Eff.bind_run]
  split <;> rename_i e
  · rw [e] at h
    exact h.trans (hk _ _)
  · rw [e] at h
    exact h

theorem advances_throw (e : Exn) : Advances p q (Eff.throw e : EngineM α) := fun s =>
  (s.controls p).leads_abandon

theorem advances_catching {m : EngineM α} {h : Exn → EngineM α} (hm : Advances p q m)
    (hh : ∀ e, Advances .idle q (h e)) : Advances p q (Eff.catching m h) := by
  intro s
  have hs := hm s
  rw [Eff.catching]
  split <;> rename_i e
  · rw [e] at hs
    exact hs
  · rw [e] at hs
    exact hs.trans (hh _ _)

theorem advances_modify {f : EngineState → EngineState} (e : Control)
    (h : ∀ s, (s.controls p).perform e = some ((f s).controls q)) :
    Advances p q (Eff.modify f : EngineM Unit) := fun s => .single ⟨e, h s⟩

theorem advances_retry {attempt : EngineM Unit} (h : Advances .idle .idle attempt) :
    ∀ n : Nat, Advances .idle .idle (retry n attempt) := by
  intro n
  induction n with
  | zero => exact h
  | succ n ih => exact advances_catching h fun _ => ih

theorem advances_cancel : Advances .idle .idle cancel := by
  intro s
  rw [cancel, Eff.bind_ok (Eff.get_run s)]
  cases hcts : s.cts with
  | none => exact (s.controls .idle).leads_abandon
  | some source => exact .single ⟨.cancel, congrArg (Option.map _) hcts⟩

theorem advances_stop : Advances .idle .idle (stop W cfg) := by
  have hp := ignores_controls
  have hsteps : Advances .idle .idle (stopSteps W cfg) := by
    refine advances_bind (advances_of_keeps (hp.setRunningState _) _) fun _ => ?_
    refine advances_bind (advances_of_keeps hp.stopDnsConfigurator _) fun _ => ?_
    refine advances_bind (advances_of_keeps hp.stopPortForwarding _) fun _ => ?_
    refine advances_bind (advances_of_keeps hp.stopDistros _) fun _ => ?_
    refine advances_bind (advances_of_keeps hp.stopProxy _) fun _ => ?_
    refine advances_bind advances_cancel fun _ => ?_
    refine advances_bind (advances_of_keeps hp.stopDaemon _) fun _ => ?_
    refine advances_bind (advances_of_keeps (hp.terminate _) _) fun _ => ?_
    exact advances_of_keeps (hp.terminate _) _
  intro s
  have h := hsteps s
  have hrun : stop W cfg s = ((stopSteps W cfg s).1,
      { (stopSteps W cfg s).2 with runningState := .stopped }) :=
    Eff.finalize_ok (Eff.modify_run _ _)
  rw [hrun]
  exact h

/-- The loop for the data distribution is begun, and waited for. -/
theorem advances_initializeDataDistro : Advances .created .dataBegun (initializeDataDistro W) :=
  fun s =>
  .head ⟨.beginData, rfl⟩ (advances_of_keeps ignores_controls.initializeDataDistro .dataBegun s)

/-- The listener is begun if the command before it succeeds. -/
theorem advances_initializePortForwardListener :
    Advances .dataBegun .idle (initializePortForwardListener W) := by
  refine advances_bind (advances_modify .linkSource fun _ => rfl) fun _ => ?_
  refine advances_bind (advances_of_keeps (ignores_controls.executeCommand _) _) fun begun s => ?_
  cases begun with
  | true => exact .single ⟨.beginListener, rfl⟩
  | false => exact .single ⟨.abandon, rfl⟩

theorem advances_start (localCertsPath certPath : String) :
    Advances .idle .idle (start W cfg localCertsPath certPath) := by
  have hp := ignores_controls
  have hsteps : Advances .idle .idle (startSteps W cfg localCertsPath certPath) := by
    refine advances_bind (advances_modify .createSource fun _ => rfl) fun _ => ?_
    refine advances_bind (advances_of_keeps (hp.setRunningState _) _) fun _ => ?_
    refine advances_bind (advances_of_keeps (hp.terminate _) _) fun _ => ?_
    refine advances_bind (advances_of_keeps hp.initializeDnsConfigurator _) fun _ => ?_
    refine advances_bind advances_initializeDataDistro fun _ => ?_
    refine advances_bind advances_initializePortForwardListener fun _ => ?_
    refine advances_bind (advances_of_keeps (hp.command _) _) fun _ => ?_
    refine advances_bind (advances_of_keeps hp.updateCertificates _) fun _ => ?_
    refine advances_bind (advances_of_keeps (hp.initializeAndStartDaemon _) _) fun _ => ?_
    refine advances_bind (advances_of_keeps (hp.startProxy _) _) fun _ => ?_
    refine advances_bind (advances_of_keeps hp.initializeDistros _) fun _ => ?_
    exact advances_of_keeps (hp.setRunningState _) _
  refine advances_retry (advances_catching hsteps fun ex => ?_) 3
  exact advances_bind (advances_catching advances_stop fun _ => advances_throw _) fun _ =>
    advances_throw _

theorem advances_restart (localCertsPath certPath : String) :
    Advances .idle .idle (restart W cfg localCertsPath certPath) :=
  advances_bind advances_stop fun _ => advances_start localCertsPath certPath

theorem Controls.Leads.runs {c c' : Controls} (h : c.Leads c') (loops : List Loop) : ∃ events t,
    Runs Background.Step (fun _ _ => True) ⟨c, loops⟩ events t ∧ t.controls = c' := by
  induction h with
  | refl => exact ⟨[], _, .refl, rfl⟩
  | tail _ hstep ih =>
    obtain ⟨events, t, hruns, ht⟩ := ih
    obtain ⟨e, hperform⟩ := hstep
    refine ⟨.control e :: events, ⟨_, t.loops ++ Background.begun t.controls e⟩,
      .step hruns trivial ?_, rfl⟩
    rw [Background.Step, Background.perform, ht, hperform, Option.map_some]

/-- **The operations of the engine are runs.**  Whatever throws, what one of them makes of the
sources is what a run makes of them, next to any loops. -/
theorem Advances.runs {m : EngineM α} (h : Advances .idle .idle m) (s : EngineState)
    (loops : List Loop) :
    ∃ events t, Runs Background.Step (fun _ _ => True) ⟨s.controls .idle, loops⟩ events t ∧
      t.controls = (m s).2.controls .idle := by
  obtain ⟨events, t, hruns, ht⟩ := (h s).runs loops
  refine ⟨events, t, hruns, ht.trans ?_⟩
  split <;> rfl

end Advances

end ContainerDesktop.Services
