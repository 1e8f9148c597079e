import Mathlib.Data.List.Nodup
import ContainerDesktop.Histories

/-!
# The forwarder of the `DnsConfigurator`

Every change of the network or of the settings has `Configure` run on another thread.  It holds the
lock, stops the forwarder that is there and starts another one; `Dispose` stops it without the lock.
Stopping is a `pkill` in the distribution and a `Cancel` of the token source, and neither of them
reaches a forwarder whose task has not come to a thread yet.

`one_forwarder` says that this is the only way to a second forwarder: besides those that a `pkill`
has missed there is never more than one, and none from a `pkill` to the next start.
-/

namespace ContainerDesktop.Services

namespace Dns

/-- The task of a forwarder. -/
inductive ForwarderStage where
  | queued
  /-- On its thread, with the token that the field had then. -/
  | called (token : Nat)
  | running (token : Nat)
  | ended
  deriving DecidableEq

/-- `missed` is set by a `pkill` that leaves the forwarder alone. -/
structure Forwarder where
  id : Nat
  stage : ForwarderStage
  missed : Bool
  deriving DecidableEq

/-- `Configure`, with the lock. -/
inductive ConfigureStage where
  | configuring
  | signalled
  | stopped
  | renewed
  | started (id : Nat)
  deriving DecidableEq

/-- `Dispose` behind its `pkill`. -/
inductive DisposeStage where
  | signalled
  | cancelling
  | loaded (cts : Nat)
  deriving DecidableEq

/-- The fields, the threads and the forwarders of a configurator.  A source of tokens is known by
its number. -/
structure Configurator where
  lock : Option ConfigureStage
  disposing : List DisposeStage
  dnsForwarderTask : Option Nat
  dnsForwarderCts : Nat
  cancelled : List Nat
  forwarders : List Forwarder

/-- The token of the task. -/
def ForwarderStage.token : ForwarderStage → Option Nat
  | called token | running token => some token
  | queued | ended => none

def Forwarder.Live (f : Forwarder) : Prop := f.stage ≠ .ended ∧ f.missed = false

instance (f : Forwarder) : Decidable f.Live := inferInstanceAs (Decidable (_ ∧ _))

/-- `pkill -TERM -x dns-forwarder`, which ends what is running, unless the command fails. -/
def Forwarder.signal (reached : Bool) (f : Forwarder) : Forwarder :=
  match f.stage with
  | .running _ => if reached then { f with stage := .ended } else { f with missed := true }
  | .queued | .called _ => { f with missed := true }
  | .ended => f

inductive Event where
  | pkill (reached : Bool)
  | starts
  | other
  deriving DecidableEq

namespace Configurator

def signal (s : Configurator) (reached : Bool) : Configurator :=
  { s with forwarders := s.forwarders.map (Forwarder.signal reached) }

def init : Configurator := ⟨none, [], none, 0, [], []⟩

inductive Step (s : Configurator) : Event → Configurator → Prop
  | enter (h : s.lock = none) : Step s .other { s with lock := some .configuring }
  /-- There is no address, or something throws before the `pkill`. -/
  | leave (h : s.lock = some .configuring) : Step s .other { s with lock := none }
  | pkill (reached : Bool) (h : s.lock = some .configuring) :
    Step s (.pkill reached) { s.signal reached with lock := some .signalled }
  | noTask (h : s.lock = some .signalled) (htask : s.dnsForwarderTask = none) :
    Step s .other { s with lock := some .stopped }
  | cancel (h : s.lock = some .signalled) (htask : s.dnsForwarderTask ≠ none) :
    Step s .other { s with lock := some .stopped, cancelled := s.dnsForwarderCts :: s.cancelled }
  | renew (h : s.lock = some .stopped) :
    Step s .other { s with lock := some .renewed, dnsForwarderCts := s.dnsForwarderCts + 1 }
  /-- The `pkill` throws, or one of the commands for the address of the distribution does. -/
  | fail (h : s.lock = some .signalled ∨ s.lock = some .renewed) :
    Step s .other { s with lock := none }
  | start (h : s.lock = some .renewed) :
    Step s .starts
      { s with
        lock := some (.started s.forwarders.length)
        forwarders := ⟨s.forwarders.length, .queued, false⟩ :: s.forwarders }
  | assign {id : Nat} (h : s.lock = some (.started id)) :
    Step s .other { s with lock := none, dnsForwarderTask := some id }
  | call {pre post : List Forwarder} {id : Nat} {missed : Bool}
    (h : s.forwarders = pre ++ ⟨id, .queued, missed⟩ :: post) :
    Step s .other { s with forwarders := pre ++ ⟨id, .called s.dnsForwarderCts, missed⟩ :: post }
  | run {pre post : List Forwarder} {id token : Nat} {missed : Bool}
    (h : s.forwarders = pre ++ ⟨id, .called token, missed⟩ :: post) :
    Step s .other { s with forwarders := pre ++ ⟨id, .running token, missed⟩ :: post }
  /-- By itself, or because the process cannot be started. -/
  | exit {pre post : List Forwarder} {id token : Nat} {stage : ForwarderStage} {missed : Bool}
    (h : s.forwarders = pre ++ ⟨id, stage, missed⟩ :: post) (htoken : stage.token = some token) :
    Step s .other { s with forwarders := pre ++ ⟨id, .ended, missed⟩ :: post }
  | dispose (reached : Bool) :
    Step s (.pkill reached) { s.signal reached with disposing := .signalled :: s.disposing }
  | disposeNoTask {pre post : List DisposeStage} (h : s.disposing = pre ++ .signalled :: post)
    (htask : s.dnsForwarderTask = none) : Step s .other { s with disposing := pre ++ post }
  | disposeTask {pre post : List DisposeStage} (h : s.disposing = pre ++ .signalled :: post)
    (htask : s.dnsForwarderTask ≠ none) :
    Step s .other { s with disposing := pre ++ .cancelling :: post }
  | disposeLoad {pre post : List DisposeStage} (h : s.disposing = pre ++ .cancelling :: post) :
    Step s .other { s with disposing := pre ++ .loaded s.dnsForwarderCts :: post }
  | disposeCancel {pre post : List DisposeStage} {cts : Nat}
    (h : s.disposing = pre ++ .loaded cts :: post) :
    Step s .other { s with disposing := pre ++ post, cancelled := cts :: s.cancelled }

/-! ## What the lock keeps -/

/-- Which forwarder may be live: the one of the field, but for the time from the `pkill` of
`Configure` to the end of it. -/
def Current (s : Configurator) (id : Nat) : Prop :=
  match s.lock with
  | none | some .configuring => s.dnsForwarderTask = some id
  | some .signalled | some .stopped | some .renewed => False
  | some (.started id') => id' = id

structure Inv (s : Configurator) : Prop where
  live : ∀ f ∈ s.forwarders, f.Live → s.Current f.id
  nodup : (s.forwarders.map Forwarder.id).Nodup
  below : ∀ f ∈ s.forwarders, f.id < s.forwarders.length
  task : s.forwarders ≠ [] → s.dnsForwarderTask = none → ∃ id, s.lock = some (.started id)
  stopped : s.lock = some .stopped → s.forwarders ≠ [] → s.dnsForwarderCts ∈ s.cancelled
  token : ∀ f ∈ s.forwarders, ∀ token, f.stage.token = some token → token ∉ s.cancelled →
    token = s.dnsForwarderCts

theorem inv_init : Inv init where
  live := fun _ hf => nomatch hf
  nodup := List.nodup_nil
  below := fun _ hf => nomatch hf
  task := fun h => absurd rfl h
  stopped := fun h => nomatch h
  token := fun _ hf => nomatch hf

section Signal

variable {s : Configurator} {reached : Bool} {f : Forwarder}

theorem signal_id (reached : Bool) (f : Forwarder) : (f.signal reached).id = f.id := by
  unfold Forwarder.signal
  split
  · split <;> rfl
  · rfl
  · rfl
  · rfl

/-- After a `pkill` nothing is live. -/
theorem not_live_signal (reached : Bool) (f : Forwarder) : ¬ (f.signal reached).Live := by
  intro h
  unfold Forwarder.signal at h
  split at h
  · split at h
    · exact h.1 rfl
    · exact nomatch h.2
  · exact nomatch h.2
  · exact nomatch h.2
  · rename_i hended
    exact h.1 hended

theorem token_signal {token : Nat} (h : (f.signal reached).stage.token = some token) :
    f.stage.token = some token := by
  unfold Forwarder.signal at h
  split at h
  · split at h
    · exact nomatch h
    · exact h
  · exact h
  · exact h
  · exact h

theorem map_id_signal (s : Configurator) (reached : Bool) :
    (s.signal reached).forwarders.map Forwarder.id = s.forwarders.map Forwarder.id := by
  rw [signal, List.map_map]
  exact List.map_congr_left fun f _ => signal_id reached f

/-- What a `pkill` leaves of the invariant, whoever has called it. -/
theorem Inv.signal (h : Inv s) (reached : Bool) (lock : Option ConfigureStage)
    (htask : s.forwarders ≠ [] → s.dnsForwarderTask = none → ∃ id, lock = some (.started id))
    (hstopped : lock = some .stopped → s.lock = some .stopped) (disposing : List DisposeStage) :
    Inv { s.signal reached with lock := lock, disposing := disposing } where
  live := by
    intro f hf hlive
    obtain ⟨g, -, rfl⟩ := List.mem_map.mp hf
    exact absurd hlive (not_live_signal reached g)
  nodup := (map_id_signal s reached).symm ▸ h.nodup
  below := by
    intro f hf
    obtain ⟨g, hg, rfl⟩ := List.mem_map.mp hf
    show (g.signal reached).id < (s.forwarders.map _).length
    rw [signal_id, List.length_map]
    exact h.below g hg
  task := fun hne => htask fun hnil => hne (by simp [Configurator.signal, hnil])
  stopped := fun hlock hne => h.stopped (hstopped hlock) fun hnil =>
    hne (by simp [Configurator.signal, hnil])
  token := by
    intro f hf token htoken
    obtain ⟨g, hg, rfl⟩ := List.mem_map.mp hf
    exact h.token g hg token (token_signal htoken)

end Signal

section Replace

variable {s : Configurator} {pre post : List Forwarder} {f g : Forwarder}

/-- A forwarder goes on, with a token that is allowed. -/
theorem Inv.replace (h : Inv s) (hs : s.forwarders = pre ++ f :: post) (hid : g.id = f.id)
    (hlive : g.Live → f.Live)
    (htoken : ∀ token, g.stage.token = some token → f.stage.token = some token ∨
      token = s.dnsForwarderCts) :
    Inv { s with forwarders := pre ++ g :: post } := by
  have hlength : (pre ++ g :: post).length = s.forwarders.length := by rw [hs]; simp
  have hmem : ∀ x ∈ pre ++ g :: post, x = g ∨ x ∈ s.forwarders := by
    intro x hx
    rw [hs]
    rcases List.mem_append.mp hx with hx | hx
    · exact .inr (List.mem_append_left _ hx)
    · exact (List.mem_cons.mp hx).imp id fun hx => List.mem_append_right _
        (List.mem_cons_of_mem _ hx)
  have hf : f ∈ s.forwarders := hs ▸ List.mem_append_right _ List.mem_cons_self
  have hne : s.forwarders ≠ [] := List.ne_nil_of_mem hf
  refine ⟨fun x hx hx' => ?_, ?_, fun x hx => ?_, fun _ => h.task hne, fun hlock _ =>
    h.stopped hlock hne, fun x hx token ht hcancelled => ?_⟩
  · rcases hmem x hx with rfl | hx
    · exact hid ▸ h.live f hf (hlive hx')
    · exact h.live x hx hx'
  · have hids : (pre ++ g :: post).map Forwarder.id = s.forwarders.map Forwarder.id := by
      rw [hs, List.map_append, List.map_append, List.map_cons, List.map_cons, hid]
    exact hids.symm ▸ h.nodup
  · show x.id < (pre ++ g :: post).length
    rw [hlength]
    rcases hmem x hx with rfl | hx
    · exact hid ▸ h.below f hf
    · exact h.below x hx
  · rcases hmem x hx with rfl | hx
    · rcases htoken token ht with ht | rfl
      · exact h.token f hf token ht hcancelled
      · rfl
    · exact h.token x hx token ht hcancelled

end Replace

/-- A step of `Configure` that leaves the forwarders and the token alone. -/
theorem Inv.goOn {s t : Configurator} (h : Inv s) (hforwarders : t.forwarders = s.forwarders)
    (hcts : t.dnsForwarderCts = s.dnsForwarderCts) (hcancelled : s.cancelled ⊆ t.cancelled)
    (hcurrent : ∀ id, s.Current id → t.Current id)
    (htask : s.forwarders ≠ [] → t.dnsForwarderTask = none → ∃ id, t.lock = some (.started id))
    (hstopped : t.lock = some .stopped → s.forwarders ≠ [] → s.dnsForwarderCts ∈ t.cancelled) :
    Inv t where
  live := fun f hf hlive => hcurrent f.id (h.live f (hforwarders ▸ hf) hlive)
  nodup := hforwarders ▸ h.nodup
  below := hforwarders ▸ h.below
  task := hforwarders ▸ htask
  stopped := by rw [hforwarders, hcts]; exact hstopped
  token := by
    rw [hforwarders, hcts]
    exact fun f hf token ht hnot => h.token f hf token ht fun hc => hnot (hcancelled hc)

theorem Inv.step {s t : Configurator} {e : Event} (h : Inv s) (hstep : Step s e t) : Inv t := by
  cases hstep with
  | enter hlock =>
    refine h.goOn rfl rfl (List.Subset.refl _) (fun id hid => ?_) (fun hne htask => ?_)
      fun hs => nomatch hs
    · rw [Current, hlock] at hid
      exact hid
    · obtain ⟨id, hid⟩ := h.task hne htask
      exact nomatch hlock.symm.trans hid
  | leave hlock =>
    refine h.goOn rfl rfl (List.Subset.refl _) (fun id hid => ?_) (fun hne htask => ?_)
      fun hs => nomatch hs
    · rw [Current, hlock] at hid
      exact hid
    · obtain ⟨id, hid⟩ := h.task hne htask
      exact nomatch hlock.symm.trans hid
  | pkill reached hlock =>
    refine h.signal reached (some .signalled) (fun hne htask => ?_)
      (fun hs => nomatch hs) s.disposing
    obtain ⟨id, hid⟩ := h.task hne htask
    exact nomatch hlock.symm.trans hid
  | noTask hlock htask =>
    have hnil : s.forwarders = [] := by
      refine Classical.not_not.mp fun hne => ?_
      obtain ⟨id, hid⟩ := h.task hne htask
      exact nomatch hlock.symm.trans hid
    refine h.goOn rfl rfl (List.Subset.refl _) (fun id hid => ?_) (fun hne => absurd hnil hne)
      fun _ hne => absurd hnil hne
    rw [Current, hlock] at hid
    exact hid
  | cancel hlock htask =>
    refine h.goOn rfl rfl (List.subset_cons_self _ _) (fun id hid => ?_)
      (fun _ hnone => absurd hnone htask) fun _ _ => List.mem_cons_self
    rw [Current, hlock] at hid
    exact hid
  | renew hlock =>
    refine ⟨fun f hf hlive => ?_, h.nodup, h.below, fun hne htask => ?_, (fun hs => nomatch hs),
      fun f hf token ht hnot => ?_⟩
    · have hcurrent := h.live f hf hlive
      rw [Current, hlock] at hcurrent
      exact hcurrent
    · obtain ⟨id, hid⟩ := h.task hne htask
      exact nomatch hlock.symm.trans hid
    · have hold := h.token f hf token ht hnot
      exact absurd (hold ▸ h.stopped hlock (List.ne_nil_of_mem hf)) hnot
  | fail hlock =>
    refine ⟨fun f hf hlive => ?_, h.nodup, h.below, fun hne htask => ?_,
      (fun hs => nomatch hs), h.token⟩
    · have hcurrent := h.live f hf hlive
      rcases hlock with hlock | hlock
      · rw [Current, hlock] at hcurrent
        exact hcurrent.elim
      · rw [Current, hlock] at hcurrent
        exact hcurrent.elim
    · obtain ⟨id, hid⟩ := h.task hne htask
      rcases hlock with hlock | hlock
      · exact nomatch hlock.symm.trans hid
      · exact nomatch hlock.symm.trans hid
  | start hlock =>
    refine ⟨fun f hf hlive => ?_, ?_, fun f hf => ?_, fun _ _ => ⟨_, rfl⟩, (fun hs => nomatch hs),
      fun f hf token ht hnot => ?_⟩
    · rcases List.mem_cons.mp hf with rfl | hf
      · rfl
      · have hcurrent := h.live f hf hlive
        rw [Current, hlock] at hcurrent
        exact hcurrent.elim
    · refine List.nodup_cons.mpr ⟨fun hmem => ?_, h.nodup⟩
      obtain ⟨f, hf, hid⟩ := List.mem_map.mp hmem
      exact absurd (h.below f hf) (by rw [hid]; exact Nat.lt_irrefl _)
    · rcases List.mem_cons.mp hf with rfl | hf
      · exact Nat.lt_succ_self _
      · exact Nat.lt_succ_of_lt (h.below f hf)
    · rcases List.mem_cons.mp hf with rfl | hf
      · exact nomatch ht
      · exact h.token f hf token ht hnot
  | assign hlock =>
    refine h.goOn rfl rfl (List.Subset.refl _) (fun id hid => ?_) (fun _ hnone => nomatch hnone)
      fun hs => nomatch hs
    rw [Current, hlock] at hid
    exact congrArg some hid
  | call hs =>
    refine h.replace hs rfl (fun hlive => ⟨ForwarderStage.noConfusion, hlive.2⟩) fun token ht => ?_
    exact .inr (Option.some.inj ht).symm
  | run hs =>
    refine h.replace hs rfl (fun hlive => ⟨ForwarderStage.noConfusion, hlive.2⟩) fun token ht => ?_
    exact .inl ht
  | exit hs htoken =>
    exact h.replace hs rfl (fun hlive => absurd rfl hlive.1) fun token ht => nomatch ht
  | dispose reached =>
    exact h.signal reached s.lock h.task id _
  | disposeNoTask => exact h.goOn rfl rfl (List.Subset.refl _) (fun _ hid => hid) h.task h.stopped
  | disposeTask => exact h.goOn rfl rfl (List.Subset.refl _) (fun _ hid => hid) h.task h.stopped
  | disposeLoad => exact h.goOn rfl rfl (List.Subset.refl _) (fun _ hid => hid) h.task h.stopped
  | disposeCancel =>
    exact h.goOn rfl rfl (List.subset_cons_self _ _) (fun _ hid => hid) h.task
      fun hlock hne => List.mem_cons_of_mem _ (h.stopped hlock hne)

theorem inv_runs {P : Configurator → Event → Prop} {events : List Event} {s : Configurator}
    (h : Runs Step P init events s) : Inv s :=
  h.invariant (I := fun _ s => Inv s) inv_init fun hinv _ hstep => hinv.step hstep

/-! ## One forwarder at a time -/

theorem Current.unique {s : Configurator} {id id' : Nat} (h : s.Current id) (h' : s.Current id') :
    id = id' := by
  unfold Current at h h'
  cases hlock : s.lock with
  | none =>
    rw [hlock] at h h'
    exact Option.some.inj (h.symm.trans h')
  | some stage =>
    rw [hlock] at h h'
    cases stage with
    | configuring => exact Option.some.inj (h.symm.trans h')
    | started => exact h.symm.trans h'
    | _ => exact h.elim

theorem Inv.live_unique {s : Configurator} (h : Inv s) {f g : Forwarder} (hf : f ∈ s.forwarders)
    (hg : g ∈ s.forwarders) (hflive : f.Live) (hglive : g.Live) : f = g := by
  have hfcurrent := h.live f hf hflive
  have hgcurrent := h.live g hg hglive
  have hid : f.id = g.id := hfcurrent.unique hgcurrent
  exact List.inj_on_of_nodup_map h.nodup hf hg hid

/-- No forwarder is live. -/
def Quiet (s : Configurator) : Prop := ∀ f ∈ s.forwarders, ¬ f.Live

theorem quiet_signal (s : Configurator) (reached : Bool) : (s.signal reached).Quiet := by
  intro f hf
  obtain ⟨g, -, rfl⟩ := List.mem_map.mp hf
  exact not_live_signal reached g

theorem Quiet.replace {s : Configurator} (h : s.Quiet) {pre post : List Forwarder} {f g : Forwarder}
    (hs : s.forwarders = pre ++ f :: post) (hlive : g.Live → f.Live) :
    ∀ x ∈ pre ++ g :: post, ¬ x.Live := by
  intro x hx
  rcases List.mem_append.mp hx with hx | hx
  · exact h x (hs ▸ List.mem_append_left _ hx)
  · rcases List.mem_cons.mp hx with rfl | hx
    · exact fun hg => h f (hs ▸ List.mem_append_right _ List.mem_cons_self) (hlive hg)
    · exact h x (hs ▸ List.mem_append_right _ (List.mem_cons_of_mem _ hx))

/-- Only a start brings a live forwarder, and a `pkill` leaves none. -/
theorem Step.quiet {s t : Configurator} {e : Event} (hstep : Step s e t) (he : e ≠ .starts)
    (h : (∃ reached, e = .pkill reached) ∨ s.Quiet) : t.Quiet := by
  cases hstep with
  | pkill reached => exact quiet_signal s reached
  | dispose reached => exact quiet_signal s reached
  | start => exact absurd rfl he
  | call hs =>
    obtain ⟨reached, hpkill⟩ | hquiet := h
    · exact nomatch hpkill
    · exact hquiet.replace hs fun hlive => ⟨ForwarderStage.noConfusion, hlive.2⟩
  | run hs =>
    obtain ⟨reached, hpkill⟩ | hquiet := h
    · exact nomatch hpkill
    · exact hquiet.replace hs fun hlive => ⟨ForwarderStage.noConfusion, hlive.2⟩
  | exit hs =>
    obtain ⟨reached, hpkill⟩ | hquiet := h
    · exact nomatch hpkill
    · exact hquiet.replace hs fun hlive => absurd rfl hlive.1
  | _ =>
    obtain ⟨reached, hpkill⟩ | hquiet := h
    · exact nomatch hpkill
    · exact hquiet

/-- What a `pkill` has to find for none to be missed. -/
def Reaches (s : Configurator) (e : Event) : Prop :=
  ∀ reached, e = .pkill reached →
    reached = true ∧ ∀ f ∈ s.forwarders, f.stage ≠ .queued ∧ ∀ token, f.stage ≠ .called token

theorem missed_signal {f : Forwarder} (h : f.missed = false) (hqueued : f.stage ≠ .queued)
    (hcalled : ∀ token, f.stage ≠ .called token) : (f.signal true).missed = false := by
  unfold Forwarder.signal
  split
  · exact h
  · contradiction
  · exact absurd ‹_› (hcalled _)
  · exact h

theorem Step.missed {s t : Configurator} {e : Event} (hstep : Step s e t) (hreaches : Reaches s e)
    (h : ∀ f ∈ s.forwarders, f.missed = false) : ∀ f ∈ t.forwarders, f.missed = false := by
  have hsignal : ∀ reached, e = .pkill reached → ∀ f ∈ (s.signal reached).forwarders,
      f.missed = false := by
    intro reached he f hf
    obtain ⟨rfl, hstage⟩ := hreaches reached he
    obtain ⟨g, hg, rfl⟩ := List.mem_map.mp hf
    exact missed_signal (h g hg) (hstage g hg).1 (hstage g hg).2
  have hreplace : ∀ {pre post : List Forwarder} {f g : Forwarder}, s.forwarders = pre ++ f :: post →
      g.missed = f.missed → ∀ x ∈ pre ++ g :: post, x.missed = false := by
    intro pre post f g hs hg x hx
    rw [hs] at h
    rcases List.mem_append.mp hx with hx | hx
    · exact h x (List.mem_append_left _ hx)
    · rcases List.mem_cons.mp hx with rfl | hx
      · exact hg.trans (h f (List.mem_append_right _ List.mem_cons_self))
      · exact h x (List.mem_append_right _ (List.mem_cons_of_mem _ hx))
  cases hstep with
  | pkill reached => exact hsignal reached rfl
  | dispose reached => exact hsignal reached rfl
  | start =>
    intro f hf
    rcases List.mem_cons.mp hf with rfl | hf
    · rfl
    · exact h f hf
  | call hs => exact hreplace hs rfl
  | run hs => exact hreplace hs rfl
  | exit hs => exact hreplace hs rfl
  | _ => exact h

/-- Where each `pkill` succeeds and finds every forwarder on its way or gone, there is one at
most. -/
theorem one_running {events : List Event} {s : Configurator} (h : Runs Step Reaches init events s)
    {f g : Forwarder} (hf : f ∈ s.forwarders) (hg : g ∈ s.forwarders) (hfends : f.stage ≠ .ended)
    (hgends : g.stage ≠ .ended) : f = g := by
  have hmissed : ∀ f ∈ s.forwarders, f.missed = false :=
    h.invariant (I := fun _ s => ∀ f ∈ s.forwarders, f.missed = false) (fun _ hf => nomatch hf)
      fun hkeep hreaches hstep => hstep.missed hreaches hkeep
  exact (inv_runs h).live_unique hf hg ⟨hfends, hmissed f hf⟩ ⟨hgends, hmissed g hg⟩

/-- Whatever comes when: no two forwarders are there that a `pkill` has not missed, none is from a
`pkill` to the next start, and a forwarder whose token is not cancelled has the one of the field,
which a stop cancels when there is a task. -/
theorem one_forwarder {events : List Event} {s : Configurator}
    (h : Runs Step (fun _ _ => True) init events s) :
    (∀ f ∈ s.forwarders, ∀ g ∈ s.forwarders, f.Live → g.Live → f = g) ∧
      (∀ after reached before, events = after ++ .pkill reached :: before →
        .starts ∉ after → s.Quiet) ∧
      ∀ f ∈ s.forwarders, ∀ token, f.stage.token = some token → token ∉ s.cancelled →
        token = s.dnsForwarderCts := by
  refine ⟨fun f hf g hg => (inv_runs h).live_unique hf hg, ?_, (inv_runs h).token⟩
  refine h.invariant (I := fun events s => ∀ after reached before,
    events = after ++ .pkill reached :: before →
    .starts ∉ after → s.Quiet) (fun after _ _ hevents => ?_)
    fun {events e t u} ih _ hstep after reached before hevents hstarts => ?_
  · cases after with
    | nil => exact nomatch hevents
    | cons => exact nomatch hevents
  cases after with
  | nil =>
    obtain ⟨rfl, rfl⟩ := List.cons.inj hevents
    exact hstep.quiet Event.noConfusion (.inl ⟨reached, rfl⟩)
  | cons e' after =>
    obtain ⟨rfl, rfl⟩ := List.cons.inj hevents
    have hquiet := ih after reached before rfl fun hmem => hstarts (List.mem_cons_of_mem _ hmem)
    exact hstep.quiet (fun he => hstarts (he ▸ List.mem_cons_self)) (.inr hquiet)

/-- The second change comes before the first forwarder is on its thread: then both run. -/
theorem one_forwarder_missed :
    ∃ events s, Runs Step (fun _ _ => True) init events s ∧
      s.forwarders = [⟨1, .running 2, false⟩, ⟨0, .running 2, true⟩] ∧
      ∀ f ∈ s.forwarders, ∀ g ∈ s.forwarders, f.Live → g.Live → f = g := by
  have hfirst : Runs Step (fun _ _ => True) init [.other, .starts, .other, .other,
    .pkill true, .other]
      ⟨none, [], some 0, 1, [], [⟨0, .queued, false⟩]⟩ := by
    refine .step (.step (.step (.step (.step (.step .refl trivial (.enter rfl)) trivial
      (.pkill true rfl)) trivial (.noTask rfl rfl)) trivial (.renew rfl)) trivial (.start rfl))
      trivial (.assign rfl)
  have hsecond : Runs Step (fun _ _ => True) init
      ([.other, .starts, .other, .other, .pkill true, .other]
        ++ [.other, .starts, .other, .other, .pkill true, .other])
      ⟨none, [], some 1, 2, [1], [⟨1, .queued, false⟩, ⟨0, .queued, true⟩]⟩ := by
    refine .step (.step (.step (.step (.step (.step hfirst trivial (.enter rfl)) trivial
      (.pkill true rfl)) trivial
      (.cancel rfl (Option.some_ne_none 0))) trivial (.renew rfl)) trivial (.start rfl))
      trivial (.assign rfl)
  have hrun := Runs.step
    (.step (.step (.step hsecond trivial (.call (show _ = [_] ++ _ :: _ from rfl))) trivial
    (.run (show _ = [_] ++ _ :: _ from rfl))) trivial
    (.call (show _ = [] ++ _ :: _ from rfl))) trivial (.run (show _ = [] ++ _ :: _ from rfl))
  exact ⟨_, _, hrun, rfl, (one_forwarder hrun).1⟩

end Configurator

end Dns

end ContainerDesktop.Services
