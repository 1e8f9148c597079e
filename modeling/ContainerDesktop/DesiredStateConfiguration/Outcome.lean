import ContainerDesktop.DesiredStateConfiguration.DependencyOrder
import ContainerDesktop.DesiredStateConfiguration.Rollback

/-!
# What the result of a run says

A pass over resources is described here by what the operations of the resources
do: `Handled` and `Throws` for one of them, `Goes` for the pass.  `goes_run` says
that the loop of the code is such a pass.

`Reported` is what the result and the state file should tell about the passes of a
run.  The code answers `RolledBack` whatever became of the second pass, and looks at
`RestartPending`, which either pass may have set, before it clears the state.
`apply_reports_iff` is the condition under which the result is right nevertheless.
-/

namespace ContainerDesktop.DesiredStateConfiguration

variable {W : Type}

/-! ## One resource -/

/-- Whether a resource that tested `b` is left as it is. -/
def passesOver (p : Installer W) (r : Resource W) (b : Bool) (c : ConfigurationContext W) : Bool :=
  if r.runAllways then false
  else if p.uninstall then !b
  else if c.updating p then
    match r.onUpdateAction with
    | .install => false
    | .skip => true
    | .none => b
  else b

/-- Whether it is unset before it is set. -/
def reinstalls (p : Installer W) (r : Resource W) (b : Bool) (c : ConfigurationContext W) : Bool :=
  !r.runAllways && !p.uninstall && c.updating p && (r.onUpdateAction == .install) && b

def change (p : Installer W) (r : Resource W) : Eff (ConfigurationContext W) Exn Unit :=
  if p.uninstall then r.unset else r.set

/-- `r` is handled without an exception, and changed or not. -/
inductive Handled (p : Installer W) (r : Resource W) :
    ConfigurationContext W → Bool → ConfigurationContext W → Prop
  | passed {c c' : ConfigurationContext W} {b : Bool} : r.test c = (.ok b, c') →
      passesOver p r b c' = true → Handled p r c false c'
  | changed {c c₁ c' : ConfigurationContext W} {b : Bool} : r.test c = (.ok b, c₁) →
      passesOver p r b c₁ = false → reinstalls p r b c₁ = false → change p r c₁ = (.ok (), c') →
      Handled p r c true c'
  | reinstalled {c c₁ c₂ c' : ConfigurationContext W} {b : Bool} : r.test c = (.ok b, c₁) →
      reinstalls p r b c₁ = true → r.unset c₁ = (.ok (), c₂) → change p r c₂ = (.ok (), c') →
      Handled p r c true c'

/-- One of the operations of `r` throws. -/
inductive Throws (p : Installer W) (r : Resource W) :
    ConfigurationContext W → ConfigurationContext W → Prop
  | test {c c' : ConfigurationContext W} {e : Exn} : r.test c = (.error e, c') → Throws p r c c'
  | change {c c₁ c' : ConfigurationContext W} {b : Bool} {e : Exn} : r.test c = (.ok b, c₁) →
      passesOver p r b c₁ = false → reinstalls p r b c₁ = false →
      DesiredStateConfiguration.change p r c₁ = (.error e, c') → Throws p r c c'
  | unset {c c₁ c' : ConfigurationContext W} {b : Bool} {e : Exn} : r.test c = (.ok b, c₁) →
      reinstalls p r b c₁ = true → r.unset c₁ = (.error e, c') → Throws p r c c'
  | again {c c₁ c₂ c' : ConfigurationContext W} {b : Bool} {e : Exn} : r.test c = (.ok b, c₁) →
      reinstalls p r b c₁ = true → r.unset c₁ = (.ok (), c₂) →
      DesiredStateConfiguration.change p r c₂ = (.error e, c') → Throws p r c c'

section Handle

variable {p : Installer W} {r : Resource W}

theorem handled_or_throws (p : Installer W) (r : Resource W) (c : ConfigurationContext W) :
    (∃ b c', Handled p r c b c') ∨ ∃ c', Throws p r c c' := by
  rcases ht : r.test c with ⟨_ | b, c₁⟩
  · exact .inr ⟨c₁, .test ht⟩
  · cases hr : reinstalls p r b c₁ with
    | true =>
      rcases hu : r.unset c₁ with ⟨_ | u, c₂⟩
      · exact .inr ⟨c₂, .unset ht hr hu⟩
      · rcases hc : change p r c₂ with ⟨_ | u, c'⟩
        · exact .inr ⟨c', .again ht hr hu hc⟩
        · exact .inl ⟨true, c', .reinstalled ht hr hu hc⟩
    | false =>
      cases ho : passesOver p r b c₁ with
      | true => exact .inl ⟨false, c₁, .passed ht ho⟩
      | false =>
        rcases hc : change p r c₁ with ⟨_ | u, c'⟩
        · exact .inr ⟨c', .change ht ho hr hc⟩
        · exact .inl ⟨true, c', .changed ht ho hr hc⟩

/-- What `adjust` does, in terms of these. -/
theorem adjust_run (p : Installer W) (r : Resource W) (b : Bool) (s : Session W) :
    adjust p r b s =
      if reinstalls p r b s.context then (perform (.unset r) r.unset >>= fun _ => pure false) s
      else (.ok (passesOver p r b s.context), s) := by
  unfold adjust reinstalls passesOver
  cases r.runAllways with
  | true => rfl
  | false =>
    cases p.uninstall with
    | true => rfl
    | false =>
      cases s.context.updating p with
      | false => rfl
      | true =>
        cases r.onUpdateAction with
        | none => rfl
        | skip => rfl
        | install => cases b <;> rfl

theorem perform_run {α : Type} {m : Eff (ConfigurationContext W) Exn α}
    {c c' : ConfigurationContext W}
    {o : Except Exn α} (h : m c = (o, c')) (call : Call W) (calls : List (Call W)) :
    perform call m ⟨c, calls⟩ = (o, ⟨c', calls ++ [call]⟩) := by
  rw [perform, h]

/-- The call that changes a resource. -/
def changeCall (p : Installer W) (r : Resource W) : Call W :=
  if p.uninstall then .unset r else .set r

theorem handle_change {s s' : Session W} {b : Bool} {c₁ : ConfigurationContext W}
    (ht : r.test s.context = (.ok b, c₁))
    (ha : adjust p r b ⟨c₁, s.calls ++ [.test r]⟩ = (.ok false, s')) :
    handle p r s = (perform (changeCall p r) (change p r) >>= fun _ => pure true) s' := by
  rw [handle, Eff.bind_ok (perform_test ht), Eff.bind_ok ha, if_neg (by simp)]
  unfold changeCall change
  cases p.uninstall <;> rfl

theorem passesOver_of_reinstalls {b : Bool} {c : ConfigurationContext W}
    (h : reinstalls p r b c = true) : passesOver p r b c = false := by
  unfold reinstalls at h
  unfold passesOver
  revert h
  cases r.runAllways <;> cases p.uninstall <;> cases c.updating p <;> cases r.onUpdateAction <;>
    cases b <;> decide

theorem adjust_over {b : Bool} {c : ConfigurationContext W} (ho : passesOver p r b c = true)
    (calls : List (Call W)) : adjust p r b ⟨c, calls⟩ = (.ok true, ⟨c, calls⟩) := by
  have hr : reinstalls p r b c = false := by
    cases hr : reinstalls p r b c with
    | false => rfl
    | true => exact nomatch ho.symm.trans (passesOver_of_reinstalls hr)
  rw [adjust_run, hr, ho]
  rfl

theorem adjust_change {b : Bool} {c : ConfigurationContext W} (ho : passesOver p r b c = false)
    (hr : reinstalls p r b c = false) (calls : List (Call W)) :
    adjust p r b ⟨c, calls⟩ = (.ok false, ⟨c, calls⟩) := by
  rw [adjust_run, hr, ho]
  rfl

theorem adjust_reinstall {b : Bool} {c c' : ConfigurationContext W} (hr : reinstalls p r b c = true)
    (hu : r.unset c = (.ok (), c')) (calls : List (Call W)) :
    adjust p r b ⟨c, calls⟩ = (.ok false, ⟨c', calls ++ [.unset r]⟩) := by
  rw [adjust_run, if_pos hr, Eff.bind_ok (perform_run hu _ _), Eff.pure_run]

theorem adjust_unset_throws {b : Bool} {c c' : ConfigurationContext W} {e : Exn}
    (hr : reinstalls p r b c = true) (hu : r.unset c = (.error e, c')) (calls : List (Call W)) :
    adjust p r b ⟨c, calls⟩ = (.error e, ⟨c', calls ++ [.unset r]⟩) := by
  rw [adjust_run, if_pos hr, Eff.bind_error (perform_run hu _ _)]

theorem handled_run {c c' : ConfigurationContext W} {b : Bool} (h : Handled p r c b c')
    (calls : List (Call W)) : ∃ calls', handle p r ⟨c, calls⟩ = (.ok b, ⟨c', calls'⟩) := by
  cases h with
  | passed ht ho => exact ⟨_, handle_true ht (adjust_over ho _)⟩
  | changed ht ho hr hc =>
    rw [handle_change ht (adjust_change ho hr _), Eff.bind_ok (perform_run hc _ _)]
    exact ⟨_, rfl⟩
  | reinstalled ht hr hu hc =>
    rw [handle_change ht (adjust_reinstall hr hu _), Eff.bind_ok (perform_run hc _ _)]
    exact ⟨_, rfl⟩

theorem throws_run {c c' : ConfigurationContext W} (h : Throws p r c c') (calls : List (Call W)) :
    ∃ e calls', handle p r ⟨c, calls⟩ = (.error e, ⟨c', calls'⟩) := by
  cases h with
  | test ht => exact ⟨_, _, handle_error ht⟩
  | change ht ho hr hc =>
    rw [handle_change ht (adjust_change ho hr _), Eff.bind_error (perform_run hc _ _)]
    exact ⟨_, _, rfl⟩
  | unset ht hr hu =>
    exact ⟨_, _, handle_adjust_error ht (adjust_unset_throws hr hu _)⟩
  | again ht hr hu hc =>
    rw [handle_change ht (adjust_reinstall hr hu _), Eff.bind_error (perform_run hc _ _)]
    exact ⟨_, _, rfl⟩

end Handle

/-! ## One pass -/

/-- The restart after a resource that requires one is asked for and answered, or one
of the questions throws. -/
def asksForRestart (p : Installer W) (c : ConfigurationContext W) (o : Except Exn Unit)
    (c' : ConfigurationContext W) : Prop :=
  requestRestart p ⟨c, []⟩ = (o, ⟨c', []⟩)

/-- A pass over resources from one context to another, with `done` changed before.
It ends behind the last resource, at a restart, or at an exception. -/
inductive Goes (p : Installer W) : List (Resource W) → List (Resource W) →
    ConfigurationContext W → Pass W → ConfigurationContext W → Prop
  | finished {done : List (Resource W)} {c : ConfigurationContext W} :
      Goes p done [] c (.finished done) c
  | passed {done rs : List (Resource W)} {r : Resource W} {c c₁ c' : ConfigurationContext W}
      {pass : Pass W} : Handled p r c false c₁ → Goes p done rs c₁ pass c' →
      Goes p done (r :: rs) c pass c'
  | changed {done rs : List (Resource W)} {r : Resource W} {c c₁ c' : ConfigurationContext W}
      {pass : Pass W} : Handled p r c true c₁ → r.requiresReboot c₁.machine = false →
      Goes p (r :: done) rs c₁ pass c' → Goes p done (r :: rs) c pass c'
  | restart {done rs : List (Resource W)} {r : Resource W} {c c₁ c' : ConfigurationContext W} :
      Handled p r c true c₁ → r.requiresReboot c₁.machine = true → asksForRestart p c₁ (.ok ()) c' →
      Goes p done (r :: rs) c .pendingRestart c'
  | noRestart {done rs : List (Resource W)} {r : Resource W} {c c₁ c' : ConfigurationContext W}
      {e : Exn} : Handled p r c true c₁ → r.requiresReboot c₁.machine = true →
      asksForRestart p c₁ (.error e) c' → Goes p done (r :: rs) c (.threw (r :: done)) c'
  | threw {done rs : List (Resource W)} {r : Resource W} {c c' : ConfigurationContext W} :
      Throws p r c c' → Goes p done (r :: rs) c (.threw done) c'

/-- A pass that handles every resource, without an exception and without a restart. -/
def Through (p : Installer W) (rs : List (Resource W)) (c c' : ConfigurationContext W) : Prop :=
  ∃ done, Goes p [] rs c (.finished done) c'

section Passes

variable {p : Installer W}

theorem onContext_run {α : Type} {m : Eff (ConfigurationContext W) Exn α}
    {c c' : ConfigurationContext W} {o : Except Exn α} (h : m c = (o, c')) (calls : List (Call W)) :
    onContext m ⟨c, calls⟩ = (o, ⟨c', calls⟩) := by
  rw [onContext, h]

theorem askForRestart_calls (p : Installer W) (c : ConfigurationContext W) :
    ∃ o c', ∀ calls, askForRestart p ⟨c, calls⟩ = (o, ⟨c', calls⟩) := by
  rcases hc : p.userConsent c with ⟨e | b, c₁⟩
  · exact ⟨.error e, c₁, fun calls => Eff.bind_error (onContext_run hc calls)⟩
  · cases b with
    | false => exact ⟨.ok false, c₁, fun calls => Eff.bind_ok (onContext_run hc calls)⟩
    | true =>
      cases hd : c₁.delayReboot with
      | true =>
        refine ⟨.ok false, c₁, fun calls => ?_⟩
        rw [askForRestart, Eff.bind_ok (onContext_run hc calls), if_pos rfl,
          Eff.bind_ok (Eff.get_run _)]
        exact congrFun (if_pos hd) _
      | false =>
        refine ⟨(p.requestReboot c₁).1, (p.requestReboot c₁).2, fun calls => ?_⟩
        rw [askForRestart, Eff.bind_ok (onContext_run hc calls), if_pos rfl,
          Eff.bind_ok (Eff.get_run _)]
        exact congrFun (if_neg (by rw [hd]; decide)) _

/-- The questions before a restart call no resource. -/
theorem requestRestart_calls (p : Installer W) (c : ConfigurationContext W) :
    ∃ o c', asksForRestart p c o c' ∧ (o = .ok () → c'.restartPending = true) ∧
      ∀ calls, requestRestart p ⟨c, calls⟩ = (o, ⟨c', calls⟩) := by
  obtain ⟨o, c₁, h⟩ := askForRestart_calls p c
  cases o with
  | error e =>
    have hrun : ∀ calls, requestRestart p ⟨c, calls⟩ = (.error e, ⟨c₁, calls⟩) :=
      fun calls => Eff.bind_error (h calls)
    exact ⟨.error e, c₁, hrun [], fun h => (nomatch h), hrun⟩
  | ok b =>
    have hrun : ∀ calls, requestRestart p ⟨c, calls⟩
        = (.ok (), ⟨{ c₁ with restartPending := true }, calls⟩) :=
      fun calls => Eff.bind_ok (h calls)
    exact ⟨.ok (), { c₁ with restartPending := true }, hrun [], fun _ => rfl, hrun⟩

theorem asksForRestart_run {c c' : ConfigurationContext W} {o : Except Exn Unit}
    (h : asksForRestart p c o c') (calls : List (Call W)) :
    requestRestart p ⟨c, calls⟩ = (o, ⟨c', calls⟩) := by
  obtain ⟨o₁, c₁, h₁, -, hrun⟩ := requestRestart_calls p c
  obtain ⟨rfl, hs⟩ := Prod.ext_iff.mp (h.symm.trans h₁)
  obtain rfl : c' = c₁ := congrArg Session.context hs
  exact hrun calls

theorem goes_run {done rs : List (Resource W)} {c c' : ConfigurationContext W} {pass : Pass W}
    (h : Goes p done rs c pass c') (calls : List (Call W)) :
    ∃ calls', applyResources p done rs ⟨c, calls⟩ = (.ok pass, ⟨c', calls'⟩) := by
  induction h generalizing calls with
  | finished => exact ⟨calls, rfl⟩
  | passed hh _ ih =>
    obtain ⟨calls₁, hrun⟩ := handled_run hh calls
    rw [applyResources_false hrun]
    exact ih calls₁
  | changed hh hr _ ih =>
    obtain ⟨calls₁, hrun⟩ := handled_run hh calls
    rw [applyResources_true hrun hr]
    exact ih calls₁
  | restart hh hr ha =>
    obtain ⟨calls₁, hrun⟩ := handled_run hh calls
    rw [applyResources, Eff.bind_ok (Eff.attempt_run _ _), hrun]
    dsimp only
    rw [Eff.bind_ok (Eff.get_run _), if_pos hr, Eff.bind_ok (Eff.attempt_run _ _),
      asksForRestart_run ha]
    exact ⟨_, rfl⟩
  | noRestart hh hr ha =>
    obtain ⟨calls₁, hrun⟩ := handled_run hh calls
    rw [applyResources, Eff.bind_ok (Eff.attempt_run _ _), hrun]
    dsimp only
    rw [Eff.bind_ok (Eff.get_run _), if_pos hr, Eff.bind_ok (Eff.attempt_run _ _),
      asksForRestart_run ha]
    exact ⟨_, rfl⟩
  | threw ht =>
    obtain ⟨e, calls₁, hrun⟩ := throws_run ht calls
    rw [applyResources_error hrun]
    exact ⟨_, rfl⟩

theorem goes_exists (p : Installer W) :
    ∀ (rs done : List (Resource W)) (c : ConfigurationContext W),
    ∃ pass c', Goes p done rs c pass c' := by
  intro rs
  induction rs with
  | nil => intro done c; exact ⟨_, _, .finished⟩
  | cons r rs ih =>
    intro done c
    rcases handled_or_throws p r c with ⟨b, c₁, hh⟩ | ⟨c₁, ht⟩
    · cases b with
      | false =>
        obtain ⟨pass, c', hgo⟩ := ih done c₁
        exact ⟨pass, c', .passed hh hgo⟩
      | true =>
        cases hr : r.requiresReboot c₁.machine with
        | false =>
          obtain ⟨pass, c', hgo⟩ := ih (r :: done) c₁
          exact ⟨pass, c', .changed hh hr hgo⟩
        | true =>
          obtain ⟨o, c', ha, -⟩ := requestRestart_calls p c₁
          cases o with
          | error e => exact ⟨_, c', .noRestart hh hr ha⟩
          | ok u => exact ⟨_, c', .restart hh hr ha⟩
    · exact ⟨_, c₁, .threw ht⟩

/-- A pass has one end. -/
theorem Goes.unique {done rs : List (Resource W)} {c c₁ c₂ : ConfigurationContext W}
    {pass₁ pass₂ : Pass W} (h₁ : Goes p done rs c pass₁ c₁) (h₂ : Goes p done rs c pass₂ c₂) :
    pass₁ = pass₂ ∧ c₁ = c₂ := by
  obtain ⟨calls₁, hrun₁⟩ := goes_run h₁ []
  obtain ⟨calls₂, hrun₂⟩ := goes_run h₂ []
  obtain ⟨ho, hs⟩ := Prod.ext_iff.mp (hrun₁.symm.trans hrun₂)
  exact ⟨Except.ok.inj ho, congrArg Session.context hs⟩

theorem Goes.restartPending {done rs : List (Resource W)} {c c' : ConfigurationContext W}
    (h : Goes p done rs c .pendingRestart c') : c'.restartPending = true := by
  generalize hpass : Pass.pendingRestart = pass at h
  induction h with
  | finished => exact nomatch hpass
  | passed _ _ ih => exact ih hpass
  | changed _ _ _ ih => exact ih hpass
  | @restart _ _ _ _ c₁ c' _ _ ha =>
    obtain ⟨o, c₂, h₂, hpending, -⟩ := requestRestart_calls p c₁
    obtain ⟨ho, hs⟩ := Prod.ext_iff.mp (ha.symm.trans h₂)
    obtain rfl : c' = c₂ := congrArg Session.context hs
    exact hpending ho.symm
  | noRestart => exact nomatch hpass
  | threw => exact nomatch hpass

end Passes

/-! ## What a pass leaves as it is -/

/-- The operations of `r` leave the observation `g` as it is. -/
structure Leaves {β : Type} (g : ConfigurationContext W → β) (r : Resource W) : Prop where
  test : Eff.Keeps g r.test
  set : Eff.Keeps g r.set
  unset : Eff.Keeps g r.unset

section Frames

variable {p : Installer W} {β : Type} {g : ConfigurationContext W → β}

theorem Leaves.change {r : Resource W} (hr : Leaves g r) :
    Eff.Keeps g (DesiredStateConfiguration.change p r) := by
  unfold DesiredStateConfiguration.change
  split
  · exact hr.unset
  · exact hr.set

theorem Handled.keeps {r : Resource W} (hr : Leaves g r) {c c' : ConfigurationContext W} {b : Bool}
    (h : Handled p r c b c') : g c' = g c := by
  cases h with
  | passed ht _ => exact Eff.keeps_run hr.test ht
  | changed ht _ _ hc => exact (Eff.keeps_run hr.change hc).trans (Eff.keeps_run hr.test ht)
  | reinstalled ht _ hu hc =>
    exact ((Eff.keeps_run hr.change hc).trans (Eff.keeps_run hr.unset hu)).trans
      (Eff.keeps_run hr.test ht)

theorem Throws.keeps {r : Resource W} (hr : Leaves g r) {c c' : ConfigurationContext W}
    (h : Throws p r c c') : g c' = g c := by
  cases h with
  | test ht => exact Eff.keeps_run hr.test ht
  | change ht _ _ hc => exact (Eff.keeps_run hr.change hc).trans (Eff.keeps_run hr.test ht)
  | unset ht _ hu => exact (Eff.keeps_run hr.unset hu).trans (Eff.keeps_run hr.test ht)
  | again ht _ hu hc =>
    exact ((Eff.keeps_run hr.change hc).trans (Eff.keeps_run hr.unset hu)).trans
      (Eff.keeps_run hr.test ht)

theorem Goes.keeps {done rs d : List (Resource W)} (hrs : ∀ r ∈ rs, Leaves g r)
    {c c' : ConfigurationContext W} (h : Goes p done rs c (.finished d) c') : g c' = g c := by
  generalize hpass : Pass.finished d = pass at h
  induction h with
  | finished => rfl
  | passed hh _ ih =>
    obtain ⟨hr, hrs⟩ := List.forall_mem_cons.mp hrs
    exact (ih hrs hpass).trans (hh.keeps hr)
  | changed hh _ _ ih =>
    obtain ⟨hr, hrs⟩ := List.forall_mem_cons.mp hrs
    exact (ih hrs hpass).trans (hh.keeps hr)
  | restart => exact nomatch hpass
  | noRestart => exact nomatch hpass
  | threw => exact nomatch hpass

/-- A pass that comes through is one over the first resources and one over the rest. -/
theorem goes_append {rest : List (Resource W)} : ∀ {pre done d : List (Resource W)}
    {c c' : ConfigurationContext W}, Goes p done (pre ++ rest) c (.finished d) c' ↔
    ∃ done₁ c₁, Goes p done pre c (.finished done₁) c₁ ∧ Goes p done₁ rest c₁ (.finished d) c' := by
  intro pre
  induction pre with
  | nil =>
    intro done d c c'
    refine ⟨fun h => ⟨done, c, .finished, h⟩, fun ⟨done₁, c₁, hpre, hrest⟩ => ?_⟩
    cases hpre
    exact hrest
  | cons x pre ih =>
    intro done d c c'
    constructor
    · intro h
      cases h with
      | passed hx hgo =>
        obtain ⟨done₁, c₁, hpre, hrest⟩ := ih.mp hgo
        exact ⟨done₁, c₁, .passed hx hpre, hrest⟩
      | changed hx hreboot hgo =>
        obtain ⟨done₁, c₁, hpre, hrest⟩ := ih.mp hgo
        exact ⟨done₁, c₁, .changed hx hreboot hpre, hrest⟩
    · intro ⟨done₁, c₁, hpre, hrest⟩
      cases hpre with
      | passed hx hgo => exact .passed hx (ih.mpr ⟨done₁, c₁, hgo, hrest⟩)
      | changed hx hreboot hgo => exact .changed hx hreboot (ih.mpr ⟨done₁, c₁, hgo, hrest⟩)

/-- A pass that comes through has handled its first resource. -/
theorem Goes.first {r : Resource W} {done rs d : List (Resource W)} {c c' : ConfigurationContext W}
    (h : Goes p done (r :: rs) c (.finished d) c') :
    ∃ b c₁ done₁, Handled p r c b c₁ ∧ Goes p done₁ rs c₁ (.finished d) c' := by
  cases h with
  | passed hh hgo => exact ⟨false, _, _, hh, hgo⟩
  | changed hh _ hgo => exact ⟨true, _, _, hh, hgo⟩

end Frames

/-! ## The result -/

/-- What the result and the state file should say, for the graph and the context in
which the main pass begins. -/
structure Reported (p : Installer W) (graph : List (Resource W)) (c₁ : ConfigurationContext W)
    (ret : ConfigurationResult) (c' : ConfigurationContext W) : Prop where
  succeeded : ret = .succeeded → ∃ c₂, Through p graph c₁ c₂
  pendingRestart : ret = .pendingRestart → ∃ c₂, Goes p [] graph c₁ .pendingRestart c₂
  rolledBack : ret = .rolledBack → p.uninstall = false ∧
    ∃ done c₂ c₃, Goes p [] graph c₁ (.threw done) c₂ ∧ Through p done c₂ c₃
  failed : ret = .failed ↔ ∃ done c₂, Goes p [] graph c₁ (.threw done) c₂ ∧
    ¬ (p.uninstall = false ∧ ∃ c₃, Through p done c₂ c₃)
  stateFile : c'.stateFile ≠ none ↔ ret = .pendingRestart

/-- The result of `Apply`, whenever it returns one, is what it should be. -/
def ReportsRight (p : Installer W) (resources : List (Resource W)) (c : ConfigurationContext W) :
    Prop :=
  ∀ ret s, apply p resources ⟨c, []⟩ = (.ok ret, s) →
    ∃ graph c₁, buildDependencyGraph p resources c = (.ok graph, c₁) ∧
      Reported p graph c₁ ret s.context

/-- After an installation that fails, the pass over the completed resources handles
all of them without an exception and without a restart. -/
def RollsBack (p : Installer W) (graph : List (Resource W)) (c₁ : ConfigurationContext W) : Prop :=
  p.uninstall = false → ∀ done c₂, Goes p [] graph c₁ (.threw done) c₂ → ∃ c₃, Through p done c₂ c₃

/-- When a pass ends in `c`, the state file goes: no restart is pending, or there is
no file. -/
def Settled (c : ConfigurationContext W) : Prop := c.restartPending = false ∨ c.stateFile = none

/-- The resources leave the bookkeeping of the installer as it should be at the end
of the last pass. -/
structure BooksKept (p : Installer W) (graph : List (Resource W)) (c₁ : ConfigurationContext W) :
    Prop where
  finished : ∀ c₂, Through p graph c₁ c₂ → Settled c₂
  restart : ∀ c₂, Goes p [] graph c₁ .pendingRestart c₂ → c₂.stateFile ≠ none
  uninstall : p.uninstall = true → ∀ done c₂, Goes p [] graph c₁ (.threw done) c₂ → Settled c₂
  install : p.uninstall = false → ∀ done c₂ c₃, Goes p [] graph c₁ (.threw done) c₂ →
    Through p done c₂ c₃ → Settled c₃

section Result

variable {p : Installer W} {graph : List (Resource W)} {c₁ c₂ c₃ : ConfigurationContext W}

/-- The context that `Apply` leaves. -/
def closed (c : ConfigurationContext W) : ConfigurationContext W :=
  if c.restartPending then c else { c with stateFile := none, state := none }

theorem closed_stateFile (c : ConfigurationContext W) :
    (closed c).stateFile ≠ none ↔ ¬ Settled c := by
  unfold closed Settled
  cases c.restartPending with
  | true => simp
  | false => simp

theorem apply_closed {resources : List (Resource W)} {c : ConfigurationContext W}
    {ret : ConfigurationResult} {calls : List (Call W)}
    (hgraph : buildDependencyGraph p resources c = (.ok graph, c₁))
    (hlocal : applyLocal p (undo p) p.uninstall graph ⟨c₁, []⟩ = (.ok ret, ⟨c₂, calls⟩)) :
    ∃ s, apply p resources ⟨c, []⟩ = (.ok ret, s) ∧ s.context = closed c₂ := by
  rw [apply, Eff.bind_ok (onContext_run hgraph []), Eff.bind_ok hlocal, Eff.bind_ok (Eff.get_run _)]
  split
  · rename_i hpending
    exact ⟨_, rfl, (if_pos hpending).symm⟩
  · rename_i hpending
    exact ⟨_, rfl, (if_neg hpending).symm⟩

theorem applyLocal_finished {done : List (Resource W)}
    (h : Goes p [] graph c₁ (.finished done) c₂) :
    ∃ calls, applyLocal p (undo p) p.uninstall graph ⟨c₁, []⟩ = (.ok .succeeded, ⟨c₂, calls⟩) := by
  obtain ⟨calls, hrun⟩ := goes_run h []
  exact ⟨calls, by rw [applyLocal, Eff.bind_ok hrun]; rfl⟩

theorem applyLocal_pendingRestart (h : Goes p [] graph c₁ .pendingRestart c₂) :
    ∃ calls, applyLocal p (undo p) p.uninstall graph ⟨c₁, []⟩
      = (.ok .pendingRestart, ⟨c₂, calls⟩) := by
  obtain ⟨calls, hrun⟩ := goes_run h []
  exact ⟨calls, by rw [applyLocal, Eff.bind_ok hrun]; rfl⟩

theorem applyLocal_failed (hp : p.uninstall = true) {done : List (Resource W)}
    (h : Goes p [] graph c₁ (.threw done) c₂) :
    ∃ calls, applyLocal p (undo p) p.uninstall graph ⟨c₁, []⟩ = (.ok .failed, ⟨c₂, calls⟩) := by
  obtain ⟨calls, hrun⟩ := goes_run h []
  refine ⟨calls, ?_⟩
  rw [applyLocal, Eff.bind_ok hrun, hp]
  rfl

/-- The answer is `RolledBack` however the second pass ends. -/
theorem applyLocal_rolledBack (hp : p.uninstall = false) {done : List (Resource W)} {pass : Pass W}
    (h : Goes p [] graph c₁ (.threw done) c₂) (h' : Goes p [] done c₂ pass c₃) :
    ∃ calls, applyLocal p (undo p) p.uninstall graph ⟨c₁, []⟩ = (.ok .rolledBack, ⟨c₃, calls⟩) := by
  obtain ⟨calls, hrun⟩ := goes_run h []
  obtain ⟨calls', hrun'⟩ := goes_run h' calls
  refine ⟨calls', ?_⟩
  rw [hp, applyLocal_threw hrun, hrun']

/-! ### The four ends of a run -/

theorem reported_finished {done : List (Resource W)} (h : Goes p [] graph c₁ (.finished done) c₂) :
    Reported p graph c₁ .succeeded (closed c₂) ↔ RollsBack p graph c₁ ∧ BooksKept p graph c₁ := by
  refine ⟨fun hr => ⟨fun _ d c hd => ?_, ⟨fun c hc => ?_, fun c hc => ?_, fun _ d c hd => ?_,
    fun _ d c c' hd _ => ?_⟩⟩, fun ⟨_, hb⟩ => ⟨fun _ => ⟨c₂, done, h⟩, fun h => (nomatch h),
    fun h => (nomatch h), ?_, ?_⟩⟩
  · exact nomatch (h.unique hd).1
  · obtain ⟨d, hd⟩ := hc
    obtain rfl := (h.unique hd).2
    refine Classical.not_not.mp fun hs => ?_
    exact nomatch hr.stateFile.mp ((closed_stateFile c₂).mpr hs)
  · exact nomatch (h.unique hc).1
  · exact nomatch (h.unique hd).1
  · exact nomatch (h.unique hd).1
  · exact iff_of_false (fun h => nomatch h) fun ⟨d, c, hd, _⟩ => nomatch (h.unique hd).1
  · refine iff_of_false (fun hs => (closed_stateFile c₂).mp hs (hb.finished c₂ ⟨done, h⟩)) ?_
    exact fun h => nomatch h

theorem reported_pendingRestart (h : Goes p [] graph c₁ .pendingRestart c₂) :
    Reported p graph c₁ .pendingRestart (closed c₂) ↔
      RollsBack p graph c₁ ∧ BooksKept p graph c₁ := by
  have hclosed : (closed c₂).stateFile ≠ none ↔ c₂.stateFile ≠ none := by
    rw [closed, if_pos h.restartPending]
  refine ⟨fun hr => ⟨fun _ d c hd => ?_, ⟨fun c hc => ?_, fun c hc => ?_, fun _ d c hd => ?_,
    fun _ d c c' hd _ => ?_⟩⟩, fun ⟨_, hb⟩ => ⟨fun h => (nomatch h), fun _ => ⟨c₂, h⟩,
    fun h => (nomatch h), ?_, ?_⟩⟩
  · exact nomatch (h.unique hd).1
  · obtain ⟨d, hd⟩ := hc
    exact nomatch (h.unique hd).1
  · obtain rfl := (h.unique hc).2
    exact hclosed.mp (hr.stateFile.mpr rfl)
  · exact nomatch (h.unique hd).1
  · exact nomatch (h.unique hd).1
  · exact iff_of_false (fun h => nomatch h) fun ⟨d, c, hd, _⟩ => nomatch (h.unique hd).1
  · exact iff_of_true (hclosed.mpr (hb.restart c₂ h)) rfl

theorem reported_failed (hp : p.uninstall = true) {done : List (Resource W)}
    (h : Goes p [] graph c₁ (.threw done) c₂) :
    Reported p graph c₁ .failed (closed c₂) ↔ RollsBack p graph c₁ ∧ BooksKept p graph c₁ := by
  have hinstall : p.uninstall ≠ false := fun hf => nomatch hp.symm.trans hf
  refine ⟨fun hr => ⟨fun hf => absurd hf hinstall, ⟨fun c hc => ?_, fun c hc => ?_,
    fun _ d c hd => ?_, fun hf => absurd hf hinstall⟩⟩, fun ⟨_, hb⟩ => ⟨fun h => (nomatch h),
    fun h => (nomatch h), fun h => (nomatch h), ?_, ?_⟩⟩
  · obtain ⟨d, hd⟩ := hc
    exact nomatch (h.unique hd).1
  · exact nomatch (h.unique hc).1
  · obtain rfl := (h.unique hd).2
    refine Classical.not_not.mp fun hs => ?_
    exact nomatch hr.stateFile.mp ((closed_stateFile c₂).mpr hs)
  · exact iff_of_true rfl ⟨done, c₂, h, fun hf => hinstall hf.1⟩
  · refine iff_of_false (fun hs => (closed_stateFile c₂).mp hs (hb.uninstall hp done c₂ h)) ?_
    exact fun h => nomatch h

theorem reported_rolledBack (hp : p.uninstall = false) {done : List (Resource W)} {pass : Pass W}
    (h : Goes p [] graph c₁ (.threw done) c₂) (h' : Goes p [] done c₂ pass c₃) :
    Reported p graph c₁ .rolledBack (closed c₃) ↔ RollsBack p graph c₁ ∧ BooksKept p graph c₁ := by
  have hinstall : p.uninstall ≠ true := fun ht => nomatch hp.symm.trans ht
  refine ⟨fun hr => ?_, fun ⟨hrolls, hb⟩ => ?_⟩
  · obtain ⟨-, d, c, c', hd, hthrough⟩ := hr.rolledBack rfl
    obtain ⟨hpass, rfl⟩ := h.unique hd
    obtain rfl := Pass.threw.inj hpass
    have hsettled : ∀ c', Through p done c₂ c' → Settled c' := by
      intro c' hc'
      obtain ⟨d, hd⟩ := hc'
      obtain rfl := (h'.unique hd).2
      refine Classical.not_not.mp fun hs => ?_
      exact nomatch hr.stateFile.mp ((closed_stateFile c₃).mpr hs)
    refine ⟨fun _ d c hd => ?_, ⟨fun c hc => ?_, fun c hc => ?_, fun ht => absurd ht hinstall,
      fun _ d c c' hd hc' => ?_⟩⟩
    · obtain ⟨hpass, rfl⟩ := h.unique hd
      obtain rfl := Pass.threw.inj hpass
      exact ⟨c', hthrough⟩
    · obtain ⟨d, hd⟩ := hc
      exact nomatch (h.unique hd).1
    · exact nomatch (h.unique hc).1
    · obtain ⟨hpass, rfl⟩ := h.unique hd
      obtain rfl := Pass.threw.inj hpass
      exact hsettled c' hc'
  · obtain ⟨c', hthrough⟩ := hrolls hp done c₂ h
    have hc' := hthrough
    obtain ⟨d, hd⟩ := hc'
    obtain rfl := (h'.unique hd).2
    refine ⟨fun h => (nomatch h), fun h => (nomatch h), fun _ => ⟨hp, done, c₂, c₃, h, hthrough⟩,
      iff_of_false (fun h => nomatch h) ?_, iff_of_false (fun hs => ?_) fun h => nomatch h⟩
    · intro ⟨d, c, hd, hnot⟩
      obtain ⟨hpass, rfl⟩ := h.unique hd
      obtain rfl := Pass.threw.inj hpass
      exact hnot ⟨hp, c₃, hthrough⟩
    · exact (closed_stateFile c₃).mp hs (hb.install hp done c₂ c₃ h hthrough)

theorem apply_reported {resources : List (Resource W)} {c : ConfigurationContext W}
    (hgraph : buildDependencyGraph p resources c = (.ok graph, c₁)) :
    ∃ ret s, apply p resources ⟨c, []⟩ = (.ok ret, s) ∧
      (Reported p graph c₁ ret s.context ↔ RollsBack p graph c₁ ∧ BooksKept p graph c₁) := by
  obtain ⟨pass, c₂, h⟩ := goes_exists p graph [] c₁
  cases pass with
  | finished done =>
    obtain ⟨calls, hlocal⟩ := applyLocal_finished h
    obtain ⟨s, hs, hc⟩ := apply_closed hgraph hlocal
    exact ⟨_, s, hs, hc ▸ reported_finished h⟩
  | pendingRestart =>
    obtain ⟨calls, hlocal⟩ := applyLocal_pendingRestart h
    obtain ⟨s, hs, hc⟩ := apply_closed hgraph hlocal
    exact ⟨_, s, hs, hc ▸ reported_pendingRestart h⟩
  | threw done =>
    cases hp : p.uninstall with
    | true =>
      obtain ⟨calls, hlocal⟩ := applyLocal_failed hp h
      obtain ⟨s, hs, hc⟩ := apply_closed hgraph hlocal
      exact ⟨_, s, hs, hc ▸ reported_failed hp h⟩
    | false =>
      obtain ⟨pass', c₃, h'⟩ := goes_exists p done [] c₂
      obtain ⟨calls, hlocal⟩ := applyLocal_rolledBack hp h h'
      obtain ⟨s, hs, hc⟩ := apply_closed hgraph hlocal
      exact ⟨_, s, hs, hc ▸ reported_rolledBack hp h h'⟩

/-- **When the result of a run is right.** -/
theorem apply_reports_iff (p : Installer W) (resources : List (Resource W))
    (c : ConfigurationContext W) :
    ReportsRight p resources c ↔ ∀ graph c₁, buildDependencyGraph p resources c = (.ok graph, c₁) →
      RollsBack p graph c₁ ∧ BooksKept p graph c₁ := by
  refine ⟨fun h graph c₁ hgraph => ?_, fun h ret s hs => ?_⟩
  · obtain ⟨ret, s, hs, hiff⟩ := apply_reported hgraph
    obtain ⟨graph', c₁', hgraph', hr⟩ := h ret s hs
    obtain ⟨ho, rfl⟩ := Prod.ext_iff.mp (hgraph.symm.trans hgraph')
    obtain rfl := Except.ok.inj ho
    exact hiff.mp hr
  · rcases hgraph : buildDependencyGraph p resources c with ⟨e | graph, c₁⟩
    · rw [apply, Eff.bind_error (onContext_run hgraph [])] at hs
      cases (Prod.ext_iff.mp hs).1
    · obtain ⟨ret', s', hs', hiff⟩ := apply_reported hgraph
      obtain ⟨ho, rfl⟩ := Prod.ext_iff.mp (hs.symm.trans hs')
      obtain rfl := Except.ok.inj ho
      exact ⟨graph, c₁, rfl, hiff.mpr (h graph c₁ hgraph)⟩

end Result

/-! ## Resources that leave the bookkeeping alone -/

/-- The part of the context that belongs to the installer. -/
def books (c : ConfigurationContext W) : Bool × Option (List String) :=
  (c.restartPending, c.stateFile)

structure LeavesBooks (r : Resource W) : Prop where
  test : Eff.Keeps books r.test
  set : Eff.Keeps books r.set
  unset : Eff.Keeps books r.unset

section Books

variable {p : Installer W}

theorem LeavesBooks.leaves {r : Resource W} (hr : LeavesBooks r) : Leaves books r :=
  ⟨hr.test, hr.set, hr.unset⟩

theorem asksForRestart_books (hconsent : Eff.Keeps books p.userConsent)
    (hreboot : Eff.Keeps books p.requestReboot) {c c' : ConfigurationContext W}
    {o : Except Exn Unit} (h : asksForRestart p c o c') :
    c'.stateFile = c.stateFile ∧ (o ≠ .ok () → c'.restartPending = c.restartPending) := by
  have hask : Eff.Keeps (fun s : Session W => books s.context) (askForRestart p) := by
    have hcontext : ∀ {α : Type} {m : Eff (ConfigurationContext W) Exn α}, Eff.Keeps books m →
        Eff.Keeps (fun s : Session W => books s.context) (onContext m) :=
      fun hm => ⟨fun s => hm.run s.context⟩
    unfold askForRestart
    refine Eff.moves_bind (hcontext hconsent) fun consent => ?_
    split
    · refine Eff.moves_bind Eff.moves_get fun s => ?_
      split
      · exact Eff.moves_pure _
      · exact hcontext hreboot
    · exact Eff.moves_pure _
  have hbooks := hask.run ⟨c, []⟩
  unfold asksForRestart requestRestart at h
  rcases ha : askForRestart p ⟨c, []⟩ with ⟨e | b, s⟩
  · rw [Eff.bind_error ha] at h
    rw [ha, (Prod.ext_iff.mp h).2] at hbooks
    exact ⟨congrArg Prod.snd hbooks, fun _ => congrArg Prod.fst hbooks⟩
  · rw [Eff.bind_ok ha] at h
    obtain ⟨ho, hs⟩ := Prod.ext_iff.mp h
    obtain rfl : { s.context with restartPending := true } = c' := congrArg Session.context hs
    rw [ha] at hbooks
    exact ⟨congrArg Prod.snd hbooks, fun hne => absurd ho.symm hne⟩

theorem Goes.books (hconsent : Eff.Keeps books p.userConsent)
    (hreboot : Eff.Keeps books p.requestReboot)
    {done rs : List (Resource W)} {c c' : ConfigurationContext W} {pass : Pass W}
    (h : Goes p done rs c pass c') (hrs : ∀ r ∈ rs, LeavesBooks r) :
    c'.stateFile = c.stateFile ∧
      (pass ≠ .pendingRestart → c'.restartPending = c.restartPending) := by
  induction h with
  | finished => exact ⟨rfl, fun _ => rfl⟩
  | passed hh _ ih =>
    have hb := hh.keeps (hrs _ List.mem_cons_self).leaves
    obtain ⟨hfile, hpending⟩ := ih fun r hr => hrs r (List.mem_cons_of_mem _ hr)
    exact ⟨hfile.trans (congrArg Prod.snd hb), fun hne =>
      (hpending hne).trans (congrArg Prod.fst hb)⟩
  | changed hh _ _ ih =>
    have hb := hh.keeps (hrs _ List.mem_cons_self).leaves
    obtain ⟨hfile, hpending⟩ := ih fun r hr => hrs r (List.mem_cons_of_mem _ hr)
    exact ⟨hfile.trans (congrArg Prod.snd hb), fun hne =>
      (hpending hne).trans (congrArg Prod.fst hb)⟩
  | restart hh _ ha =>
    have hb := hh.keeps (hrs _ List.mem_cons_self).leaves
    obtain ⟨hfile, -⟩ := asksForRestart_books hconsent hreboot ha
    exact ⟨hfile.trans (congrArg Prod.snd hb), fun hne => absurd rfl hne⟩
  | noRestart hh _ ha =>
    have hb := hh.keeps (hrs _ List.mem_cons_self).leaves
    obtain ⟨hfile, hpending⟩ := asksForRestart_books hconsent hreboot ha
    exact ⟨hfile.trans (congrArg Prod.snd hb),
      fun _ => (hpending fun h => nomatch h).trans (congrArg Prod.fst hb)⟩
  | threw ht =>
    have hb := ht.keeps (hrs _ List.mem_cons_self).leaves
    exact ⟨congrArg Prod.snd hb, fun _ => congrArg Prod.fst hb⟩

/-- Only resources of the pass are undone. -/
theorem Goes.mem_of_threw {done rs done' : List (Resource W)} {c c' : ConfigurationContext W}
    (h : Goes p done rs c (.threw done') c') : ∀ r ∈ done', r ∈ done ∨ r ∈ rs := by
  generalize hpass : Pass.threw done' = pass at h
  induction h with
  | finished => exact nomatch hpass
  | passed _ _ ih => exact fun r hr => (ih hpass r hr).imp_right (List.mem_cons_of_mem _)
  | changed _ _ _ ih =>
    intro r hr
    rcases ih hpass r hr with hr | hr
    · rcases List.mem_cons.mp hr with rfl | hr
      · exact .inr List.mem_cons_self
      · exact .inl hr
    · exact .inr (List.mem_cons_of_mem _ hr)
  | restart => exact nomatch hpass
  | noRestart =>
    obtain rfl := Pass.threw.inj hpass
    intro r hr
    rcases List.mem_cons.mp hr with rfl | hr
    · exact .inr List.mem_cons_self
    · exact .inl hr
  | threw =>
    obtain rfl := Pass.threw.inj hpass
    exact fun r hr => .inl hr

/-- For such resources only the rollback matters. -/
theorem booksKept (hconsent : Eff.Keeps books p.userConsent)
    (hreboot : Eff.Keeps books p.requestReboot)
    {graph : List (Resource W)} {c₁ : ConfigurationContext W} (hgraph : ∀ r ∈ graph, LeavesBooks r)
    (hpending : c₁.restartPending = false) (hfile : c₁.stateFile ≠ none) :
    BooksKept p graph c₁ where
  finished := by
    intro c₂ h
    obtain ⟨done, h⟩ := h
    exact .inl (((h.books hconsent hreboot hgraph).2 fun h => nomatch h).trans hpending)
  restart := by
    intro c₂ h
    rw [(h.books hconsent hreboot hgraph).1]
    exact hfile
  uninstall := by
    intro _ done c₂ h
    exact .inl (((h.books hconsent hreboot hgraph).2 fun h => nomatch h).trans hpending)
  install := by
    intro _ done c₂ c₃ h h'
    obtain ⟨d, h'⟩ := h'
    have hdone : ∀ r ∈ done, LeavesBooks r :=
      fun r hr => hgraph r ((h.mem_of_threw r hr).resolve_left fun hn => nomatch hn)
    have h₂ := (h.books hconsent hreboot hgraph).2 fun h => nomatch h
    have h₃ := (h'.books hconsent hreboot hdone).2 fun h => nomatch h
    exact .inl (h₃.trans (h₂.trans hpending))

end Books

/-! ## A resource that can be set once -/

/-- `Set` throws when it is called again. -/
def onlyOnce : Resource Bool where
  id := "onlyOnce"
  test := pure false
  set := do
    if (← Eff.get).machine then Eff.throw (.other "already there")
    else Eff.modify fun c => { c with machine := true }
  unset := pure ()

/-- The installation fails at `broken`, the second pass at `onlyOnce`, and the answer
is `RolledBack`. -/
theorem apply_reports_rolledBack :
    ¬ ∀ (p : Installer Bool) (resources : List (Resource Bool)) (c : ConfigurationContext Bool),
      ReportsRight p resources c := by
  intro h
  have hgraph : buildDependencyGraph switchInstaller [onlyOnce, broken] switchedOff
      = (.ok [onlyOnce, broken],
        { switchedOff with state := some (.strings []), stateFile := some [] }) :=
    buildDependencyGraph_onePass rfl rfl rfl rfl
  obtain ⟨ret, s, hs, hiff⟩ := apply_reported hgraph
  obtain ⟨graph, c₁, hgraph', hr⟩ := h _ _ _ ret s hs
  obtain ⟨ho, rfl⟩ := Prod.ext_iff.mp (hgraph.symm.trans hgraph')
  obtain rfl := Except.ok.inj ho
  have hmain : Goes switchInstaller [] [onlyOnce, broken]
      { switchedOff with state := some (.strings []), stateFile := some [] } (.threw [onlyOnce])
      { switchedOff with state := some (.strings []), stateFile := some [], machine := true } :=
    .changed (.changed rfl rfl rfl rfl) rfl (.threw (.change rfl rfl rfl rfl))
  have hsecond : Goes switchInstaller [] [onlyOnce]
      { switchedOff with state := some (.strings []), stateFile := some [], machine := true }
      (.threw [])
      { switchedOff with state := some (.strings []), stateFile := some [], machine := true } :=
    .threw (.change rfl rfl rfl rfl)
  obtain ⟨c₃, done, hthrough⟩ := (hiff.mp hr).1 rfl _ _ hmain
  exact nomatch (hsecond.unique hthrough).1

end ContainerDesktop.DesiredStateConfiguration
