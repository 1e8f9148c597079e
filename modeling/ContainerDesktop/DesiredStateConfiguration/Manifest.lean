import ContainerDesktop.DesiredStateConfiguration.DependencyGraph

/-!
# Applying a manifest

`Apply` walks the dependency graph and brings each resource into its desired
state.  Its local function is used three times: to install, to uninstall, and,
when an installation fails, over the resources handled so far.  It is
`applyLocal`, and `undo` is the third use.

The local function has a parameter `ctx` and also sees the `context` of the
method around it.  What it prints and what it does after an exception depend on
`ctx`; what it does with a resource depends on `context`.  So `handle` and
`applyResources` read `p.uninstall`, the mode of the whole run, and only
`applyLocal` reads its own `uninstall`.

A `Session` is the context together with the operations called so far, in
order.  Progress reports and log lines are left out.
-/

namespace ContainerDesktop.DesiredStateConfiguration

variable {W : Type} {α : Type}

/-- A call of an operation of a resource, whether it returns or throws. -/
inductive Call (W : Type)
  | test (r : Resource W)
  | set (r : Resource W)
  | unset (r : Resource W)

structure Session (W : Type) where
  context : ConfigurationContext W
  calls : List (Call W)

/-- Calls an operation of a resource on the context. -/
def perform (call : Call W) (m : Eff (ConfigurationContext W) Exn α) : Eff (Session W) Exn α :=
  fun s => ((m s.context).1, ⟨(m s.context).2, s.calls ++ [call]⟩)

/-- What is done to the context without calling a resource. -/
def onContext (m : Eff (ConfigurationContext W) Exn α) : Eff (Session W) Exn α :=
  fun s => ((m s.context).1, { s with context := (m s.context).2 })

/-- What `test` becomes before it is acted on: `RunAllways` comes first, then
uninstalling, then the `OnUpdateAction` of an update. -/
def adjust (p : Installer W) (r : Resource W) (test : Bool) : Eff (Session W) Exn Bool := fun s =>
  if r.runAllways then (.ok false, s)
  else if p.uninstall then (.ok (!test), s)
  else if s.context.updating p then
    match r.onUpdateAction with
    | .install => if test then (perform (.unset r) r.unset >>= fun _ => pure false) s
      else (.ok test, s)
    | .skip => (.ok true, s)
    | .none => (.ok test, s)
  else (.ok test, s)

/-- The body of the `foreach`: tests a resource and changes it when needed.
Answers whether the resource was pushed on `processedResources`. -/
def handle (p : Installer W) (r : Resource W) : Eff (Session W) Exn Bool := do
  let test ← perform (.test r) r.test
  let test ← adjust p r test
  if test then pure false
  else if p.uninstall then do
    perform (.unset r) r.unset
    pure true
  else do
    perform (.set r) r.set
    pure true

/-- `AskUserConsent(...) && !DelayReboot && RebootHelper.RequestReboot(...)`. -/
def askForRestart (p : Installer W) : Eff (Session W) Exn Bool := do
  if ← onContext p.userConsent then
    if (← Eff.get).context.delayReboot then pure false
    else onContext p.requestReboot
  else pure false

/-- The restart after a resource that requires one. -/
def requestRestart (p : Installer W) : Eff (Session W) Exn Unit := do
  let _ ← askForRestart p
  Eff.modify fun s => { s with context := { s.context with restartPending := true } }

/-- How the `foreach` ends.  `processed` is the stack of the resources handled. -/
inductive Pass (W : Type)
  | finished (processed : List (Resource W))
  | pendingRestart
  | threw (processed : List (Resource W))

/-- The `foreach`, with the exceptions it is wrapped against. -/
def applyResources (p : Installer W) (processed : List (Resource W)) :
    List (Resource W) → Eff (Session W) Exn (Pass W)
  | [] => pure (.finished processed)
  | r :: resources => do
      match ← Eff.attempt (handle p r) with
      | .error _ => pure (.threw processed)
      | .ok false => applyResources p processed resources
      | .ok true =>
          if r.requiresReboot (← Eff.get).context.machine then
            match ← Eff.attempt (requestRestart p) with
            | .error _ => pure (.threw (r :: processed))
            | .ok () => pure .pendingRestart
          else applyResources p (r :: processed) resources

/-- The local function `Apply(resources, ctx)`, where `uninstall` is
`ctx.Uninstall` and `rollback` the call of itself in its `catch`. -/
def applyLocal (p : Installer W)
    (rollback : List (Resource W) → Eff (Session W) Exn ConfigurationResult) (uninstall : Bool)
    (resources : List (Resource W)) : Eff (Session W) Exn ConfigurationResult := do
  match ← applyResources p [] resources with
  | .finished _ => pure .succeeded
  | .pendingRestart => pure .pendingRestart
  | .threw processed =>
      if uninstall then pure .failed
      else
        let _ ← rollback processed
        pure .rolledBack

/-- `Apply(processedResources, ctx.WithUninstall(true))`.  With `ctx.Uninstall` its
own `catch` calls nothing. -/
def undo (p : Installer W) (processed : List (Resource W)) :
    Eff (Session W) Exn ConfigurationResult :=
  applyLocal p (fun _ => pure .failed) true processed

/-- `ConfigurationManifest.Apply`. -/
def apply (p : Installer W) (resources : List (Resource W)) :
    Eff (Session W) Exn ConfigurationResult := do
  let graph ← onContext (buildDependencyGraph p resources)
  let ret ← applyLocal p (undo p) p.uninstall graph
  let s ← Eff.get
  if s.context.restartPending then pure ret
  else
    onContext clearState
    pure ret

/-! ## The calls -/

/-- The resources of the `Set` calls, in order. -/
def sets (calls : List (Call W)) : List (Resource W) :=
  calls.filterMap fun | .set r => some r | _ => none

/-- The resources of the `Unset` calls, in order. -/
def unsets (calls : List (Call W)) : List (Resource W) :=
  calls.filterMap fun | .unset r => some r | _ => none

theorem sets_append (a b : List (Call W)) : sets (a ++ b) = sets a ++ sets b :=
  List.filterMap_append

@[simp] theorem sets_test (r : Resource W) (cs : List (Call W)) : sets (.test r :: cs) = sets cs :=
  rfl

@[simp] theorem sets_set (r : Resource W) (cs : List (Call W)) :
    sets (.set r :: cs) = r :: sets cs := rfl

/-- Calls are only added. -/
def CallsGrow : Session W → Session W → Prop := fun s s' => s.calls <+: s'.calls

instance : IsPreorder (Session W) CallsGrow where
  refl _ := List.prefix_rfl
  trans _ _ _ := List.IsPrefix.trans

theorem moves_perform (call : Call W) (m : Eff (ConfigurationContext W) Exn α) :
    Eff.Moves CallsGrow (perform call m) := ⟨fun s => List.prefix_append s.calls [call]⟩

theorem moves_onContext (m : Eff (ConfigurationContext W) Exn α) :
    Eff.Moves CallsGrow (onContext m) := ⟨fun _ => List.prefix_rfl⟩

theorem moves_adjust (p : Installer W) (r : Resource W) (test : Bool) :
    Eff.Moves CallsGrow (adjust p r test) := by
  have hunset : Eff.Moves CallsGrow (perform (.unset r) r.unset >>= fun _ => pure false) :=
    Eff.moves_bind (moves_perform _ _) fun _ => Eff.moves_pure _
  constructor
  intro s
  unfold adjust
  split
  · exact List.prefix_rfl
  · split
    · exact List.prefix_rfl
    · split
      · split
        · split
          · exact hunset.run s
          · exact List.prefix_rfl
        · exact List.prefix_rfl
        · exact List.prefix_rfl
      · exact List.prefix_rfl

theorem moves_handle (p : Installer W) (r : Resource W) : Eff.Moves CallsGrow (handle p r) := by
  unfold handle
  refine Eff.moves_bind (moves_perform _ _) fun test => ?_
  refine Eff.moves_bind (moves_adjust p r test) fun test => ?_
  split
  · exact Eff.moves_pure _
  · split
    · exact Eff.moves_bind (moves_perform _ _) fun _ => Eff.moves_pure _
    · exact Eff.moves_bind (moves_perform _ _) fun _ => Eff.moves_pure _

theorem moves_requestRestart (p : Installer W) : Eff.Moves CallsGrow (requestRestart p) := by
  have hask : Eff.Moves CallsGrow (askForRestart p) := by
    unfold askForRestart
    refine Eff.moves_bind (moves_onContext _) fun consent => ?_
    split
    · refine Eff.moves_bind Eff.moves_get fun s => ?_
      split
      · exact Eff.moves_pure _
      · exact moves_onContext _
    · exact Eff.moves_pure _
  exact Eff.moves_bind hask fun _ => ⟨fun _ => List.prefix_rfl⟩

theorem moves_applyResources (p : Installer W) : ∀ (resources processed : List (Resource W)),
    Eff.Moves CallsGrow (applyResources p processed resources) := by
  intro resources
  induction resources with
  | nil => intro processed; exact Eff.moves_pure _
  | cons r resources ih =>
    intro processed
    refine Eff.moves_bind (Eff.moves_attempt (moves_handle p r)) fun handled => ?_
    split
    · exact Eff.moves_pure _
    · exact ih processed
    · refine Eff.moves_bind Eff.moves_get fun s => ?_
      split
      · refine Eff.moves_bind (Eff.moves_attempt (moves_requestRestart p)) fun restarted => ?_
        split <;> exact Eff.moves_pure _
      · exact ih (r :: processed)

/-! ## Following the loop -/

theorem applyResources_error {p : Installer W} {r : Resource W} {s s' : Session W} {e : Exn}
    (h : handle p r s = (.error e, s')) (processed resources : List (Resource W)) :
    applyResources p processed (r :: resources) s = (.ok (.threw processed), s') := by
  rw [applyResources, Eff.bind_ok (Eff.attempt_run _ s), h]
  rfl

theorem applyResources_false {p : Installer W} {r : Resource W} {s s' : Session W}
    (h : handle p r s = (.ok false, s')) (processed resources : List (Resource W)) :
    applyResources p processed (r :: resources) s = applyResources p processed resources s' := by
  rw [applyResources, Eff.bind_ok (Eff.attempt_run _ s), h]

theorem applyResources_true {p : Installer W} {r : Resource W} {s s' : Session W}
    (h : handle p r s = (.ok true, s')) (hr : r.requiresReboot s'.context.machine = false)
    (processed resources : List (Resource W)) :
    applyResources p processed (r :: resources) s
      = applyResources p (r :: processed) resources s' := by
  rw [applyResources, Eff.bind_ok (Eff.attempt_run _ s), h]
  dsimp only
  rw [Eff.bind_ok (Eff.get_run s'), if_neg (by simp [hr])]

/-- After a resource that requires a restart the loop does not go on. -/
theorem applyResources_reboot {p : Installer W} {r : Resource W} {s s' : Session W}
    (h : handle p r s = (.ok true, s')) (hr : r.requiresReboot s'.context.machine = true)
    (processed resources : List (Resource W)) :
    applyResources p processed (r :: resources) s = (.ok .pendingRestart, (requestRestart p s').2)
    ∨ applyResources p processed (r :: resources) s
        = (.ok (.threw (r :: processed)), (requestRestart p s').2) := by
  rw [applyResources, Eff.bind_ok (Eff.attempt_run _ s), h]
  dsimp only
  rw [Eff.bind_ok (Eff.get_run s'), if_pos hr, Eff.bind_ok (Eff.attempt_run _ s')]
  cases (requestRestart p s').1 with
  | error e => exact Or.inr rfl
  | ok u => exact Or.inl rfl

/-- The loop itself never throws. -/
theorem applyResources_ok (p : Installer W) : ∀ (resources processed : List (Resource W))
    (s : Session W), ∃ pass s', applyResources p processed resources s = (.ok pass, s') := by
  intro resources
  induction resources with
  | nil => intro processed s; exact ⟨_, _, rfl⟩
  | cons r resources ih =>
    intro processed s
    rcases hh : handle p r s with ⟨o, s₁⟩
    match o with
    | .error e => exact ⟨_, _, applyResources_error hh processed resources⟩
    | .ok false => rw [applyResources_false hh]; exact ih processed s₁
    | .ok true =>
      cases hr : r.requiresReboot s₁.context.machine with
      | true =>
        rcases applyResources_reboot hh hr processed resources with h | h <;> exact ⟨_, _, h⟩
      | false => rw [applyResources_true hh hr]; exact ih (r :: processed) s₁

/-- What the first resource calls is called first. -/
theorem handle_le_applyResources (p : Installer W) (r : Resource W)
    (processed resources : List (Resource W)) (s : Session W) :
    CallsGrow (handle p r s).2 (applyResources p processed (r :: resources) s).2 := by
  rcases hh : handle p r s with ⟨o, s₁⟩
  match o with
  | .error e => rw [applyResources_error hh]; exact refl_of CallsGrow s₁
  | .ok false =>
    rw [applyResources_false hh]
    exact (moves_applyResources p resources processed).run s₁
  | .ok true =>
    cases hr : r.requiresReboot s₁.context.machine with
    | true =>
      rcases applyResources_reboot hh hr processed resources with h | h <;> rw [h] <;>
        exact (moves_requestRestart p).run s₁
    | false =>
      rw [applyResources_true hh hr]
      exact (moves_applyResources p resources (r :: processed)).run s₁

/-- A loop that comes through a first part goes on with the rest. -/
theorem applyResources_append {p : Installer W} : ∀ {pre : List (Resource W)}
    {processed done : List (Resource W)} {s s' : Session W},
    applyResources p processed pre s = (.ok (.finished done), s') → ∀ rest,
    applyResources p processed (pre ++ rest) s = applyResources p done rest s' := by
  intro pre
  induction pre with
  | nil =>
    intro processed done s s' h rest
    obtain ⟨rfl, rfl⟩ : processed = done ∧ s = s' := by simpa [applyResources] using h
    rfl
  | cons r pre ih =>
    intro processed done s s' h rest
    rw [List.cons_append]
    rcases hh : handle p r s with ⟨o, s₁⟩
    match o with
    | .error e => rw [applyResources_error hh] at h; simp at h
    | .ok false =>
      rw [applyResources_false hh] at h ⊢
      exact ih h rest
    | .ok true =>
      cases hr : r.requiresReboot s₁.context.machine with
      | true =>
        rcases applyResources_reboot hh hr processed pre with h' | h' <;> rw [h'] at h <;> simp at h
      | false =>
        rw [applyResources_true hh hr] at h ⊢
        exact ih h rest

/-- The pass over the completed resources answers, whatever it meets. -/
theorem undo_run (p : Installer W) (processed : List (Resource W)) (s : Session W) :
    ∃ ret, undo p processed s = (.ok ret, (applyResources p [] processed s).2) := by
  obtain ⟨pass, s', h⟩ := applyResources_ok p processed [] s
  rw [undo, applyLocal, Eff.bind_ok h, h]
  cases pass with
  | finished done => exact ⟨_, rfl⟩
  | pendingRestart => exact ⟨_, rfl⟩
  | threw done => exact ⟨_, rfl⟩

/-- An installation whose loop throws goes over the completed resources and
answers `RolledBack`. -/
theorem applyLocal_threw {p : Installer W} {graph done : List (Resource W)} {s s' : Session W}
    (h : applyResources p [] graph s = (.ok (.threw done), s')) :
    applyLocal p (undo p) false graph s = (.ok .rolledBack, (applyResources p [] done s').2) := by
  obtain ⟨ret, hundo⟩ := undo_run p done s'
  rw [applyLocal, Eff.bind_ok h]
  dsimp only
  rw [if_neg (by simp), Eff.bind_ok hundo, Eff.pure_run]

/-- Around the graph, `apply` calls no resource. -/
theorem apply_calls {p : Installer W} {resources graph : List (Resource W)}
    {c c₁ : ConfigurationContext W} {s' : Session W} {ret : ConfigurationResult}
    (hgraph : buildDependencyGraph p resources c = (.ok graph, c₁))
    (hrun : applyLocal p (undo p) p.uninstall graph ⟨c₁, []⟩ = (.ok ret, s')) :
    (apply p resources ⟨c, []⟩).2.calls = s'.calls := by
  have hg : onContext (buildDependencyGraph p resources) ⟨c, []⟩ = (.ok graph, ⟨c₁, []⟩) := by
    rw [onContext, hgraph]
  rw [apply, Eff.bind_ok hg, Eff.bind_ok hrun, Eff.bind_ok (Eff.get_run s')]
  split <;> rfl

end ContainerDesktop.DesiredStateConfiguration
