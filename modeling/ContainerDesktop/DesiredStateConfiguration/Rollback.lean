import ContainerDesktop.DesiredStateConfiguration.Manifest

/-!
# What a failed installation undoes

When `Set` of a resource throws, the installation should leave nothing behind:
`undoPlan` is what there is to unset, starting from the resource completed last.

The pass over the completed resources does not read the mode it is called with.
It sets what no longer tests true, and skips what does, so it unsets nothing on
its own (`calls_undo`).  `apply_undoes_iff` says when that is right all the
same: there is nothing to unset, and every resource the pass comes to is one it
leaves alone.
-/

namespace ContainerDesktop.DesiredStateConfiguration

variable {W : Type}

/-- The resources to unset after a failure, last completed first: those whose
`Test` still reports true, and the `RunAllways` ones. -/
def undoPlan : List (Resource W) → ConfigurationContext W → List (Resource W)
  | [], _ => []
  | r :: done, c =>
      match r.test c with
      | (.ok true, c') => r :: undoPlan done (r.unset c').2
      | (_, c') => if r.runAllways then r :: undoPlan done (r.unset c').2 else undoPlan done c'

/-- The resources whose `Set` had completed when the last `Set` threw, last
completed first. -/
def completed (s : Session W) : List (Resource W) := (sets s.calls).dropLast.reverse

/-- The installation that failed in `s` and ended in `s'` was undone: no `Set` was
called any more, and `Unset` exactly for the plan, in its order. -/
def Undone (s s' : Session W) : Prop :=
  ∃ rest, s'.calls = s.calls ++ rest ∧ (∀ r, .set r ∉ rest) ∧
    unsets rest = undoPlan (completed s) s.context

/-- The run of `apply` from `c` fails in session `s`: the loop came through a first
part of the graph, and then `Set` of the next resource threw. -/
def FailsAt (p : Installer W) (resources : List (Resource W)) (c : ConfigurationContext W)
    (s : Session W) : Prop :=
  ∃ pre r post c₁ done s₁ e,
    buildDependencyGraph p resources c = (.ok (pre ++ r :: post), c₁) ∧
    applyResources p [] pre ⟨c₁, []⟩ = (.ok (.finished done), s₁) ∧
    handle p r s₁ = (.error e, s) ∧ s.calls.getLast? = some (.set r)

/-- `Unset` of `r` does not throw. -/
def UnsetReturns (r : Resource W) : Prop := ∀ c, (r.unset c).1 = .ok ()

/-- Of the completed resources, each one whose `Test` returns is, from then on,
left alone: it is a `Skip` resource of an update.  A `Test` that throws ends the
pass. -/
def LeftAlone (p : Installer W) : List (Resource W) → ConfigurationContext W → Prop
  | [], _ => True
  | r :: done, c =>
      match r.test c with
      | (.ok _, c') =>
          r.runAllways = false ∧ c'.updating p = true ∧ r.onUpdateAction = .skip ∧
            LeftAlone p done c'
      | (.error _, _) => True

theorem undoPlan_true {r : Resource W} {c c' : ConfigurationContext W}
    (h : r.test c = (.ok true, c')) (done : List (Resource W)) :
    undoPlan (r :: done) c = r :: undoPlan done (r.unset c').2 := by
  rw [undoPlan, h]

theorem undoPlan_false {r : Resource W} {c c' : ConfigurationContext W}
    (h : r.test c = (.ok false, c')) (ha : r.runAllways = false) (done : List (Resource W)) :
    undoPlan (r :: done) c = undoPlan done c' := by
  rw [undoPlan, h]
  simp [ha]

theorem leftAlone_ok {p : Installer W} {r : Resource W} {c c' : ConfigurationContext W} {b : Bool}
    (h : r.test c = (.ok b, c')) (done : List (Resource W)) :
    LeftAlone p (r :: done) c ↔ r.runAllways = false ∧ c'.updating p = true ∧
      r.onUpdateAction = .skip ∧ LeftAlone p done c' := by
  rw [LeftAlone, h]

theorem leftAlone_error {p : Installer W} {r : Resource W} {c c' : ConfigurationContext W} {e : Exn}
    (h : r.test c = (.error e, c')) (done : List (Resource W)) : LeftAlone p (r :: done) c := by
  rw [LeftAlone, h]
  trivial

/-! ## One resource -/

section Handle

variable {p : Installer W} {r : Resource W} {s s₂ : Session W} {c' : ConfigurationContext W}

theorem handle_error {e : Exn} (h : r.test s.context = (.error e, c')) :
    handle p r s = (.error e, ⟨c', s.calls ++ [.test r]⟩) := by
  have hp : perform (.test r) r.test s = (.error e, ⟨c', s.calls ++ [.test r]⟩) := by
    rw [perform, h]
  rw [handle, Eff.bind_error hp]

theorem perform_test {b : Bool} (h : r.test s.context = (.ok b, c')) :
    perform (.test r) r.test s = (.ok b, ⟨c', s.calls ++ [.test r]⟩) := by
  rw [perform, h]

theorem handle_adjust_error {b : Bool} {e : Exn} (h : r.test s.context = (.ok b, c'))
    (ha : adjust p r b ⟨c', s.calls ++ [.test r]⟩ = (.error e, s₂)) :
    handle p r s = (.error e, s₂) := by
  rw [handle, Eff.bind_ok (perform_test h), Eff.bind_error ha]

/-- A resource that is in its desired state is passed over. -/
theorem handle_true {b : Bool} (h : r.test s.context = (.ok b, c'))
    (ha : adjust p r b ⟨c', s.calls ++ [.test r]⟩ = (.ok true, s₂)) :
    handle p r s = (.ok false, s₂) := by
  rw [handle, Eff.bind_ok (perform_test h), Eff.bind_ok ha, if_pos rfl, Eff.pure_run]

/-- A resource that is not is set, unless the whole run uninstalls. -/
theorem handle_false {b : Bool} (hp : p.uninstall = false) (h : r.test s.context = (.ok b, c'))
    (ha : adjust p r b ⟨c', s.calls ++ [.test r]⟩ = (.ok false, s₂)) :
    handle p r s = (perform (.set r) r.set >>= fun _ => pure true) s₂ := by
  rw [handle, Eff.bind_ok (perform_test h), Eff.bind_ok ha, if_neg (by simp), hp,
    if_neg (by simp)]

theorem handle_set_ok {u : Unit} (hset : r.set s.context = (.ok u, c')) :
    (perform (.set r) r.set >>= fun _ => pure true) s = (.ok true, ⟨c', s.calls ++ [.set r]⟩) := by
  have hs : perform (.set r) r.set s = (.ok u, ⟨c', s.calls ++ [.set r]⟩) := by rw [perform, hset]
  rw [Eff.bind_ok hs, Eff.pure_run]

theorem handle_set_error {e : Exn} (hset : r.set s.context = (.error e, c')) :
    (perform (.set r) r.set >>= fun _ => pure true) s = (.error e, ⟨c', s.calls ++ [.set r]⟩) := by
  have hs : perform (.set r) r.set s = (.error e, ⟨c', s.calls ++ [.set r]⟩) := by
    rw [perform, hset]
  rw [Eff.bind_error hs]

theorem calls_set (r : Resource W) (s : Session W) :
    ((perform (.set r) r.set >>= fun _ => pure true : Eff (Session W) Exn Bool) s).2.calls
      = s.calls ++ [.set r] := by
  rcases hset : r.set s.context with ⟨_ | u, c'⟩
  · rw [handle_set_error hset]
  · rw [handle_set_ok hset]

end Handle

/-- Whether an installation that tested `r`, with the answer `b`, passes it over. -/
def leaves (p : Installer W) (r : Resource W) (b : Bool) (c : ConfigurationContext W) : Bool :=
  !r.runAllways &&
    (if c.updating p then
      match r.onUpdateAction with
      | .install => false
      | .skip => true
      | .none => b
    else b)

/-- Before it acts on a resource, an installation unsets it when an update
reinstalls it, and does nothing otherwise. -/
theorem adjust_eq {p : Installer W} (hp : p.uninstall = false) (r : Resource W) (b : Bool)
    (s : Session W) :
    adjust p r b s = (.ok (leaves p r b s.context), s) ∨
      (b = true ∧ leaves p r b s.context = false ∧
        adjust p r b s = (perform (.unset r) r.unset >>= fun _ => pure false) s) := by
  unfold adjust leaves
  cases r.runAllways with
  | true => exact Or.inl rfl
  | false =>
    rw [hp]
    cases s.context.updating p with
    | false => exact Or.inl rfl
    | true =>
      cases r.onUpdateAction with
      | none => exact Or.inl rfl
      | skip => exact Or.inl rfl
      | install =>
        cases b with
        | false => exact Or.inl rfl
        | true => exact Or.inr ⟨rfl, rfl, rfl⟩

/-- An installation passes over a resource and calls only its `Test`. -/
theorem handle_leaves {p : Installer W} (hp : p.uninstall = false) {r : Resource W} {s : Session W}
    {b : Bool} {c' : ConfigurationContext W} (h : r.test s.context = (.ok b, c'))
    (hl : leaves p r b c' = true) :
    handle p r s = (.ok false, ⟨c', s.calls ++ [.test r]⟩) := by
  rcases adjust_eq hp r b ⟨c', s.calls ++ [.test r]⟩ with ha | ⟨-, hf, -⟩
  · rw [hl] at ha; exact handle_true h ha
  · rw [hl] at hf; exact absurd hf (by decide)

/-- Otherwise it sets the resource, unless an `Unset` before that throws. -/
theorem handle_sets {p : Installer W} (hp : p.uninstall = false) {r : Resource W} {s : Session W}
    {b : Bool} {c' : ConfigurationContext W} (h : r.test s.context = (.ok b, c'))
    (hl : leaves p r b c' = false) :
    (∃ c'' mid, sets mid = [] ∧ handle p r s
        = (perform (.set r) r.set >>= fun _ => pure true) ⟨c'', s.calls ++ mid⟩)
    ∨ ∃ e c'', (r.unset c').1 = .error e ∧
        handle p r s = (.error e, ⟨c'', s.calls ++ [.test r, .unset r]⟩) := by
  rcases adjust_eq hp r b ⟨c', s.calls ++ [.test r]⟩ with ha | ⟨-, -, ha⟩
  · rw [hl] at ha
    exact Or.inl ⟨c', [.test r], rfl, handle_false hp h ha⟩
  · rcases hu : r.unset c' with ⟨o, c''⟩
    have hperf : perform (.unset r) r.unset ⟨c', s.calls ++ [.test r]⟩
        = (o, ⟨c'', s.calls ++ [.test r, .unset r]⟩) := by
      rw [perform, hu, List.append_assoc]; rfl
    cases o with
    | error e =>
      rw [Eff.bind_error hperf] at ha
      exact Or.inr ⟨e, c'', rfl, handle_adjust_error h ha⟩
    | ok u =>
      rw [Eff.bind_ok hperf, Eff.pure_run] at ha
      exact Or.inl ⟨c'', [.test r, .unset r], rfl, handle_false hp h ha⟩

/-! ## What had completed -/

/-- Handling one resource of an installation, as far as `Set` goes. -/
theorem sets_handle {p : Installer W} (hp : p.uninstall = false) {r : Resource W}
    {s s' : Session W} {o : Except Exn Bool} (h : handle p r s = (o, s')) :
    (o = .ok true ∧ sets s'.calls = sets s.calls ++ [r])
    ∨ (o = .ok false ∧ sets s'.calls = sets s.calls)
    ∨ ∃ e, o = .error e ∧
      (s'.calls.getLast? = some (.set r) → sets s'.calls = sets s.calls ++ [r]) := by
  rcases ht : r.test s.context with ⟨_ | b, c'⟩
  · rw [handle_error ht] at h
    obtain ⟨rfl, rfl⟩ := Prod.mk.inj h
    exact Or.inr (Or.inr ⟨_, rfl, fun hlast => by simp at hlast⟩)
  · cases hl : leaves p r b c' with
    | true =>
      rw [handle_leaves hp ht hl] at h
      obtain ⟨rfl, rfl⟩ := Prod.mk.inj h
      exact Or.inr (Or.inl ⟨rfl, by rw [sets_append]; simp [sets]⟩)
    | false =>
      rcases handle_sets hp ht hl with ⟨c'', mid, hmid, hh⟩ | ⟨e, c'', -, hh⟩
      · rw [hh] at h
        have hsets : sets ((s.calls ++ mid) ++ [.set r]) = sets s.calls ++ [r] := by
          rw [sets_append, sets_append, hmid, List.append_nil]; rfl
        rcases hset : r.set c'' with ⟨_ | u, c₃⟩
        · rw [handle_set_error hset] at h
          obtain ⟨rfl, rfl⟩ := Prod.mk.inj h
          exact Or.inr (Or.inr ⟨_, rfl, fun _ => hsets⟩)
        · rw [handle_set_ok hset] at h
          obtain ⟨rfl, rfl⟩ := Prod.mk.inj h
          exact Or.inl ⟨rfl, hsets⟩
      · rw [hh] at h
        obtain ⟨rfl, rfl⟩ := Prod.mk.inj h
        exact Or.inr (Or.inr ⟨_, rfl, fun hlast => by simp at hlast⟩)

/-- The stack of an installation is what it has set. -/
theorem sets_applyResources {p : Installer W} (hp : p.uninstall = false) :
    ∀ {pre : List (Resource W)} {processed done : List (Resource W)} {s s' : Session W},
      applyResources p processed pre s = (.ok (.finished done), s') →
      processed.reverse = sets s.calls → done.reverse = sets s'.calls := by
  intro pre
  induction pre with
  | nil =>
    intro processed done s s' h hinv
    obtain ⟨rfl, rfl⟩ : processed = done ∧ s = s' := by simpa [applyResources] using h
    exact hinv
  | cons r pre ih =>
    intro processed done s s' h hinv
    rcases hh : handle p r s with ⟨o, s₁⟩
    rcases sets_handle hp hh with ⟨rfl, hs⟩ | ⟨rfl, hs⟩ | ⟨e, rfl, -⟩
    · cases hr : r.requiresReboot s₁.context.machine with
      | true =>
        rcases applyResources_reboot hh hr processed pre with h' | h' <;> rw [h'] at h <;> simp at h
      | false =>
        rw [applyResources_true hh hr] at h
        exact ih h (by rw [List.reverse_cons, hinv, hs])
    · rw [applyResources_false hh] at h
      exact ih h (by rw [hinv, hs])
    · rw [applyResources_error hh] at h
      simp at h

/-! ## The pass over the completed resources -/

theorem not_mem_set_iff {calls : List (Call W)} : (∀ r, .set r ∉ calls) ↔ sets calls = [] := by
  rw [sets, List.filterMap_eq_nil_iff]
  constructor
  · intro h c hc
    cases c with
    | set r => exact absurd hc (h r)
    | test r => rfl
    | unset r => rfl
  · intro h r hr
    exact absurd (h _ hr) (by simp)

theorem runAllways_of_leaves {p : Installer W} {r : Resource W} {b : Bool}
    {c : ConfigurationContext W} (h : leaves p r b c = true) : r.runAllways = false := by
  cases hra : r.runAllways with
  | false => rfl
  | true =>
    rw [leaves, hra] at h
    simp at h

/-- What is not desired is passed over only in an update that skips it. -/
theorem skip_of_leaves {p : Installer W} {r : Resource W} {c : ConfigurationContext W}
    (h : leaves p r false c = true) : c.updating p = true ∧ r.onUpdateAction = .skip := by
  rw [leaves, runAllways_of_leaves h] at h
  revert h
  cases c.updating p <;> cases r.onUpdateAction <;> simp

/-- A pass that begins with setting a resource. -/
theorem applyResources_sets {p : Installer W} {r : Resource W} {s : Session W}
    {c : ConfigurationContext W} {mid : List (Call W)}
    (hh : handle p r s = (perform (.set r) r.set >>= fun _ => pure true) ⟨c, s.calls ++ mid⟩)
    (processed done : List (Resource W)) :
    ∃ rest, (applyResources p processed (r :: done) s).2.calls = s.calls ++ rest ∧
      sets rest ≠ [] := by
  obtain ⟨tail, htail⟩ := handle_le_applyResources p r processed done s
  rw [hh, calls_set] at htail
  refine ⟨mid ++ .set r :: tail, by rw [← htail]; simp, ?_⟩
  rw [sets_append, sets_set]
  simp

/-- **A pass that sets nothing unsets nothing**, and with nothing to unset it sets
nothing exactly when it leaves every resource alone. -/
theorem calls_undo {p : Installer W} (hp : p.uninstall = false) :
    ∀ (done processed : List (Resource W)) (s : Session W), (∀ r ∈ done, UnsetReturns r) →
      ∃ rest, (applyResources p processed done s).2.calls = s.calls ++ rest ∧
        (sets rest = [] → unsets rest = []) ∧
        (undoPlan done s.context = [] → (sets rest = [] ↔ LeftAlone p done s.context)) := by
  intro done
  induction done with
  | nil =>
    intro processed s _
    exact ⟨[], by simp [applyResources], fun _ => rfl, fun _ => ⟨fun _ => trivial, fun _ => rfl⟩⟩
  | cons r done ih =>
    intro processed s hun
    obtain ⟨hr, hun⟩ := List.forall_mem_cons.mp hun
    rcases ht : r.test s.context with ⟨e | b, c'⟩
    · -- `Test` throws, and the pass ends
      rw [applyResources_error (handle_error ht)]
      exact ⟨[.test r], rfl, fun _ => rfl, fun _ =>
        ⟨fun _ => leftAlone_error ht done, fun _ => rfl⟩⟩
    · cases hl : leaves p r b c' with
      | true =>
        -- the resource is passed over
        have hra := runAllways_of_leaves hl
        rw [applyResources_false (handle_leaves hp ht hl)]
        obtain ⟨rest, hcalls, hA, hB⟩ := ih processed ⟨c', s.calls ++ [.test r]⟩ hun
        refine ⟨.test r :: rest, by rw [hcalls, List.append_assoc]; rfl, hA, fun hplan => ?_⟩
        cases b with
        | true =>
          rw [undoPlan_true ht] at hplan
          exact absurd hplan (List.cons_ne_nil _ _)
        | false =>
          rw [undoPlan_false ht hra] at hplan
          rw [sets_test, hB hplan, leftAlone_ok ht]
          obtain ⟨hup, hskip⟩ := skip_of_leaves hl
          exact ⟨fun h => ⟨hra, hup, hskip, h⟩, fun h => h.2.2.2⟩
      | false =>
        -- the resource is set
        rcases handle_sets hp ht hl with ⟨c'', mid, hmid, hh⟩ | ⟨e, c'', hthrow, -⟩
        · obtain ⟨rest, hcalls, hne⟩ := applyResources_sets hh processed done
          refine ⟨rest, hcalls, fun h => absurd h hne, fun hplan => ⟨fun h => absurd h hne, ?_⟩⟩
          intro hleft
          obtain ⟨hra, hup, hskip, -⟩ := (leftAlone_ok ht done).mp hleft
          rw [leaves, hra, hup, hskip] at hl
          simp at hl
        · rw [hr c'] at hthrow
          exact absurd hthrow (by simp)

/-! ## The whole run -/

/-- A run that fails goes on with the pass over what had completed, and calls
nothing after it. -/
theorem apply_failsAt {p : Installer W} (hp : p.uninstall = false) {resources : List (Resource W)}
    {c : ConfigurationContext W} {s : Session W} (h : FailsAt p resources c s) :
    (apply p resources ⟨c, []⟩).2.calls = (applyResources p [] (completed s) s).2.calls := by
  obtain ⟨pre, r, post, c₁, done, s₁, e, hgraph, hpre, hset, hlast⟩ := h
  have hdone : completed s = done := by
    have hinv : done.reverse = sets s₁.calls := sets_applyResources hp hpre rfl
    rcases sets_handle hp hset with ⟨h, -⟩ | ⟨h, -⟩ | ⟨e', -, h⟩
    · exact absurd h (by simp)
    · exact absurd h (by simp)
    · rw [completed, h hlast, List.dropLast_concat, ← hinv, List.reverse_reverse]
  have hloop : applyResources p [] (pre ++ r :: post) ⟨c₁, []⟩ = (.ok (.threw done), s) := by
    rw [applyResources_append hpre, applyResources_error hset]
  have hrun := applyLocal_threw hloop
  rw [← hp] at hrun
  rw [apply_calls hgraph hrun, hdone]

/-- **A failed installation is undone exactly when there is nothing to undo, and
every completed resource that the pass comes to is one it leaves alone.** -/
theorem apply_undoes_iff {p : Installer W} (hp : p.uninstall = false)
    {resources : List (Resource W)} {c : ConfigurationContext W} {s : Session W}
    (h : FailsAt p resources c s) (hunset : ∀ r ∈ completed s, UnsetReturns r) :
    Undone s (apply p resources ⟨c, []⟩).2 ↔
      undoPlan (completed s) s.context = [] ∧ LeftAlone p (completed s) s.context := by
  obtain ⟨rest, hcalls, hA, hB⟩ := calls_undo hp (completed s) [] s hunset
  rw [← apply_failsAt hp h] at hcalls
  constructor
  · rintro ⟨rest', hcalls', hset, hplan⟩
    obtain rfl : rest = rest' := List.append_cancel_left (hcalls.symm.trans hcalls')
    have hnone := not_mem_set_iff.mp hset
    rw [hA hnone] at hplan
    exact ⟨hplan.symm, (hB hplan.symm).mp hnone⟩
  · rintro ⟨hplan, hleft⟩
    have hnone := (hB hplan).mpr hleft
    exact ⟨rest, hcalls, not_mem_set_iff.mpr hnone, by rw [hA hnone, hplan]⟩

/-! ### Two resources on one machine -/

/-- A switch of the machine, which `Set` turns on and `Unset` off. -/
def switch : Resource Bool where
  id := "switch"
  test := Eff.get >>= fun c => pure c.machine
  set := Eff.modify fun c => { c with machine := true }
  unset := Eff.modify fun c => { c with machine := false }

/-- A resource that cannot be set. -/
def broken : Resource Bool where
  id := "broken"
  test := pure false
  set := Eff.throw (.other "broken")
  unset := pure ()

def switchInstaller : Installer Bool where
  uninstall := false
  version := "1.0.0"
  toUpperInvariant := Char.toUpper
  userConsent := pure true
  requestReboot := pure true

def switchedOff : ConfigurationContext Bool where
  installedVersion := none
  state := none
  stateFile := none
  restartPending := false
  delayReboot := false
  machine := false

/-- The session in which `Set` of `broken` has thrown, after `calls`. -/
def brokenSession (machine : Bool) (calls : List (Call Bool)) : Session Bool where
  context := { switchedOff with
    state := some (.strings []), stateFile := some [], machine := machine }
  calls := calls ++ [.test broken, .set broken]

theorem buildDependencyGraph_switch :
    buildDependencyGraph switchInstaller [switch, broken] switchedOff
      = (.ok [switch, broken],
        { switchedOff with state := some (.strings []), stateFile := some [] }) :=
  buildDependencyGraph_onePass rfl rfl rfl rfl

theorem failsAt_broken : FailsAt switchInstaller [switch, broken] switchedOff
    (brokenSession true [.test switch, .set switch]) :=
  ⟨[switch], broken, [], _, [switch], _, _, buildDependencyGraph_switch, rfl, rfl, rfl⟩

/-- A resource that never tests true, and that an update leaves alone. -/
def once : Resource Bool where
  id := "once"
  onUpdateAction := .skip
  test := pure false
  set := pure ()
  unset := pure ()

/-- Finds the older version that is installed. -/
def findsVersion : Resource Bool where
  id := "version"
  test := Eff.modify (fun c => { c with installedVersion := some "0.9.0" }) >>= fun _ => pure true
  set := pure ()
  unset := pure ()

/-- `broken` has thrown, in an update by now, and `once` had been set. -/
def brokenUpdate : Session Bool where
  context := { switchedOff with
    installedVersion := some "0.9.0", state := some (.strings []), stateFile := some [] }
  calls := [.test once, .set once, .test findsVersion, .test broken, .set broken]

/-- `once` is not there any more, and the pass leaves it alone. -/
theorem apply_leaves_once : Undone brokenUpdate
    (apply switchInstaller [once, findsVersion, broken] ⟨switchedOff, []⟩).2 := by
  have hgraph : buildDependencyGraph switchInstaller [once, findsVersion, broken] switchedOff
      = (.ok [once, findsVersion, broken],
        { switchedOff with state := some (.strings []), stateFile := some [] }) :=
    buildDependencyGraph_onePass rfl rfl rfl rfl
  have hfails : FailsAt switchInstaller [once, findsVersion, broken] switchedOff brokenUpdate :=
    ⟨[once, findsVersion], broken, [], _, [once], _, _, hgraph, rfl, rfl, rfl⟩
  refine (apply_undoes_iff rfl hfails fun r hr => ?_).mpr ⟨rfl, rfl, rfl, rfl, trivial⟩
  obtain rfl : r = once := List.mem_singleton.mp hr
  exact fun c => rfl

/-- `switch` had been set and still tests true, and the run ends with it on. -/
theorem apply_leaves_switch_on :
    FailsAt switchInstaller [switch, broken] switchedOff
        (brokenSession true [.test switch, .set switch]) ∧
      (∀ r ∈ completed (brokenSession true [.test switch, .set switch]), UnsetReturns r) ∧
      ¬ Undone (brokenSession true [.test switch, .set switch])
        (apply switchInstaller [switch, broken] ⟨switchedOff, []⟩).2 := by
  have hrun : (apply switchInstaller [switch, broken] ⟨switchedOff, []⟩).2.calls
      = (brokenSession true [.test switch, .set switch]).calls ++ [.test switch] := by
    have hg : onContext (buildDependencyGraph switchInstaller [switch, broken]) ⟨switchedOff, []⟩
        = (.ok [switch, broken], ⟨{ switchedOff with
            state := some (.strings []), stateFile := some [] }, []⟩) := by
      rw [onContext, buildDependencyGraph_switch]
    rw [apply, Eff.bind_ok hg]
    rfl
  refine ⟨failsAt_broken, ?_, ?_⟩
  · intro r hr
    obtain rfl : r = switch := List.mem_singleton.mp hr
    exact fun c => rfl
  · rintro ⟨rest, hcalls, -, hplan⟩
    obtain rfl : [Call.test switch] = rest := List.append_cancel_left (hrun.symm.trans hcalls)
    have hone : ([] : List (Resource Bool)).length = [switch].length := congrArg List.length hplan
    exact absurd hone (by decide)

end ContainerDesktop.DesiredStateConfiguration
