import ContainerDesktop.DesiredStateConfiguration.Outcome
import ContainerDesktop.DesiredStateConfiguration.Restarts
import Mathlib.Data.List.Pairwise

/-!
# Uninstalling

The foreach of `Apply` serves both directions.  With `Uninstall` set it takes the opposite of
`Test`, and calls `Unset` where it would call `Set`: it installs the *dual* resources, whose desired
state is not to be there. `applyResources_dual` says so for all resources that do not make an update
of the run.

What is known about installations is thereby known about uninstallations.  `uninstall_undoes` puts
the two together: for resources whose `Unset` makes their own `Test` false, and no other, an
uninstallation after an installation leaves what is never uninstalled and nothing else, however
often either of them is interrupted by a restart.
-/

namespace ContainerDesktop.DesiredStateConfiguration

variable {W : Type}

/-! ## Dual resources -/

/-- The installer when it is started to uninstall. -/
def Installer.uninstaller (p : Installer W) : Installer W := { p with uninstall := true }

/-- The resource whose desired state is that `r` is not there. -/
def Resource.dual (r : Resource W) : Resource W :=
  { r with
    test := r.test >>= fun b => pure !b
    set := r.unset
    unset := r.set }

def Call.dual : Call W → Call W
  | test r => .test r.dual
  | set r => .unset r.dual
  | unset r => .set r.dual

def Session.dual (s : Session W) : Session W := ⟨s.context, s.calls.map Call.dual⟩

def Pass.dual : Pass W → Pass W
  | finished processed => .finished (processed.map Resource.dual)
  | pendingRestart => .pendingRestart
  | threw processed => .threw (processed.map Resource.dual)

section Duality

variable {p : Installer W} {r : Resource W} {s : Session W} {α : Type}

@[simp] theorem dual_context (s : Session W) : s.dual.context = s.context := rfl

@[simp] theorem dual_requiresReboot (r : Resource W) : r.dual.requiresReboot = r.requiresReboot :=
  rfl

@[simp] theorem dual_enabled (r : Resource W) : r.dual.enabled = r.enabled := rfl

@[simp] theorem dual_id (r : Resource W) : r.dual.id = r.id := rfl

theorem dual_append (c : ConfigurationContext W) (calls : List (Call W)) (call : Call W) :
    Session.dual ⟨c, calls ++ [call]⟩ = ⟨c, calls.map Call.dual ++ [call.dual]⟩ := by
  simp [Session.dual]

/-- The `Set` calls of the dual are the `Unset` calls. -/
theorem sets_dual (calls : List (Call W)) :
    sets (calls.map Call.dual) = (unsets calls).map Resource.dual := by
  induction calls with
  | nil => rfl
  | cons call calls ih =>
    cases call with
    | test r => exact ih
    | set r => exact ih
    | unset r => exact congrArg (r.dual :: ·) ih

theorem test_dual_ok {c c' : ConfigurationContext W} {b : Bool} (h : r.test c = (.ok b, c')) :
    r.dual.test c = (.ok !b, c') := Eff.bind_ok h

theorem test_dual_error {c c' : ConfigurationContext W} {e : Exn} (h : r.test c = (.error e, c')) :
    r.dual.test c = (.error e, c') := Eff.bind_error h

/-- A resource is the dual of its dual. -/
theorem dual_dual (r : Resource W) : r.dual.dual = r := by
  have htest : (r.test >>= fun b => pure !b) >>= (fun b => pure !b) = r.test := by
    funext c
    rcases ht : r.test c with ⟨e | b, c'⟩
    · exact Eff.bind_error (Eff.bind_error ht)
    · rw [Eff.bind_ok (Eff.bind_ok (k := fun b => pure !b) ht), Bool.not_not]
      rfl
  cases r
  simp only [Resource.dual] at htest ⊢
  rw [htest]

theorem dual_injective : Function.Injective (Resource.dual (W := W)) :=
  Function.LeftInverse.injective dual_dual

theorem adjust_dual (hp : p.uninstall = false) (b : Bool) (s s' : Session W)
    (hs : s'.context.updating p = false) :
    adjust p.uninstaller r b s = (.ok (!r.runAllways && !b), s) ∧
      adjust p r.dual (!b) s' = (.ok (!r.runAllways && !b), s') := by
  have hrun : r.dual.runAllways = r.runAllways := rfl
  have huninstall : p.uninstaller.uninstall = true := rfl
  unfold adjust
  rw [hrun, hp, huninstall, hs]
  cases r.runAllways with
  | true => exact ⟨rfl, rfl⟩
  | false => exact ⟨rfl, rfl⟩

/-- The operations that an uninstallation calls do not find out that the run is an update. -/
structure Steady (p : Installer W) (r : Resource W) : Prop where
  test : Eff.Keeps (ConfigurationContext.updating p) r.test
  unset : Eff.Keeps (ConfigurationContext.updating p) r.unset

/-- Uninstalling a resource is installing its dual. -/
theorem handle_dual (hp : p.uninstall = false) (hr : Steady p r) (s : Session W)
    (hs : s.context.updating p = false) :
    handle p r.dual s.dual = ((handle p.uninstaller r s).1, (handle p.uninstaller r s).2.dual) ∧
      (handle p.uninstaller r s).2.context.updating p = false := by
  obtain ⟨c, calls⟩ := s
  rcases ht : r.test c with ⟨e | b, c₁⟩
  · have hs₁ : c₁.updating p = false := (Eff.keeps_run hr.test ht).trans hs
    rw [handle_error (s := ⟨c, calls⟩) ht, handle_error (s := Session.dual ⟨c, calls⟩)
      (test_dual_error ht), dual_append]
    exact ⟨rfl, hs₁⟩
  · have hs₁ : c₁.updating p = false := (Eff.keeps_run hr.test ht).trans hs
    obtain ⟨hadjust, hadjust'⟩ := adjust_dual (r := r) hp b ⟨c₁, calls ++ [.test r]⟩
      (Session.dual ⟨c₁, calls ++ [.test r]⟩) hs₁
    rw [dual_append] at hadjust'
    cases hx : (!r.runAllways && !b) with
    | true =>
      rw [hx] at hadjust hadjust'
      rw [handle_true (s := ⟨c, calls⟩) ht hadjust,
        handle_true (s := Session.dual ⟨c, calls⟩) (test_dual_ok ht) hadjust', dual_append]
      exact ⟨rfl, hs₁⟩
    | false =>
      rw [hx] at hadjust hadjust'
      rw [handle_change (s := ⟨c, calls⟩) ht hadjust,
        handle_change (s := Session.dual ⟨c, calls⟩) (test_dual_ok ht) hadjust']
      have hcall : changeCall p.uninstaller r = .unset r := rfl
      have hcall' : changeCall p r.dual = Call.dual (.unset r) := by rw [changeCall, hp]; rfl
      have hchange : change p.uninstaller r = r.unset := rfl
      have hchange' : change p r.dual = r.unset := by rw [change, hp]; rfl
      rw [hcall, hcall', hchange, hchange']
      rcases hu : r.unset c₁ with ⟨e | u, c₂⟩
      · rw [Eff.bind_error (perform_run hu _ _), Eff.bind_error (perform_run hu _ _)]
        exact ⟨by simp [Session.dual], (Eff.keeps_run hr.unset hu).trans hs₁⟩
      · rw [Eff.bind_ok (perform_run hu _ _), Eff.bind_ok (perform_run hu _ _)]
        exact ⟨by simp [Session.dual], (Eff.keeps_run hr.unset hu).trans hs₁⟩

/-- The questions before a restart are the same. -/
theorem requestRestart_dual (p : Installer W) (s : Session W) :
    requestRestart p s.dual
      = ((requestRestart p.uninstaller s).1, (requestRestart p.uninstaller s).2.dual) := by
  obtain ⟨c, calls⟩ := s
  obtain ⟨o, c', -, -, hrun⟩ := requestRestart_calls p c
  have hrun' : requestRestart p.uninstaller ⟨c, calls⟩ = (o, ⟨c', calls⟩) := hrun calls
  rw [hrun', Session.dual, hrun]
  rfl

/-- **An uninstallation is the installation of the dual resources.** -/
theorem applyResources_dual (hp : p.uninstall = false) (rs : List (Resource W))
    (hrs : ∀ r ∈ rs, Steady p r) (processed : List (Resource W)) (s : Session W)
    (hs : s.context.updating p = false) :
    ∃ pass s', applyResources p.uninstaller processed rs s = (.ok pass, s') ∧
      applyResources p (processed.map Resource.dual) (rs.map Resource.dual) s.dual
        = (.ok pass.dual, s'.dual) := by
  induction rs generalizing processed s with
  | nil => exact ⟨.finished processed, s, rfl, rfl⟩
  | cons r rs ih =>
    obtain ⟨hr, hrs⟩ := List.forall_mem_cons.mp hrs
    obtain ⟨hdual, hs₁⟩ := handle_dual hp hr s hs
    rcases hh : handle p.uninstaller r s with ⟨e | b, s₁⟩
    · rw [hh] at hdual
      exact ⟨.threw processed, s₁, applyResources_error hh .., applyResources_error hdual ..⟩
    · rw [hh] at hdual hs₁
      cases b with
      | false =>
        obtain ⟨pass, s', hrun, hrun'⟩ := ih hrs processed s₁ hs₁
        exact ⟨pass, s', (applyResources_false hh ..).trans hrun,
          (applyResources_false hdual ..).trans hrun'⟩
      | true =>
        cases hr : r.requiresReboot s₁.context.machine with
        | false =>
          obtain ⟨pass, s', hrun, hrun'⟩ := ih hrs (r :: processed) s₁ hs₁
          exact ⟨pass, s', (applyResources_true hh hr ..).trans hrun,
            (applyResources_true hdual hr ..).trans hrun'⟩
        | true =>
          have hrestart := requestRestart_dual p s₁
          rcases hreq : requestRestart p.uninstaller s₁ with ⟨e | u, s₂⟩
          · rw [hreq] at hrestart
            refine ⟨.threw (r :: processed), s₂, ?_, ?_⟩
            · rw [applyResources, Eff.bind_ok (Eff.attempt_run _ _), hh]
              dsimp only
              rw [Eff.bind_ok (Eff.get_run s₁), if_pos hr, Eff.bind_ok (Eff.attempt_run _ _), hreq]
              rfl
            · rw [List.map_cons, applyResources, Eff.bind_ok (Eff.attempt_run _ _), hdual]
              dsimp only
              rw [Eff.bind_ok (Eff.get_run s₁.dual),
                if_pos (show r.dual.requiresReboot s₁.dual.context.machine = true from hr),
                Eff.bind_ok (Eff.attempt_run _ _), hrestart]
              rfl
          · rw [hreq] at hrestart
            exact ⟨.pendingRestart, s₂, applyResources_pending hh hr hreq ..,
              applyResources_pending hdual hr hrestart ..⟩

end Duality

/-! ## Resources that can be undone -/

/-- Unsetting `r` does not change what `r'` tests. -/
def UnsetApart (tests : Resource W → W → Bool) (r r' : Resource W) : Prop :=
  ∀ c, tests r' (r.unset c).2.machine = tests r' c.machine

/-- An `Unset` makes the `Test` of its own resource false, and no other. -/
structure Undoable (p : Installer W) (tests : Resource W → W → Bool)
    (resources : List (Resource W)) : Prop where
  unset : ∀ r ∈ resources, ∀ c, ∃ c', r.unset c = (.ok (), c') ∧ tests r c'.machine = false ∧
    c'.stateFile = c.stateFile ∧ c'.updating p = c.updating p
  others : resources.Pairwise fun r r' => UnsetApart tests r r' ∧ UnsetApart tests r' r

/-- What `Test` answers in the context `c` on another machine. -/
def answers (c : ConfigurationContext W) (r : Resource W) (machine : W) : Bool :=
  match (r.test { c with machine := machine }).1 with
  | .ok b => b
  | .error _ => false

section Undo

variable {p : Installer W} {tests : Resource W → W → Bool} {resources : List (Resource W)}
  {d : ConfigurationContext W}

theorem answers_dual (hL : Lawful p tests resources) {r : Resource W} (hr : r ∈ resources)
    (machine : W) : answers d r.dual machine = !tests r machine := by
  have htest := test_dual_ok (hL.test r hr { d with machine := machine })
  rw [answers, htest]

theorem apart_dual (hL : Lawful p tests resources) {r r' : Resource W} (hr' : r' ∈ resources)
    (h : UnsetApart tests r r') : Apart (answers d) r.dual r'.dual := by
  intro c
  rw [answers_dual hL hr', answers_dual hL hr']
  exact congrArg (!·) (h c)

/-- The duals of such resources are lawful. -/
theorem lawful_dual (hL : Lawful p tests resources) (hU : Undoable p tests resources) :
    Lawful p (answers d) (resources.map Resource.dual) where
  test := by
    intro r' hr' c
    obtain ⟨r, hr, rfl⟩ := List.mem_map.mp hr'
    rw [answers_dual hL hr]
    exact test_dual_ok (hL.test r hr c)
  set := by
    intro r' hr' c
    obtain ⟨r, hr, rfl⟩ := List.mem_map.mp hr'
    obtain ⟨c', hunset, htest, hfile, hupdating⟩ := hU.unset r hr c
    exact ⟨c', hunset, by rw [answers_dual hL hr, htest]; rfl, hfile, hupdating⟩
  others := by
    rw [List.pairwise_map]
    refine hU.others.imp_of_mem fun hr hr' h => ?_
    exact ⟨apart_dual hL hr' h.1, apart_dual hL hr h.2⟩
  runAllways := by
    intro r' hr'
    obtain ⟨r, hr, rfl⟩ := List.mem_map.mp hr'
    exact hL.runAllways r hr
  requiresReboot := by
    intro r' hr'
    obtain ⟨r, hr, rfl⟩ := List.mem_map.mp hr'
    exact hL.requiresReboot r hr

theorem steady_of_lawful (hL : Lawful p tests resources) (hU : Undoable p tests resources)
    {r : Resource W} (hr : r ∈ resources) : Steady p r where
  test := ⟨fun c => by
    rw [hL.test r hr c]
    exact refl_of (Eff.Same (ConfigurationContext.updating p)) c⟩
  unset := ⟨fun c => by
    obtain ⟨c', hunset, -, -, hupdating⟩ := hU.unset r hr c
    rw [hunset]
    exact hupdating⟩

theorem harmless_dual (hL : Lawful p tests resources) {m : Eff (ConfigurationContext W) Exn Bool}
    (hm : Harmless tests resources m) : Harmless (answers d) (resources.map Resource.dual) m where
  run := by
    intro c
    obtain ⟨b, c', hrun, htests, hfile⟩ := hm.run c
    refine ⟨b, c', hrun, fun r' hr' => ?_, hfile⟩
    obtain ⟨r, hr, rfl⟩ := List.mem_map.mp hr'
    rw [answers_dual hL hr, answers_dual hL hr, htests r hr]

theorem restarted_dual (hL : Lawful p tests resources) {c c' : ConfigurationContext W}
    (h : Restarted p.uninstaller tests resources c c') :
    Restarted p (answers d) (resources.map Resource.dual) c c' where
  sameTests := by
    intro r' hr'
    obtain ⟨r, hr, rfl⟩ := List.mem_map.mp hr'
    rw [answers_dual hL hr, answers_dual hL hr, h.sameTests r hr]
  stateFile := h.stateFile
  state := h.state
  restartPending := h.restartPending
  updating := h.updating

theorem namesDisabled_dual {ids : List String} (h : NamesDisabled resources ids) :
    NamesDisabled (resources.map Resource.dual) ids := by
  intro id hid
  obtain ⟨r, hr, he, rfl⟩ := h id hid
  exact ⟨r.dual, List.mem_map_of_mem hr, he, rfl⟩

theorem idsApart_dual (h : IdsApart resources) : IdsApart (resources.map Resource.dual) := by
  intro x hx y hy
  obtain ⟨r, hr, rfl⟩ := List.mem_map.mp hx
  obtain ⟨r', hr', rfl⟩ := List.mem_map.mp hy
  exact h r hr r' hr'

theorem enabledResources_dual (resources : List (Resource W)) (c : ConfigurationContext W) :
    enabledResources (resources.map Resource.dual) c
      = (enabledResources resources c).map Resource.dual := by
  rw [enabledResources, enabledResources, List.filter_map, List.filter_map]
  rfl

end Undo

/-! ## What no resource touches -/

section Frame

variable {p : Installer W} {resources graph : List (Resource W)} {β : Type} {f : W → β}

theorem asksForRestart_frame (hconsent : Eff.Keeps (fun c => f c.machine) p.userConsent)
    (hreboot : Eff.Keeps (fun c => f c.machine) p.requestReboot) {c c' : ConfigurationContext W}
    {o : Except Exn Unit} (h : asksForRestart p c o c') : f c'.machine = f c.machine := by
  have hcontext : ∀ {m : Eff (ConfigurationContext W) Exn Bool},
    Eff.Keeps (fun c => f c.machine) m →
      Eff.Keeps (fun s : Session W => f s.context.machine) (onContext m) :=
    fun hm => ⟨fun s => hm.run s.context⟩
  have hask : Eff.Keeps (fun s : Session W => f s.context.machine) (requestRestart p) := by
    unfold requestRestart askForRestart
    refine Eff.moves_bind (Eff.moves_bind (hcontext hconsent) fun consent => ?_) fun _ =>
      ⟨fun _ => rfl⟩
    split
    · refine Eff.moves_bind Eff.moves_get fun s => ?_
      split
      · exact Eff.moves_pure _
      · exact hcontext hreboot
    · exact Eff.moves_pure _
  exact Eff.keeps_run hask h

/-- However a pass ends, it leaves alone what its resources leave alone. -/
theorem Goes.frame (hconsent : Eff.Keeps (fun c => f c.machine) p.userConsent)
    (hreboot : Eff.Keeps (fun c => f c.machine) p.requestReboot) {done rs : List (Resource W)}
    {c c' : ConfigurationContext W} {pass : Pass W} (h : Goes p done rs c pass c')
    (hrs : ∀ r ∈ rs, Leaves (fun c => f c.machine) r) : f c'.machine = f c.machine := by
  induction h with
  | finished => rfl
  | passed hh _ ih =>
    obtain ⟨hr, hrs⟩ := List.forall_mem_cons.mp hrs
    exact (ih hrs).trans (hh.keeps hr)
  | changed hh _ _ ih =>
    obtain ⟨hr, hrs⟩ := List.forall_mem_cons.mp hrs
    exact (ih hrs).trans (hh.keeps hr)
  | restart hh _ ha =>
    exact (asksForRestart_frame hconsent hreboot ha).trans (hh.keeps (hrs _ List.mem_cons_self))
  | noRestart hh _ ha =>
    exact (asksForRestart_frame hconsent hreboot ha).trans (hh.keeps (hrs _ List.mem_cons_self))
  | threw ht => exact ht.keeps (hrs _ List.mem_cons_self)

theorem closed_machine (c : ConfigurationContext W) : (closed c).machine = c.machine := by
  unfold closed
  split <;> rfl

/-- So does `Apply`, also when it rolls back. -/
theorem apply_frame (hconsent : Eff.Keeps (fun c => f c.machine) p.userConsent)
    (hreboot : Eff.Keeps (fun c => f c.machine) p.requestReboot) {c c₁ : ConfigurationContext W}
    {ret : ConfigurationResult} {s : Session W}
    (hgraph : buildDependencyGraph p resources c = (.ok graph, c₁))
    (hmachine : c₁.machine = c.machine) (hrs : ∀ r ∈ graph, Leaves (fun c => f c.machine) r)
    (h : apply p resources ⟨c, []⟩ = (.ok ret, s)) : f s.context.machine = f c.machine := by
  obtain ⟨pass, c₂, hgo⟩ := goes_exists p graph [] c₁
  have hpass := hgo.frame hconsent hreboot hrs
  have hend : ∀ {ret' : ConfigurationResult} {c₃ : ConfigurationContext W} {calls : List (Call W)},
      applyLocal p (undo p) p.uninstall graph ⟨c₁, []⟩ = (.ok ret', ⟨c₃, calls⟩) →
      f c₃.machine = f c₁.machine → f s.context.machine = f c.machine := by
    intro ret' c₃ calls hlocal hsame
    obtain ⟨s', hs', hclosed⟩ := apply_closed hgraph hlocal
    obtain rfl : s = s' := (Prod.ext_iff.mp (h.symm.trans hs')).2
    rw [hclosed, closed_machine, hsame, hmachine]
  cases pass with
  | finished done =>
    obtain ⟨calls, hlocal⟩ := applyLocal_finished hgo
    exact hend hlocal hpass
  | pendingRestart =>
    obtain ⟨calls, hlocal⟩ := applyLocal_pendingRestart hgo
    exact hend hlocal hpass
  | threw done =>
    cases hp : p.uninstall with
    | true =>
      obtain ⟨calls, hlocal⟩ := applyLocal_failed hp hgo
      exact hend hlocal hpass
    | false =>
      obtain ⟨pass', c₃, hgo'⟩ := goes_exists p done [] c₂
      obtain ⟨calls, hlocal⟩ := applyLocal_rolledBack hp hgo hgo'
      have hdone : ∀ r ∈ done, Leaves (fun c => f c.machine) r :=
        fun r hr => hrs r ((hgo.mem_of_threw r hr).resolve_left List.not_mem_nil)
      exact hend hlocal ((hgo'.frame hconsent hreboot hdone).trans hpass)

end Frame

/-! ## One process -/

section Process

variable {p : Installer W} {tests : Resource W → W → Bool} {resources graph : List (Resource W)}
  {c c₁ d e : ConfigurationContext W}

theorem mem_uninstallGraph (h : buildDependencyGraph p.uninstaller resources c = (.ok graph, c₁)) :
    ∀ r ∈ graph, r ∈ resources := by
  intro r hr
  have hkept := (buildDependencyGraph_perm h).mem_iff.mp hr
  have henabled := (List.mem_filter.mp hkept).1
  exact (List.mem_filter.mp (List.mem_filter.mp henabled).1).1

theorem pairwise_uninstallGraph (hU : Undoable p tests resources)
    (h : buildDependencyGraph p.uninstaller resources c = (.ok graph, c₁)) :
    graph.Pairwise fun r r' => UnsetApart tests r r' ∧ UnsetApart tests r' r :=
  (((hU.others.filter _).filter _).filter _).perm (buildDependencyGraph_perm h).symm
    fun h => ⟨h.2, h.1⟩

theorem apply_uninstalls (hp : p.uninstall = false) (hL : Lawful p tests resources)
    (hU : Undoable p tests resources) (hconsent : Harmless tests resources p.userConsent)
    (hreboot : Harmless tests resources p.requestReboot)
    (h : buildDependencyGraph p.uninstaller resources c = (.ok graph, c₁))
    (he : enabledResources resources e = enabledResources resources c)
    (hupdating : e.updating p = false) :
    (∃ s, apply p.uninstaller resources ⟨e, []⟩ = (.ok .succeeded, s) ∧
        Ran (answers d) (resources.map Resource.dual) (graph.map Resource.dual) e s.dual) ∨
      ∃ before r after s, graph.map Resource.dual = before ++ r :: after ∧
        (∀ w, r.requiresReboot w = true) ∧ answers d r e.machine = false ∧
        apply p.uninstaller resources ⟨e, []⟩ = (.ok .pendingRestart, s) ∧
        Ran (answers d) (resources.map Resource.dual) (before ++ [r]) e s.dual ∧
        ∀ x ∈ after, answers d x s.context.machine = answers d x e.machine := by
  obtain ⟨ids, hids, hgraph⟩ := buildDependencyGraph_again h he
  have hmem : ∀ x ∈ graph.map Resource.dual, x ∈ resources.map Resource.dual := by
    intro x hx
    obtain ⟨r, hr, rfl⟩ := List.mem_map.mp hx
    exact List.mem_map_of_mem (mem_uninstallGraph h r hr)
  have hpair : (graph.map Resource.dual).Pairwise fun r r' => Apart (answers d) r r' ∧
      Apart (answers d) r' r := by
    rw [List.pairwise_map]
    refine (pairwise_uninstallGraph hU h).imp_of_mem fun hr hr' hapart => ?_
    exact ⟨apart_dual hL (mem_uninstallGraph h _ hr') hapart.1,
      apart_dual hL (mem_uninstallGraph h _ hr) hapart.2⟩
  have hfile : ∀ {s : Session W}, s.context.stateFile = some ids →
      FileNamesDisabled (resources.map Resource.dual) s.context.stateFile := by
    intro s hs ids' hids'
    obtain rfl := Option.some.inj (hs.symm.trans hids')
    exact namesDisabled_dual hids
  obtain ⟨pass, s', hrun, hdual⟩ := applyResources_dual hp graph
    (fun r hr => steady_of_lawful hL hU (mem_uninstallGraph h r hr)) []
    ⟨{ e with state := some (.strings ids), stateFile := some ids }, []⟩ hupdating
  rcases applyResources_lawful hp (lawful_dual (d := d) hL hU) (harmless_dual hL hconsent)
    (harmless_dual hL hreboot) (graph.map Resource.dual) []
    ⟨{ e with state := some (.strings ids), stateFile := some ids }, []⟩ hmem hpair hupdating with
    ⟨done, t, hrun', hprog⟩ | ⟨before, r, after, t, hsplit, hr, ht, hrun', hpending, hprog⟩
  · obtain ⟨hpass, rfl⟩ := Prod.ext_iff.mp (hdual.symm.trans hrun')
    cases pass with
    | pendingRestart => exact nomatch Except.ok.inj hpass
    | threw => exact nomatch Except.ok.inj hpass
    | finished processed =>
      obtain ⟨s, happly, hcalls, hmachine, hstate⟩ := apply_finished hgraph hrun
      refine .inl ⟨s, happly, ?_, ?_, ?_⟩
      · show sets (s.calls.map Call.dual) = _
        rw [hcalls]
        exact hprog.setCalls
      · intro r hr
        show answers d r s.context.machine = true
        rw [hmachine]
        exact hprog.done r hr
      · rcases hstate with hs | hs
        · exact hfile (s := s.dual) (hs.trans hprog.stateFile)
        · intro ids' hids'
          exact nomatch hs.symm.trans hids'
  · obtain ⟨hpass, rfl⟩ := Prod.ext_iff.mp (hdual.symm.trans hrun')
    cases pass with
    | finished => exact nomatch Except.ok.inj hpass
    | threw => exact nomatch Except.ok.inj hpass
    | pendingRestart =>
      have happly := apply_pending hgraph hrun hpending
      refine .inr ⟨before, r, after, s', hsplit, hr, ht, happly,
        ⟨hprog.setCalls, hprog.done, hfile hprog.stateFile⟩, fun x hx => ?_⟩
      rw [hsplit, List.append_cons] at hpair
      exact hprog.others x (hmem x (hsplit ▸ List.mem_append_right _ (List.mem_cons_of_mem _ hx)))
        fun r' hr' => ((List.pairwise_append.mp hpair).2.2 r' hr' x hx).1

end Process

/-! ## All processes -/

/-- The last run of an uninstallation has ended in `s`. -/
structure Uninstalled (tests : Resource W → W → Bool) (resources : List (Resource W))
    (c : ConfigurationContext W) (graph : List (Resource W)) (runs : List (List (Call W)))
    (s : Session W) : Prop where
  undone : ∀ r ∈ graph, tests r s.context.machine = false
  kept : ∀ r ∈ resources, r ∉ graph → tests r s.context.machine = tests r c.machine
  unsetOnce : unsets (runs.flatten ++ s.calls) = graph.filter fun r => tests r c.machine

/-- At the start of a process that uninstalls. -/
structure UndoAtStart (p : Installer W) (tests : Resource W → W → Bool)
    (resources : List (Resource W))
    (d c : ConfigurationContext W) (graph : List (Resource W)) (runs : List (List (Call W)))
    (e : ConfigurationContext W) (done todo : List (Resource W)) : Prop where
  splits : graph.map Resource.dual = done ++ todo
  dual : AtStart p (answers d) (resources.map Resource.dual) c
    (runs.map (List.map Call.dual)) e done todo
  kept : ∀ r ∈ resources, r ∉ graph → tests r e.machine = tests r c.machine

section Processes

variable {p : Installer W} {tests : Resource W → W → Bool} {resources graph : List (Resource W)}
  {c c₁ d e : ConfigurationContext W} {runs : List (List (Call W))}

theorem leaves_tests (hL : Lawful p tests resources) (hU : Undoable p tests resources)
    {r x : Resource W} (hr : r ∈ resources) (hx : x ∈ resources) (hne : r ≠ x) :
    Leaves (fun c => tests x c.machine) r := by
  have : Std.Symm fun r r' => Apart tests r r' ∧ Apart tests r' r := ⟨fun _ _ h => ⟨h.2, h.1⟩⟩
  have : Std.Symm fun r r' => UnsetApart tests r r' ∧ UnsetApart tests r' r :=
    ⟨fun _ _ h => ⟨h.2, h.1⟩⟩
  refine ⟨⟨fun c => ?_⟩, ⟨(hL.others.forall hr hx hne).1⟩, ⟨(hU.others.forall hr hx hne).1⟩⟩
  rw [hL.test r hr c]
  exact refl_of (Eff.Same fun c => tests x c.machine) c

/-- A resource that is not in the graph stays as it is, in both directions. -/
theorem apply_kept (hL : Lawful p tests resources) (hU : Undoable p tests resources)
    {q : Installer W} (hconsent : Harmless tests resources q.userConsent)
    (hreboot : Harmless tests resources q.requestReboot)
    (hgraph : buildDependencyGraph q resources c = (.ok graph, c₁))
    (hmem : ∀ r ∈ graph, r ∈ resources)
    (he : enabledResources resources e = enabledResources resources c) {ret : ConfigurationResult}
    {s : Session W} (h : apply q resources ⟨e, []⟩ = (.ok ret, s)) {x : Resource W}
    (hx : x ∈ resources) (hnot : x ∉ graph) : tests x s.context.machine = tests x e.machine := by
  obtain ⟨ids, -, hgraph'⟩ := buildDependencyGraph_again hgraph he
  have hkeeps : ∀ {m : Eff (ConfigurationContext W) Exn Bool}, Harmless tests resources m →
      Eff.Keeps (fun c => tests x c.machine) m := fun hm => ⟨fun c => by
    obtain ⟨b, c', hrun, htests, -⟩ := hm.run c
    rw [hrun]
    exact htests x hx⟩
  refine apply_frame (f := tests x) (hkeeps hconsent) (hkeeps hreboot) hgraph' rfl
    (fun r hr => ?_) h
  exact leaves_tests hL hU (hmem r hr) hx fun he => hnot (he ▸ hr)

theorem interrupted_undoAtStart (hp : p.uninstall = false) (hL : Lawful p tests resources)
    (hU : Undoable p tests resources) (hconsent : Harmless tests resources p.userConsent)
    (hreboot : Harmless tests resources p.requestReboot) (hids : IdsApart resources)
    (henabled : enabledResources resources c = resources.filter (·.enabled))
    (hupdating : c.updating p = false)
    (hgraph : buildDependencyGraph p.uninstaller resources c = (.ok graph, c₁))
    (h : Interrupted p.uninstaller tests resources c runs e) :
    ∃ done todo, UndoAtStart p tests resources d c graph runs e done todo := by
  have hmem := mem_uninstallGraph hgraph
  induction h with
  | start =>
    exact ⟨[], graph.map Resource.dual, rfl,
      ⟨rfl, hupdating, rfl, fun _ h => (nomatch h), fun _ _ => rfl, Nat.le_refl 0⟩,
      fun _ _ _ => rfl⟩
  | @restart e e' runs s hprev hrun hnext ih =>
    obtain ⟨done, todo, hsplits, hstart, hkept⟩ := ih
    have he : enabledResources resources e = enabledResources resources c := by
      have := hstart.enabled
      rw [enabledResources_dual, enabledResources_dual] at this
      exact (List.map_inj_right fun _ _ h => dual_injective h).mp this
    rcases apply_uninstalls (d := d) hp hL hU hconsent hreboot hgraph he hstart.updating with
      ⟨s', hrun', -⟩ | ⟨before, r, after, s', hsplit, hr, ht, hrun', hran, hafter⟩
    · exact nomatch (Prod.ext_iff.mp (hrun.symm.trans hrun')).1
    · obtain rfl : s = s' := (Prod.ext_iff.mp (hrun.symm.trans hrun')).2
      obtain ⟨more, rfl, rfl⟩ := hstart.split (hsplits.symm.trans hsplit) ht
      have hmem' : ∀ x ∈ done ++ (more ++ r :: after), x ∈ resources.map Resource.dual := by
        intro x hx
        rw [← hsplits] at hx
        obtain ⟨r, hr, rfl⟩ := List.mem_map.mp hx
        exact List.mem_map_of_mem (hmem r hr)
      have henabled' : enabledResources (resources.map Resource.dual) c
          = (resources.map Resource.dual).filter (·.enabled) := by
        rw [enabledResources_dual, henabled, List.filter_map]
        rfl
      have hdual := hstart.next (idsApart_dual hids) henabled' hr hran hafter
        (restarted_dual hL hnext) hmem'
      refine ⟨done ++ more ++ [r], after, by rw [hsplits]; simp, ?_, fun x hx hnot => ?_⟩
      · rw [List.map_append]
        exact hdual
      · have hsame : tests x s.context.machine = tests x e.machine :=
          apply_kept hL hU (q := p.uninstaller) hconsent hreboot hgraph hmem he hrun hx hnot
        rw [hnext.sameTests x hx, hsame, hkept x hx hnot]

/-- However often it is interrupted, an uninstallation comes to its end. -/
theorem uninstall_interrupted (hp : p.uninstall = false) (hL : Lawful p tests resources)
    (hU : Undoable p tests resources) (hconsent : Harmless tests resources p.userConsent)
    (hreboot : Harmless tests resources p.requestReboot) (hids : IdsApart resources)
    (henabled : enabledResources resources c = resources.filter (·.enabled))
    (hupdating : c.updating p = false)
    (hgraph : buildDependencyGraph p.uninstaller resources c = (.ok graph, c₁))
    (h : Interrupted p.uninstaller tests resources c runs e) :
    ∃ ret s, apply p.uninstaller resources ⟨e, []⟩ = (.ok ret, s) ∧
      (ret = .pendingRestart ∧ runs.length < resources.countP (·.requiresReboot c.machine) ∨
        ret = .succeeded ∧ Uninstalled tests resources c graph runs s) := by
  obtain ⟨done, todo, hsplits, hstart, hkept⟩ :=
    interrupted_undoAtStart (d := c) hp hL hU hconsent hreboot hids henabled hupdating hgraph h
  have hmem := mem_uninstallGraph hgraph
  have he : enabledResources resources e = enabledResources resources c := by
    have := hstart.enabled
    rw [enabledResources_dual, enabledResources_dual] at this
    exact (List.map_inj_right fun _ _ h => dual_injective h).mp this
  rcases apply_uninstalls (d := c) hp hL hU hconsent hreboot hgraph he hstart.updating with
    ⟨s, hrun, hran⟩ | ⟨before, r, after, s, hsplit, hr, ht, hrun, -⟩
  · refine ⟨.succeeded, s, hrun, .inr ⟨rfl, ?_, ?_, ?_⟩⟩
    · intro r hr
      have htrue := hran.done r.dual (List.mem_map_of_mem hr)
      rw [answers_dual hL (hmem r hr)] at htrue
      simpa using htrue
    · intro x hx hnot
      rw [apply_kept hL hU (q := p.uninstaller) hconsent hreboot hgraph hmem he hrun hx hnot,
        hkept x hx hnot]
    · have hsets : sets ((runs.map (List.map Call.dual)).flatten ++ s.dual.calls)
          = (graph.filter fun r => tests r c.machine).map Resource.dual := by
        rw [hsplits] at hran
        rw [sets_append, hstart.setCalls, hran.setCalls, hstart.filter_done fun _ h => h,
          ← List.filter_append, ← hsplits, List.filter_map]
        refine congrArg (List.map Resource.dual) (List.filter_congr fun r hr => ?_)
        show (!answers c r.dual c.machine) = tests r c.machine
        rw [answers_dual hL (hmem r hr), Bool.not_not]
      have hcalls : (runs.map (List.map Call.dual)).flatten ++ s.dual.calls
          = (runs.flatten ++ s.calls).map Call.dual := by
        rw [List.map_append, List.map_flatten]
        rfl
      rw [hcalls, sets_dual] at hsets
      exact (List.map_inj_right fun _ _ h => dual_injective h).mp hsets
  · obtain ⟨more, rfl, rfl⟩ := hstart.split (hsplits.symm.trans hsplit) ht
    refine ⟨.pendingRestart, s, hrun, .inl ⟨rfl, ?_⟩⟩
    have hle : (done ++ (more ++ r :: after)).countP (·.requiresReboot c.machine)
        ≤ resources.countP (·.requiresReboot c.machine) := by
      rw [← hsplits, List.countP_map]
      refine Nat.le_trans (Nat.le_of_eq ((buildDependencyGraph_perm hgraph).countP_eq _)) ?_
      exact ((List.filter_sublist.trans List.filter_sublist).trans List.filter_sublist).countP_le
    have hrestarts := hstart.restarts
    have hone : (r :: after).countP (·.requiresReboot c.machine)
        = after.countP (·.requiresReboot c.machine) + 1 := List.countP_cons_of_pos (hr c.machine)
    rw [List.countP_append, List.countP_append, hone] at hle
    rw [List.length_map] at hrestarts
    omega

end Processes

/-! ## The graph of the uninstaller -/

/-- The order in which an installed graph is undone. -/
def undoOrder (graph : List (Resource W)) : List (Resource W) :=
  (graph.filter (·.runAllwaysFirst) ++ (graph.filter fun r => !r.runAllwaysFirst).reverse).filter
    fun r => !r.noUninstall

section Graph

variable {p : Installer W} {resources graph : List (Resource W)} {c c₁ e : ConfigurationContext W}

theorem resolvePass_uninstaller (p : Installer W) :
    ∀ (rest : List (Pending W)) (g : List (Resource W)),
    resolvePass p.uninstaller g rest = resolvePass p g rest := by
  intro rest
  induction rest with
  | nil => intro g; rfl
  | cons x rest ih =>
    intro g
    have hresolved : isResolved p.uninstaller g = isResolved p g := rfl
    cases he : x.resource.enabled with
    | false => rw [resolvePass_disabled he, resolvePass_disabled he, ih]
    | true =>
      by_cases hs : sweep (isResolved p g) x.dependsOn = []
      · rw [resolvePass_now he hs, resolvePass_now he (hresolved ▸ hs), ih]
      · rw [resolvePass_wait he hs, resolvePass_wait he (hresolved ▸ hs), ih, hresolved]

theorem resolve_uninstaller (p : Installer W) (g : List (Resource W)) (rest : List (Pending W)) :
    resolve p.uninstaller g rest = resolve p g rest := by
  induction g, rest using resolve.induct p with
  | case1 g =>
    have hp : ∀ q : Installer W, resolve q g [] = (g, []) := fun q => by rw [resolve, if_pos rfl]
    rw [hp, hp]
  | case2 g rest hne hstuck =>
    have hp : ∀ q : Installer W, resolvePass q g rest = resolvePass p g rest →
        resolve q g rest = resolvePass p g rest := by
      intro q hq
      rw [resolve, if_neg hne, hq, if_pos hstuck]
    rw [hp p.uninstaller (resolvePass_uninstaller p rest g), hp p rfl]
  | case3 g rest hne hprog ih =>
    have hp : ∀ q : Installer W, resolvePass q g rest = resolvePass p g rest →
        resolve q g rest = resolve q (resolvePass p g rest).1 (resolvePass p g rest).2 := by
      intro q hq
      rw [resolve, if_neg hne, hq, if_neg hprog]
    rw [hp p.uninstaller (resolvePass_uninstaller p rest g), hp p rfl, ih]

/-- An installation that can be ordered can be undone. -/
theorem buildDependencyGraph_uninstaller (hp : p.uninstall = false)
    (h : buildDependencyGraph p resources c = (.ok graph, c₁))
    (he : enabledResources resources e = enabledResources resources c) :
    ∃ c', buildDependencyGraph p.uninstaller resources e = (.ok (undoOrder graph), c') := by
  obtain ⟨hleft, rfl⟩ := buildDependencyGraph_eq h
  have hrest : restOf resources e = restOf resources c := by rw [restOf, restOf, he]
  obtain ⟨first, hfirst⟩ :
    ∃ first, first = (enabledResources resources c).filter (·.runAllwaysFirst) := ⟨_, rfl⟩
  obtain ⟨order, horder⟩ : ∃ order, order = resolvedOrder p resources c := ⟨_, rfl⟩
  have hinFirst : ∀ r ∈ first, r.runAllwaysFirst = true := by
    intro r hr
    rw [hfirst] at hr
    exact (List.mem_filter.mp hr).2
  have hinOrder : ∀ r ∈ order, r.runAllwaysFirst = false := by
    intro r hr
    rw [horder] at hr
    exact not_first_of_mem ((resolvedOrder_perm hleft).mem_iff.mp hr)
  have hfilter : (first ++ order).filter (·.runAllwaysFirst) = first := by
    rw [List.filter_append, List.filter_eq_self.mpr hinFirst,
      List.filter_eq_nil_iff.mpr fun r hr => by simp [hinOrder r hr], List.append_nil]
  have hfilter' : (first ++ order).filter (fun r => !r.runAllwaysFirst) = order := by
    rw [List.filter_append, List.filter_eq_nil_iff.mpr fun r hr => by simp [hinFirst r hr],
      List.filter_eq_self.mpr fun r hr => by simp [hinOrder r hr], List.nil_append]
  have hgraph : undoOrder (arrange p first order) = arrange p.uninstaller first order := by
    rw [undoOrder, arrange_install hp, hfilter, hfilter']
    rfl
  rw [← hfirst, ← horder, hgraph, hfirst, horder]
  refine ⟨(saveDisabledResourceIdsToState (resources.filter fun x =>
    !x.enabled || (getDisabledResourceIdsFromState e).any (· == x.id)) e).2, ?_⟩
  rw [buildDependencyGraph, Eff.bind_ok (Eff.get_run e)]
  dsimp only
  rw [hrest, resolve_uninstaller, hleft, he, if_neg (by simp)]
  rfl

theorem mem_undoOrder {r : Resource W} :
    r ∈ undoOrder graph ↔ r ∈ graph ∧ r.noUninstall = false := by
  rw [undoOrder, List.mem_filter, List.mem_append, List.mem_reverse, List.mem_filter,
    List.mem_filter]
  cases r.runAllwaysFirst <;> simp

end Graph

/-! ## There and back -/

section RoundTrip

variable {p : Installer W} {tests : Resource W → W → Bool} {resources graph : List (Resource W)}
  {c c₁ e : ConfigurationContext W} {runs : List (List (Call W))} {s : Session W}

/-- After the last run of an installation. -/
structure InstalledAll (tests : Resource W → W → Bool) (resources graph : List (Resource W))
    (c : ConfigurationContext W) (s : Session W) : Prop where
  done : ∀ r ∈ graph, tests r s.context.machine = true
  kept : ∀ r ∈ resources, r ∉ graph → tests r s.context.machine = tests r c.machine
  file : FileNamesDisabled resources s.context.stateFile

theorem install_kept (hp : p.uninstall = false) (hL : Lawful p tests resources)
    (hU : Undoable p tests resources) (hconsent : Harmless tests resources p.userConsent)
    (hreboot : Harmless tests resources p.requestReboot) (hids : IdsApart resources)
    (hstate : c.state = none) (hupdating : c.updating p = false)
    (hgraph : buildDependencyGraph p resources c = (.ok graph, c₁))
    (h : Interrupted p tests resources c runs e) {x : Resource W} (hx : x ∈ resources)
    (hnot : x ∉ graph) : tests x e.machine = tests x c.machine := by
  induction h with
  | start => rfl
  | @restart e e' runs s hprev hrun hnext ih =>
    obtain ⟨done, todo, -, hstart⟩ :=
      interrupted_atStart hp hL hconsent hreboot hids hstate hupdating hgraph hprev
    rw [hnext.sameTests x hx,
      apply_kept hL hU hconsent hreboot hgraph (mem_graph hp hgraph) hstart.enabled
      hrun hx hnot, ih]

theorem installedAll (hp : p.uninstall = false) (hL : Lawful p tests resources)
    (hU : Undoable p tests resources) (hconsent : Harmless tests resources p.userConsent)
    (hreboot : Harmless tests resources p.requestReboot) (hids : IdsApart resources)
    (hstate : c.state = none) (hupdating : c.updating p = false)
    (hgraph : buildDependencyGraph p resources c = (.ok graph, c₁))
    (h : Interrupted p tests resources c runs e)
    (hend : apply p resources ⟨e, []⟩ = (.ok .succeeded, s)) :
    InstalledAll tests resources graph c s := by
  obtain ⟨done, todo, hsplit, hstart⟩ :=
    interrupted_atStart hp hL hconsent hreboot hids hstate hupdating hgraph h
  rcases apply_lawful hp hL hconsent hreboot hgraph hstart.enabled hstart.updating with
    ⟨s', hrun, hran⟩ | ⟨before, r, after, s', -, -, -, hrun, -⟩
  · obtain rfl : s = s' := (Prod.ext_iff.mp (hend.symm.trans hrun)).2
    refine ⟨hran.done, fun x hx hnot => ?_, hran.file⟩
    rw [apply_kept hL hU hconsent hreboot hgraph (mem_graph hp hgraph) hstart.enabled hend hx hnot]
    exact install_kept hp hL hU hconsent hreboot hids hstate hupdating hgraph h hx hnot
  · exact nomatch (Prod.ext_iff.mp (hend.symm.trans hrun)).1

/-- What an uninstallation leaves of an installation that began in `c`. -/
structure Undoes (tests : Resource W → W → Bool) (resources graph : List (Resource W))
    (c : ConfigurationContext W) (runs : List (List (Call W))) (s : Session W) : Prop where
  left : ∀ r ∈ resources,
    tests r s.context.machine = if r.enabled then r.noUninstall else tests r c.machine
  unsetOnce : unsets (runs.flatten ++ s.calls) = undoOrder graph

/-- **An uninstallation undoes an installation.**  Whatever was there before, and however often
either of them is interrupted by a restart: of the enabled resources only those are left that are
never uninstalled, the disabled ones are as they were, and each of the others is unset once, first
the ones that run first in any case, in the order of the installation, and then the rest in the
opposite order. -/
theorem uninstall_undoes (hp : p.uninstall = false) (hL : Lawful p tests resources)
    (hU : Undoable p tests resources) (hconsent : Harmless tests resources p.userConsent)
    (hreboot : Harmless tests resources p.requestReboot) (hids : IdsApart resources)
    (hstate : c.state = none) (hupdating : c.updating p = false)
    (hgraph : buildDependencyGraph p resources c = (.ok graph, c₁))
    (hinstall : Interrupted p tests resources c runs e)
    (hend : apply p resources ⟨e, []⟩ = (.ok .succeeded, s)) {e₀ : ConfigurationContext W}
    (hnext : Restarted p tests resources s.context e₀) {runs' : List (List (Call W))}
    {e' : ConfigurationContext W}
    (huninstall : Interrupted p.uninstaller tests resources e₀ runs' e') :
    ∃ ret s', apply p.uninstaller resources ⟨e', []⟩ = (.ok ret, s') ∧
      (ret = .pendingRestart ∧ runs'.length < resources.countP (·.requiresReboot e₀.machine) ∨
        ret = .succeeded ∧ Undoes tests resources graph c runs' s') := by
  obtain ⟨hdone, hkept, hfile⟩ :=
    installedAll hp hL hU hconsent hreboot hids hstate hupdating hgraph hinstall hend
  have hfresh := enabledResources_fresh resources hstate
  have henabled := enabledResources_of_namesDisabled hids (hnext.namesDisabled hfile)
  obtain ⟨c', hgraph'⟩ := buildDependencyGraph_uninstaller hp hgraph (henabled.trans hfresh.symm)
  have hmem : ∀ r ∈ resources, r ∈ graph ↔ r.enabled = true := by
    intro r hr
    rw [(graph_perm hp hgraph).mem_iff, hfresh, List.mem_filter]
    exact and_iff_right hr
  obtain ⟨ret, s', hrun, hres⟩ :=
    uninstall_interrupted hp hL hU hconsent hreboot hids henabled hnext.updating hgraph' huninstall
  refine ⟨ret, s', hrun, hres.imp id fun ⟨hret, hundone, hleft, honce⟩ =>
    ⟨hret, fun r hr => ?_, ?_⟩⟩
  · by_cases hin : r ∈ undoOrder graph
    · obtain ⟨hin', hno⟩ := mem_undoOrder.mp hin
      rw [hundone r hin, if_pos ((hmem r hr).mp hin'), hno]
    · rw [hleft r hr hin, hnext.sameTests r hr]
      by_cases he : r.enabled = true
      · have hgr := (hmem r hr).mpr he
        rw [if_pos he, hdone r hgr]
        cases hno : r.noUninstall with
        | true => rfl
        | false => exact absurd (mem_undoOrder.mpr ⟨hgr, hno⟩) hin
      · rw [if_neg he]
        exact hkept r hr fun hg => he ((hmem r hr).mp hg)
  · rw [honce]
    refine List.filter_eq_self.mpr fun r hr => ?_
    have hgr := (mem_undoOrder.mp hr).1
    rw [hnext.sameTests r (mem_graph hp hgraph r hgr), hdone r hgr]

end RoundTrip

/-! ## Switches that go off again -/

def button (id : String) (i : Nat) (enabled noUninstall requiresReboot : Bool) :
    Resource (Nat → Bool) where
  id := id
  enabled := enabled
  noUninstall := noUninstall
  requiresReboot := fun _ => requiresReboot
  test := Eff.get >>= fun c => pure (c.machine i)
  set := Eff.modify fun c => { c with machine := fun j => if j = i then true else c.machine j }
  unset := Eff.modify fun c => { c with machine := fun j => if j = i then false else c.machine j }

def platform : Resource (Nat → Bool) := button "EnableVirtualMachinePlatform" 0 true true true

def cli : Resource (Nat → Bool) := button "AddCliToPath" 1 true false false

def shortcut : Resource (Nat → Bool) := button "AddShortcutToStartMenu" 2 false false false

theorem lawful_buttons : Lawful toggleInstaller answer [platform, cli, shortcut] where
  test := by
    intro r hr c
    simp only [List.mem_cons, List.not_mem_nil, or_false] at hr
    rcases hr with rfl | rfl | rfl <;> rfl
  set := by
    intro r hr c
    simp only [List.mem_cons, List.not_mem_nil, or_false] at hr
    rcases hr with rfl | rfl | rfl <;> exact ⟨_, rfl, rfl, rfl, rfl⟩
  others := by
    simp only [List.pairwise_cons, List.mem_cons, List.not_mem_nil, or_false,
      forall_eq_or_imp, forall_eq, false_imp_iff, implies_true, List.Pairwise.nil, and_true]
    exact ⟨⟨⟨fun _ => rfl, fun _ => rfl⟩, fun _ => rfl, fun _ => rfl⟩, fun _ => rfl, fun _ => rfl⟩
  runAllways := by
    intro r hr
    simp only [List.mem_cons, List.not_mem_nil, or_false] at hr
    rcases hr with rfl | rfl | rfl <;> rfl
  requiresReboot := by
    intro r hr _ _
    simp only [List.mem_cons, List.not_mem_nil, or_false] at hr
    rcases hr with rfl | rfl | rfl <;> rfl

theorem undoable_buttons : Undoable toggleInstaller answer [platform, cli, shortcut] where
  unset := by
    intro r hr c
    simp only [List.mem_cons, List.not_mem_nil, or_false] at hr
    rcases hr with rfl | rfl | rfl <;> exact ⟨_, rfl, rfl, rfl, rfl⟩
  others := by
    simp only [List.pairwise_cons, List.mem_cons, List.not_mem_nil, or_false,
      forall_eq_or_imp, forall_eq, false_imp_iff, implies_true, List.Pairwise.nil, and_true]
    exact ⟨⟨⟨fun _ => rfl, fun _ => rfl⟩, fun _ => rfl, fun _ => rfl⟩, fun _ => rfl, fun _ => rfl⟩

/-- The machine when the shortcut was there before. -/
def shortcutOnly : ConfigurationContext (Nat → Bool) := { allOff with machine := fun j => j == 2 }

def platformOn : ConfigurationContext (Nat → Bool) :=
  { allOff with machine := fun j => if j = 0 then true else j == 2 }

def allOn : ConfigurationContext (Nat → Bool) :=
  { allOff with machine := fun j => if j = 1 then true else if j = 0 then true else j == 2 }

/-- The second process, which reads the disabled resource from the file. -/
def resumed : ConfigurationContext (Nat → Bool) :=
  { platformOn with
    state := some (.jArray ["AddShortcutToStartMenu"])
    stateFile := some ["AddShortcutToStartMenu"] }

theorem buttons_first : apply toggleInstaller [platform, cli, shortcut] ⟨shortcutOnly, []⟩
    = (.ok .pendingRestart,
        ⟨{ resumed with state := some (.strings
          ["AddShortcutToStartMenu"]), restartPending := true },
      [.test platform, .set platform]⟩) := by
  have hg : onContext (buildDependencyGraph toggleInstaller [platform, cli, shortcut])
    ⟨shortcutOnly, []⟩
      = (.ok [platform, cli], ⟨{ shortcutOnly with
          state := some (.strings ["AddShortcutToStartMenu"])
          stateFile := some ["AddShortcutToStartMenu"] }, []⟩) := by
    rw [onContext, buildDependencyGraph_onePass rfl rfl rfl rfl]
    rfl
  rw [apply, Eff.bind_ok hg]
  rfl

theorem buttons_second : apply toggleInstaller [platform, cli, shortcut] ⟨resumed, []⟩
    = (.ok .succeeded, ⟨allOn, [.test platform, .test cli, .set cli]⟩) := by
  have hg : onContext (buildDependencyGraph toggleInstaller [platform, cli, shortcut]) ⟨resumed, []⟩
      = (.ok [platform, cli],
        ⟨{ resumed with state := some (.strings ["AddShortcutToStartMenu"]) }, []⟩) := by
    rw [onContext, buildDependencyGraph_onePass rfl rfl rfl rfl]
    rfl
  rw [apply, Eff.bind_ok hg]
  rfl

theorem uninstall_undoes_buttons :
    ∃ ret s', apply toggleInstaller.uninstaller [platform, cli, shortcut] ⟨allOn, []⟩
        = (.ok ret, s') ∧
      (ret = .pendingRestart ∧
          0 < [platform, cli, shortcut].countP (·.requiresReboot allOn.machine) ∨
        ret = .succeeded ∧
          Undoes answer [platform, cli, shortcut] [platform, cli] shortcutOnly [] s') := by
  refine uninstall_undoes (e := resumed) rfl lawful_buttons undoable_buttons (harmless_answer _)
    (harmless_answer _) ?_ rfl rfl (buildDependencyGraph_onePass rfl rfl rfl rfl)
    (.restart (.start shortcutOnly) buttons_first ⟨fun _ _ => rfl, rfl, rfl, rfl, rfl⟩)
    buttons_second ⟨fun _ _ => rfl, rfl, rfl, rfl, rfl⟩ (.start allOn)
  intro r hr r' hr' he hd
  simp only [List.mem_cons, List.not_mem_nil, or_false] at hr hr'
  have hr'' : r' = shortcut := by
    rcases hr' with rfl | rfl | rfl
    · exact absurd hd (by decide)
    · exact absurd hd (by decide)
    · rfl
  subst hr''
  rcases hr with rfl | rfl | rfl
  · decide
  · decide
  · exact absurd he (by decide)

end ContainerDesktop.DesiredStateConfiguration
