import ContainerDesktop.DesiredStateConfiguration.DependencyOrder
import ContainerDesktop.DesiredStateConfiguration.Rollback

/-!
# An installation with restarts in it

A resource that requires a restart ends the run after its `Set`.  The next run is
a new process: it reads the manifest again and the ids of the disabled resources
from `installer-state.json`, builds the graph again and tests everything again.

The resources here are `Lawful`: a `Set` makes the `Test` of its own resource true
and no other, and neither throws.  A part of the graph is then done and the rest is
as it was at the beginning, in each run and from one run to the next (`Progress`),
and `install_interrupted` puts the runs together.

The state file knows the disabled resources by their ids alone, so an enabled
resource with the id of a disabled one is lost at the first restart.
-/

namespace ContainerDesktop.DesiredStateConfiguration

variable {W : Type}

/-! ## Lawful resources -/

/-- Setting `r` does not change what `r'` tests. -/
def Apart (tests : Resource W → W → Bool) (r r' : Resource W) : Prop :=
  ∀ c, tests r' (r.set c).2.machine = tests r' c.machine

/-- `tests r` is what `Test` of `r` answers on a machine. -/
structure Lawful (p : Installer W) (tests : Resource W → W → Bool) (resources : List (Resource W)) :
    Prop where
  test : ∀ r ∈ resources, ∀ c, r.test c = (.ok (tests r c.machine), c)
  set : ∀ r ∈ resources, ∀ c, ∃ c', r.set c = (.ok (), c') ∧ tests r c'.machine = true ∧
    c'.stateFile = c.stateFile ∧ c'.updating p = c.updating p
  others : resources.Pairwise fun r r' => Apart tests r r' ∧ Apart tests r' r
  runAllways : ∀ r ∈ resources, r.runAllways = false
  requiresReboot : ∀ r ∈ resources, ∀ w w', r.requiresReboot w = r.requiresReboot w'

/-- A question to the user, or the request to restart: it answers, and changes
neither a `Test` nor the state file. -/
structure Harmless (tests : Resource W → W → Bool) (resources : List (Resource W))
    (m : Eff (ConfigurationContext W) Exn Bool) : Prop where
  run : ∀ c, ∃ b c', m c = (.ok b, c') ∧
    (∀ r ∈ resources, tests r c'.machine = tests r c.machine) ∧ c'.stateFile = c.stateFile

/-- The context of a new process after one that ended in `c`. -/
structure Restarted (p : Installer W) (tests : Resource W → W → Bool)
    (resources : List (Resource W)) (c c' : ConfigurationContext W) : Prop where
  sameTests : ∀ r ∈ resources, tests r c'.machine = tests r c.machine
  stateFile : c'.stateFile = c.stateFile
  state : c'.state = c.stateFile.map .jArray
  restartPending : c'.restartPending = false
  updating : c'.updating p = false

/-- Runs that all end with `PendingRestart`, with the calls of each, and the process
after them. -/
inductive Interrupted (p : Installer W) (tests : Resource W → W → Bool)
    (resources : List (Resource W)) :
    ConfigurationContext W → List (List (Call W)) → ConfigurationContext W → Prop
  | start (c : ConfigurationContext W) : Interrupted p tests resources c [] c
  | restart {c e e' : ConfigurationContext W} {runs : List (List (Call W))} {s : Session W} :
      Interrupted p tests resources c runs e →
      apply p resources ⟨e, []⟩ = (.ok .pendingRestart, s) →
      Restarted p tests resources s.context e' →
      Interrupted p tests resources c (runs ++ [s.calls]) e'

/-- The last run has ended in `s`. -/
structure Installed (p : Installer W) (tests : Resource W → W → Bool)
    (resources : List (Resource W))
    (c : ConfigurationContext W) (graph : List (Resource W)) (runs : List (List (Call W)))
    (s : Session W) : Prop where
  desired : ∀ r ∈ resources, r.enabled = true → tests r s.context.machine = true
  setOnce : sets (runs.flatten ++ s.calls) = graph.filter fun r => !tests r c.machine
  again : ∀ e, Restarted p tests resources s.context e →
    ∃ s', apply p resources ⟨e, []⟩ = (.ok .succeeded, s') ∧ sets s'.calls = []

/-- However often it is interrupted, an installation comes to its end. -/
def InstallsOnce (p : Installer W) (tests : Resource W → W → Bool) (resources : List (Resource W))
    (c : ConfigurationContext W) (graph : List (Resource W)) : Prop :=
  ∀ runs e, Interrupted p tests resources c runs e →
    ∃ ret s, apply p resources ⟨e, []⟩ = (.ok ret, s) ∧
      (ret = .pendingRestart ∧ runs.length < resources.countP (·.requiresReboot c.machine) ∨
        ret = .succeeded ∧ Installed p tests resources c graph runs s)

/-! ## One resource -/

section Loop

variable {p : Installer W} {tests : Resource W → W → Bool} {resources : List (Resource W)}

theorem leaves_lawful {r : Resource W} (hr : r.runAllways = false) {c : ConfigurationContext W}
    (hc : c.updating p = false) (b : Bool) : leaves p r b c = b := by
  simp [leaves, hr, hc]

theorem handle_done (hp : p.uninstall = false) (hL : Lawful p tests resources) {r : Resource W}
    (hr : r ∈ resources) {s : Session W} (hs : s.context.updating p = false)
    (ht : tests r s.context.machine = true) :
    handle p r s = (.ok false, ⟨s.context, s.calls ++ [.test r]⟩) := by
  have htest := hL.test r hr s.context
  rw [ht] at htest
  exact handle_leaves hp htest (leaves_lawful (hL.runAllways r hr) hs true)

theorem handle_todo (hp : p.uninstall = false) (hL : Lawful p tests resources) {r : Resource W}
    (hr : r ∈ resources) {s : Session W} (hs : s.context.updating p = false)
    (ht : tests r s.context.machine = false) :
    ∃ c', r.set s.context = (.ok (), c') ∧
      handle p r s = (.ok true, ⟨c', s.calls ++ [.test r] ++ [.set r]⟩) ∧
      tests r c'.machine = true ∧ c'.stateFile = s.context.stateFile ∧ c'.updating p = false := by
  have htest := hL.test r hr s.context
  rw [ht] at htest
  obtain ⟨c', hset, hdone, hfile, hupdating⟩ := hL.set r hr s.context
  refine ⟨c', hset, ?_, hdone, hfile, hupdating.trans hs⟩
  have hleaves := leaves_lawful (p := p) (hL.runAllways r hr) hs false
  rcases adjust_eq hp r false ⟨s.context, s.calls ++ [.test r]⟩ with ha | ⟨hb, -⟩
  · rw [hleaves] at ha
    rw [handle_false hp htest ha]
    exact handle_set_ok (s := ⟨s.context, s.calls ++ [.test r]⟩) hset
  · exact nomatch hb

/-- What a user answers does not matter. -/
theorem askForRestart_harmless (hconsent : Harmless tests resources p.userConsent)
    (hreboot : Harmless tests resources p.requestReboot) (s : Session W) :
    ∃ b c', askForRestart p s = (.ok b, ⟨c', s.calls⟩) ∧
      (∀ r ∈ resources, tests r c'.machine = tests r s.context.machine) ∧
      c'.stateFile = s.context.stateFile := by
  obtain ⟨b, c₁, hask, htests, hfile⟩ := hconsent.run s.context
  have hrun : onContext p.userConsent s = (.ok b, ⟨c₁, s.calls⟩) := by rw [onContext, hask]
  rw [askForRestart, Eff.bind_ok hrun]
  cases b with
  | false => exact ⟨false, c₁, rfl, htests, hfile⟩
  | true =>
    rw [if_pos rfl, Eff.bind_ok (Eff.get_run _)]
    cases hdelay : c₁.delayReboot with
    | true => exact ⟨false, c₁, rfl, htests, hfile⟩
    | false =>
      obtain ⟨b', c₂, hreq, htests', hfile'⟩ := hreboot.run c₁
      refine ⟨b', c₂, ?_, fun r hr => (htests' r hr).trans (htests r hr), hfile'.trans hfile⟩
      rw [if_neg (by decide), onContext, hreq]

theorem requestRestart_harmless (hconsent : Harmless tests resources p.userConsent)
    (hreboot : Harmless tests resources p.requestReboot) (s : Session W) :
    ∃ s', requestRestart p s = (.ok (), s') ∧ s'.calls = s.calls ∧
      s'.context.restartPending = true ∧ s'.context.stateFile = s.context.stateFile ∧
      ∀ r ∈ resources, tests r s'.context.machine = tests r s.context.machine := by
  obtain ⟨b, c', hask, htests, hfile⟩ := askForRestart_harmless hconsent hreboot s
  refine ⟨⟨{ c' with restartPending := true }, s.calls⟩, ?_, rfl, rfl, hfile, htests⟩
  rw [requestRestart, Eff.bind_ok hask]
  rfl

theorem applyResources_pending {r : Resource W} {s s₁ s₂ : Session W}
    (h : handle p r s = (.ok true, s₁)) (hr : r.requiresReboot s₁.context.machine = true)
    (hrestart : requestRestart p s₁ = (.ok (), s₂)) (processed rest : List (Resource W)) :
    applyResources p processed (r :: rest) s = (.ok .pendingRestart, s₂) := by
  rw [applyResources, Eff.bind_ok (Eff.attempt_run _ s), h]
  dsimp only
  rw [Eff.bind_ok (Eff.get_run s₁), if_pos hr, Eff.bind_ok (Eff.attempt_run _ s₁), hrestart]
  rfl

/-! ## One run -/

/-- From `s` to `s'` the resources of `handled` were brought into their desired state. -/
structure Progress (tests : Resource W → W → Bool) (resources handled : List (Resource W))
    (s s' : Session W) : Prop where
  setCalls : sets s'.calls = sets s.calls ++ handled.filter fun r => !tests r s.context.machine
  done : ∀ r ∈ handled, tests r s'.context.machine = true
  others : ∀ r ∈ resources, (∀ r' ∈ handled, Apart tests r' r) →
    tests r s'.context.machine = tests r s.context.machine
  stateFile : s'.context.stateFile = s.context.stateFile

theorem progress_nil (s : Session W) : Progress tests resources [] s s where
  setCalls := (List.append_nil _).symm
  done := fun _ h => nomatch h
  others := fun _ _ _ => rfl
  stateFile := rfl

/-- A resource that tests true is passed over. -/
theorem Progress.cons_done {r : Resource W} {handled : List (Resource W)} {s s₁ s' : Session W}
    (h : Progress tests resources handled s₁ s') (hcontext : s₁.context = s.context)
    (hsets : sets s₁.calls = sets s.calls)
    (hr : r ∈ resources) (ht : tests r s.context.machine = true)
    (hapart : ∀ r' ∈ handled, Apart tests r' r) : Progress tests resources (r :: handled) s s' where
  setCalls := by
    rw [h.setCalls, hsets, hcontext, List.filter_cons_of_neg (by simp [ht])]
  done := by
    refine List.forall_mem_cons.mpr ⟨?_, h.done⟩
    rw [h.others r hr hapart, hcontext, ht]
  others := by
    intro x hx hax
    rw [h.others x hx fun r' hr' => hax r' (List.mem_cons_of_mem _ hr'), hcontext]
  stateFile := h.stateFile.trans (by rw [hcontext])

/-- A resource that does not is set, and the later ones find what they would have
found without it. -/
theorem Progress.cons_set {r : Resource W} {handled : List (Resource W)} {s s₁ s' : Session W}
    (h : Progress tests resources handled s₁ s') (hr : r ∈ resources)
    (hall : ∀ x ∈ handled, x ∈ resources) (ht : tests r s.context.machine = false)
    (ht₁ : tests r s₁.context.machine = true)
    (hsets : sets s₁.calls = sets s.calls ++ [r])
    (hothers : ∀ x ∈ resources, Apart tests r x →
      tests x s₁.context.machine = tests x s.context.machine)
    (hfile : s₁.context.stateFile = s.context.stateFile)
    (hapart : ∀ r' ∈ handled, Apart tests r r' ∧ Apart tests r' r) :
    Progress tests resources (r :: handled) s s' where
  setCalls := by
    have hfilter : handled.filter (fun x => !tests x s₁.context.machine)
        = handled.filter fun x => !tests x s.context.machine :=
      List.filter_congr fun x hx => by rw [hothers x (hall x hx) (hapart x hx).1]
    rw [h.setCalls, hsets, hfilter, List.filter_cons_of_pos (by simp [ht]), List.append_assoc,
      List.singleton_append]
  done := by
    refine List.forall_mem_cons.mpr ⟨?_, h.done⟩
    rw [h.others r hr fun r' hr' => (hapart r' hr').2, ht₁]
  others := by
    intro x hx hax
    rw [h.others x hx fun r' hr' => hax r' (List.mem_cons_of_mem _ hr'),
      hothers x hx (hax r List.mem_cons_self)]
  stateFile := h.stateFile.trans hfile

theorem mem_of_mem_before {before after : List (Resource W)} {r x : Resource W}
    (h : x ∈ before ++ [r]) : x ∈ before ++ r :: after := by
  rw [List.append_cons]
  exact List.mem_append_left _ h

/-- The loop goes on with `rest` in `s₁`, and what it achieves from there on it achieves from `s` on
with `r` as well. -/
structure GoesOn (p : Installer W) (tests : Resource W → W → Bool) (resources : List (Resource W))
    (r : Resource W) (rest : List (Resource W)) (s s₁ : Session W) : Prop where
  updating : s₁.context.updating p = false
  later : ∀ x ∈ rest, tests x s₁.context.machine = tests x s.context.machine
  progress : ∀ handled s', (∀ x ∈ handled, x ∈ rest) → Progress tests resources handled s₁ s' →
    Progress tests resources (r :: handled) s s'

/-- It ends in `s'` with `r`, which requires a restart. -/
structure RestartsAt (p : Installer W) (tests : Resource W → W → Bool)
    (resources : List (Resource W))
    (processed : List (Resource W)) (r : Resource W) (rest : List (Resource W)) (s s' : Session W) :
    Prop where
  requiresReboot : ∀ w, r.requiresReboot w = true
  todo : tests r s.context.machine = false
  run : applyResources p processed (r :: rest) s = (.ok .pendingRestart, s')
  restartPending : s'.context.restartPending = true
  progress : Progress tests resources [r] s s'

section Step

variable {r : Resource W} {rest : List (Resource W)} {s : Session W}

theorem goesOn_done (hs : s.context.updating p = false) (hr : r ∈ resources)
    (ht : tests r s.context.machine = true)
    (hapart : ∀ x ∈ rest, Apart tests r x ∧ Apart tests x r) :
    GoesOn p tests resources r rest s ⟨s.context, s.calls ++ [.test r]⟩ where
  updating := hs
  later := fun _ _ => rfl
  progress := by
    intro handled s' hsub hprog
    have hsets : sets (s.calls ++ [.test r]) = sets s.calls := by
      rw [sets_append]
      exact List.append_nil _
    exact hprog.cons_done rfl hsets hr ht fun x hx => (hapart x (hsub x hx)).2

theorem sets_test_set (s : Session W) (r : Resource W) :
    sets (s.calls ++ [.test r] ++ [.set r]) = sets s.calls ++ [r] := by
  rw [sets_append, sets_append]
  show sets s.calls ++ [] ++ [r] = _
  rw [List.append_nil]

theorem goesOn_set {c' : ConfigurationContext W} (hset : r.set s.context = (.ok (), c'))
    (hupdating : c'.updating p = false) (hfile : c'.stateFile = s.context.stateFile)
    (hall : ∀ x ∈ rest, x ∈ resources) (hr : r ∈ resources) (ht : tests r s.context.machine = false)
    (hdone : tests r c'.machine = true) (hapart : ∀ x ∈ rest, Apart tests r x ∧ Apart tests x r) :
    GoesOn p tests resources r rest s ⟨c', s.calls ++ [.test r] ++ [.set r]⟩ := by
  have hothers : ∀ x ∈ resources, Apart tests r x →
      tests x c'.machine = tests x s.context.machine := fun x _ hx => by
    have hsame := hx s.context
    rwa [hset] at hsame
  refine ⟨hupdating, fun x hx => hothers x (hall x hx) (hapart x hx).1,
    fun handled s' hsub hprog => ?_⟩
  exact hprog.cons_set hr (fun x hx => hall x (hsub x hx)) ht hdone
    (sets_test_set s r) hothers hfile fun x hx => hapart x (hsub x hx)

theorem restartsAt_set (hconsent : Harmless tests resources p.userConsent)
    (hreboot : Harmless tests resources p.requestReboot) {c' : ConfigurationContext W}
    (hset : r.set s.context = (.ok (), c'))
    (hh : handle p r s = (.ok true, ⟨c', s.calls ++ [.test r] ++ [.set r]⟩))
    (hfile : c'.stateFile = s.context.stateFile) (hr : r ∈ resources)
    (ht : tests r s.context.machine = false) (hdone : tests r c'.machine = true)
    (hreq : ∀ w, r.requiresReboot w = true) (processed : List (Resource W)) :
    ∃ s', RestartsAt p tests resources processed r rest s s' := by
  obtain ⟨s', hrestart, hcalls, hpending, hfile', htests⟩ :=
    requestRestart_harmless hconsent hreboot ⟨c', s.calls ++ [.test r] ++ [.set r]⟩
  have hnil : Progress tests resources [] s' s' := progress_nil s'
  refine ⟨s', hreq, ht, applyResources_pending hh (hreq _) hrestart _ _, hpending, ?_⟩
  refine hnil.cons_set hr (fun _ h => nomatch h) ht ((htests r hr).trans hdone) ?_ ?_
    (hfile'.trans hfile) fun _ h => nomatch h
  · rw [hcalls, sets_test_set]
  · intro x hx hax
    have hsame := hax s.context
    rw [hset] at hsame
    exact (htests x hx).trans hsame

/-- What becomes of the first resource. -/
theorem applyResources_cons (hp : p.uninstall = false) (hL : Lawful p tests resources)
    (hconsent : Harmless tests resources p.userConsent)
    (hreboot : Harmless tests resources p.requestReboot) (hs : s.context.updating p = false)
    (hr : r ∈ resources) (hall : ∀ x ∈ rest, x ∈ resources)
    (hapart : ∀ x ∈ rest, Apart tests r x ∧ Apart tests x r) (processed : List (Resource W)) :
    (∃ processed' s₁, GoesOn p tests resources r rest s s₁ ∧
        applyResources p processed (r :: rest) s = applyResources p processed' rest s₁) ∨
      ∃ s', RestartsAt p tests resources processed r rest s s' := by
  cases ht : tests r s.context.machine with
  | true =>
    exact .inl ⟨processed, _, goesOn_done hs hr ht hapart,
      applyResources_false (handle_done hp hL hr hs ht) ..⟩
  | false =>
    obtain ⟨c', hset, hh, hdone, hfile, hupdating⟩ := handle_todo hp hL hr hs ht
    cases hreq : r.requiresReboot c'.machine with
    | true =>
      have hfixed : ∀ w, r.requiresReboot w = true :=
        fun w => (hL.requiresReboot r hr w _).trans hreq
      exact .inr (restartsAt_set hconsent hreboot hset hh hfile hr ht hdone hfixed processed)
    | false =>
      exact .inl ⟨r :: processed, _, goesOn_set hset hupdating hfile hall hr ht hdone hapart,
        applyResources_true hh hreq ..⟩

end Step

/-- A run comes through, or ends at a resource that requires a restart. -/
theorem applyResources_lawful (hp : p.uninstall = false) (hL : Lawful p tests resources)
    (hconsent : Harmless tests resources p.userConsent)
    (hreboot : Harmless tests resources p.requestReboot) :
    ∀ (todo processed : List (Resource W)) (s : Session W), (∀ r ∈ todo, r ∈ resources) →
      todo.Pairwise (fun r r' => Apart tests r r' ∧ Apart tests r' r) →
      s.context.updating p = false →
        (∃ done s', applyResources p processed todo s = (.ok (.finished done), s') ∧
          Progress tests resources todo s s') ∨
        ∃ before r after s', todo = before ++ r :: after ∧ (∀ w, r.requiresReboot w = true) ∧
          tests r s.context.machine = false ∧
          applyResources p processed todo s = (.ok .pendingRestart, s') ∧
          s'.context.restartPending = true ∧ Progress tests resources (before ++ [r]) s s' := by
  intro todo
  induction todo with
  | nil => intro processed s _ _ _; exact .inl ⟨processed, s, rfl, progress_nil s⟩
  | cons r rest ih =>
    intro processed s hall hpair hs
    obtain ⟨hr, hall⟩ := List.forall_mem_cons.mp hall
    obtain ⟨hapart, hpair⟩ := List.pairwise_cons.mp hpair
    rcases applyResources_cons hp hL hconsent hreboot hs hr hall hapart processed with
      ⟨processed', s₁, hgoes, hfirst⟩ | ⟨s', hrestarts⟩
    · rw [hfirst]
      rcases ih processed' s₁ hall hpair hgoes.updating with
        ⟨done, s', hrun, hprog⟩ | ⟨before, x, after, s', rfl, hx, htx, hrun, hpending, hprog⟩
      · exact .inl ⟨done, s', hrun, hgoes.progress rest s' (fun _ h => h) hprog⟩
      · have hmem : x ∈ before ++ x :: after := List.mem_append_right _ List.mem_cons_self
        refine .inr ⟨r :: before, x, after, s', rfl, hx, (hgoes.later x hmem).symm.trans htx, hrun,
          hpending, ?_⟩
        exact hgoes.progress (before ++ [x]) s' (fun _ => mem_of_mem_before) hprog
    · exact .inr ⟨[], r, rest, s', rfl, hrestarts.requiresReboot, hrestarts.todo, hrestarts.run,
        hrestarts.restartPending, hrestarts.progress⟩

/-! ## One process -/

/-- The ids in a state file are those of disabled resources. -/
def NamesDisabled (resources : List (Resource W)) (ids : List String) : Prop :=
  ∀ id ∈ ids, ∃ r ∈ resources, r.enabled = false ∧ r.id = id

/-- No enabled resource has the id of a disabled one. -/
def IdsApart (resources : List (Resource W)) : Prop :=
  ∀ r ∈ resources, ∀ r' ∈ resources, r.enabled = true → r'.enabled = false → r.id ≠ r'.id

theorem enabledResources_of_namesDisabled (hids : IdsApart resources) {c : ConfigurationContext W}
    (hc : NamesDisabled resources (getDisabledResourceIdsFromState c)) :
    enabledResources resources c = resources.filter (·.enabled) := by
  refine List.filter_eq_self.mpr fun r hr => ?_
  obtain ⟨hr, he⟩ := List.mem_filter.mp hr
  rw [Bool.not_eq_true', List.any_eq_false]
  intro id hid heq
  obtain ⟨r', hr', hd, rfl⟩ := hc id hid
  exact hids r hr r' hr' he hd (eq_of_beq heq).symm

/-- The graph of a later process is the graph of the first. -/
theorem buildDependencyGraph_again {graph : List (Resource W)} {c c₁ e : ConfigurationContext W}
    (h : buildDependencyGraph p resources c = (.ok graph, c₁))
    (he : enabledResources resources e = enabledResources resources c) :
    ∃ ids, NamesDisabled resources ids ∧ buildDependencyGraph p resources e
      = (.ok graph, { e with state := some (.strings ids), stateFile := some ids }) := by
  obtain ⟨hleft, rfl⟩ := buildDependencyGraph_eq h
  have hrest : restOf resources e = restOf resources c := by rw [restOf, restOf, he]
  refine ⟨((resources.filter fun x => !x.enabled ||
    (getDisabledResourceIdsFromState e).any (· == x.id)).filter fun x => !x.enabled).map (·.id),
    ?_, ?_⟩
  · intro id hid
    obtain ⟨r, hr, rfl⟩ := List.mem_map.mp hid
    obtain ⟨hr, hd⟩ := List.mem_filter.mp hr
    exact ⟨r, (List.mem_filter.mp hr).1, by simpa using hd, rfl⟩
  · rw [buildDependencyGraph, Eff.bind_ok (Eff.get_run e)]
    dsimp only
    rw [hrest, hleft, he, if_neg (by simp)]
    rfl

/-- The enabled resources, each once. -/
theorem graph_perm (hp : p.uninstall = false) {graph : List (Resource W)}
    {c c₁ : ConfigurationContext W} (h : buildDependencyGraph p resources c = (.ok graph, c₁)) :
    graph.Perm (enabledResources resources c) := by
  have hperm := buildDependencyGraph_perm h
  rw [keptResources, filter_install hp] at hperm
  exact hperm

theorem mem_graph (hp : p.uninstall = false) {graph : List (Resource W)}
    {c c₁ : ConfigurationContext W} (h : buildDependencyGraph p resources c = (.ok graph, c₁)) :
    ∀ r ∈ graph, r ∈ resources := by
  intro r hr
  have hr := (graph_perm hp h).mem_iff.mp hr
  exact (List.mem_filter.mp (List.mem_filter.mp hr).1).1

theorem apply_finished {graph done : List (Resource W)} {c c₁ : ConfigurationContext W}
    {s' : Session W} (hgraph : buildDependencyGraph p resources c = (.ok graph, c₁))
    (hrun : applyResources p [] graph ⟨c₁, []⟩ = (.ok (.finished done), s')) :
    ∃ s, apply p resources ⟨c, []⟩ = (.ok .succeeded, s) ∧ s.calls = s'.calls ∧
      s.context.machine = s'.context.machine ∧
      (s.context.stateFile = s'.context.stateFile ∨ s.context.stateFile = none) := by
  have hg : onContext (buildDependencyGraph p resources) ⟨c, []⟩ = (.ok graph, ⟨c₁, []⟩) := by
    rw [onContext, hgraph]
  have hlocal : applyLocal p (undo p) p.uninstall graph ⟨c₁, []⟩ = (.ok .succeeded, s') := by
    rw [applyLocal, Eff.bind_ok hrun]
    rfl
  rw [apply, Eff.bind_ok hg, Eff.bind_ok hlocal, Eff.bind_ok (Eff.get_run s')]
  cases s'.context.restartPending with
  | true => exact ⟨s', rfl, rfl, rfl, .inl rfl⟩
  | false => exact ⟨_, rfl, rfl, rfl, .inr rfl⟩

theorem apply_pending {graph : List (Resource W)} {c c₁ : ConfigurationContext W}
    {s' : Session W} (hgraph : buildDependencyGraph p resources c = (.ok graph, c₁))
    (hrun : applyResources p [] graph ⟨c₁, []⟩ = (.ok .pendingRestart, s'))
    (hpending : s'.context.restartPending = true) :
    apply p resources ⟨c, []⟩ = (.ok .pendingRestart, s') := by
  have hg : onContext (buildDependencyGraph p resources) ⟨c, []⟩ = (.ok graph, ⟨c₁, []⟩) := by
    rw [onContext, hgraph]
  have hlocal : applyLocal p (undo p) p.uninstall graph ⟨c₁, []⟩ = (.ok .pendingRestart, s') := by
    rw [applyLocal, Eff.bind_ok hrun]
    rfl
  rw [apply, Eff.bind_ok hg, Eff.bind_ok hlocal, Eff.bind_ok (Eff.get_run s'), if_pos hpending]
  rfl

/-- What the next process reads from the file. -/
def FileNamesDisabled (resources : List (Resource W)) (file : Option (List String)) : Prop :=
  ∀ ids, file = some ids → NamesDisabled resources ids

theorem Restarted.namesDisabled {c e : ConfigurationContext W} (h : Restarted p tests resources c e)
    (hfile : FileNamesDisabled resources c.stateFile) :
    NamesDisabled resources (getDisabledResourceIdsFromState e) := by
  rw [getDisabledResourceIdsFromState, h.state]
  cases hf : c.stateFile with
  | none => exact fun _ h => nomatch h
  | some ids => exact hfile ids hf

/-- What one process does. -/
structure Ran (tests : Resource W → W → Bool) (resources handled : List (Resource W))
    (e : ConfigurationContext W) (s : Session W) : Prop where
  setCalls : sets s.calls = handled.filter fun r => !tests r e.machine
  done : ∀ r ∈ handled, tests r s.context.machine = true
  file : FileNamesDisabled resources s.context.stateFile

theorem apply_lawful (hp : p.uninstall = false) (hL : Lawful p tests resources)
    (hconsent : Harmless tests resources p.userConsent)
    (hreboot : Harmless tests resources p.requestReboot) {graph : List (Resource W)}
    {c c₁ e : ConfigurationContext W} (h : buildDependencyGraph p resources c = (.ok graph, c₁))
    (he : enabledResources resources e = enabledResources resources c)
    (hupdating : e.updating p = false) :
    (∃ s, apply p resources ⟨e, []⟩ = (.ok .succeeded, s) ∧ Ran tests resources graph e s) ∨
      ∃ before r after s, graph = before ++ r :: after ∧ (∀ w, r.requiresReboot w = true) ∧
        tests r e.machine = false ∧ apply p resources ⟨e, []⟩ = (.ok .pendingRestart, s) ∧
        Ran tests resources (before ++ [r]) e s ∧
        ∀ x ∈ after, tests x s.context.machine = tests x e.machine := by
  obtain ⟨ids, hids, hgraph⟩ := buildDependencyGraph_again h he
  have hmem := mem_graph hp h
  have hpair : graph.Pairwise fun r r' => Apart tests r r' ∧ Apart tests r' r := by
    refine (((hL.others.filter _).filter _).perm (graph_perm hp h).symm) ?_
    exact fun h => ⟨h.2, h.1⟩
  have hfile : ∀ {s : Session W}, s.context.stateFile = some ids →
      FileNamesDisabled resources s.context.stateFile := by
    intro s hs ids' hids'
    obtain rfl := Option.some.inj (hs.symm.trans hids')
    exact hids
  rcases applyResources_lawful hp hL hconsent hreboot graph []
    ⟨{ e with state := some (.strings ids), stateFile := some ids }, []⟩ hmem hpair hupdating with
    ⟨done, s', hrun, hprog⟩ | ⟨before, r, after, s', rfl, hr, ht, hrun, hpending, hprog⟩
  · obtain ⟨s, happly, hcalls, hmachine, hstate⟩ := apply_finished hgraph hrun
    refine .inl ⟨s, happly, ⟨?_, ?_, ?_⟩⟩
    · rw [hcalls]
      exact hprog.setCalls
    · intro r hr
      rw [hmachine]
      exact hprog.done r hr
    · rcases hstate with hs | hs
      · exact hfile (hs.trans hprog.stateFile)
      · intro ids' hids'
        exact nomatch hs.symm.trans hids'
  · have happly := apply_pending hgraph hrun hpending
    refine .inr ⟨before, r, after, s', rfl, hr, ht, happly,
      ⟨hprog.setCalls, hprog.done, hfile hprog.stateFile⟩, fun x hx => ?_⟩
    rw [List.append_cons] at hpair
    exact hprog.others x (hmem x (List.mem_append_right _ (List.mem_cons_of_mem _ hx)))
      fun r' hr' => ((List.pairwise_append.mp hpair).2.2 r' hr' x hx).1

/-! ## All processes -/

/-- At the start of a process, after `runs`: a part of the graph is done, and the
rest is as it was at first. -/
structure AtStart (p : Installer W) (tests : Resource W → W → Bool) (resources : List (Resource W))
    (c : ConfigurationContext W) (runs : List (List (Call W))) (e : ConfigurationContext W)
    (done todo : List (Resource W)) : Prop where
  enabled : enabledResources resources e = enabledResources resources c
  updating : e.updating p = false
  setCalls : sets runs.flatten = done.filter fun r => !tests r c.machine
  doneTests : ∀ r ∈ done, tests r e.machine = true
  todoTests : ∀ r ∈ todo, tests r e.machine = tests r c.machine
  restarts : runs.length ≤ done.countP (·.requiresReboot c.machine)

/-- What is done is passed over. -/
theorem AtStart.filter_done {c e : ConfigurationContext W} {runs : List (List (Call W))}
    {done todo : List (Resource W)} (h : AtStart p tests resources c runs e done todo)
    {more : List (Resource W)} (hmore : ∀ r ∈ more, r ∈ todo) :
    (done ++ more).filter (fun r => !tests r e.machine) = more.filter fun r =>
      !tests r c.machine := by
  have hdone : done.filter (fun r => !tests r e.machine) = [] :=
    List.filter_eq_nil_iff.mpr fun r hr => by simp [h.doneTests r hr]
  rw [List.filter_append, hdone, List.nil_append]
  exact List.filter_congr fun r hr => by rw [h.todoTests r (hmore r hr)]

/-- A process that is interrupted had come to a resource behind what was done. -/
theorem AtStart.split {c e : ConfigurationContext W} {runs : List (List (Call W))}
    {done todo before after : List (Resource W)} {r : Resource W}
    (h : AtStart p tests resources c runs e done todo)
    (hsplit : done ++ todo = before ++ r :: after) (hr : tests r e.machine = false) :
    ∃ more, before = done ++ more ∧ todo = more ++ r :: after := by
  have hnot : r ∉ done := by
    intro hmem
    rw [h.doneTests r hmem] at hr
    exact nomatch hr
  exact split_behind hsplit hnot

/-- From one process to the next. -/
theorem AtStart.next (hids : IdsApart resources) {c e e' : ConfigurationContext W}
    {runs : List (List (Call W))} {done more after : List (Resource W)} {r : Resource W}
    {s : Session W} (h : AtStart p tests resources c runs e done (more ++ r :: after))
    (hc : enabledResources resources c = resources.filter (·.enabled))
    (hr : ∀ w, r.requiresReboot w = true) (hran : Ran tests resources (done ++ more ++ [r]) e s)
    (hafter : ∀ x ∈ after, tests x s.context.machine = tests x e.machine)
    (hnext : Restarted p tests resources s.context e')
    (hmem : ∀ x ∈ done ++ (more ++ r :: after), x ∈ resources) :
    AtStart p tests resources c (runs ++ [s.calls]) e' (done ++ more ++ [r]) after where
  enabled := by
    rw [hc, enabledResources_of_namesDisabled hids (hnext.namesDisabled hran.file)]
  updating := hnext.updating
  setCalls := by
    have hnew : sets s.calls = (more ++ [r]).filter fun x => !tests x c.machine := by
      rw [hran.setCalls, List.append_assoc]
      exact h.filter_done fun x hx => mem_of_mem_before hx
    rw [List.flatten_append, sets_append, h.setCalls, List.flatten_singleton, hnew,
      List.append_assoc]
    exact (List.filter_append ..).symm
  doneTests := by
    intro x hx
    have hxr : x ∈ resources := by
      refine hmem x ?_
      rw [List.append_assoc] at hx
      rcases List.mem_append.mp hx with hx | hx
      · exact List.mem_append_left _ hx
      · exact List.mem_append_right _ (mem_of_mem_before hx)
    rw [hnext.sameTests x hxr]
    exact hran.done x hx
  todoTests := by
    intro x hx
    have hmore : x ∈ more ++ r :: after := List.mem_append_right _ (List.mem_cons_of_mem _ hx)
    rw [hnext.sameTests x (hmem x (List.mem_append_right _ hmore)), hafter x hx,
      h.todoTests x hmore]
  restarts := by
    have := h.restarts
    rw [List.length_append, List.countP_append, List.countP_append, List.countP_singleton,
      if_pos (hr _), List.length_singleton]
    omega

section Runs

variable {graph : List (Resource W)} {c c₁ : ConfigurationContext W}

variable (resources) in
theorem enabledResources_fresh (hstate : c.state = none) :
    enabledResources resources c = resources.filter (·.enabled) := by
  refine List.filter_eq_self.mpr fun r _ => ?_
  simp [getDisabledResourceIdsFromState, hstate]

theorem interrupted_atStart (hp : p.uninstall = false) (hL : Lawful p tests resources)
    (hconsent : Harmless tests resources p.userConsent)
    (hreboot : Harmless tests resources p.requestReboot) (hids : IdsApart resources)
    (hstate : c.state = none) (hupdating : c.updating p = false)
    (hgraph : buildDependencyGraph p resources c = (.ok graph, c₁)) {runs : List (List (Call W))}
    {e : ConfigurationContext W} (h : Interrupted p tests resources c runs e) :
    ∃ done todo, graph = done ++ todo ∧ AtStart p tests resources c runs e done todo := by
  induction h with
  | start =>
    exact ⟨[], graph, rfl, ⟨rfl, hupdating, rfl, fun _ h => (nomatch h), fun _ _ => rfl,
      Nat.le_refl 0⟩⟩
  | @restart e e' runs s hprev hrun hnext ih =>
    obtain ⟨done, todo, rfl, hstart⟩ := ih
    rcases apply_lawful hp hL hconsent hreboot hgraph hstart.enabled hstart.updating with
      ⟨s', hrun', -⟩ | ⟨before, r, after, s', hsplit, hr, ht, hrun', hran, hafter⟩
    · exact nomatch (Prod.ext_iff.mp (hrun.symm.trans hrun')).1
    · obtain rfl : s = s' := (Prod.ext_iff.mp (hrun.symm.trans hrun')).2
      obtain ⟨more, rfl, rfl⟩ := hstart.split hsplit ht
      refine ⟨done ++ more ++ [r], after, by simp, ?_⟩
      exact hstart.next hids (enabledResources_fresh resources hstate) hr hran hafter hnext
        (mem_graph hp hgraph)

/-- **An installation that is interrupted by restarts sets what an uninterrupted one
would set, each resource once and in order, and then has nothing left to do.** -/
theorem install_interrupted (p : Installer W) (tests : Resource W → W → Bool)
    (resources graph : List (Resource W)) (c c₁ : ConfigurationContext W)
    (hp : p.uninstall = false) (hL : Lawful p tests resources)
    (hconsent : Harmless tests resources p.userConsent)
    (hreboot : Harmless tests resources p.requestReboot) (hids : IdsApart resources)
    (hstate : c.state = none) (hupdating : c.updating p = false)
    (hgraph : buildDependencyGraph p resources c = (.ok graph, c₁)) :
    InstallsOnce p tests resources c graph := by
  intro runs e h
  obtain ⟨done, todo, rfl, hstart⟩ :=
    interrupted_atStart hp hL hconsent hreboot hids hstate hupdating hgraph h
  have hfresh := enabledResources_fresh resources hstate
  rcases apply_lawful hp hL hconsent hreboot hgraph hstart.enabled hstart.updating with
    ⟨s, hrun, hran⟩ | ⟨before, r, after, s, hsplit, hr, ht, hrun, -⟩
  · refine ⟨.succeeded, s, hrun, .inr ⟨rfl, ?_, ?_, ?_⟩⟩
    · intro r hr he
      refine hran.done r ((graph_perm hp hgraph).mem_iff.mpr ?_)
      rw [hfresh]
      exact List.mem_filter.mpr ⟨hr, he⟩
    · rw [sets_append, hstart.setCalls, hran.setCalls, hstart.filter_done fun _ h => h,
        List.filter_append]
    · intro e' hnext
      have henabled := enabledResources_of_namesDisabled hids (hnext.namesDisabled hran.file)
      have htrue : ∀ r ∈ done ++ todo, tests r e'.machine = true := by
        intro r hr
        rw [hnext.sameTests r (mem_graph hp hgraph r hr)]
        exact hran.done r hr
      rcases apply_lawful hp hL hconsent hreboot hgraph
          (henabled.trans hfresh.symm) hnext.updating with
        ⟨s', hrun', hran'⟩ | ⟨before, r, after, s', hsplit, -, ht, -⟩
      · refine ⟨s', hrun', ?_⟩
        rw [hran'.setCalls]
        exact List.filter_eq_nil_iff.mpr fun r hr => by simp [htrue r hr]
      · have hr : r ∈ done ++ todo := hsplit ▸ List.mem_append_right _ List.mem_cons_self
        rw [htrue r hr] at ht
        exact nomatch ht
  · obtain ⟨more, rfl, rfl⟩ := hstart.split hsplit ht
    refine ⟨.pendingRestart, s, hrun, .inl ⟨rfl, ?_⟩⟩
    have hle : (done ++ (more ++ r :: after)).countP (·.requiresReboot c.machine)
        ≤ resources.countP (·.requiresReboot c.machine) := by
      rw [(graph_perm hp hgraph).countP_eq]
      exact (List.filter_sublist.trans List.filter_sublist).countP_le
    have hrestarts := hstart.restarts
    have hone : (r :: after).countP (·.requiresReboot c.machine)
        = after.countP (·.requiresReboot c.machine) + 1 := List.countP_cons_of_pos (hr c.machine)
    rw [List.countP_append, List.countP_append, hone] at hle
    omega

end Runs

end Loop

/-! ## Switches -/

/-- One of the switches of a machine. -/
def toggle (id : String) (i : Nat) (enabled requiresReboot : Bool) : Resource (Nat → Bool) where
  id := id
  enabled := enabled
  requiresReboot := fun _ => requiresReboot
  test := Eff.get >>= fun c => pure (c.machine i)
  set := Eff.modify fun c => { c with machine := fun j => if j = i then true else c.machine j }
  unset := pure ()

def toggleInstaller : Installer (Nat → Bool) where
  uninstall := false
  version := "1.0.0"
  toUpperInvariant := Char.toUpper
  userConsent := pure true
  requestReboot := pure true

def allOff : ConfigurationContext (Nat → Bool) where
  installedVersion := none
  state := none
  stateFile := none
  restartPending := false
  delayReboot := false
  machine := fun _ => false

/-- What `Test` of a resource answers. -/
def answer (r : Resource (Nat → Bool)) (machine : Nat → Bool) : Bool :=
  match (r.test { allOff with machine := machine }).1 with
  | .ok b => b
  | .error _ => false

theorem harmless_answer (resources : List (Resource (Nat → Bool))) :
    Harmless answer resources (pure true) :=
  ⟨fun c => ⟨true, c, rfl, fun _ _ => rfl, rfl⟩⟩

theorem apart_toggle {id id' : String} {i j : Nat} {enabled enabled' reboot reboot' : Bool}
    (h : j ≠ i) : Apart answer (toggle id i enabled reboot) (toggle id' j enabled' reboot') :=
  fun _ => if_neg h

theorem lawful_toggles {rs : List (Resource (Nat → Bool))}
    (hrs : ∀ r ∈ rs, ∃ id i enabled reboot, r = toggle id i enabled reboot)
    (hpair : rs.Pairwise fun r r' => Apart answer r r' ∧ Apart answer r' r) :
    Lawful toggleInstaller answer rs where
  test := by
    intro r hr c
    obtain ⟨id, i, enabled, reboot, rfl⟩ := hrs r hr
    rfl
  set := by
    intro r hr c
    obtain ⟨id, i, enabled, reboot, rfl⟩ := hrs r hr
    exact ⟨_, rfl, if_pos rfl, rfl, rfl⟩
  others := hpair
  runAllways := by
    intro r hr
    obtain ⟨id, i, enabled, reboot, rfl⟩ := hrs r hr
    rfl
  requiresReboot := by
    intro r hr _ _
    obtain ⟨id, i, enabled, reboot, rfl⟩ := hrs r hr
    rfl

def kernel : Resource (Nat → Bool) := toggle "kernel" 0 true true

def distro : Resource (Nat → Bool) := toggle "distro" 1 true false

/-- A disabled resource with the id of an enabled one. -/
def otherDistro : Resource (Nat → Bool) := toggle "distro" 2 false false

theorem install_interrupted_kernel :
    InstallsOnce toggleInstaller answer [kernel, distro] allOff [kernel, distro] := by
  refine install_interrupted toggleInstaller answer _ _ allOff _ rfl (lawful_toggles ?_ ?_)
    (harmless_answer _) (harmless_answer _) ?_ rfl rfl
    (buildDependencyGraph_onePass rfl rfl rfl rfl)
  · exact List.forall_mem_cons.mpr ⟨⟨_, _, _, _, rfl⟩,
      List.forall_mem_cons.mpr ⟨⟨_, _, _, _, rfl⟩, List.forall_mem_nil _⟩⟩
  · exact List.pairwise_pair.mpr ⟨apart_toggle (by decide), apart_toggle (by decide)⟩
  · intro r _ r' hr' _ hd
    rcases List.mem_cons.mp hr' with rfl | hr'
    · exact nomatch hd
    · obtain rfl := List.mem_singleton.mp hr'
      exact nomatch hd

/-- The machine after the kernel was set. -/
def kernelOn : ConfigurationContext (Nat → Bool) where
  installedVersion := none
  state := some (.jArray ["distro"])
  stateFile := some ["distro"]
  restartPending := false
  delayReboot := false
  machine := fun j => if j = 0 then true else false

/-- The second process takes `distro` for the resource that is disabled. -/
theorem install_loses_shared_id :
    ¬ ∀ (p : Installer (Nat → Bool)) (tests : Resource (Nat → Bool) → (Nat → Bool) → Bool)
        (resources graph : List (Resource (Nat → Bool))) (c c₁ : ConfigurationContext (Nat → Bool)),
      p.uninstall = false → Lawful p tests resources → Harmless tests resources p.userConsent →
      Harmless tests resources p.requestReboot → c.state = none → c.updating p = false →
      buildDependencyGraph p resources c = (.ok graph, c₁) →
      InstallsOnce p tests resources c graph := by
  intro h
  have hlawful : Lawful toggleInstaller answer [otherDistro, kernel, distro] := by
    refine lawful_toggles ?_ ?_
    · exact List.forall_mem_cons.mpr ⟨⟨_, _, _, _, rfl⟩,
        List.forall_mem_cons.mpr ⟨⟨_, _, _, _, rfl⟩,
        List.forall_mem_cons.mpr ⟨⟨_, _, _, _, rfl⟩, List.forall_mem_nil _⟩⟩⟩
    · refine List.pairwise_cons.mpr ⟨?_, List.pairwise_pair.mpr
        ⟨apart_toggle (by decide), apart_toggle (by decide)⟩⟩
      exact List.forall_mem_cons.mpr ⟨⟨apart_toggle (by decide), apart_toggle (by decide)⟩,
        List.forall_mem_cons.mpr ⟨⟨apart_toggle (by decide), apart_toggle (by decide)⟩,
          List.forall_mem_nil _⟩⟩
  have honce := h toggleInstaller answer _ [kernel, distro] allOff _ rfl hlawful (harmless_answer _)
    (harmless_answer _) rfl rfl (buildDependencyGraph_onePass rfl rfl rfl rfl)
  -- the first process ends after the kernel
  have hrun : apply toggleInstaller [otherDistro, kernel, distro] ⟨allOff, []⟩
      = (.ok .pendingRestart,
        ⟨{ kernelOn with state := some (.strings ["distro"]), restartPending := true },
        [.test kernel, .set kernel]⟩) := by
    have hg : onContext (buildDependencyGraph toggleInstaller [otherDistro, kernel, distro])
        ⟨allOff, []⟩ = (.ok [kernel, distro],
          ⟨{ allOff with state := some (.strings ["distro"]), stateFile := some ["distro"] },
            []⟩) := by
      rw [onContext, buildDependencyGraph_onePass rfl rfl rfl rfl]
      rfl
    rw [apply, Eff.bind_ok hg]
    rfl
  have hnext : Restarted toggleInstaller answer [otherDistro, kernel, distro]
      { kernelOn with state := some (.strings ["distro"]), restartPending := true } kernelOn :=
    ⟨fun _ _ => rfl, rfl, rfl, rfl, rfl⟩
  have hrun' : (apply toggleInstaller [otherDistro, kernel, distro] ⟨kernelOn, []⟩).1
    = .ok .succeeded ∧
      (apply toggleInstaller [otherDistro, kernel, distro] ⟨kernelOn, []⟩).2.context.machine
      1 = false := by
    have hg : onContext (buildDependencyGraph toggleInstaller [otherDistro, kernel, distro])
        ⟨kernelOn, []⟩ = (.ok [kernel],
          ⟨{ kernelOn with state := some (.strings ["distro"]) }, []⟩) := by
      rw [onContext, buildDependencyGraph_onePass rfl rfl rfl rfl]
      rfl
    rw [apply, Eff.bind_ok hg]
    exact ⟨rfl, rfl⟩
  obtain ⟨ret, s, happly, hend⟩ := honce _ _ (.restart (.start allOff) hrun hnext)
  rw [happly] at hrun'
  rcases hend with ⟨rfl, -⟩ | ⟨-, hend⟩
  · cases hrun'.1
  · have hd := hend.desired distro (by simp) rfl
    cases hd.symm.trans hrun'.2

end ContainerDesktop.DesiredStateConfiguration
