import ContainerDesktop.DesiredStateConfiguration.Context

/-!
# The dependency graph of a manifest

`BuildDependencyGraph` orders the enabled resources so that each stands after
the ones it depends on.  It passes over the work list `rest` again and again.
In a pass, each resource loses the entries of its `DependsOn` list that name a
resolved resource, and a resource whose list has run empty is resolved.  The
passes end when nothing is left, or when a pass has resolved nothing.

The source shortens the `DependsOn` lists of the resources themselves.  Here a
resource keeps the list of the manifest, and `Pending` carries what is left of
it.
-/

namespace ContainerDesktop.DesiredStateConfiguration

variable {W : Type}

/-- A resource of the work list, and what is left of its `DependsOn`. -/
structure Pending (W : Type) where
  resource : Resource W
  dependsOn : List String

def Pending.ofResource (r : Resource W) : Pending W := ⟨r, r.dependsOn⟩

/-- `for (var j = 0; j < DependsOn.Count; j++)`: an entry that is resolved is
removed, and the loop steps over the entry that moved into its place. -/
def sweep (resolved : String → Bool) : List String → List String
  | [] => []
  | d :: ds =>
      if resolved d then
        match ds with
        | [] => []
        | kept :: ds => kept :: sweep resolved ds
      else d :: sweep resolved ds

/-- `resolvedGraph.Any(x => x.Id.Equals(id, StringComparison.OrdinalIgnoreCase))`. -/
def isResolved (p : Installer W) (resolvedGraph : List (Resource W)) (id : String) : Bool :=
  resolvedGraph.any fun x => p.equalsIgnoreCase x.id id

/-- One pass over the work list: what is resolved after it, and what is left. -/
def resolvePass (p : Installer W) :
    List (Resource W) → List (Pending W) → List (Resource W) × List (Pending W)
  | resolvedGraph, [] => (resolvedGraph, [])
  | resolvedGraph, x :: rest =>
      if x.resource.enabled then
        let dependsOn := sweep (isResolved p resolvedGraph) x.dependsOn
        if dependsOn = [] then resolvePass p (resolvedGraph ++ [x.resource]) rest
        else
          let (g, left) := resolvePass p resolvedGraph rest
          (g, { x with dependsOn := dependsOn } :: left)
      else
        let (g, left) := resolvePass p resolvedGraph rest
        (g, x :: left)

theorem resolvePass_disabled {p : Installer W} {x : Pending W} (h : x.resource.enabled = false)
    (g : List (Resource W)) (rest : List (Pending W)) :
    resolvePass p g (x :: rest) = ((resolvePass p g rest).1, x :: (resolvePass p g rest).2) := by
  rw [resolvePass, if_neg (by rw [h]; decide)]

theorem resolvePass_now {p : Installer W} {g : List (Resource W)} {x : Pending W}
    (he : x.resource.enabled = true) (h : sweep (isResolved p g) x.dependsOn = [])
    (rest : List (Pending W)) :
    resolvePass p g (x :: rest) = resolvePass p (g ++ [x.resource]) rest := by
  rw [resolvePass, if_pos he]
  exact if_pos h

theorem resolvePass_wait {p : Installer W} {g : List (Resource W)} {x : Pending W}
    (he : x.resource.enabled = true) (h : sweep (isResolved p g) x.dependsOn ≠ [])
    (rest : List (Pending W)) :
    resolvePass p g (x :: rest) = ((resolvePass p g rest).1,
      ⟨x.resource, sweep (isResolved p g) x.dependsOn⟩ :: (resolvePass p g rest).2) := by
  rw [resolvePass, if_pos he]
  exact if_neg h

theorem resolvePass_length (p : Installer W) : ∀ (rest : List (Pending W)) (g : List (Resource W)),
    (resolvePass p g rest).1.length + (resolvePass p g rest).2.length = g.length + rest.length := by
  intro rest
  induction rest with
  | nil => intro g; rfl
  | cons x rest ih =>
    intro g
    cases he : x.resource.enabled with
    | false =>
      have := ih g
      simp only [resolvePass_disabled he, List.length_cons]
      omega
    | true =>
      by_cases hs : sweep (isResolved p g) x.dependsOn = []
      · rw [resolvePass_now he hs, ih, List.length_append, List.length_singleton, List.length_cons]
        omega
      · have := ih g
        simp only [resolvePass_wait he hs, List.length_cons]
        omega

theorem resolvePass_extends (p : Installer W) : ∀ (rest : List (Pending W)) (g : List (Resource W)),
    g <+: (resolvePass p g rest).1 := by
  intro rest
  induction rest with
  | nil => intro g; exact List.prefix_rfl
  | cons x rest ih =>
    intro g
    cases he : x.resource.enabled with
    | false => rw [resolvePass_disabled he]; exact ih g
    | true =>
      by_cases hs : sweep (isResolved p g) x.dependsOn = []
      · rw [resolvePass_now he hs]; exact (List.prefix_append _ _).trans (ih _)
      · rw [resolvePass_wait he hs]; exact ih g

/-- What a pass leaves was in the work list. -/
theorem resolvePass_left (p : Installer W) : ∀ (rest : List (Pending W)) (g : List (Resource W)),
    ∀ x ∈ (resolvePass p g rest).2, ∃ y ∈ rest, y.resource = x.resource := by
  intro rest
  induction rest with
  | nil => intro g x hx; exact absurd hx (by simp [resolvePass])
  | cons y rest ih =>
    intro g x hx
    cases he : y.resource.enabled with
    | false =>
      rw [resolvePass_disabled he] at hx
      rcases List.mem_cons.mp hx with rfl | hx
      · exact ⟨x, List.mem_cons_self, rfl⟩
      · obtain ⟨z, hz, hzx⟩ := ih g x hx
        exact ⟨z, List.mem_cons_of_mem _ hz, hzx⟩
    | true =>
      by_cases hs : sweep (isResolved p g) y.dependsOn = []
      · rw [resolvePass_now he hs] at hx
        obtain ⟨z, hz, hzx⟩ := ih _ x hx
        exact ⟨z, List.mem_cons_of_mem _ hz, hzx⟩
      · rw [resolvePass_wait he hs] at hx
        rcases List.mem_cons.mp hx with rfl | hx
        · exact ⟨y, List.mem_cons_self, rfl⟩
        · obtain ⟨z, hz, hzx⟩ := ih g x hx
          exact ⟨z, List.mem_cons_of_mem _ hz, hzx⟩

/-- A pass neither loses nor makes up a resource. -/
theorem mem_resolvePass (p : Installer W) (r : Resource W) : ∀ (rest : List (Pending W))
    (g : List (Resource W)),
    (r ∈ (resolvePass p g rest).1 ∨ ∃ x ∈ (resolvePass p g rest).2, x.resource = r) ↔
      r ∈ g ∨ ∃ x ∈ rest, x.resource = r := by
  intro rest
  induction rest with
  | nil => intro g; simp [resolvePass]
  | cons y rest ih =>
    intro g
    cases he : y.resource.enabled with
    | false =>
      simp only [resolvePass_disabled he, List.mem_cons, exists_eq_or_imp, or_left_comm, ih]
    | true =>
      by_cases hs : sweep (isResolved p g) y.dependsOn = []
      · rw [resolvePass_now he hs, ih]
        simp only [List.mem_append, List.mem_cons, List.not_mem_nil, exists_eq_or_imp, or_assoc,
          false_or, @eq_comm _ r]
      · simp only [resolvePass_wait he hs, List.mem_cons, exists_eq_or_imp, or_left_comm, ih]

/-- `while (rest.Count > 0 && resolvedGraph.Count != count)`: a pass that has
resolved nothing is the last one. -/
def resolve (p : Installer W) (resolvedGraph : List (Resource W)) (rest : List (Pending W)) :
    List (Resource W) × List (Pending W) :=
  if rest = [] then (resolvedGraph, rest)
  else if (resolvePass p resolvedGraph rest).1.length = resolvedGraph.length then
    resolvePass p resolvedGraph rest
  else resolve p (resolvePass p resolvedGraph rest).1 (resolvePass p resolvedGraph rest).2
  termination_by rest.length
  decreasing_by
    have hlen := resolvePass_length p rest resolvedGraph
    have hge := (resolvePass_extends p rest resolvedGraph).length_le
    omega

theorem mem_resolve (p : Installer W) (r : Resource W) (rest : List (Pending W))
    (g : List (Resource W)) :
    (r ∈ (resolve p g rest).1 ∨ ∃ x ∈ (resolve p g rest).2, x.resource = r) ↔
      r ∈ g ∨ ∃ x ∈ rest, x.resource = r := by
  induction g, rest using resolve.induct p with
  | case1 g => rw [resolve, if_pos rfl]
  | case2 g rest hne hstuck => rw [resolve, if_neg hne, if_pos hstuck, mem_resolvePass]
  | case3 g rest hne hprog ih => rw [resolve, if_neg hne, if_neg hprog, ih, mem_resolvePass]

/-- `GetDisabledResourceIdsFromState`. -/
def getDisabledResourceIdsFromState (c : ConfigurationContext W) : List String :=
  match c.state with
  | some (.jArray ids) => ids
  | _ => []

/-- `Resources.Where(x => x.Enabled).Where(x => !disabledResourceIdsFromState.Any(y => y ==
x.Id))`. -/
def enabledResources (resources : List (Resource W)) (c : ConfigurationContext W) :
    List (Resource W) :=
  (resources.filter (·.enabled)).filter fun x =>
    !(getDisabledResourceIdsFromState c).any (· == x.id)

/-- `resources.Except(allwaysFirst)`. -/
def restOf (resources : List (Resource W)) (c : ConfigurationContext W) : List (Resource W) :=
  (enabledResources resources c).filter fun x => !x.runAllwaysFirst

/-- `SaveDisabledResourceIdsToState`. -/
def saveDisabledResourceIdsToState (disabledResources : List (Resource W)) :
    Eff (ConfigurationContext W) Exn Unit := do
  let ids := (disabledResources.filter fun x => !x.enabled).map (·.id)
  Eff.modify fun c => { c with state := some (.strings ids) }
  saveState

/-- The last lines of `BuildDependencyGraph`: on uninstall the order is turned
round and the `NoUninstall` resources go. -/
def arrange (p : Installer W) (allwaysFirst resolvedGraph : List (Resource W)) :
    List (Resource W) :=
  let resolvedGraph := if p.uninstall then resolvedGraph.reverse else resolvedGraph
  let resolvedGraph := allwaysFirst ++ resolvedGraph
  if p.uninstall then resolvedGraph.filter fun x => !x.noUninstall else resolvedGraph

theorem mem_arrange {p : Installer W} {allwaysFirst resolvedGraph : List (Resource W)}
    {r : Resource W} : r ∈ arrange p allwaysFirst resolvedGraph ↔
      (r ∈ allwaysFirst ∨ r ∈ resolvedGraph) ∧ (p.uninstall = true → r.noUninstall = false) := by
  cases hu : p.uninstall with
  | false => simp [arrange, hu]
  | true => simp [arrange, hu, or_and_right]

/-- On install nothing is left out and nothing is turned round. -/
theorem arrange_install {p : Installer W} (hp : p.uninstall = false)
    (first order : List (Resource W)) : arrange p first order = first ++ order := by
  simp [arrange, hp]

/-- `BuildDependencyGraph`. -/
def buildDependencyGraph (p : Installer W) (resources : List (Resource W)) :
    Eff (ConfigurationContext W) Exn (List (Resource W)) := do
  let c ← Eff.get
  let disabledResources := resources.filter fun x =>
    !x.enabled || (getDisabledResourceIdsFromState c).any (· == x.id)
  let allwaysFirst := (enabledResources resources c).filter (·.runAllwaysFirst)
  let (resolvedGraph, rest) := resolve p [] ((restOf resources c).map Pending.ofResource)
  if rest.length > 0 then
    Eff.throw (.resourceException "Could not resolve dependencies.")
  else
    saveDisabledResourceIdsToState disabledResources
    pure (arrange p allwaysFirst resolvedGraph)

/-- A work list that the first pass resolves as it stands is the graph. -/
theorem buildDependencyGraph_onePass {p : Installer W} {resources rs : List (Resource W)}
    {c : ConfigurationContext W} (hp : p.uninstall = false)
    (hfirst : (enabledResources resources c).filter (·.runAllwaysFirst) = [])
    (hrest : restOf resources c = rs)
    (hpass : resolvePass p [] (rs.map Pending.ofResource) = (rs, [])) :
    buildDependencyGraph p resources c = (.ok rs,
      (saveDisabledResourceIdsToState (resources.filter fun x =>
        !x.enabled || (getDisabledResourceIdsFromState c).any (· == x.id)) c).2) := by
  have hres : resolve p [] (rs.map Pending.ofResource) = (rs, []) := by
    cases rs with
    | nil => rw [List.map_nil, resolve, if_pos rfl]
    | cons a rs => rw [resolve, if_neg (by simp), hpass, if_neg (by simp), resolve, if_pos rfl]
  rw [buildDependencyGraph, Eff.bind_ok (Eff.get_run _)]
  dsimp only
  rw [hrest, hres, hfirst]
  exact congrArg (fun graph => (Except.ok graph, _)) (arrange_install hp [] rs)

end ContainerDesktop.DesiredStateConfiguration
