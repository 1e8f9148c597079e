import ContainerDesktop.DesiredStateConfiguration.Schedule

/-!
# The order of the dependency graph

The passes shorten the `DependsOn` lists they order by.  What is lost from a list
is never lost from sight: an entry that is gone names a resource that is already
resolved (`Explained`), so a resource whose list has run empty stands after
resources with all the ids it had in the manifest (`Ordered`).

`Loop` is the `while` with its variables as they are in the source.
`loop_terminates` says that it stops, after at most one pass more than there are
resources, where `resolve` stops.  `buildDependencyGraph_sound` adds what the last
lines make of the order: the resources that always run first, the reversal, and
the resources that are never uninstalled.
-/

namespace ContainerDesktop.DesiredStateConfiguration

variable {W : Type}

/-! ## One entry after the other -/

/-- An entry that `sweep` loses was resolved. -/
theorem mem_sweep_or (f : String → Bool) : ∀ (ds : List String) (d : String), d ∈ ds →
    d ∈ sweep f ds ∨ f d = true := by
  intro ds
  induction ds using sweep.induct f with
  | case1 => intro d hd; exact nomatch hd
  | case2 d hf =>
    intro e he
    obtain rfl := List.mem_singleton.mp he
    exact .inr hf
  | case3 d hf kept ds ih =>
    intro e he
    rw [sweep, if_pos hf]
    rcases List.mem_cons.mp he with rfl | he
    · exact .inr hf
    · rcases List.mem_cons.mp he with rfl | he
      · exact .inl List.mem_cons_self
      · exact (ih e he).imp_left (List.mem_cons_of_mem _)
  | case4 d ds hf ih =>
    intro e he
    have hs : sweep f (d :: ds) = d :: sweep f ds := by
      cases ds <;> exact if_neg hf
    rw [hs]
    rcases List.mem_cons.mp he with rfl | he
    · exact .inl List.mem_cons_self
    · exact (ih e he).imp_left (List.mem_cons_of_mem _)

theorem isResolved_iff {p : Installer W} {g : List (Resource W)} {id : String} :
    isResolved p g id = true ↔ ∃ x ∈ g, p.equalsIgnoreCase x.id id = true := List.any_eq_true

/-- Each resource of `g` stands after resources with the ids it depends on. -/
def Ordered (p : Installer W) (g : List (Resource W)) : Prop :=
  ∀ pre r post, g = pre ++ r :: post → ∀ d ∈ r.dependsOn, isResolved p pre d = true

/-- The entries that are gone name resources of `g`. -/
def Explained (p : Installer W) (g : List (Resource W)) (x : Pending W) : Prop :=
  ∀ d ∈ x.resource.dependsOn, d ∈ x.dependsOn ∨ isResolved p g d = true

theorem ordered_nil (p : Installer W) : Ordered p [] := by
  intro pre r post h
  cases pre <;> exact nomatch h

theorem Ordered.snoc {p : Installer W} {g : List (Resource W)} (h : Ordered p g) {r : Resource W}
    (hr : ∀ d ∈ r.dependsOn, isResolved p g d = true) : Ordered p (g ++ [r]) := by
  intro pre x post he d hd
  rcases List.eq_nil_or_concat post with rfl | ⟨post, y, rfl⟩
  · obtain ⟨rfl, hx⟩ := List.append_inj' he rfl
    obtain rfl := (List.cons.inj hx).1
    exact hr d hd
  · rw [List.concat_eq_append, ← List.cons_append, ← List.append_assoc] at he
    exact h pre x post (List.append_inj' he rfl).1 d hd

theorem Explained.mono {p : Installer W} {g g' : List (Resource W)} (hg : g <+: g') {x : Pending W}
    (h : Explained p g x) : Explained p g' x := by
  intro d hd
  refine (h d hd).imp_right fun hr => ?_
  obtain ⟨y, hy, hyd⟩ := isResolved_iff.mp hr
  exact isResolved_iff.mpr ⟨y, hg.subset hy, hyd⟩

theorem Explained.sweep {p : Installer W} {g : List (Resource W)} {x : Pending W}
    (h : Explained p g x) : Explained p g ⟨x.resource, sweep (isResolved p g) x.dependsOn⟩ := by
  intro d hd
  rcases h d hd with hx | hr
  · exact mem_sweep_or _ _ d hx
  · exact .inr hr

/-! ## Passes -/

theorem resolvePass_ordered (p : Installer W) : ∀ (rest : List (Pending W)) (g : List (Resource W)),
    Ordered p g → (∀ x ∈ rest, Explained p g x) →
      Ordered p (resolvePass p g rest).1 ∧
        ∀ x ∈ (resolvePass p g rest).2, Explained p (resolvePass p g rest).1 x := by
  intro rest
  induction rest with
  | nil => intro g hg _; exact ⟨hg, fun _ h => nomatch h⟩
  | cons x rest ih =>
    intro g hg hrest
    obtain ⟨hx, hrest⟩ := List.forall_mem_cons.mp hrest
    have hext := resolvePass_extends p rest g
    cases he : x.resource.enabled with
    | false =>
      obtain ⟨hord, hexp⟩ := ih g hg hrest
      rw [resolvePass_disabled he]
      exact ⟨hord, List.forall_mem_cons.mpr ⟨hx.mono hext, hexp⟩⟩
    | true =>
      by_cases hs : sweep (isResolved p g) x.dependsOn = []
      · rw [resolvePass_now he hs]
        have hdeps : ∀ d ∈ x.resource.dependsOn, isResolved p g d = true := by
          intro d hd
          refine (hx.sweep d hd).resolve_left fun hmem => ?_
          rw [hs] at hmem
          exact nomatch hmem
        exact ih _ (hg.snoc hdeps) fun y hy => (hrest y hy).mono (List.prefix_append _ _)
      · obtain ⟨hord, hexp⟩ := ih g hg hrest
        rw [resolvePass_wait he hs]
        exact ⟨hord, List.forall_mem_cons.mpr ⟨hx.sweep.mono hext, hexp⟩⟩

/-- A pass neither loses nor makes up a resource, nor counts one twice. -/
theorem resolvePass_perm (p : Installer W) : ∀ (rest : List (Pending W)) (g : List (Resource W)),
    ((resolvePass p g rest).1 ++ (resolvePass p g rest).2.map (·.resource)).Perm
      (g ++ rest.map (·.resource)) := by
  intro rest
  induction rest with
  | nil => intro g; exact List.Perm.refl _
  | cons x rest ih =>
    intro g
    have hwait : ∀ y : Pending W, y.resource = x.resource →
        ((resolvePass p g rest).1 ++ (y :: (resolvePass p g rest).2).map (·.resource)).Perm
          (g ++ (x :: rest).map (·.resource)) := by
      intro y hy
      rw [List.map_cons, List.map_cons, hy]
      exact List.perm_middle.trans (((ih g).cons _).trans List.perm_middle.symm)
    cases he : x.resource.enabled with
    | false => rw [resolvePass_disabled he]; exact hwait x rfl
    | true =>
      by_cases hs : sweep (isResolved p g) x.dependsOn = []
      · rw [resolvePass_now he hs]
        simpa using ih (g ++ [x.resource])
      · rw [resolvePass_wait he hs]
        exact hwait _ rfl

theorem resolve_ordered (p : Installer W) (rest : List (Pending W)) (g : List (Resource W))
    (hg : Ordered p g) (hrest : ∀ x ∈ rest, Explained p g x) : Ordered p (resolve p g rest).1 := by
  induction g, rest using resolve.induct p with
  | case1 g => rw [resolve, if_pos rfl]; exact hg
  | case2 g rest hne hstuck =>
    rw [resolve, if_neg hne, if_pos hstuck]
    exact (resolvePass_ordered p rest g hg hrest).1
  | case3 g rest hne hprog ih =>
    obtain ⟨hord, hexp⟩ := resolvePass_ordered p rest g hg hrest
    rw [resolve, if_neg hne, if_neg hprog]
    exact ih hord hexp

theorem resolve_perm (p : Installer W) (rest : List (Pending W)) (g : List (Resource W)) :
    ((resolve p g rest).1 ++ (resolve p g rest).2.map (·.resource)).Perm
      (g ++ rest.map (·.resource)) := by
  induction g, rest using resolve.induct p with
  | case1 g => rw [resolve, if_pos rfl]
  | case2 g rest hne hstuck =>
    rw [resolve, if_neg hne, if_pos hstuck]
    exact resolvePass_perm p rest g
  | case3 g rest hne hprog ih =>
    rw [resolve, if_neg hne, if_neg hprog]
    exact ih.trans (resolvePass_perm p rest g)

/-! ## The loop -/

/-- The variables of the `while`. -/
structure Loop (W : Type) where
  resolvedGraph : List (Resource W)
  rest : List (Pending W)
  count : Int

/-- `rest.Count > 0 && resolvedGraph.Count != count` -/
def Loop.goesOn (s : Loop W) : Bool := decide (s.rest.length > 0 ∧ s.resolvedGraph.length ≠ s.count)

/-- The body of the `while`. -/
def Loop.next (p : Installer W) (s : Loop W) : Loop W where
  resolvedGraph := (resolvePass p s.resolvedGraph s.rest).1
  rest := (resolvePass p s.resolvedGraph s.rest).2
  count := s.resolvedGraph.length

/-- The `while` stops after `n` passes, in `t`. -/
inductive Stops (p : Installer W) : Loop W → Nat → Loop W → Prop
  | now {s : Loop W} : s.goesOn = false → Stops p s 0 s
  | later {s t : Loop W} {n : Nat} : s.goesOn = true → Stops p (s.next p) n t → Stops p s (n + 1) t

theorem goesOn_iff {s : Loop W} :
    s.goesOn = true ↔ s.rest ≠ [] ∧ (s.resolvedGraph.length : Int) ≠ s.count := by
  simp [Loop.goesOn, List.length_pos_iff]

theorem loop_terminates (p : Installer W) (g : List (Resource W)) (rest : List (Pending W))
    (count : Int) (hcount : (g.length : Int) ≠ count) :
    ∃ n t, Stops p ⟨g, rest, count⟩ n t ∧ n ≤ rest.length + 1 ∧
      (t.resolvedGraph, t.rest) = resolve p g rest := by
  induction g, rest using resolve.induct p generalizing count with
  | case1 g =>
    refine ⟨0, _, .now ?_, by omega, ?_⟩
    · simp [Loop.goesOn]
    · rw [resolve, if_pos rfl]
  | case2 g rest hne hstuck =>
    refine ⟨1, _, .later (goesOn_iff.mpr ⟨hne, hcount⟩) (.now ?_), by omega, ?_⟩
    · refine Bool.eq_false_iff.mpr fun h => ?_
      exact (goesOn_iff.mp h).2 (by rw [Loop.next, hstuck])
    · rw [resolve, if_neg hne, if_pos hstuck]
      rfl
  | case3 g rest hne hprog ih =>
    obtain ⟨n, t, hstops, hn, ht⟩ := ih g.length (by omega)
    refine ⟨n + 1, t, .later (goesOn_iff.mpr ⟨hne, hcount⟩) hstops, ?_, ?_⟩
    · have hlen := resolvePass_length p rest g
      have hge := (resolvePass_extends p rest g).length_le
      omega
    · rw [resolve, if_neg hne, if_neg hprog, ht]

/-! ## The graph -/

/-- The enabled resources, on uninstall without those that are never uninstalled. -/
def keptResources (p : Installer W) (resources : List (Resource W)) (c : ConfigurationContext W) :
    List (Resource W) :=
  (enabledResources resources c).filter fun r => !(p.uninstall && r.noUninstall)

/-- The resources in the order of the passes. -/
def resolvedOrder (p : Installer W) (resources : List (Resource W)) (c : ConfigurationContext W) :
    List (Resource W) :=
  (resolve p [] ((restOf resources c).map Pending.ofResource)).1

/-- What a dependency graph promises. -/
structure Sound (p : Installer W) (resources : List (Resource W)) (c : ConfigurationContext W)
    (graph : List (Resource W)) : Prop where
  terminates : ∃ n t, Stops p ⟨[], (restOf resources c).map Pending.ofResource, -1⟩ n t ∧
    t.resolvedGraph = resolvedOrder p resources c ∧ t.rest = []
  once : graph.Perm (keptResources p resources c)
  first : ∃ others, graph = (keptResources p resources c).filter (·.runAllwaysFirst) ++ others ∧
    ∀ r ∈ others, r.runAllwaysFirst = false
  install : p.uninstall = false → ∀ pre r post, graph = pre ++ r :: post →
    r.runAllwaysFirst = false → ∀ d ∈ r.dependsOn, ∃ x ∈ pre, p.equalsIgnoreCase x.id d = true
  /-- `r` is the resource at one place of the resolved order, and `after` what stands
  behind it in the graph. -/
  uninstall : p.uninstall = true → ∀ pre r post, resolvedOrder p resources c = pre ++ r :: post →
    r.noUninstall = false → ∃ before after, graph = before ++ r :: after ∧
      after.length = (pre.filter fun x => !x.noUninstall).length ∧ ∀ d ∈ r.dependsOn,
        (∃ x ∈ pre, p.equalsIgnoreCase x.id d = true) ∧
          ∀ x ∈ pre, p.equalsIgnoreCase x.id d = true → x.noUninstall = false → x ∈ after

theorem buildDependencyGraph_eq {p : Installer W} {resources graph : List (Resource W)}
    {c c' : ConfigurationContext W} (h : buildDependencyGraph p resources c = (.ok graph, c')) :
    (resolve p [] ((restOf resources c).map Pending.ofResource)).2 = [] ∧
      graph = arrange p ((enabledResources resources c).filter (·.runAllwaysFirst))
        (resolvedOrder p resources c) := by
  rw [buildDependencyGraph, Eff.bind_ok (Eff.get_run c)] at h
  dsimp only at h
  by_cases hleft : (resolve p [] ((restOf resources c).map Pending.ofResource)).2.length > 0
  · rw [if_pos hleft, Eff.throw_run] at h
    cases (Prod.ext_iff.mp h).1
  · rw [if_neg hleft] at h
    refine ⟨List.length_eq_zero_iff.mp (by omega), ?_⟩
    exact (Except.ok.inj (Prod.ext_iff.mp h).1).symm

section Graph

variable {p : Installer W} {resources : List (Resource W)} {c : ConfigurationContext W}

theorem map_ofResource (rs : List (Resource W)) :
    (rs.map Pending.ofResource).map (·.resource) = rs := by
  rw [List.map_map]
  exact List.map_id rs

theorem resolvedOrder_perm (h : (resolve p [] ((restOf resources c).map Pending.ofResource)).2
      = []) :
    (resolvedOrder p resources c).Perm (restOf resources c) := by
  have hperm := resolve_perm p ((restOf resources c).map Pending.ofResource) []
  rw [h, List.map_nil, List.append_nil, List.nil_append, map_ofResource] at hperm
  exact hperm

theorem resolvedOrder_ordered (p : Installer W) (resources : List (Resource W))
    (c : ConfigurationContext W) : Ordered p (resolvedOrder p resources c) := by
  refine resolve_ordered p _ [] (ordered_nil p) fun x hx => ?_
  obtain ⟨r, -, rfl⟩ := List.mem_map.mp hx
  intro d hd
  exact .inl hd

theorem not_first_of_mem {r : Resource W} (hr : r ∈ restOf resources c) :
    r.runAllwaysFirst = false := by
  rw [restOf, List.mem_filter] at hr
  simpa using hr.2

theorem arrange_uninstall (hp : p.uninstall = true) (first order : List (Resource W)) :
    arrange p first order = (first.filter fun x => !x.noUninstall) ++
      (order.filter fun x => !x.noUninstall).reverse := by
  simp [arrange, hp]

theorem filter_install (hp : p.uninstall = false) (rs : List (Resource W)) :
    (rs.filter fun r => !(p.uninstall && r.noUninstall)) = rs :=
  List.filter_eq_self.mpr fun r _ => by rw [hp]; rfl

theorem arrange_perm (first : List (Resource W)) {order rest : List (Resource W)}
    (h : order.Perm rest) :
    (arrange p first order).Perm ((first ++ rest).filter fun r =>
      !(p.uninstall && r.noUninstall)) := by
  cases hp : p.uninstall with
  | false =>
    rw [← hp, filter_install hp, arrange_install hp]
    exact h.append_left first
  | true =>
    rw [arrange_uninstall hp, List.filter_append]
    simp only [Bool.true_and]
    exact ((List.reverse_perm _).trans (h.filter _)).append_left _

/-- What stands behind the resources that run first. -/
theorem arrange_first (first order : List (Resource W)) :
    ∃ others, arrange p first order
        = (first.filter fun r => !(p.uninstall && r.noUninstall)) ++ others ∧
      ∀ r ∈ others, r ∈ order := by
  cases hp : p.uninstall with
  | false => exact ⟨order, by rw [← hp, filter_install hp, arrange_install hp], fun _ h => h⟩
  | true =>
    refine ⟨(order.filter fun x => !x.noUninstall).reverse, by simp [arrange_uninstall hp], ?_⟩
    intro r hr
    exact (List.mem_filter.mp (List.mem_reverse.mp hr)).1

/-- In front of a resource that does not run first stand all that do. -/
theorem split_behind {first order pre post : List (Resource W)} {r : Resource W}
    (h : first ++ order = pre ++ r :: post) (hr : r ∉ first) :
    ∃ pre', pre = first ++ pre' ∧ order = pre' ++ r :: post := by
  rcases List.append_eq_append_iff.mp h with ⟨pre', hpre, horder⟩ | ⟨mid, hfirst, hmid⟩
  · exact ⟨pre', hpre, horder⟩
  · cases mid with
    | nil => exact ⟨[], by simpa using hfirst.symm, hmid.symm⟩
    | cons x mid =>
      obtain rfl := (List.cons.inj hmid).1
      exact absurd (by simp [hfirst]) hr

theorem keptResources_first :
    (keptResources p resources c).filter (·.runAllwaysFirst) =
      ((enabledResources resources c).filter (·.runAllwaysFirst)).filter fun r =>
        !(p.uninstall && r.noUninstall) := by
  rw [keptResources, List.filter_filter, List.filter_filter]
  exact List.filter_congr fun r _ => Bool.and_comm _ _

theorem buildDependencyGraph_perm {graph : List (Resource W)} {c' : ConfigurationContext W}
    (h : buildDependencyGraph p resources c = (.ok graph, c')) :
    graph.Perm (keptResources p resources c) := by
  obtain ⟨hleft, rfl⟩ := buildDependencyGraph_eq h
  exact (arrange_perm _ (resolvedOrder_perm hleft)).trans ((List.filter_append_perm _ _).filter _)

/-- **The graph holds the enabled resources once, each after the ones it depends on,
and on uninstall before them.** -/
theorem buildDependencyGraph_sound (p : Installer W) (resources graph : List (Resource W))
    (c c' : ConfigurationContext W) (h : buildDependencyGraph p resources c = (.ok graph, c')) :
    Sound p resources c graph := by
  have honce := buildDependencyGraph_perm h
  obtain ⟨hleft, rfl⟩ := buildDependencyGraph_eq h
  have hord := resolvedOrder_ordered p resources c
  have hperm := resolvedOrder_perm hleft
  refine ⟨?_, honce, ?_, fun hp pre r post hsplit hr d hd => ?_, fun hp pre r post hsplit hr => ?_⟩
  · obtain ⟨n, t, hstops, -, ht⟩ :=
      loop_terminates p [] ((restOf resources c).map Pending.ofResource) (-1) (by simp)
    obtain ⟨hgraph, hrest⟩ := Prod.ext_iff.mp ht
    exact ⟨n, t, hstops, hgraph, hrest.trans hleft⟩
  · obtain ⟨others, hgraph, hothers⟩ := arrange_first (p := p)
      ((enabledResources resources c).filter (·.runAllwaysFirst)) (resolvedOrder p resources c)
    refine ⟨others, ?_, fun r hr => not_first_of_mem (hperm.mem_iff.mp (hothers r hr))⟩
    rw [hgraph, keptResources_first]
  · rw [arrange_install hp] at hsplit
    have hnot : r ∉ (enabledResources resources c).filter (·.runAllwaysFirst) := by
      simp [hr]
    obtain ⟨pre', rfl, horder⟩ := split_behind hsplit hnot
    obtain ⟨x, hx, hxd⟩ := isResolved_iff.mp (hord pre' r post horder d hd)
    exact ⟨x, List.mem_append_right _ hx, hxd⟩
  · refine ⟨((enabledResources resources c).filter (·.runAllwaysFirst)).filter
        (fun x => !x.noUninstall) ++ (post.filter fun x => !x.noUninstall).reverse,
      (pre.filter fun x => !x.noUninstall).reverse, ?_, List.length_reverse, fun d hd => ⟨?_, ?_⟩⟩
    · rw [arrange_uninstall hp, hsplit, List.filter_append, List.filter_cons_of_pos (by simp [hr])]
      simp
    · exact isResolved_iff.mp (hord pre r post hsplit d hd)
    · intro x hx _ hkept
      exact List.mem_reverse.mpr (List.mem_filter.mpr ⟨hx, by simp [hkept]⟩)

end Graph

/-- The resource that `b` depends on is listed after it, and written in another case. -/
theorem buildDependencyGraph_sound_uninstall :
    Sound { plainInstaller with uninstall := true } [node "b" ["A"], node "a" []] plainContext
      [node "b" ["A"], node "a" []] := by
  have hres : resolve { plainInstaller with uninstall := true } []
      ([node "b" ["A"], node "a" []].map Pending.ofResource)
      = ([node "a" [], node "b" ["A"]], []) := by
    rw [resolve, if_neg (by simp), if_neg (by decide), resolve, if_neg (by decide),
      if_neg (by decide), resolve, if_pos (by rfl)]
    rfl
  have hrest : restOf [node "b" ["A"], node "a" []] plainContext
    = [node "b" ["A"], node "a" []] := rfl
  refine buildDependencyGraph_sound _ _ _ _
    { plainContext with state := some (.strings []), stateFile := some [] } ?_
  rw [buildDependencyGraph, Eff.bind_ok (Eff.get_run _)]
  dsimp only
  rw [hrest, hres]
  rfl

end ContainerDesktop.DesiredStateConfiguration
