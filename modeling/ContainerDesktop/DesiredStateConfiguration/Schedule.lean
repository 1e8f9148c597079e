import ContainerDesktop.DesiredStateConfiguration.DependencyGraph

/-!
# When the passes resolve everything

A removal in `sweep` steps over the next entry, so a resource whose
dependencies are all resolved can still need several passes, and a pass that
only shortens lists counts as no progress.  Whether `resolve` comes to an end
with nothing left is a question of timing, and a schedule answers it.

A schedule gives each resource of the work list the number of a pass.  In pass
`t` an entry is `available` when it names a resource of an earlier pass, or one
of pass `t` that stands before.  `leftOver` sweeps the `DependsOn` of one
resource once per pass, and `ResolvedIn` says it runs empty in the pass the
schedule gives.  `resolve_iff` says that `resolve` leaves nothing exactly when
there is a schedule with no idle pass.

The proof follows one pass.  `Passed g S g' S'` is the pass on schedules: the
resources of pass `1` go to `g'`, the others wait with one pass less.
`isSchedule_iff_of_passed` says that it keeps schedules, in both directions,
and `exists_passed_of_resolvePass` that each pass of the code is one.
-/

namespace ContainerDesktop.DesiredStateConfiguration

variable {W : Type}

/-- A work list with the number of the pass that resolves each resource. -/
abbrev Schedule (W : Type) := List (Pending W × Nat)

/-- The entry `id` of a resource with `before` before it is resolved when pass
`t` reaches it.  The resources of `g` are resolved before the first pass. -/
def available (p : Installer W) (g : List (Resource W)) (S before : Schedule W) (t : Nat)
    (id : String) : Bool :=
  isResolved p g id
    || S.any (fun x => decide (x.2 < t) && p.equalsIgnoreCase x.1.resource.id id)
    || before.any (fun x => decide (x.2 = t) && p.equalsIgnoreCase x.1.resource.id id)

/-- What passes `1` to `t` leave of `dependsOn`. -/
def leftOver (p : Installer W) (g : List (Resource W)) (S before : Schedule W)
    (dependsOn : List String) : Nat → List String
  | 0 => dependsOn
  | t + 1 => sweep (available p g S before (t + 1)) (leftOver p g S before dependsOn t)

/-- The list of `x` runs empty in the pass the schedule gives, and not before. -/
def ResolvedIn (p : Installer W) (g : List (Resource W)) (S before : Schedule W)
    (x : Pending W × Nat) : Prop :=
  0 < x.2 ∧ leftOver p g S before x.1.dependsOn x.2 = [] ∧
    ∀ t, 0 < t → t < x.2 → leftOver p g S before x.1.dependsOn t ≠ []

/-- Every resource of `S` is resolved in the pass `S` gives. -/
def IsSchedule (p : Installer W) (g : List (Resource W)) (S : Schedule W) : Prop :=
  ∀ before x after, S = before ++ x :: after → ResolvedIn p g S before x

/-- No pass before the last is without a resource. -/
def NoIdlePass (S : Schedule W) : Prop := ∀ x ∈ S, ∀ t, 0 < t → t < x.2 → ∃ y ∈ S, y.2 = t

/-! ## One pass -/

/-- One pass on schedules, from `g` and `S` to `g'` and `S'`. -/
inductive Passed (p : Installer W) :
    List (Resource W) → Schedule W → List (Resource W) → Schedule W → Prop
  | nil (g) : Passed p g [] g []
  | now {g g' x S S'} : sweep (isResolved p g) x.dependsOn = [] →
      Passed p (g ++ [x.resource]) S g' S' → Passed p g ((x, 1) :: S) g' S'
  | wait {g g' x S S'} (t : Nat) : sweep (isResolved p g) x.dependsOn ≠ [] →
      Passed p g S g' S' →
      Passed p g ((x, t + 2) :: S) g'
        ((⟨x.resource, sweep (isResolved p g) x.dependsOn⟩, t + 1) :: S')

namespace Passed

variable {p : Installer W} {g g' : List (Resource W)} {S S' : Schedule W}

theorem append {g₁ : List (Resource W)} {S₁ S₁' : Schedule W} (h : Passed p g S g' S')
    (h₁ : Passed p g' S₁ g₁ S₁') : Passed p g (S ++ S₁) g₁ (S' ++ S₁') := by
  induction h with
  | nil => exact h₁
  | now hs _ ih => exact .now hs (ih h₁)
  | wait t hs _ ih => exact .wait t hs (ih h₁)

/-- The code's pass is the schedule's pass. -/
theorem resolvePass_eq (h : Passed p g S g' S') (he : ∀ x ∈ S, x.1.resource.enabled = true) :
    resolvePass p g (S.map Prod.fst) = (g', S'.map Prod.fst) := by
  induction h with
  | nil => rfl
  | @now g g' x S S' hs _ ih =>
    rw [List.map_cons, resolvePass_now (he _ List.mem_cons_self) hs]
    exact ih fun y hy => he y (List.mem_cons_of_mem _ hy)
  | @wait g g' x S S' t hs _ ih =>
    rw [List.map_cons, resolvePass_wait (he _ List.mem_cons_self) hs,
      ih fun y hy => he y (List.mem_cons_of_mem _ hy), List.map_cons]

theorem enabled (h : Passed p g S g' S') (he : ∀ x ∈ S, x.1.resource.enabled = true) :
    ∀ x ∈ S', x.1.resource.enabled = true := by
  induction h with
  | nil => exact he
  | now _ _ ih => exact ih fun y hy => he y (List.mem_cons_of_mem _ hy)
  | @wait g g' x S S' t _ _ ih =>
    intro y hy
    rcases List.mem_cons.mp hy with rfl | hy
    · exact he (x, t + 2) List.mem_cons_self
    · exact ih (fun z hz => he z (List.mem_cons_of_mem _ hz)) y hy

theorem pos (h : Passed p g S g' S') : ∀ x ∈ S, 0 < x.2 := by
  induction h with
  | nil => intro x hx; exact absurd hx (by simp)
  | now _ _ ih => exact List.forall_mem_cons.mpr ⟨Nat.one_pos, ih⟩
  | wait t _ _ ih => exact List.forall_mem_cons.mpr ⟨Nat.succ_pos _, ih⟩

/-- A resource of `S` is one of pass `1`, or one of `S'` with its pass one later. -/
theorem exists_iff (h : Passed p g S g' S') (Q : Nat → Prop) (f : Resource W → Prop) :
    (∃ x ∈ S, Q x.2 ∧ f x.1.resource) ↔
      (Q 1 ∧ ∃ x ∈ S, x.2 = 1 ∧ f x.1.resource) ∨ ∃ x ∈ S', Q (x.2 + 1) ∧ f x.1.resource := by
  induction h with
  | nil => simp
  | @now g g' x S S' _ _ ih =>
    simp only [List.mem_cons, exists_eq_or_imp, ih, true_and, and_or_left, or_assoc]
  | @wait g g' x S S' t _ _ ih =>
    have h1 : t + 2 ≠ 1 := by omega
    simp only [List.mem_cons, exists_eq_or_imp, ih, h1, false_and, false_or, or_left_comm]

theorem mem_succ (h : Passed p g S g' S') (t : Nat) :
    (∃ x ∈ S, x.2 = t + 2) ↔ ∃ x ∈ S', x.2 = t + 1 := by
  have := h.exists_iff (· = t + 2) (fun _ => True)
  simpa using this

/-- `g'` is `g` with the resources of pass `1`. -/
theorem isResolved_iff (h : Passed p g S g' S') (id : String) :
    isResolved p g' id = true ↔ isResolved p g id = true
      ∨ ∃ x ∈ S, x.2 = 1 ∧ p.equalsIgnoreCase x.1.resource.id id = true := by
  induction h with
  | nil => simp
  | @now g g' x S S' _ _ ih =>
    rw [ih]
    simp only [List.mem_cons, exists_eq_or_imp, true_and, isResolved, List.any_append,
      List.any_cons, List.any_nil, Bool.or_false, Bool.or_eq_true, or_assoc]
  | @wait g g' x S S' t _ _ ih =>
    have h1 : t + 2 ≠ 1 := by omega
    simp only [ih, List.mem_cons, exists_eq_or_imp, h1, false_and, false_or]

theorem length_eq_iff (h : Passed p g S g' S') : g'.length = g.length ↔ ¬ ∃ x ∈ S, x.2 = 1 := by
  have hle : ∀ {g S g' S'}, Passed p g S g' S' → g.length ≤ g'.length := by
    intro g S g' S' h
    induction h with
    | nil => exact Nat.le_refl _
    | now _ _ ih => rw [List.length_append] at ih; exact Nat.le_trans (Nat.le_add_right _ _) ih
    | wait _ _ _ ih => exact ih
  induction h with
  | nil => simp
  | @now g g' x S S' _ h _ =>
    have := hle h
    rw [List.length_append, List.length_singleton] at this
    simp only [List.mem_cons, exists_eq_or_imp, true_or, not_true_eq_false, iff_false]
    omega
  | wait t _ _ ih => simp [ih]

end Passed

theorem available_iff {p : Installer W} {g : List (Resource W)} {S b : Schedule W} {t : Nat}
    {id : String} : available p g S b t id = true ↔ isResolved p g id = true
      ∨ (∃ x ∈ S, x.2 < t ∧ p.equalsIgnoreCase x.1.resource.id id = true)
      ∨ ∃ x ∈ b, x.2 = t ∧ p.equalsIgnoreCase x.1.resource.id id = true := by
  simp only [available, Bool.or_eq_true, List.any_eq_true, Bool.and_eq_true, decide_eq_true_eq,
    or_assoc]

section OnePass

variable {p : Installer W} {g gm g' : List (Resource W)} {S S' b b' : Schedule W}

/-- In pass `1` an entry is available when it is resolved. -/
theorem available_one (hS : ∀ x ∈ S, 0 < x.2) (hb : Passed p g b gm b') :
    available p g S b 1 = isResolved p gm := by
  funext id
  rw [Bool.eq_iff_iff, available_iff, hb.isResolved_iff]
  have : ¬ ∃ x ∈ S, x.2 < 1 ∧ p.equalsIgnoreCase x.1.resource.id id = true := by
    rintro ⟨x, hx, h1, _⟩
    have := hS x hx
    omega
  simp only [this, false_or]

/-- A later pass finds available what the pass before it finds after pass `1`. -/
theorem available_succ (h : Passed p g S g' S') (hb : Passed p g b gm b') (t : Nat) :
    available p g S b (t + 2) = available p g' S' b' (t + 1) := by
  funext id
  have h1 : ¬ (1 = t + 2) := by omega
  rw [Bool.eq_iff_iff, available_iff, available_iff, h.isResolved_iff,
    h.exists_iff (· < t + 2) (fun r => p.equalsIgnoreCase r.id id = true),
    hb.exists_iff (· = t + 2) (fun r => p.equalsIgnoreCase r.id id = true)]
  simp only [Nat.add_lt_add_iff_right, Nat.add_right_cancel_iff, h1, false_and, false_or,
    show 1 < t + 2 by omega, true_and, or_assoc]

theorem leftOver_one (hS : ∀ x ∈ S, 0 < x.2) (hb : Passed p g b gm b') (ds : List String) :
    leftOver p g S b ds 1 = sweep (isResolved p gm) ds := by
  rw [leftOver, leftOver, available_one hS hb]

theorem leftOver_succ (h : Passed p g S g' S') (hb : Passed p g b gm b') (ds : List String) :
    ∀ t, leftOver p g S b ds (t + 1) = leftOver p g' S' b' (sweep (isResolved p gm) ds) t := by
  intro t
  induction t with
  | zero => rw [leftOver_one h.pos hb]; rfl
  | succ t ih => rw [leftOver, ih, available_succ h hb, leftOver]

/-- A resource of pass `1` is scheduled right when the first sweep empties its list. -/
theorem resolvedIn_one (hS : ∀ x ∈ S, 0 < x.2) (hb : Passed p g b gm b') (x : Pending W) :
    ResolvedIn p g S b (x, 1) ↔ sweep (isResolved p gm) x.dependsOn = [] := by
  rw [ResolvedIn, leftOver_one hS hb]
  constructor
  · exact fun h => h.2.1
  · exact fun h => ⟨Nat.one_pos, h, fun t h0 h1 => absurd h1 (by omega)⟩

/-- A resource that waits is scheduled right before the pass when it is after it. -/
theorem resolvedIn_succ (h : Passed p g S g' S') (hb : Passed p g b gm b') {x : Pending W}
    (hx : sweep (isResolved p gm) x.dependsOn ≠ []) (t : Nat) :
    ResolvedIn p g S b (x, t + 2) ↔
      ResolvedIn p g' S' b' (⟨x.resource, sweep (isResolved p gm) x.dependsOn⟩, t + 1) := by
  have hl := leftOver_succ h hb x.dependsOn
  constructor
  · rintro ⟨-, h2, h3⟩
    refine ⟨Nat.succ_pos t, by rw [← hl]; exact h2, fun u h0 hu => ?_⟩
    rw [← hl]
    exact h3 (u + 1) (Nat.succ_pos u) (Nat.succ_lt_succ hu)
  · rintro ⟨-, h2, h3⟩
    refine ⟨Nat.succ_pos _, by rw [hl]; exact h2, fun u h0 hu => ?_⟩
    obtain ⟨u, rfl⟩ := Nat.exists_eq_add_of_lt h0
    rw [Nat.zero_add, hl]
    cases u with
    | zero => exact hx
    | succ u => exact h3 (u + 1) (Nat.succ_pos u) (by dsimp only at hu ⊢; omega)

end OnePass

namespace Passed

variable {p : Installer W}

theorem split : ∀ {b u : Schedule W} {g g' : List (Resource W)} {S' : Schedule W},
    Passed p g (b ++ u) g' S' →
      ∃ gm b' u', Passed p g b gm b' ∧ Passed p gm u g' u' ∧ S' = b' ++ u' := by
  intro b
  induction b with
  | nil => intro u g g' S' h; exact ⟨g, [], S', .nil g, h, rfl⟩
  | cons x b ih =>
    intro u g g' S' h
    cases h with
    | now hs h =>
      obtain ⟨gm, b', u', hb, hu, rfl⟩ := ih h
      exact ⟨gm, b', u', .now hs hb, hu, rfl⟩
    | wait t hs h =>
      obtain ⟨gm, b', u', hb, hu, rfl⟩ := ih h
      exact ⟨gm, _, u', .wait t hs hb, hu, rfl⟩

/-- A resource left after the pass stood before it, with its pass one later. -/
theorem unsplit {g g' : List (Resource W)} {S S' : Schedule W} (h : Passed p g S g' S') :
    ∀ {b' a' : Schedule W} {x' : Pending W × Nat}, S' = b' ++ x' :: a' →
      ∃ b gm x t a, S = b ++ (x, t + 2) :: a ∧ Passed p g b gm b' ∧
        sweep (isResolved p gm) x.dependsOn ≠ [] ∧
        x' = (⟨x.resource, sweep (isResolved p gm) x.dependsOn⟩, t + 1) := by
  induction h with
  | nil => intro b' a' x' h; simp at h
  | @now g g' x S S' hs _ ih =>
    intro b' a' x' h
    obtain ⟨b, gm, y, t, a, rfl, hb, hy, rfl⟩ := ih h
    exact ⟨(x, 1) :: b, gm, y, t, a, rfl, .now hs hb, hy, rfl⟩
  | @wait g g' x S S' t hs _ ih =>
    intro b' a' x' h
    cases b' with
    | nil =>
      obtain ⟨rfl, -⟩ := List.cons.inj h
      exact ⟨[], g, x, t, S, rfl, .nil g, hs, rfl⟩
    | cons z b' =>
      obtain ⟨rfl, hrest⟩ := List.cons.inj h
      obtain ⟨b, gm, y, u, a, rfl, hb, hy, rfl⟩ := ih hrest
      exact ⟨(x, t + 2) :: b, gm, y, u, a, rfl, .wait t hs hb, hy, rfl⟩

end Passed

/-- **A pass keeps schedules**, and only a schedule becomes one. -/
theorem isSchedule_iff_of_passed {p : Installer W} {g g' : List (Resource W)} {S S' : Schedule W}
    (h : Passed p g S g' S') : IsSchedule p g S ↔ IsSchedule p g' S' := by
  constructor
  · intro hS b' x' a' hS'
    obtain ⟨b, gm, x, t, a, hsplit, hb, hx, rfl⟩ := h.unsplit hS'
    exact (resolvedIn_succ h hb hx t).mp (hS b _ a hsplit)
  · intro hS b x a hsplit
    subst hsplit
    obtain ⟨gm, b', u', hb, hu, rfl⟩ := h.split
    cases hu with
    | now hs _ => exact (resolvedIn_one h.pos hb _).mpr hs
    | wait t hs _ => exact (resolvedIn_succ h hb hs t).mpr (hS b' _ _ rfl)

/-- Every schedule can be followed for a pass. -/
theorem exists_passed_of_isSchedule {p : Installer W} {g : List (Resource W)} {S : Schedule W}
    (hS : IsSchedule p g S) : ∃ g' S', Passed p g S g' S' := by
  have hpos : ∀ x ∈ S, 0 < x.2 := by
    intro x hx
    obtain ⟨b, a, rfl⟩ := List.append_of_mem hx
    exact (hS b x a rfl).1
  have key : ∀ u b gm b', S = b ++ u → Passed p g b gm b' → ∃ g' u', Passed p gm u g' u' := by
    intro u
    induction u with
    | nil => intro b gm b' _ _; exact ⟨gm, [], .nil gm⟩
    | cons x u ih =>
      intro b gm b' hsplit hb
      obtain ⟨x, n⟩ := x
      have hx := hS b _ u hsplit
      have h1 := leftOver_one hpos hb x.dependsOn
      match n, hx with
      | 0, hx => exact absurd hx.1 (by simp)
      | 1, hx =>
        have hs : sweep (isResolved p gm) x.dependsOn = [] := (resolvedIn_one hpos hb x).mp hx
        obtain ⟨g', u', hu⟩ := ih (b ++ [(x, 1)]) (gm ++ [x.resource]) (b' ++ [])
          (by rw [hsplit]; simp) (hb.append (.now hs (.nil _)))
        exact ⟨g', u', .now hs hu⟩
      | t + 2, hx =>
        have hs : sweep (isResolved p gm) x.dependsOn ≠ [] := by
          rw [← h1]
          exact hx.2.2 1 Nat.one_pos (by dsimp only; omega)
        obtain ⟨g', u', hu⟩ := ih (b ++ [(x, t + 2)]) gm _ (by rw [hsplit]; simp)
          (hb.append (.wait t hs (.nil _)))
        exact ⟨g', _, .wait t hs hu⟩
  exact key S [] g [] rfl (.nil g)

/-- Numbers for what a pass of the code leaves give numbers for what it started with. -/
theorem exists_passed_of_resolvePass (p : Installer W) : ∀ (rest : List (Pending W))
    (g : List (Resource W)) (S' : Schedule W), (∀ x ∈ rest, x.resource.enabled = true) →
    S'.map Prod.fst = (resolvePass p g rest).2 → (∀ x ∈ S', 0 < x.2) →
    ∃ S, S.map Prod.fst = rest ∧ Passed p g S (resolvePass p g rest).1 S' := by
  intro rest
  induction rest with
  | nil =>
    intro g S' _ hS' _
    obtain rfl : S' = [] := List.map_eq_nil_iff.mp hS'
    exact ⟨[], rfl, .nil g⟩
  | cons x rest ih =>
    intro g S' he hS' hpos
    obtain ⟨hex, he⟩ := List.forall_mem_cons.mp he
    by_cases hs : sweep (isResolved p g) x.dependsOn = []
    · rw [resolvePass_now hex hs] at hS' ⊢
      obtain ⟨S, hS, h⟩ := ih _ S' he hS' hpos
      exact ⟨(x, 1) :: S, by rw [List.map_cons, hS], .now hs h⟩
    · rw [resolvePass_wait hex hs] at hS' ⊢
      obtain ⟨y, S', rfl, hy, hS'⟩ := List.map_eq_cons_iff.mp hS'
      obtain ⟨hy0, hpos⟩ := List.forall_mem_cons.mp hpos
      obtain ⟨S, hS, h⟩ := ih _ S' he hS' hpos
      obtain ⟨y, n⟩ := y
      obtain ⟨t, rfl⟩ : ∃ t, n = t + 1 := ⟨n - 1, by dsimp only at hy0; omega⟩
      obtain rfl : y = _ := hy
      exact ⟨(x, t + 2) :: S, by rw [List.map_cons, hS], .wait t hs h⟩

theorem Passed.noIdlePass_iff {p : Installer W} {g g' : List (Resource W)} {S S' : Schedule W}
    (h : Passed p g S g' S') :
    NoIdlePass S ↔ NoIdlePass S' ∧ (S ≠ [] → ∃ x ∈ S, x.2 = 1) := by
  constructor
  · intro hS
    refine ⟨fun x hx t h0 ht => ?_, fun hne => ?_⟩
    · obtain ⟨t, rfl⟩ : ∃ u, t = u + 1 := ⟨t - 1, by omega⟩
      obtain ⟨n, hn⟩ : ∃ n, x.2 = n + 1 := ⟨x.2 - 1, by omega⟩
      obtain ⟨y, hy, hyn⟩ := (h.mem_succ n).mpr ⟨x, hx, hn⟩
      exact (h.mem_succ t).mp (hS y hy (t + 2) (by omega) (by omega))
    · obtain ⟨x, hx⟩ := List.exists_mem_of_ne_nil S hne
      by_cases h1 : x.2 = 1
      · exact ⟨x, hx, h1⟩
      · have := h.pos x hx
        exact hS x hx 1 Nat.one_pos (by omega)
  · rintro ⟨hS', hone⟩ x hx t h0 ht
    obtain ⟨t, rfl⟩ : ∃ u, t = u + 1 := ⟨t - 1, by omega⟩
    cases t with
    | zero => exact hone (List.ne_nil_of_mem hx)
    | succ t =>
      obtain ⟨n, hn⟩ : ∃ n, x.2 = n + 2 := ⟨x.2 - 2, by omega⟩
      obtain ⟨y, hy, hyn⟩ := (h.mem_succ n).mp ⟨x, hx, hn⟩
      exact (h.mem_succ t).mpr (hS' y hy (t + 1) (by omega) (by omega))

/-! ## All passes -/

/-- **The passes leave nothing exactly when the work list has a schedule with no
idle pass.** -/
theorem resolve_iff (p : Installer W) : ∀ (rest : List (Pending W)) (g : List (Resource W)),
    (∀ x ∈ rest, x.resource.enabled = true) →
    ((resolve p g rest).2 = [] ↔
      ∃ S, S.map Prod.fst = rest ∧ IsSchedule p g S ∧ NoIdlePass S) := by
  intro rest
  induction hn : rest.length using Nat.strongRecOn generalizing rest with
  | ind n ih =>
    intro g he
    subst hn
    by_cases hnil : rest = []
    · subst hnil
      rw [resolve, if_pos rfl]
      refine ⟨fun _ => ⟨[], rfl, ?_, ?_⟩, fun _ => rfl⟩
      · intro b x a h; simp at h
      · intro x hx; simp at hx
    have hlen := resolvePass_length p rest g
    have hpre := (resolvePass_extends p rest g).length_le
    rw [resolve, if_neg hnil]
    constructor
    · intro hres
      split at hres
      · rename_i hstuck
        rw [hres, List.length_nil] at hlen
        exact absurd (List.length_eq_zero_iff.mp (by omega)) hnil
      · rename_i hprog
        have hleft : ∀ x ∈ (resolvePass p g rest).2, x.resource.enabled = true := by
          intro x hx
          obtain ⟨y, hy, hxy⟩ := resolvePass_left p rest g x hx
          rw [← hxy]; exact he y hy
        obtain ⟨S', hS', hsched, hidle⟩ := (ih _ (by omega) _ rfl _ hleft).mp hres
        have hpos : ∀ x ∈ S', 0 < x.2 := by
          intro x hx
          obtain ⟨b, a, rfl⟩ := List.append_of_mem hx
          exact (hsched b x a rfl).1
        obtain ⟨S, rfl, h⟩ := exists_passed_of_resolvePass p rest g S' he hS' hpos
        refine ⟨S, rfl, (isSchedule_iff_of_passed h).mpr hsched,
          h.noIdlePass_iff.mpr ⟨hidle, fun _ => ?_⟩⟩
        exact Classical.not_not.mp (fun hc => hprog (h.length_eq_iff.mpr hc))
    · rintro ⟨S, rfl, hS, hidle⟩
      obtain ⟨g', S', h⟩ := exists_passed_of_isSchedule hS
      have heS : ∀ x ∈ S, x.1.resource.enabled = true :=
        fun x hx => he x.1 (List.mem_map_of_mem hx)
      obtain ⟨hidle', hone⟩ := h.noIdlePass_iff.mp hidle
      have hone := hone (by rintro rfl; exact hnil rfl)
      rw [h.resolvePass_eq heS] at hlen hpre ⊢
      have hprog : g'.length ≠ g.length := fun hc => h.length_eq_iff.mp hc hone
      rw [if_neg hprog]
      refine (ih _ ?_ _ rfl g' ?_).mpr ⟨S', rfl, (isSchedule_iff_of_passed h).mp hS, hidle'⟩
      · dsimp only at hlen hpre ⊢; omega
      · intro x hx
        obtain ⟨y, hy, rfl⟩ := List.mem_map.mp hx
        exact h.enabled heS y hy

/-! ## The graph -/

/-- `BuildDependencyGraph` ends normally, with every enabled resource that is not
`RunAllwaysFirst` in the graph. -/
def Complete (p : Installer W) (resources : List (Resource W))
    (c : ConfigurationContext W) : Prop :=
  ∃ graph c', buildDependencyGraph p resources c = (.ok graph, c') ∧
    ∀ r ∈ restOf resources c, r ∈ graph

theorem enabled_of_mem_restOf {resources : List (Resource W)} {c : ConfigurationContext W}
    {r : Resource W} (h : r ∈ restOf resources c) : r.enabled = true := by
  simp only [restOf, enabledResources, List.mem_filter] at h
  exact h.1.1.2

/-- What `BuildDependencyGraph` answers when the passes leave nothing. -/
theorem buildDependencyGraph_ok {p : Installer W} {resources : List (Resource W)}
    {c : ConfigurationContext W}
    (h : (resolve p [] ((restOf resources c).map Pending.ofResource)).2 = []) :
    ∃ graph c', buildDependencyGraph p resources c = (.ok graph, c') ∧
      ∀ r, r ∈ graph ↔
        (r ∈ (enabledResources resources c).filter (·.runAllwaysFirst) ∨ r ∈ restOf resources c) ∧
        (p.uninstall = true → r.noUninstall = false) := by
  have hmem : ∀ r, r ∈ (resolve p [] ((restOf resources c).map Pending.ofResource)).1
      ↔ r ∈ restOf resources c := by
    intro r
    have := mem_resolve p r ((restOf resources c).map Pending.ofResource) []
    simp only [h, List.not_mem_nil, false_and, exists_false, or_false, false_or] at this
    rw [this]
    constructor
    · rintro ⟨x, hx, rfl⟩
      obtain ⟨r, hr, rfl⟩ := List.mem_map.mp hx
      exact hr
    · exact fun hr => ⟨Pending.ofResource r, List.mem_map_of_mem hr, rfl⟩
  have hrun : ∃ c', buildDependencyGraph p resources c =
      (.ok (arrange p ((enabledResources resources c).filter (·.runAllwaysFirst))
        (resolve p [] ((restOf resources c).map Pending.ofResource)).1), c') := by
    rw [buildDependencyGraph, Eff.bind_ok (Eff.get_run c)]
    dsimp only
    rw [h, if_neg (by simp)]
    exact ⟨_, rfl⟩
  obtain ⟨c', hrun⟩ := hrun
  exact ⟨_, c', hrun, fun r => by rw [mem_arrange, hmem]⟩

theorem buildDependencyGraph_error {p : Installer W} {resources : List (Resource W)}
    {c : ConfigurationContext W}
    (h : (resolve p [] ((restOf resources c).map Pending.ofResource)).2 ≠ []) :
    buildDependencyGraph p resources c
      = (.error (.resourceException "Could not resolve dependencies."), c) := by
  rw [buildDependencyGraph, Eff.bind_ok (Eff.get_run c)]
  dsimp only
  rw [if_pos (List.length_pos_iff.mpr h), Eff.throw_run]

/-! ### What a manifest promises -/

/-- `r` depends on `d`, both of the work list. -/
def Depends (p : Installer W) (resources : List (Resource W)) (r d : Resource W) : Prop :=
  r ∈ resources ∧ d ∈ resources ∧ ∃ id ∈ r.dependsOn, p.equalsIgnoreCase d.id id = true

/-- Different ids, dependencies that name other resources, and no cycle. -/
structure WellFormed (p : Installer W) (resources : List (Resource W)) : Prop where
  distinct : resources.Pairwise fun a b => p.equalsIgnoreCase a.id b.id = false
  named : ∀ r ∈ resources, ∀ id ∈ r.dependsOn, ∃ d ∈ resources,
    p.equalsIgnoreCase d.id r.id = false ∧ p.equalsIgnoreCase d.id id = true
  acyclic : ∀ r, ¬ Relation.TransGen (Depends p resources) r r

/-- A measure that drops along every dependency rules out cycles. -/
theorem acyclic_of_rank {p : Installer W} {resources : List (Resource W)} (rank : Resource W → Nat)
    (h : ∀ r d, Depends p resources r d → rank d < rank r) :
    ∀ r, ¬ Relation.TransGen (Depends p resources) r r := by
  have key : ∀ r d, Relation.TransGen (Depends p resources) r d → rank d < rank r := by
    intro r d hrd
    induction hrd with
    | single h₁ => exact h _ _ h₁
    | tail _ h₁ ih => exact Nat.lt_trans (h _ _ h₁) ih
  exact fun r hr => Nat.lt_irrefl _ (key r r hr)

/-- **The graph is complete exactly when the passes of the work list have a
schedule with no idle pass**, and, on uninstall, no resource of it is marked
`NoUninstall`. -/
theorem buildDependencyGraph_complete_iff (p : Installer W) (resources : List (Resource W))
    (c : ConfigurationContext W) :
    Complete p resources c ↔
      (∃ S : Schedule W, S.map Prod.fst = (restOf resources c).map Pending.ofResource ∧
        IsSchedule p [] S ∧ NoIdlePass S) ∧
      (p.uninstall = true → ∀ r ∈ restOf resources c, r.noUninstall = false) := by
  have he : ∀ x ∈ (restOf resources c).map Pending.ofResource, x.resource.enabled = true := by
    intro x hx
    obtain ⟨r, hr, rfl⟩ := List.mem_map.mp hx
    exact enabled_of_mem_restOf hr
  rw [← resolve_iff p _ [] he]
  by_cases hres : (resolve p [] ((restOf resources c).map Pending.ofResource)).2 = []
  · obtain ⟨graph, c', hrun, hgraph⟩ := buildDependencyGraph_ok hres
    constructor
    · rintro ⟨graph₁, c₁, hrun₁, hall⟩
      obtain ⟨rfl, rfl⟩ : graph = graph₁ ∧ c' = c₁ := by simpa using hrun.symm.trans hrun₁
      exact ⟨hres, fun hu r hr => ((hgraph r).mp (hall r hr)).2 hu⟩
    · rintro ⟨-, hu⟩
      exact ⟨graph, c', hrun, fun r hr => (hgraph r).mpr ⟨Or.inr hr, fun h => hu h r hr⟩⟩
  · constructor
    · rintro ⟨graph₁, c₁, hrun₁, _⟩
      rw [buildDependencyGraph_error hres] at hrun₁
      simp at hrun₁
    · exact fun h => absurd h.1 hres

/-- A resource that is only a place in the graph. -/
def node (id : String) (dependsOn : List String) : Resource Unit where
  id := id
  dependsOn := dependsOn
  test := pure true
  set := pure ()
  unset := pure ()

def plainInstaller : Installer Unit where
  uninstall := false
  version := "1.0.0"
  toUpperInvariant := Char.toUpper
  userConsent := pure true
  requestReboot := pure true

def plainContext : ConfigurationContext Unit where
  installedVersion := none
  state := none
  stateFile := none
  restartPending := false
  delayReboot := false
  machine := ()

/-- A resource listed before its two dependencies loses one of them in the second
pass, steps over the other, and the pass has resolved nothing. -/
theorem buildDependencyGraph_two_dependencies :
    restOf [node "c" ["a", "b"], node "a" [], node "b" []] plainContext
        = [node "c" ["a", "b"], node "a" [], node "b" []] ∧
      WellFormed plainInstaller [node "c" ["a", "b"], node "a" [], node "b" []] ∧
      ¬ Complete plainInstaller [node "c" ["a", "b"], node "a" [], node "b" []] plainContext := by
  refine ⟨rfl, ⟨by decide, by decide, ?_⟩, ?_⟩
  · have hrank : ∀ r ∈ [node "c" ["a", "b"], node "a" [], node "b" []],
        ∀ d ∈ [node "c" ["a", "b"], node "a" [], node "b" []], ∀ id ∈ r.dependsOn,
          plainInstaller.equalsIgnoreCase d.id id = true →
          d.dependsOn.length < r.dependsOn.length :=
      by decide
    apply acyclic_of_rank fun r => r.dependsOn.length
    rintro r d ⟨hr, hd, id, hid, hd'⟩
    exact hrank r hr d hd id hid hd'
  · have hres : (resolve plainInstaller [] ([node "c" ["a", "b"], node "a" [], node "b" []].map
        Pending.ofResource)).2 ≠ [] := by
      rw [resolve, if_neg (by simp), if_neg (by decide), resolve, if_neg (by decide),
        if_pos (by decide)]
      decide
    rintro ⟨graph, c', hrun, _⟩
    rw [buildDependencyGraph_error (c := plainContext) hres] at hrun
    simp at hrun

end ContainerDesktop.DesiredStateConfiguration
