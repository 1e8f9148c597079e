import ContainerDesktop.Rewrite.Body
import ContainerDesktop.Rewrite.Positions

/-!
# What a rewriter changes

A rewriter knows the arrays of binds and the arrays of mounts of its objects by
the keys that lead to them.  `IsSource` are the positions in them that hold a
bind source; a document of any shape may have some, all or none of them.

`rewriteBody_frame` says that a body comes out with `mapPath` applied once at
these positions and with nothing else changed.  The unchecked assertions of the
rewriters fail for binds that are no strings and for mounts without a type, or
bind mounts without a source, that is a string; `WellTyped` excludes these.
-/

namespace ContainerDesktop.Rewrite

variable {N : Type}

/-- The positions of bind sources, for the arrays of binds and of mounts at `binds`
and `mounts`. -/
def IsSource (binds mounts : List Position) (doc : Json N) (p : Position) : Prop :=
  (∃ a ∈ binds, ∃ i, p = a ++ [.item i] ∧ ∃ o, doc.at p = some o) ∨
    ∃ a ∈ mounts, ∃ i, p = a ++ [.item i, .field "Source".toList] ∧
      doc.at (a ++ [.item i, .field "Type".toList]) = some (.str "bind".toList)

/-- What the unchecked assertions need. -/
structure WellTyped (binds mounts : List Position) (doc : Json N) : Prop where
  bind : ∀ a ∈ binds, ∀ i o, doc.at (a ++ [.item i]) = some o → ∃ s, o = .str s
  mountType : ∀ a ∈ mounts, ∀ i m, doc.at (a ++ [.item i]) = some (.obj m) →
    ∃ t, m.lookup "Type".toList = some (.str t)
  mountSource : ∀ a ∈ mounts, ∀ i m, doc.at (a ++ [.item i]) = some (.obj m) →
    m.lookup "Type".toList = some (.str "bind".toList) →
      ∃ s, m.lookup "Source".toList = some (.str s)

/-- Positions below a key. -/
def below (key : GoString) (paths : List Position) : List Position := paths.map (.field key :: ·)

theorem isSource_below {binds mounts : List Position} {key : GoString} {m : JsonMap N}
    {p : Position} :
    IsSource (below key binds) (below key mounts) (.obj m) p ↔
      ∃ q, p = .field key :: q ∧ ∃ o, m.lookup key = some o ∧ IsSource binds mounts o q := by
  refine ⟨fun h => ?_, fun h => ?_⟩
  · rcases h with ⟨a, ha, i, rfl, v, hv⟩ | ⟨a, ha, i, rfl, hv⟩
    · obtain ⟨b, hb, rfl⟩ := List.mem_map.mp ha
      obtain ⟨o, ho, hv⟩ := Json.at_field_iff.mp hv
      exact ⟨b ++ [.item i], rfl, o, ho, .inl ⟨b, hb, i, rfl, v, hv⟩⟩
    · obtain ⟨b, hb, rfl⟩ := List.mem_map.mp ha
      obtain ⟨o, ho, hv⟩ := Json.at_field_iff.mp hv
      exact ⟨b ++ [.item i, .field "Source".toList], rfl, o, ho, .inr ⟨b, hb, i, rfl, hv⟩⟩
  · obtain ⟨q, rfl, o, ho, hs⟩ := h
    rcases hs with ⟨b, hb, i, rfl, v, hv⟩ | ⟨b, hb, i, rfl, hv⟩
    · exact .inl ⟨_, List.mem_map_of_mem hb, i, rfl, v, Json.at_field_iff.mpr ⟨o, ho, hv⟩⟩
    · exact .inr ⟨_, List.mem_map_of_mem hb, i, rfl, Json.at_field_iff.mpr ⟨o, ho, hv⟩⟩

theorem WellTyped.of_below {binds mounts : List Position} {key : GoString} {m : JsonMap N}
    (h : WellTyped (below key binds) (below key mounts) (.obj m)) {o : Json N}
    (ho : m.lookup key = some o) : WellTyped binds mounts o := by
  refine ⟨fun a ha i v hv => ?_, fun a ha i v hv => ?_, fun a ha i v hv => ?_⟩
  · exact h.bind _ (List.mem_map_of_mem ha) i v (Json.at_field_iff.mpr ⟨o, ho, hv⟩)
  · exact h.mountType _ (List.mem_map_of_mem ha) i v (Json.at_field_iff.mpr ⟨o, ho, hv⟩)
  · exact h.mountSource _ (List.mem_map_of_mem ha) i v (Json.at_field_iff.mpr ⟨o, ho, hv⟩)

/-- A function on a part of a document that changes the sources in it, and succeeds
when they are strings. -/
structure Rewrites {B : Type} (windows : Bool) (path : GoString) (binds mounts : List Position)
    (wrap : B → Json N) (f : B → Except Panic B) : Prop where
  frame : ∀ b b', f b = .ok b' →
    ChangedAt (IsSource binds mounts (wrap b)) (mapPath windows · path) (wrap b) (wrap b')
  runs : ∀ b, WellTyped binds mounts (wrap b) → ∃ b', f b = .ok b'

theorem bind_ok {A B : Type} {x : Except Panic A} {f : A → Except Panic B} {b : B}
    (h : (x >>= f) = .ok b) : ∃ a, x = .ok a ∧ f a = .ok b := by
  cases x with
  | error e => exact nomatch h
  | ok a => exact ⟨a, rfl, h⟩

theorem mapM_cons_ok {A B : Type} {g : A → Except Panic B} {x : A} {xs : List A} {ys : List B}
    (h : (x :: xs).mapM g = .ok ys) : ∃ z zs, g x = .ok z ∧ xs.mapM g = .ok zs ∧ ys = z :: zs := by
  rw [List.mapM_cons] at h
  obtain ⟨z, hz, h⟩ := bind_ok h
  obtain ⟨zs, hzs, h⟩ := bind_ok h
  exact ⟨z, zs, hz, hzs, (Except.ok.inj h).symm⟩

theorem mapM_length {A B : Type} {g : A → Except Panic B} {xs : List A} {ys : List B}
    (h : xs.mapM g = .ok ys) : ys.length = xs.length := by
  induction xs generalizing ys with
  | nil =>
    obtain rfl := Except.ok.inj h
    rfl
  | cons x xs ih =>
    obtain ⟨z, zs, -, hzs, rfl⟩ := mapM_cons_ok h
    exact congrArg (· + 1) (ih hzs)

theorem mapM_getElem {A B : Type} {g : A → Except Panic B} {xs : List A} {ys : List B}
    (h : xs.mapM g = .ok ys) :
    ∀ (i : Nat) (x : A) (y : B), xs[i]? = some x → ys[i]? = some y → g x = .ok y := by
  induction xs generalizing ys with
  | nil => intro i x y hx; exact nomatch hx
  | cons x xs ih =>
    obtain ⟨z, zs, hz, hzs, rfl⟩ := mapM_cons_ok h
    intro i x' y' hx' hy'
    cases i with
    | zero =>
      obtain rfl := Option.some.inj hx'
      obtain rfl := Option.some.inj hy'
      exact hz
    | succ i => exact ih hzs i x' y' hx' hy'

theorem mapM_runs {A B : Type} {g : A → Except Panic B} {xs : List A}
    (h : ∀ x ∈ xs, ∃ y, g x = .ok y) : ∃ ys, xs.mapM g = .ok ys := by
  induction xs with
  | nil => exact ⟨[], rfl⟩
  | cons x xs ih =>
    obtain ⟨y, hy⟩ := h x List.mem_cons_self
    obtain ⟨ys, hys⟩ := ih fun x hx => h x (List.mem_cons_of_mem _ hx)
    refine ⟨y :: ys, ?_⟩
    rw [List.mapM_cons, hy, hys]
    rfl

section Parts

variable {windows : Bool} {path : GoString}

/-! ## Binds and mounts -/

theorem asString_eq_ok {o : Option (Json N)} {s : GoString} (h : asString o = .ok s) :
    o = some (.str s) := by
  cases o with
  | none => exact nomatch h
  | some o =>
    cases o with
    | str t => rw [Except.ok.inj h]
    | _ => exact nomatch h

theorem rewriteBinds_rewrites :
    Rewrites windows path [[]] [] Json.arr (rewriteBinds (N := N) windows path) where
  frame := by
    intro binds binds' h
    refine (ChangedAt.items (U := fun _ p => p = []) (mapM_length h) fun i o o' ho ho' => ?_).congr
      fun p => ⟨fun hp => ?_, fun hp => ?_⟩
    · obtain ⟨s, hs, hg⟩ := bind_ok (mapM_getElem h i o o' ho ho')
      obtain rfl := Option.some.inj (asString_eq_ok hs)
      obtain rfl := Except.ok.inj hg
      exact ChangedAt.value s
    · rcases hp with ⟨a, ha, i, rfl, v, hv⟩ | ⟨a, ha, _⟩
      · obtain rfl := List.mem_singleton.mp ha
        obtain ⟨o, ho, -⟩ := Json.at_item_iff.mp hv
        exact ⟨i, o, [], ho, rfl, rfl⟩
      · exact nomatch ha
    · obtain ⟨i, o, q, ho, rfl, rfl⟩ := hp
      exact .inl ⟨[], List.mem_singleton_self _, i, rfl, o,
        Json.at_item_iff.mpr ⟨o, ho, Json.at_nil o⟩⟩
  runs := by
    intro binds h
    refine mapM_runs fun o ho => ?_
    obtain ⟨i, hi⟩ := List.mem_iff_getElem?.mp ho
    obtain ⟨s, rfl⟩ := h.bind [] (List.mem_singleton_self _) i o
      (Json.at_item_iff.mpr ⟨o, hi, Json.at_nil o⟩)
    exact ⟨_, rfl⟩

/-- The source of a mount, for a bind mount. -/
def IsMountSource (o : Json N) (p : Position) : Prop :=
  p = [.field "Source".toList] ∧ o.at [.field "Type".toList] = some (.str "bind".toList)

theorem at_singleton_field {m : JsonMap N} {key : GoString} {o : Json N} :
    (Json.obj m).at [.field key] = some o ↔ m.lookup key = some o := by
  rw [Json.at_field]
  cases m.lookup key with
  | none => exact iff_of_false (fun h => nomatch h) fun h => nomatch h
  | some v =>
    show v.at [] = some o ↔ some v = some o
    rw [Json.at_nil]

theorem rewriteMount_changed {mount mount' : JsonMap N}
    (h : rewriteMount windows path mount = .ok mount') :
    ChangedAt (IsMountSource (.obj mount)) (mapPath windows · path) (.obj mount) (.obj mount') := by
  obtain ⟨t, ht, h⟩ := bind_ok h
  have htype := asString_eq_ok ht
  by_cases hbind : t = "bind".toList
  · rw [if_pos hbind] at h
    obtain ⟨s, hs, h⟩ := bind_ok h
    obtain rfl := Except.ok.inj h
    have hsource := asString_eq_ok hs
    refine (ChangedAt.update hsource (ChangedAt.value s)).congr fun p =>
      ⟨fun hp => ?_, fun hp => ?_⟩
    · exact ⟨[], hp.1, rfl⟩
    · obtain ⟨q, rfl, rfl⟩ := hp
      exact ⟨rfl, at_singleton_field.mpr (hbind ▸ htype)⟩
  · rw [if_neg hbind] at h
    obtain rfl := Except.ok.inj h
    refine ChangedAt.refl fun p hp => ?_
    have hstr := htype.symm.trans (at_singleton_field.mp hp.2)
    exact hbind (Json.str.inj (Option.some.inj hstr))

variable (windows path) in
theorem rewriteMount_runs {mount : JsonMap N}
    (ht : ∃ t, mount.lookup "Type".toList = some (.str t))
    (hs : mount.lookup "Type".toList = some (.str "bind".toList) →
      ∃ s, mount.lookup "Source".toList = some (.str s)) :
    ∃ mount', rewriteMount windows path mount = .ok mount' := by
  obtain ⟨t, ht⟩ := ht
  by_cases hbind : t = "bind".toList
  · obtain ⟨s, hs⟩ := hs (hbind ▸ ht)
    refine ⟨mount.update "Source".toList (.str (mapPath windows s path)), ?_⟩
    rw [rewriteMount, ht, hs]
    exact if_pos hbind
  · refine ⟨mount, ?_⟩
    rw [rewriteMount, ht]
    exact if_neg hbind

theorem rewriteMounts_rewrites :
    Rewrites windows path [] [[]] Json.arr (rewriteMounts (N := N) windows path) where
  frame := by
    intro mounts mounts' h
    refine (ChangedAt.items (U := IsMountSource) (mapM_length h) fun i o o' ho ho' => ?_).congr
      fun p => ⟨fun hp => ?_, fun hp => ?_⟩
    · have hg := mapM_getElem h i o o' ho ho'
      cases o with
      | obj mount =>
        obtain ⟨mount', hm, hg⟩ := bind_ok hg
        obtain rfl := Except.ok.inj hg
        exact rewriteMount_changed hm
      | _ =>
        obtain rfl := Except.ok.inj hg
        exact ChangedAt.refl fun p hp => nomatch hp.2
    · rcases hp with ⟨a, ha, _⟩ | ⟨a, ha, i, rfl, hv⟩
      · exact nomatch ha
      · obtain rfl := List.mem_singleton.mp ha
        obtain ⟨o, ho, hv⟩ := Json.at_item_iff.mp hv
        exact ⟨i, o, _, ho, rfl, rfl, hv⟩
    · obtain ⟨i, o, q, ho, rfl, rfl, hv⟩ := hp
      exact .inr ⟨[], List.mem_singleton_self _, i, rfl, Json.at_item_iff.mpr ⟨o, ho, hv⟩⟩
  runs := by
    intro mounts h
    refine mapM_runs fun o ho => ?_
    obtain ⟨i, hi⟩ := List.mem_iff_getElem?.mp ho
    cases o with
    | obj mount =>
      have hat : (Json.arr mounts).at ([] ++ [.item i]) = some (.obj mount) :=
        Json.at_item_iff.mpr ⟨_, hi, Json.at_nil _⟩
      obtain ⟨mount', hm⟩ := rewriteMount_runs windows path
        (h.mountType [] (List.mem_singleton_self _) i mount hat)
        (h.mountSource [] (List.mem_singleton_self _) i mount hat)
      exact ⟨.obj mount', congrArg (Except.map Json.obj) hm⟩
    | _ => exact ⟨_, rfl⟩

/-! ## From the value under a key to the object -/

variable {binds mounts : List Position}

theorem isSource_below_of_lookup {key : GoString} {m : JsonMap N} {o : Json N}
    (ho : m.lookup key = some o) (p : Position) :
    IsSource (below key binds) (below key mounts) (.obj m) p ↔
      ∃ q, p = .field key :: q ∧ IsSource binds mounts o q := by
  refine isSource_below.trans ⟨fun h => ?_, fun h => ?_⟩
  · obtain ⟨q, hp, o', ho', hq⟩ := h
    obtain rfl := Option.some.inj (ho.symm.trans ho')
    exact ⟨q, hp, hq⟩
  · obtain ⟨q, hp, hq⟩ := h
    exact ⟨q, hp, o, ho, hq⟩

theorem not_isSource_below {key : GoString} {m : JsonMap N}
    (h : ∀ o, m.lookup key = some o → ∀ p, ¬ IsSource binds mounts o p) (p : Position) :
    ¬ IsSource (below key binds) (below key mounts) (.obj m) p := by
  intro hp
  obtain ⟨q, -, o, ho, hq⟩ := isSource_below.mp hp
  exact h o ho q hq

/-- `F` puts `f` on the value under a key, when the value is of the kind `wrap`. -/
structure Under {B : Type} (key : GoString) (wrap : B → Json N) (f : B → Except Panic B)
    (F : JsonMap N → Except Panic (JsonMap N)) : Prop where
  found : ∀ m b, m.lookup key = some (wrap b) →
    F m = f b >>= fun b' => pure (JsonMap.update m key (wrap b'))
  absent : ∀ m, (∀ b, m.lookup key ≠ some (wrap b)) → F m = .ok m

theorem under_onMap (key : GoString) (f : JsonMap N → Except Panic (JsonMap N)) :
    Under key Json.obj f fun m : JsonMap N => JsonMap.onMap m key f where
  found := by
    intro m b hm
    show JsonMap.onMap m key f = _
    rw [JsonMap.onMap, hm]
  absent := by
    intro m hm
    show JsonMap.onMap m key f = _
    unfold JsonMap.onMap
    split
    · rename_i o ho
      exact absurd ho (hm o)
    · rfl

theorem under_onArray (key : GoString) (f : List (Json N) → Except Panic (List (Json N))) :
    Under key Json.arr f fun m : JsonMap N => JsonMap.onArray m key f where
  found := by
    intro m b hm
    show JsonMap.onArray m key f = _
    rw [JsonMap.onArray, hm]
  absent := by
    intro m hm
    show JsonMap.onArray m key f = _
    unfold JsonMap.onArray
    split
    · rename_i items ho
      exact absurd ho (hm items)
    · rfl

variable {B : Type} {wrap : B → Json N} {f : B → Except Panic B}
  {F : JsonMap N → Except Panic (JsonMap N)} {key : GoString}

theorem Under.cases (hF : Under key wrap f F) {m m' : JsonMap N} (h : F m = .ok m') :
    (∃ b b', m.lookup key = some (wrap b) ∧ f b = .ok b' ∧ m' = JsonMap.update m key (wrap b')) ∨
      (∀ b, m.lookup key ≠ some (wrap b)) ∧ m' = m := by
  by_cases hm : ∃ b, m.lookup key = some (wrap b)
  · obtain ⟨b, hm⟩ := hm
    rw [hF.found m b hm] at h
    obtain ⟨b', hb, h⟩ := bind_ok h
    exact .inl ⟨b, b', hm, hb, (Except.ok.inj h).symm⟩
  · have hm' : ∀ b, m.lookup key ≠ some (wrap b) := fun b hb => hm ⟨b, hb⟩
    rw [hF.absent m hm'] at h
    exact .inr ⟨hm', (Except.ok.inj h).symm⟩

/-- From the value under a key to the object. -/
theorem Rewrites.under (hf : Rewrites windows path binds mounts wrap f) (hF : Under key wrap f F)
    (hnone : ∀ o : Json N, (∀ b, o ≠ wrap b) → ∀ p, ¬ IsSource binds mounts o p) :
    Rewrites windows path (below key binds) (below key mounts) Json.obj F where
  frame := by
    intro m m' h
    rcases hF.cases h with ⟨b, b', hm, hb, rfl⟩ | ⟨hm, rfl⟩
    · exact (ChangedAt.update hm (hf.frame b b' hb)).congr (isSource_below_of_lookup hm)
    · refine ChangedAt.refl (not_isSource_below fun o ho => hnone o fun b hb => ?_)
      exact hm b (hb ▸ ho)
  runs := by
    intro m hw
    by_cases hm : ∃ b, m.lookup key = some (wrap b)
    · obtain ⟨b, hm⟩ := hm
      obtain ⟨b', hb⟩ := hf.runs b (hw.of_below hm)
      refine ⟨JsonMap.update m key (wrap b'), ?_⟩
      rw [hF.found m b hm, hb]
      rfl
    · exact ⟨m, hF.absent m fun b hb => hm ⟨b, hb⟩⟩

theorem Under.others (hF : Under key wrap f F) {m m' : JsonMap N} (h : F m = .ok m')
    {other : GoString} (hne : other ≠ key) : m'.lookup other = m.lookup other := by
  rcases hF.cases h with ⟨b, b', -, -, rfl⟩ | ⟨-, rfl⟩
  · exact m.lookup_update_of_ne hne _
  · rfl

/-! ## One key after the other -/

theorem isSource_below_congr {m m' : JsonMap N} (h : m'.lookup key = m.lookup key) (p : Position) :
    IsSource (below key binds) (below key mounts) (.obj m') p ↔
      IsSource (below key binds) (below key mounts) (.obj m) p := by
  rw [isSource_below, isSource_below, h]

theorem WellTyped.below_congr {m m' : JsonMap N} (h : m'.lookup key = m.lookup key)
    (hw : WellTyped (below key binds) (below key mounts) (.obj m)) :
    WellTyped (below key binds) (below key mounts) (.obj m') := by
  have hat : ∀ q, (Json.obj m').at (.field key :: q) = (Json.obj m).at (.field key :: q) := by
    intro q
    rw [Json.at_field, Json.at_field, h]
  refine ⟨fun a ha i v hv => ?_, fun a ha i v hv => ?_, fun a ha i v hv => ?_⟩
  all_goals
    obtain ⟨b, -, rfl⟩ := List.mem_map.mp ha
    rw [List.cons_append, hat] at hv
  · exact hw.bind _ ha i v hv
  · exact hw.mountType _ ha i v hv
  · exact hw.mountSource _ ha i v hv

theorem WellTyped.append {binds' mounts' : List Position} {doc : Json N} :
    WellTyped (binds ++ binds') (mounts ++ mounts') doc →
      WellTyped binds mounts doc ∧ WellTyped binds' mounts' doc := by
  intro h
  refine ⟨⟨fun a ha => h.bind a ?_, fun a ha => h.mountType a ?_, fun a ha => h.mountSource a ?_⟩,
    ⟨fun a ha => h.bind a ?_, fun a ha => h.mountType a ?_, fun a ha => h.mountSource a ?_⟩⟩
  all_goals first
    | exact List.mem_append_left _ ha
    | exact List.mem_append_right _ ha

theorem isSource_append {binds' mounts' : List Position} {doc : Json N} (p : Position) :
    IsSource (binds ++ binds') (mounts ++ mounts') doc p ↔
      IsSource binds mounts doc p ∨ IsSource binds' mounts' doc p := by
  simp only [IsSource, List.mem_append, or_and_right, exists_or]
  exact or_or_or_comm

theorem Rewrites.andThen {other : GoString} {binds' mounts' : List Position}
    {G : JsonMap N → Except Panic (JsonMap N)}
    (hf : Rewrites windows path (below key binds) (below key mounts) Json.obj F)
    (hg : Rewrites windows path (below other binds') (below other mounts') Json.obj G)
    (hF : Under key wrap f F) (hne : other ≠ key) :
    Rewrites windows path (below key binds ++ below other binds')
      (below key mounts ++ below other mounts') Json.obj fun m => F m >>= G where
  frame := by
    intro m m'' h
    obtain ⟨m', hm', h⟩ := bind_ok h
    have hsame := hF.others hm' hne
    refine ((hf.frame m m' hm').trans (hg.frame m' m'' h) fun p hp hp' => ?_).congr fun p => ?_
    · obtain ⟨q, rfl, -⟩ := isSource_below.mp hp
      obtain ⟨q', hq, -⟩ := isSource_below.mp hp'
      exact hne (Place.field.inj (List.cons.inj hq).1).symm
    · rw [isSource_append, isSource_below_congr hsame]
  runs := by
    intro m hw
    obtain ⟨hw, hw'⟩ := hw.append
    obtain ⟨m', hm'⟩ := hf.runs m hw
    obtain ⟨m'', hm''⟩ := hg.runs m' (hw'.below_congr (hF.others hm' hne))
    refine ⟨m'', ?_⟩
    rw [hm']
    exact hm''

/-! ## The rewriters -/

theorem not_isSource_of_not_arr {binds mounts : List Position} (hb : ∀ a ∈ binds, a = [])
    (hm : ∀ a ∈ mounts, a = []) (o : Json N) (ho : ∀ items, o ≠ .arr items) (p : Position) :
    ¬ IsSource binds mounts o p := by
  intro hp
  rcases hp with ⟨a, ha, i, rfl, v, hv⟩ | ⟨a, ha, i, rfl, hv⟩
  · obtain rfl := hb a ha
    exact nomatch (Json.at_item_of_not_arr ho i []).symm.trans hv
  · obtain rfl := hm a ha
    exact nomatch (Json.at_item_of_not_arr ho i _).symm.trans hv

/-- The paths that begin at a key. -/
def FromKey (paths : List Position) : Prop := ∀ a ∈ paths, ∃ key q, a = .field key :: q

theorem fromKey_below (key : GoString) (paths : List Position) : FromKey (below key paths) := by
  intro a ha
  obtain ⟨b, -, rfl⟩ := List.mem_map.mp ha
  exact ⟨key, b, rfl⟩

theorem FromKey.append {paths paths' : List Position} (h : FromKey paths) (h' : FromKey paths') :
    FromKey (paths ++ paths') := List.forall_mem_append.mpr ⟨h, h'⟩

theorem not_isSource_of_not_obj {binds mounts : List Position} (hb : FromKey binds)
    (hm : FromKey mounts) (o : Json N) (ho : ∀ m, o ≠ .obj m) (p : Position) :
    ¬ IsSource binds mounts o p := by
  intro hp
  rcases hp with ⟨a, ha, i, rfl, v, hv⟩ | ⟨a, ha, i, rfl, hv⟩
  · obtain ⟨key, b, rfl⟩ := hb a ha
    exact nomatch (Json.at_field_of_not_obj ho key _).symm.trans hv
  · obtain ⟨key, b, rfl⟩ := hm a ha
    exact nomatch (Json.at_field_of_not_obj ho key _).symm.trans hv

theorem binds_rewrites (key : GoString) :
    Rewrites (N := N) windows path (below key [[]]) (below key []) Json.obj
      fun m => JsonMap.onArray m key (rewriteBinds windows path) :=
  rewriteBinds_rewrites.under (under_onArray key _)
    (not_isSource_of_not_arr (fun _ => List.mem_singleton.mp) fun _ h => nomatch h)

theorem mounts_rewrites (key : GoString) :
    Rewrites (N := N) windows path (below key []) (below key [[]]) Json.obj
      fun m => JsonMap.onArray m key (rewriteMounts windows path) :=
  rewriteMounts_rewrites.under (under_onArray key _)
    (not_isSource_of_not_arr (fun _ h => nomatch h) fun _ => List.mem_singleton.mp)

theorem Rewrites.below {key' : GoString}
    (hf : Rewrites windows path (below key binds) (below key mounts) Json.obj F) :
    Rewrites windows path (Rewrite.below key' (Rewrite.below key binds))
      (Rewrite.below key' (Rewrite.below key mounts)) Json.obj
      fun m => JsonMap.onMap m key' F :=
  hf.under (under_onMap key' F) (not_isSource_of_not_obj (fromKey_below _ _) (fromKey_below _ _))

theorem hostConfig_rewrites :
    Rewrites (N := N) windows path
      (Rewrite.below "Binds".toList [[]] ++ Rewrite.below "Mounts".toList [])
      (Rewrite.below "Binds".toList [] ++ Rewrite.below "Mounts".toList [[]]) Json.obj
      (rewriteHostConfig windows path) :=
  (binds_rewrites "Binds".toList).andThen (mounts_rewrites "Mounts".toList) (under_onArray _ _)
    (by decide)

theorem container_rewrites :
    Rewrites (N := N) windows path
      (Rewrite.below "HostConfig".toList
          (Rewrite.below "Binds".toList [[]] ++ Rewrite.below "Mounts".toList []) ++
        Rewrite.below "Mounts".toList [])
      (Rewrite.below "HostConfig".toList
          (Rewrite.below "Binds".toList [] ++ Rewrite.below "Mounts".toList [[]]) ++
        Rewrite.below "Mounts".toList [[]]) Json.obj
      (rewriteContainerSummary windows path) := by
  have hnone := not_isSource_of_not_obj (N := N)
    ((fromKey_below "Binds".toList [[]]).append (fromKey_below "Mounts".toList []))
    ((fromKey_below "Binds".toList []).append (fromKey_below "Mounts".toList [[]]))
  exact Rewrites.andThen (hostConfig_rewrites.under (under_onMap "HostConfig".toList _) hnone)
    (mounts_rewrites "Mounts".toList) (under_onMap _ _) (by decide)

end Parts

/-- Where an object has its arrays of binds. -/
def Rewriter.binds : Rewriter → List Position
  | containerSummary => [[.field "HostConfig".toList, .field "Binds".toList]]
  | containerConfig => [[.field "HostConfig".toList, .field "Binds".toList]]
  | serviceSpec => []
  | service => []
  | task => []

/-- Where an object has its arrays of mounts. -/
def Rewriter.mounts : Rewriter → List Position
  | containerSummary =>
    [[.field "HostConfig".toList, .field "Mounts".toList], [.field "Mounts".toList]]
  | containerConfig =>
    [[.field "HostConfig".toList, .field "Mounts".toList], [.field "Mounts".toList]]
  | serviceSpec =>
    [[.field "TaskTemplate".toList, .field "ContainerSpec".toList, .field "Mounts".toList]]
  | service =>
    [[.field "Spec".toList, .field "TaskTemplate".toList, .field "ContainerSpec".toList,
      .field "Mounts".toList]]
  | task => [[.field "Spec".toList, .field "ContainerSpec".toList, .field "Mounts".toList]]

theorem Rewriter.rewrites (windows : Bool) (path : GoString) (rewriter : Rewriter) :
    Rewrites (N := N) windows path rewriter.binds rewriter.mounts Json.obj
      (rewriter.apply windows path) := by
  cases rewriter with
  | containerSummary => exact container_rewrites
  | containerConfig => exact container_rewrites
  | serviceSpec => exact (mounts_rewrites "Mounts".toList).below.below
  | service => exact (mounts_rewrites "Mounts".toList).below.below.below
  | task => exact (mounts_rewrites "Mounts".toList).below.below

theorem Rewriter.fromKey (rewriter : Rewriter) :
    FromKey rewriter.binds ∧ FromKey rewriter.mounts := by
  cases rewriter <;> simp [FromKey, binds, mounts]

/-! ## Bodies -/

/-- The bind sources of a body: those of the object, or of the objects in the array. -/
def Rewriter.IsSource (rewriter : Rewriter) : Json N → Position → Prop
  | .arr items, p => ∃ (i : Nat) (o : Json N) (q : Position),
      items[i]? = some o ∧ p = .item i :: q ∧ Rewrite.IsSource rewriter.binds rewriter.mounts o q
  | doc, p => Rewrite.IsSource rewriter.binds rewriter.mounts doc p

def Rewriter.WellTyped (rewriter : Rewriter) : Json N → Prop
  | .arr items => ∀ o ∈ items, Rewrite.WellTyped rewriter.binds rewriter.mounts o
  | doc => Rewrite.WellTyped rewriter.binds rewriter.mounts doc

/-- `doc` is the object or the array that the body holds. -/
def Unmarshals (C : JsonCodec N) (buf : List UInt8) (doc : Json N) : Prop :=
  (buf.head? = some openBrace ∧ ∃ m, C.unmarshalMap buf = .ok m ∧ doc = .obj m) ∨
    (buf.head? = some openBracket ∧ ∃ items, C.unmarshalArray buf = .ok items ∧ doc = .arr items)

section Bodies

variable {windows : Bool} {C : JsonCodec N} {wslDistroName : GoString} {rewriter : Rewriter}

theorem rewriteItem_changed {o o' : Json N}
    (h : rewriteItem windows wslDistroName rewriter o = .ok o') :
    ChangedAt (IsSource rewriter.binds rewriter.mounts o)
      (mapPath windows · (basePath wslDistroName)) o o' := by
  cases o with
  | obj m =>
    obtain ⟨m', hm, h⟩ := bind_ok h
    obtain rfl := Except.ok.inj h
    exact (rewriter.rewrites windows _).frame m m' hm
  | _ =>
    obtain rfl := Except.ok.inj h
    exact ChangedAt.refl
      (not_isSource_of_not_obj rewriter.fromKey.1 rewriter.fromKey.2 _ fun m hm => nomatch hm)

theorem rewriteItem_runs {o : Json N} (h : WellTyped rewriter.binds rewriter.mounts o) :
    ∃ o', rewriteItem windows wslDistroName rewriter o = .ok o' := by
  cases o with
  | obj m =>
    obtain ⟨m', hm⟩ := (rewriter.rewrites windows (basePath wslDistroName)).runs m h
    exact ⟨.obj m', congrArg (Except.map Json.obj) hm⟩
  | _ => exact ⟨_, rfl⟩

theorem ne_nil_of_head? {buf : List UInt8} {c : UInt8} (h : buf.head? = some c) :
    ¬ buf.length = 0 := by
  intro hlen
  rw [List.length_eq_zero_iff.mp hlen] at h
  exact nomatch h

theorem jsonItems_of_obj {buf : List UInt8} {m : JsonMap N} (hc : buf.head? = some openBrace)
    (hm : C.unmarshalMap buf = .ok m) : jsonItems C buf = .ok (some ([.obj m], false)) := by
  rw [jsonItems, if_pos hc, hm]
  rfl

theorem jsonItems_of_arr {buf : List UInt8} {items : List (Json N)}
    (hc : buf.head? = some openBracket)
    (hi : C.unmarshalArray buf = .ok items) : jsonItems C buf = .ok (some (items, true)) := by
  have hne : ¬ buf.head? = some openBrace := by
    rw [hc]
    exact fun h => openBrace_ne (Option.some.inj h).symm
  rw [jsonItems, if_neg hne, if_pos hc, hi]
  rfl

variable (windows wslDistroName rewriter) in
/-- What is made of a document before it is marshalled. -/
theorem rewriteRead_unmarshals {buf : List UInt8} {doc : Json N} (h : Unmarshals C buf doc) :
    ∃ step : Except Panic (Json N),
      rewriteRead windows C wslDistroName rewriter buf none = step.map C.marshal ∧
        (∀ doc', step = .ok doc' → ChangedAt (rewriter.IsSource doc)
          (mapPath windows · (basePath wslDistroName)) doc doc') ∧
        (rewriter.WellTyped doc → ∃ doc', step = .ok doc') := by
  rcases h with ⟨hc, m, hm, rfl⟩ | ⟨hc, items, hi, rfl⟩
  · refine ⟨rewriteItem windows wslDistroName rewriter (.obj m), ?_, fun _ => rewriteItem_changed,
      rewriteItem_runs⟩
    simp only [rewriteRead, if_neg (ne_nil_of_head? hc), jsonItems_of_obj hc hm]
    rw [List.mapM_cons]
    cases rewriteItem windows wslDistroName rewriter (.obj m) <;> rfl
  · refine ⟨(items.mapM (rewriteItem windows wslDistroName rewriter)).map Json.arr, ?_, ?_, ?_⟩
    · simp only [rewriteRead, if_neg (ne_nil_of_head? hc), jsonItems_of_arr hc hi]
      cases items.mapM (rewriteItem windows wslDistroName rewriter) <;> rfl
    · intro doc' h
      cases hitems : items.mapM (rewriteItem windows wslDistroName rewriter) with
      | error e =>
        rw [hitems] at h
        cases h
      | ok items' =>
        rw [hitems] at h
        obtain rfl := Except.ok.inj h
        exact ChangedAt.items (mapM_length hitems) fun i o o' ho ho' =>
          rewriteItem_changed (mapM_getElem hitems i o o' ho ho')
    · intro hw
      obtain ⟨items', hitems⟩ := mapM_runs (g := rewriteItem windows wslDistroName rewriter)
        fun o ho => rewriteItem_runs (hw o ho)
      exact ⟨.arr items', congrArg (Except.map Json.arr) hitems⟩

/-- **A body comes out with its bind sources mapped once and everything else as it
was; and it does come out, when its binds and mounts are of the types of the API.** -/
theorem rewriteBody_frame (windows : Bool) (C : JsonCodec N) (urlPath wslDistroName : GoString)
    (rewriter : Rewriter) (hrewriter : getRewriter urlPath = some rewriter) (buf : List UInt8)
    (doc : Json N) (hdoc : Unmarshals C buf doc) :
    (∀ bytes, (rewriteBody windows C urlPath wslDistroName (some ⟨buf, none⟩)).1 = .ok (.ok bytes) →
      ∃ doc', C.marshal doc' = .ok bytes ∧
        ChangedAt (rewriter.IsSource doc) (mapPath windows · (basePath wslDistroName)) doc doc') ∧
      (rewriter.WellTyped doc → ∃ bytes,
        (rewriteBody windows C urlPath wslDistroName (some ⟨buf, none⟩)).1 = .ok (.ok bytes)) := by
  obtain ⟨step, hstep, hchanged, hruns⟩ :=
    rewriteRead_unmarshals windows wslDistroName rewriter hdoc
  have hread : (rewriteBody windows C urlPath wslDistroName (some ⟨buf, none⟩)).1
      = step.map C.marshal := by
    rw [rewriteBody_reads hrewriter]
    exact hstep
  rw [hread]
  refine ⟨fun bytes h => ?_, fun hw => ?_⟩
  · cases step with
    | error e => exact nomatch h
    | ok doc' => exact ⟨doc', Except.ok.inj h, hchanged doc' rfl⟩
  · obtain ⟨doc', rfl⟩ := hruns hw
    obtain ⟨bytes, hbytes, -⟩ := C.marshal_ok doc'
    exact ⟨bytes, congrArg Except.ok hbytes⟩

end Bodies

/-! ### A container with a bind, two mounts and a limit -/

mutual

/-- A document as `json.Marshal` prints it, for strings that need no escapes. -/
def Json.text : Json Nat → GoString
  | .null => "null".toList
  | .bool b => (toString b).toList
  | .num n => Nat.toDigits 10 n
  | .str s => "\"".toList ++ s ++ "\"".toList
  | .arr items => "[".toList ++ Json.itemsText items ++ "]".toList
  | .obj fields => "\x7b".toList ++ Json.fieldsText fields ++ "\x7d".toList

def Json.itemsText : List (Json Nat) → GoString
  | [] => []
  | [o] => o.text
  | o :: items => o.text ++ ",".toList ++ Json.itemsText items

def Json.fieldsText : List (GoString × Json Nat) → GoString
  | [] => []
  | [(key, o)] => "\"".toList ++ key ++ "\":".toList ++ o.text
  | (key, o) :: fields =>
    "\"".toList ++ key ++ "\":".toList ++ o.text ++ ",".toList ++ Json.fieldsText fields

end

def Json.bytes (o : Json Nat) : List UInt8 := o.text.map fun c => c.toNat.toUInt8

theorem Json.bytes_ne_nil (o : Json Nat) : o.bytes ≠ [] := by
  intro h
  have htext : o.text = [] := List.map_eq_nil_iff.mp h
  cases o with
  | bool b => cases b <;> exact nomatch htext
  | num n => exact Nat.toDigits_ne_nil htext
  | _ => exact nomatch htext

/-- A codec that decodes the text of this object. -/
def objectCodec (fields : JsonMap Nat) : JsonCodec Nat where
  unmarshalMap buf :=
    if buf = (Json.obj fields).bytes then .ok fields else .error "invalid character".toList
  unmarshalArray _ := .error "invalid character".toList
  marshal o := .ok o.bytes
  marshal_ok o := ⟨_, rfl, o.bytes_ne_nil⟩

theorem objectCodec_unmarshals (fields : JsonMap Nat) :
    Unmarshals (objectCodec fields) (Json.obj fields).bytes (.obj fields) :=
  .inl ⟨rfl, fields, if_pos rfl, rfl⟩

def volume : JsonMap Nat :=
  [("Type".toList, .str "volume".toList), ("Source".toList, .str "/cache".toList)]

def bindMount : JsonMap Nat :=
  [("Source".toList, .str "/home".toList), ("Type".toList, .str "bind".toList)]

def nginx : JsonMap Nat :=
  [("Image".toList, .str "nginx".toList),
    ("HostConfig".toList, .obj
      [("Binds".toList, .arr [.str "/home:/data".toList]),
        ("Memory".toList, .num 1073741824),
        ("Mounts".toList, .arr [.obj volume, .obj bindMount])])]

theorem nginx_bind {i : Nat} {o : Json Nat}
    (h : (Json.obj nginx).at [.field "HostConfig".toList, .field "Binds".toList,
      .item i] = some o) :
    o = .str "/home:/data".toList := by
  obtain ⟨v, hv, hvo⟩ : ∃ v, [Json.str "/home:/data".toList][i]? = some v ∧ v.at [] = some o :=
    Option.bind_eq_some_iff.mp h
  obtain rfl := List.mem_singleton.mp (List.mem_of_getElem? hv)
  exact (Option.some.inj hvo).symm

theorem nginx_mount {a : Position} (ha : a ∈ Rewriter.containerConfig.mounts) {i : Nat}
    {m : JsonMap Nat} (h : (Json.obj nginx).at (a ++ [.item i]) = some (.obj m)) :
    m = volume ∨ m = bindMount := by
  rcases List.mem_cons.mp ha with rfl | ha
  · obtain ⟨v, hv, hvm⟩ :
        ∃ v, [Json.obj volume, .obj bindMount][i]? = some v ∧ v.at [] = some (.obj m) :=
      Option.bind_eq_some_iff.mp h
    obtain rfl : v = .obj m := Option.some.inj ((Json.at_nil v).symm.trans hvm)
    rcases List.mem_cons.mp (List.mem_of_getElem? hv) with hm | hm
    · exact .inl (Json.obj.inj hm)
    · exact .inr (Json.obj.inj (List.mem_singleton.mp hm))
  · obtain rfl := List.mem_singleton.mp ha
    exact nomatch h

theorem nginx_wellTyped : Rewriter.WellTyped .containerConfig (Json.obj nginx) where
  bind := by
    intro a ha i o ho
    obtain rfl := List.mem_singleton.mp ha
    exact ⟨_, nginx_bind ho⟩
  mountType := by
    intro a ha i m hm
    rcases nginx_mount ha hm with rfl | rfl
    · exact ⟨_, rfl⟩
    · exact ⟨_, rfl⟩
  mountSource := by
    intro a ha i m hm htype
    rcases nginx_mount ha hm with rfl | rfl
    · exact absurd (Json.str.inj (Option.some.inj htype)) (by decide)
    · exact ⟨_, rfl⟩

/-- No source is that near to the root. -/
theorem nginx_source_length {p : Position}
    (h : Rewriter.IsSource .containerConfig (Json.obj nginx) p) : 3 ≤ p.length := by
  rcases h with ⟨a, ha, i, rfl, -⟩ | ⟨a, ha, i, rfl, -⟩
  · obtain rfl := List.mem_singleton.mp ha
    exact Nat.le_refl 3
  · rw [List.length_append]
    rcases List.mem_cons.mp ha with rfl | ha
    · exact Nat.le_succ 3
    · obtain rfl := List.mem_singleton.mp ha
      exact Nat.le_refl 3

theorem nginx_volume_not_source : ¬ Rewriter.IsSource .containerConfig (Json.obj nginx)
    [.field "HostConfig".toList, .field "Mounts".toList, .item 0, .field "Source".toList] := by
  rintro (⟨a, ha, i, hp, -⟩ | ⟨a, ha, i, hp, htype⟩)
  · obtain rfl := List.mem_singleton.mp ha
    exact absurd (congrArg List.length hp) (by decide : 4 ≠ 3)
  · rcases List.mem_cons.mp ha with rfl | ha
    · obtain rfl : 0 = i := Place.item.inj (List.cons.inj (List.cons.inj (List.cons.inj hp).2).2).1
      exact absurd (Json.str.inj (Option.some.inj htype)) (by decide)
    · obtain rfl := List.mem_singleton.mp ha
      exact absurd (congrArg List.length hp) (by decide : 4 ≠ 3)

/-- The bind and the bind mount are mapped; the volume, the image and the limit stay. -/
theorem rewriteBody_frame_nginx :
    ∃ bytes doc',
      (rewriteBody false (objectCodec nginx) "/containers/create".toList "Ubuntu".toList
          (some ⟨(Json.obj nginx).bytes, none⟩)).1 = .ok (.ok bytes) ∧
        (objectCodec nginx).marshal doc' = .ok bytes ∧
        doc'.at [.field "HostConfig".toList, .field "Binds".toList, .item 0]
          = some (.str "/mnt/wsl/Ubuntu/home:/data".toList) ∧
        doc'.at [.field "HostConfig".toList, .field "Mounts".toList, .item 1,
          .field "Source".toList]
          = some (.str "/mnt/wsl/Ubuntu/home".toList) ∧
        doc'.at [.field "HostConfig".toList, .field "Mounts".toList, .item 0,
          .field "Source".toList]
          = some (.str "/cache".toList) ∧
        doc'.at [.field "Image".toList] = some (.str "nginx".toList) ∧
        (doc'.at [.field "HostConfig".toList, .field "Memory".toList]).map Json.node
          = some (.num 1073741824) := by
  obtain ⟨hframe, hruns⟩ := rewriteBody_frame false (objectCodec nginx) "/containers/create".toList
    "Ubuntu".toList .containerConfig (by decide) _ _ (objectCodec_unmarshals nginx)
  obtain ⟨bytes, hbytes⟩ := hruns nginx_wellTyped
  obtain ⟨doc', hdoc', hchanged⟩ := hframe bytes hbytes
  have hbind : mapPath false "/home:/data".toList (basePath "Ubuntu".toList)
      = "/mnt/wsl/Ubuntu/home:/data".toList := by decide
  have hmount : mapPath false "/home".toList (basePath "Ubuntu".toList)
      = "/mnt/wsl/Ubuntu/home".toList := by decide
  refine ⟨bytes, doc', hbytes, hdoc', ?_, ?_, ?_, ?_, ?_⟩
  · obtain ⟨s, hs, hs'⟩ := hchanged.changed
      [.field "HostConfig".toList, .field "Binds".toList, .item 0]
      (.inl ⟨_, List.mem_singleton_self _, 0, rfl, _, rfl⟩)
    obtain rfl := Json.str.inj (nginx_bind hs)
    rw [hs', hbind]
  · obtain ⟨s, hs, hs'⟩ := hchanged.changed
      [.field "HostConfig".toList, .field "Mounts".toList, .item 1, .field "Source".toList]
      (.inr ⟨_, List.mem_cons_self, 1, rfl, rfl⟩)
    obtain rfl : "/home".toList = s := Json.str.inj (Option.some.inj hs)
    rw [hs', hmount]
  · exact at_str_of_node (hchanged.same _ nginx_volume_not_source) rfl
  · exact at_str_of_node
      (hchanged.same _ fun h => absurd (nginx_source_length h) (by decide : ¬ 3 ≤ 1)) rfl
  · exact hchanged.same _ fun h => absurd (nginx_source_length h) (by decide : ¬ 3 ≤ 2)

end ContainerDesktop.Rewrite
