import ContainerDesktop.DesiredStateConfiguration.Context

/-!
# The resource that adds to the path

`AddToPath` keeps one directory among the entries of the user's `PATH`, a text
that belongs to the user and holds any entries, also empty or repeated ones.

The variable is a value of the registry, so it may be missing, and
`SetEnvironmentVariable` removes it when it is given a text that is empty or
begins with a NUL.  `editsOwnEntry_iff` says for which texts the resource
touches nothing but its own entry.
-/

namespace ContainerDesktop.DesiredStateConfiguration

/-! ## Entries -/

/-- A text that the framework splits and joins. -/
abbrev Text := List Char

/-- `path.Split(';')`. -/
def pathEntries (path : Text) : List Text := path.splitOn ';'

/-- `string.Join(';', parts)`. -/
def joinEntries (parts : List Text) : Text := [';'].intercalate parts

section Entries

variable {same : Text → Bool} {parts : List Text} {path e : Text}

@[simp] theorem joinEntries_pathEntries (path : Text) : joinEntries (pathEntries path) = path :=
  List.intercalate_splitOn ';'

theorem pathEntries_ne_nil (path : Text) : pathEntries path ≠ [] := List.splitOn_ne_nil ';' path

theorem pathEntries_append (path e : Text) :
    pathEntries (path ++ ';' :: e) = pathEntries path ++ pathEntries e :=
  List.splitOn_append_cons_self path e

theorem pathEntries_singleton (he : ';' ∉ e) : pathEntries e = [e] := List.splitOn_eq_singleton he

theorem not_mem_pathEntries : ∀ {path part : Text}, part ∈ pathEntries path → ';' ∉ part := by
  intro path
  induction path with
  | nil =>
    intro part h
    obtain rfl := List.mem_singleton.mp h
    exact List.not_mem_nil
  | cons c path ih =>
    intro part h
    rw [pathEntries, List.splitOn_cons_eq_if_modifyHead] at h
    split at h
    · rcases List.mem_cons.mp h with rfl | h
      · exact List.not_mem_nil
      · exact ih h
    · rename_i hc
      obtain ⟨first, rest, hsplit⟩ := List.exists_cons_of_ne_nil (pathEntries_ne_nil path)
      rw [← pathEntries, hsplit, List.modifyHead_cons] at h
      rw [hsplit] at ih
      rcases List.mem_cons.mp h with rfl | h
      · have hfirst := ih List.mem_cons_self
        simp only [List.mem_cons, not_or]
        exact ⟨fun heq => hc (by simp [← heq]), hfirst⟩
      · exact ih (List.mem_cons_of_mem _ h)

theorem pathEntries_joinEntries (h : ∀ part ∈ parts, ';' ∉ part) (hne : parts ≠ []) :
    pathEntries (joinEntries parts) = parts :=
  List.splitOn_intercalate ';' h hne

/-- Joining entries of a path and splitting again changes nothing but the path without entries. -/
theorem pathEntries_join_sublist (h : parts.Sublist (pathEntries path)) (hne : parts ≠ []) :
    pathEntries (joinEntries parts) = parts :=
  pathEntries_joinEntries (fun _ hpart => not_mem_pathEntries (h.subset hpart)) hne

theorem eraseP_eq_filter (h : parts.countP same ≤ 1) :
    parts.eraseP same = parts.filter (!same ·) := by
  induction parts with
  | nil => rfl
  | cons part parts ih =>
    cases hp : same part with
    | true =>
      rw [List.countP_cons_of_pos hp] at h
      have hnone : ∀ a ∈ parts, ¬ same a := List.countP_eq_zero.mp (by omega)
      rw [List.eraseP_cons_of_pos hp, List.filter_cons_of_neg (by simp [hp])]
      exact (List.filter_eq_self.mpr fun a ha => by simpa using hnone a ha).symm
    | false =>
      rw [List.countP_cons_of_neg (by simp [hp])] at h
      rw [List.eraseP_cons_of_neg (by simp [hp]), List.filter_cons_of_pos (by simp [hp]), ih h]

/-- Of several equal entries, all but the first stay. -/
theorem exists_mem_eraseP (h : 1 < parts.countP same) : ∃ a ∈ parts.eraseP same, same a := by
  induction parts with
  | nil => exact absurd h (by simp)
  | cons part parts ih =>
    cases hp : same part with
    | true =>
      rw [List.countP_cons_of_pos hp] at h
      rw [List.eraseP_cons_of_pos hp]
      exact List.countP_pos_iff.mp (by omega)
    | false =>
      rw [List.countP_cons_of_neg (by simp [hp])] at h
      obtain ⟨a, ha, hsame⟩ := ih h
      rw [List.eraseP_cons_of_neg (by simp [hp])]
      exact ⟨a, List.mem_cons_of_mem _ ha, hsame⟩

end Entries

/-! ## The resource -/

/-- The machine as `AddToPath` sees it. -/
structure UserEnvironment (W : Type) where
  /-- The variable `PATH` of the user, when there is one. -/
  path : W → Option Text
  writePath : Option Text → W → W
  path_writePath : ∀ (value : Option Text) (w : W), path (writePath value w) = value
  expandEnvironmentVariables : Text → Text
  toUpperInvariant : Char → Char

/-- What `SetEnvironmentVariable` leaves of a value. -/
def storedValue : Text → Option Text
  | [] => none
  | c :: value => if c = '\x00' then none else some (c :: value)

/-- `SetEnvironmentVariable` keeps the value. -/
def Storable (value : Text) : Prop := storedValue value = some value

instance (value : Text) : Decidable (Storable value) :=
  inferInstanceAs (Decidable (storedValue value = some value))

structure AddToPath where
  path : Text

variable {W : Type}

namespace AddToPath

def expandedPath (m : UserEnvironment W) (a : AddToPath) : Text :=
  m.expandEnvironmentVariables a.path

/-- `s.Equals(ExpandedPath, StringComparison.OrdinalIgnoreCase)`. -/
def isOwn (m : UserEnvironment W) (a : AddToPath) (s : Text) : Bool :=
  s.map m.toUpperInvariant == (a.expandedPath m).map m.toUpperInvariant

/-- `GetPath`. -/
def getPath (m : UserEnvironment W) : Eff (ConfigurationContext W) Exn (Option Text) := do
  let c ← Eff.get
  pure (m.path c.machine)

/-- `SetPath`. -/
def setPath (m : UserEnvironment W) (path : Text) : Eff (ConfigurationContext W) Exn Unit :=
  Eff.modify fun c => { c with machine := m.writePath (storedValue path) c.machine }

/-- `path.Split(';')`, where the path may be null. -/
def split : Option Text → Eff (ConfigurationContext W) Exn (List Text)
  | none => Eff.throw (.other "NullReferenceException")
  | some path => pure (pathEntries path)

def set (m : UserEnvironment W) (a : AddToPath) : Eff (ConfigurationContext W) Exn Unit := do
  let path ← getPath m
  let parts ← split path
  match parts.findIdx? (a.isOwn m) with
  | none => setPath m (path.getD [] ++ ';' :: a.expandedPath m)
  | some _ => pure ()

def unset (m : UserEnvironment W) (a : AddToPath) : Eff (ConfigurationContext W) Exn Unit := do
  let path ← getPath m
  let parts ← split path
  match parts.findIdx? (a.isOwn m) with
  | none => pure ()
  | some index => setPath m (joinEntries (parts.eraseIdx index))

def test (m : UserEnvironment W) (a : AddToPath) : Eff (ConfigurationContext W) Exn Bool := do
  let path ← getPath m
  let parts ← split path
  pure (parts.any (a.isOwn m))

/-- A resource of the type `AddToPath`, with the properties of `ResourceBase` from
`base`. -/
def resource (m : UserEnvironment W) (a : AddToPath) (base : Resource W) : Resource W :=
  { base with test := a.test m, set := a.set m, unset := a.unset m }

/-! ## What the three operations do -/

section Operations

variable {m : UserEnvironment W} {a : AddToPath} {c : ConfigurationContext W} {p : Text}

/-- The context with another path. -/
def withPath (m : UserEnvironment W) (c : ConfigurationContext W) (value : Option Text) :
    ConfigurationContext W :=
  { c with machine := m.writePath value c.machine }

@[simp] theorem path_withPath (value : Option Text) : m.path (withPath m c value).machine = value :=
  m.path_writePath value c.machine

theorem isOwn_expandedPath (m : UserEnvironment W) (a : AddToPath) : a.isOwn m (a.expandedPath m) :=
  beq_self_eq_true _

/-- Without a variable all three throw. -/
theorem missing_throws (hp : m.path c.machine = none) :
    a.test m c = (.error (.other "NullReferenceException"), c) ∧
      a.set m c = (.error (.other "NullReferenceException"), c) ∧
      a.unset m c = (.error (.other "NullReferenceException"), c) := by
  have hget : getPath m c = (.ok none, c) := by
    show (Except.ok (m.path c.machine), c) = _
    rw [hp]
  refine ⟨?_, ?_, ?_⟩
  · rw [test, Eff.bind_ok hget]
    rfl
  · rw [set, Eff.bind_ok hget]
    rfl
  · rw [unset, Eff.bind_ok hget]
    rfl

theorem getPath_some (hp : m.path c.machine = some p) : getPath m c = (.ok (some p), c) := by
  show (Except.ok (m.path c.machine), c) = _
  rw [hp]

theorem split_some (p : Text) (c : ConfigurationContext W) :
    split (some p) c = (.ok (pathEntries p), c) := rfl

theorem test_run (hp : m.path c.machine = some p) :
    a.test m c = (.ok ((pathEntries p).any (a.isOwn m)), c) := by
  rw [test, Eff.bind_ok (getPath_some hp), Eff.bind_ok (split_some p c)]
  rfl

theorem findIdx_none {parts : List Text} (h : parts.any (a.isOwn m) = false) :
    parts.findIdx? (a.isOwn m) = none :=
  List.findIdx?_eq_none_iff.mpr (by simpa using h)

theorem set_run_present (hp : m.path c.machine = some p)
    (h : (pathEntries p).any (a.isOwn m) = true) : a.set m c = (.ok (), c) := by
  rw [set, Eff.bind_ok (getPath_some hp), Eff.bind_ok (split_some p c),
    List.findIdx?_eq_some_of_exists (List.any_eq_true.mp h)]
  rfl

theorem set_run_absent (hp : m.path c.machine = some p)
    (h : (pathEntries p).any (a.isOwn m) = false) :
    a.set m c = (.ok (), withPath m c (storedValue (p ++ ';' :: a.expandedPath m))) := by
  rw [set, Eff.bind_ok (getPath_some hp), Eff.bind_ok (split_some p c), findIdx_none h]
  rfl

theorem unset_run_absent (hp : m.path c.machine = some p)
    (h : (pathEntries p).any (a.isOwn m) = false) : a.unset m c = (.ok (), c) := by
  rw [unset, Eff.bind_ok (getPath_some hp), Eff.bind_ok (split_some p c), findIdx_none h]
  rfl

theorem unset_run_present (hp : m.path c.machine = some p)
    (h : (pathEntries p).any (a.isOwn m) = true) :
    a.unset m c =
      (.ok (), withPath m c (storedValue (joinEntries ((pathEntries p).eraseP (a.isOwn m))))) := by
  have hidx := List.findIdx?_eq_some_of_exists (List.any_eq_true.mp h)
  rw [unset, Eff.bind_ok (getPath_some hp), Eff.bind_ok (split_some p c), hidx,
    List.eraseP_eq_eraseIdx, hidx]
  rfl

end Operations

/-! ## Its own entry and no other -/

section OwnEntry

variable {m : UserEnvironment W} {a : AddToPath} {c : ConfigurationContext W} {p : Text}

/-- The path without the entries of `a`. -/
def otherEntries (m : UserEnvironment W) (a : AddToPath) (p : Text) : Text :=
  joinEntries ((pathEntries p).filter (!a.isOwn m ·))

/-- On the path `p`, the three operations touch the entry of `a` and nothing else. -/
structure EditsOwnEntry (m : UserEnvironment W) (a : AddToPath) (c : ConfigurationContext W)
    (p : Text) : Prop where
  unset_removes : ∃ c', a.unset m c = (.ok (), c') ∧
    m.path c'.machine = some (a.otherEntries m p) ∧ (a.test m c').1 = .ok false
  set_adds : ∃ c' p', a.set m c = (.ok (), c') ∧ m.path c'.machine = some p' ∧
    (a.test m c').1 = .ok true ∧ (pathEntries p).Sublist (pathEntries p') ∧
    ∃ c'', a.set m c' = (.ok (), c'') ∧ m.path c''.machine = some p'
  unset_set : (a.test m c).1 = .ok false →
    ∃ c' c'', a.set m c = (.ok (), c') ∧ a.unset m c' = (.ok (), c'') ∧
      m.path c''.machine = some p

theorem storable_iff (value : Text) : Storable value ↔ value ≠ [] ∧ value.head? ≠ some '\x00' := by
  cases value with
  | nil => simp [Storable, storedValue]
  | cons x value =>
    by_cases hx : x = '\x00' <;> simp [Storable, storedValue, hx]

theorem storable_of_stored {value : Text} (h : storedValue p = some value) : Storable p := by
  cases p with
  | nil => exact nomatch h
  | cons x p =>
    by_cases hx : x = '\x00'
    · rw [storedValue, if_pos hx] at h
      exact nomatch h
    · exact (storable_iff _).mpr ⟨by simp, by simpa using hx⟩

theorem storable_append (h : Storable p) (e : Text) : Storable (p ++ ';' :: e) := by
  obtain ⟨hne, hhead⟩ := (storable_iff p).mp h
  obtain ⟨x, rest, rfl⟩ := List.exists_cons_of_ne_nil hne
  exact (storable_iff _).mpr ⟨by simp, hhead⟩

/-- Without own entries the others are all. -/
theorem otherEntries_of_absent (h : (pathEntries p).any (a.isOwn m) = false) :
    a.otherEntries m p = p := by
  have hall : ∀ part ∈ pathEntries p, (!a.isOwn m part) = true := by simpa using h
  rw [otherEntries, List.filter_eq_self.mpr hall, joinEntries_pathEntries]

theorem test_of_path {c' : ConfigurationContext W} {p' : Text} (h : m.path c'.machine = some p') :
    (a.test m c').1 = .ok ((pathEntries p').any (a.isOwn m)) := by
  rw [test_run h]

/-- The path after `Set` on a path without own entries. -/
theorem pathEntries_set (he : ';' ∉ a.expandedPath m) (p : Text) :
    pathEntries (p ++ ';' :: a.expandedPath m) = pathEntries p ++ [a.expandedPath m] := by
  rw [pathEntries_append, pathEntries_singleton he]

theorem any_set (he : ';' ∉ a.expandedPath m) (p : Text) :
    (pathEntries (p ++ ';' :: a.expandedPath m)).any (a.isOwn m) = true := by
  rw [pathEntries_set he, List.any_append, List.any_cons, isOwn_expandedPath, Bool.true_or,
    Bool.or_true]

/-- `Unset` takes off what `Set` has put on. -/
theorem eraseP_set (he : ';' ∉ a.expandedPath m) (h : (pathEntries p).any (a.isOwn m) = false) :
    joinEntries ((pathEntries (p ++ ';' :: a.expandedPath m)).eraseP (a.isOwn m)) = p := by
  have hnone : ∀ part ∈ pathEntries p, ¬ a.isOwn m part := by simpa using h
  rw [pathEntries_set he, List.eraseP_append_right _ hnone,
    List.eraseP_cons_of_pos (isOwn_expandedPath m a), List.append_nil, joinEntries_pathEntries]

theorem unset_set_run (he : ';' ∉ a.expandedPath m) (h : (pathEntries p).any (a.isOwn m) = false)
    {c' : ConfigurationContext W} (hp' : m.path c'.machine = some (p ++ ';' :: a.expandedPath m)) :
    a.unset m c' = (.ok (), withPath m c' (storedValue p)) := by
  rw [unset_run_present hp' (any_set he p), eraseP_set he h]

theorem storable_of_unset_set (he : ';' ∉ a.expandedPath m) (hp : m.path c.machine = some p)
    (h : (pathEntries p).any (a.isOwn m) = false) (hedits : EditsOwnEntry m a c p) :
    Storable p := by
  obtain ⟨c', p', hset, hp', -⟩ := hedits.set_adds
  obtain ⟨c₁, c₂, hset₁, hunset, hback⟩ := hedits.unset_set (by rw [test_of_path hp, h])
  rw [set_run_absent hp h] at hset hset₁
  obtain rfl := (Prod.ext_iff.mp hset).2
  obtain rfl := (Prod.ext_iff.mp hset₁).2
  rw [path_withPath] at hp'
  rw [storable_of_stored hp'] at hunset
  rw [unset_set_run he h (path_withPath _)] at hunset
  obtain rfl := (Prod.ext_iff.mp hunset).2
  exact (path_withPath _).symm.trans hback

theorem editsOwnEntry_of_absent (he : ';' ∉ a.expandedPath m) (hp : m.path c.machine = some p)
    (h : (pathEntries p).any (a.isOwn m) = false) (hstore : Storable p) :
    EditsOwnEntry m a c p := by
  have hset := set_run_absent hp h
  rw [storable_append hstore (a.expandedPath m)] at hset
  refine ⟨⟨c, unset_run_absent hp h, ?_, ?_⟩, ⟨_, _, hset, path_withPath _, ?_, ?_, ?_⟩, ?_⟩
  · rw [hp, otherEntries_of_absent h]
  · rw [test_of_path hp, h]
  · rw [test_of_path (path_withPath _), any_set he]
  · rw [pathEntries_set he]
    exact List.sublist_append_left _ _
  · exact ⟨_, set_run_present (path_withPath _) (any_set he p), path_withPath _⟩
  · intro _
    refine ⟨_, _, hset, unset_set_run he h (path_withPath _), ?_⟩
    rw [path_withPath, hstore]

/-- What `Unset` must leave of a path with own entries. -/
theorem once_of_unset_removes (hp : m.path c.machine = some p)
    (h : (pathEntries p).any (a.isOwn m) = true) (hedits : EditsOwnEntry m a c p) :
    (pathEntries p).countP (a.isOwn m) ≤ 1 ∧ Storable (a.otherEntries m p) := by
  obtain ⟨c', hunset, hpath, htest⟩ := hedits.unset_removes
  rw [unset_run_present hp h] at hunset
  obtain rfl := (Prod.ext_iff.mp hunset).2
  rw [path_withPath] at hpath
  have hstored : Storable (joinEntries ((pathEntries p).eraseP (a.isOwn m))) :=
    storable_of_stored hpath
  have honce : (pathEntries p).countP (a.isOwn m) ≤ 1 := by
    refine Nat.le_of_not_lt fun hmany => ?_
    obtain ⟨part, hmem, hown⟩ := exists_mem_eraseP hmany
    rw [hstored] at htest
    rw [test_of_path (path_withPath _),
      pathEntries_join_sublist List.eraseP_sublist (List.ne_nil_of_mem hmem)] at htest
    exact absurd (List.any_eq_true.mpr ⟨part, hmem, hown⟩) (by simp [Except.ok.inj htest])
  rw [eraseP_eq_filter honce] at hstored
  exact ⟨honce, hstored⟩

theorem editsOwnEntry_of_once (hp : m.path c.machine = some p)
    (h : (pathEntries p).any (a.isOwn m) = true)
    (honce : (pathEntries p).countP (a.isOwn m) ≤ 1) (hstore : Storable (a.otherEntries m p)) :
    EditsOwnEntry m a c p := by
  have hunset : a.unset m c = (.ok (), withPath m c (storedValue (a.otherEntries m p))) := by
    rw [unset_run_present hp h, eraseP_eq_filter honce, otherEntries]
  have hpath : m.path (withPath m c (storedValue (a.otherEntries m p))).machine
      = some (a.otherEntries m p) := by
    rw [path_withPath, hstore]
  refine ⟨⟨_, hunset, hpath, ?_⟩, ⟨c, p, set_run_present hp h, hp, ?_, List.Sublist.refl _, c,
    set_run_present hp h, hp⟩, ?_⟩
  · have hne : (pathEntries p).filter (!a.isOwn m ·) ≠ [] := by
      intro hnil
      rw [otherEntries, hnil] at hstore
      exact nomatch hstore
    rw [test_of_path hpath, otherEntries, pathEntries_join_sublist List.filter_sublist hne]
    simp
  · rw [test_of_path hp, h]
  · intro htest
    rw [test_of_path hp, h] at htest
    exact nomatch htest

/-- `AddToPath` edits its own entry and no other exactly for a path that holds this
entry once at most and has a text that can be stored without it. -/
theorem editsOwnEntry_iff (m : UserEnvironment W) (a : AddToPath) (c : ConfigurationContext W)
    (p : Text) (he : ';' ∉ a.expandedPath m) (hp : m.path c.machine = some p) :
    EditsOwnEntry m a c p ↔
      (pathEntries p).countP (a.isOwn m) ≤ 1 ∧ Storable (a.otherEntries m p) := by
  constructor
  · intro hedits
    cases h : (pathEntries p).any (a.isOwn m) with
    | false =>
      have hnone : ∀ part ∈ pathEntries p, ¬ a.isOwn m part := by simpa using h
      rw [List.countP_eq_zero.mpr hnone, otherEntries_of_absent h]
      exact ⟨Nat.zero_le _, storable_of_unset_set he hp h hedits⟩
    | true => exact once_of_unset_removes hp h hedits
  · intro ⟨honce, hstore⟩
    cases h : (pathEntries p).any (a.isOwn m) with
    | false => exact editsOwnEntry_of_absent he hp h (otherEntries_of_absent h ▸ hstore)
    | true => exact editsOwnEntry_of_once hp h honce hstore

end OwnEntry

/-- A machine of which only the variable is of interest. -/
def onlyPath : UserEnvironment (Option Text) where
  path value := value
  writePath value _ := value
  path_writePath _ _ := rfl
  expandEnvironmentVariables := id
  toUpperInvariant := Char.toUpper

def onPath (path : String) : ConfigurationContext (Option Text) where
  installedVersion := none
  state := none
  stateFile := none
  restartPending := false
  delayReboot := false
  machine := some path.toList

def addTools : AddToPath := ⟨"C:\\Tools".toList⟩

theorem editsOwnEntry_once :
    EditsOwnEntry onlyPath addTools (onPath "D:\\;;c:\\tools;") "D:\\;;c:\\tools;".toList :=
  (editsOwnEntry_iff onlyPath addTools (onPath "D:\\;;c:\\tools;") _
    (by decide) rfl).mpr (by decide)

/-- `Unset` leaves the second of two equal entries. -/
theorem unset_leaves_second :
    ¬ ∀ (m : UserEnvironment (Option Text)) (a : AddToPath)
      (c : ConfigurationContext (Option Text)) (p : Text), a.expandedPath m ≠ [] →
      ';' ∉ a.expandedPath m → m.path c.machine = some p → EditsOwnEntry m a c p := by
  intro h
  have hedits := h onlyPath addTools (onPath "C:\\Tools;C:\\tools") _ (by decide) (by decide) rfl
  obtain ⟨c', hunset, -, htest⟩ := hedits.unset_removes
  have hrun : addTools.unset onlyPath (onPath "C:\\Tools;C:\\tools")
      = (.ok (), onPath "C:\\tools") := rfl
  rw [hrun] at hunset
  obtain rfl := (Prod.ext_iff.mp hunset).2
  exact nomatch htest

end AddToPath

end ContainerDesktop.DesiredStateConfiguration
