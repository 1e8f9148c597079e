import Mathlib.Logic.Function.Basic
import ContainerDesktop.DesiredStateConfiguration.Outcome

/-!
# Resources that copy a file

`CopyFile` copies a source over a target, and its `Test` compares the two by their
SHA-1.  The comparison is negated: `Test` answers true for a target that differs
from its source.  `apply_copies_iff` says which targets are nevertheless what they
should be after a run that succeeds.

A `FileSystem` is given by its operations and by what is documented of them.  The
other resources of the manifest are arbitrary and leave the targets alone.  They may
write the sources, as a resource does that unpacks the files which are copied later.
-/

namespace ContainerDesktop.DesiredStateConfiguration

variable {W F : Type}

/-! ## Files -/

abbrev Bytes := List UInt8

/-- The operations of `IFileSystem.File` on a machine.  Several paths may name one
file. -/
structure FileSystem (W F : Type) where
  name : String → F
  bytes : W → F → Option Bytes
  /-- `Copy(source, target, true)`. -/
  copy : String → String → Eff W Exn Unit
  delete : String → Eff W Exn Unit
  openRead : String → Eff W Exn Bytes
  copy_ok : ∀ {source target : String} {w w' : W}, copy source target w = (.ok (), w') →
    ∃ b, bytes w (name source) = some b ∧ bytes w' (name target) = some b
  delete_ok : ∀ {path : String} {w w' : W}, delete path w = (.ok (), w') →
    bytes w' (name path) = none
  openRead_ok : ∀ {path : String} {w w' : W} {b : Bytes}, openRead path w = (.ok b, w') →
    bytes w (name path) = some b
  copy_others : ∀ (source : String) {target : String} {file : F}, file ≠ name target →
    Eff.Keeps (bytes · file) (copy source target)
  delete_others : ∀ {path : String} {file : F}, file ≠ name path →
    Eff.Keeps (bytes · file) (delete path)
  openRead_keeps : ∀ (path : String) (file : F), Eff.Keeps (bytes · file) (openRead path)

/-- The machine as `CopyFile` sees it. -/
structure Platform (W F : Type) extends FileSystem W F where
  expandEnvironmentVariables : String → String
  sha1 : Bytes → Bytes

/-- `File.Exists`. -/
def Platform.fileExists (m : Platform W F) (path : String) (w : W) : Bool :=
  (m.bytes w (m.name path)).isSome

/-- `ComputeHash`. -/
def Platform.computeHash (m : Platform W F) (fileName : String) : Eff W Exn Bytes := do
  let b ← m.openRead fileName
  pure (m.sha1 b)

/-- An operation on the machine behind the context. -/
def onMachine {α : Type} (e : Eff W Exn α) : Eff (ConfigurationContext W) Exn α := fun c =>
  ((e c.machine).1, { c with machine := (e c.machine).2 })

/-! ## The resource -/

structure CopyFile where
  source : String
  target : String

namespace CopyFile

def expandedSource (m : Platform W F) (f : CopyFile) : String :=
  m.expandEnvironmentVariables f.source

def expandedTarget (m : Platform W F) (f : CopyFile) : String :=
  m.expandEnvironmentVariables f.target

def set (m : Platform W F) (f : CopyFile) : Eff (ConfigurationContext W) Exn Unit :=
  onMachine (m.copy (f.expandedSource m) (f.expandedTarget m))

def unset (m : Platform W F) (f : CopyFile) : Eff (ConfigurationContext W) Exn Unit :=
  onMachine (m.delete (f.expandedTarget m))

def test (m : Platform W F) (f : CopyFile) : Eff (ConfigurationContext W) Exn Bool := do
  let c ← Eff.get
  if m.fileExists (f.expandedTarget m) c.machine then
    let sourceHash ← onMachine (m.computeHash (f.expandedSource m))
    let targetHash ← onMachine (m.computeHash (f.expandedTarget m))
    pure !(sourceHash == targetHash)
  else pure false

/-- A resource of the type `CopyFile`, with the properties of `ResourceBase` from
`base`. -/
def resource (m : Platform W F) (f : CopyFile) (base : Resource W) : Resource W :=
  { base with test := f.test m, set := f.set m, unset := f.unset m }

/-- The bytes of the source, if it exists. -/
def sourceBytes (m : Platform W F) (f : CopyFile) (c : ConfigurationContext W) : Option Bytes :=
  m.bytes c.machine (m.name (f.expandedSource m))

/-- The bytes of the target, if it exists. -/
def targetBytes (m : Platform W F) (f : CopyFile) (c : ConfigurationContext W) : Option Bytes :=
  m.bytes c.machine (m.name (f.expandedTarget m))

/-- The target holds the bytes of the source. -/
def UpToDate (m : Platform W F) (f : CopyFile) (c : ConfigurationContext W) : Prop :=
  ∃ b, f.sourceBytes m c = some b ∧ f.targetBytes m c = some b

/-- The target holds other bytes than the source. -/
def Outdated (m : Platform W F) (f : CopyFile) (c : ConfigurationContext W) : Prop :=
  ∃ a b, f.sourceBytes m c = some a ∧ f.targetBytes m c = some b ∧ a ≠ b

/-- SHA-1 tells the source from the target. -/
def CollisionFree (m : Platform W F) (f : CopyFile) (c : ConfigurationContext W) : Prop :=
  ∀ a b, f.sourceBytes m c = some a → f.targetBytes m c = some b → m.sha1 a = m.sha1 b → a = b

/-- The source and the target are in `c'` what they were in `c`. -/
def SameFiles (m : Platform W F) (f : CopyFile) (c c' : ConfigurationContext W) : Prop :=
  f.sourceBytes m c' = f.sourceBytes m c ∧ f.targetBytes m c' = f.targetBytes m c

theorem sameFiles_of_machine (m : Platform W F) (f : CopyFile) {c c' : ConfigurationContext W}
    (h : c'.machine = c.machine) : f.SameFiles m c c' :=
  ⟨congrArg (m.bytes · _) h, congrArg (m.bytes · _) h⟩

theorem SameFiles.upToDate {m : Platform W F} {f : CopyFile} {c c' : ConfigurationContext W}
    (h : f.SameFiles m c c') : f.UpToDate m c' ↔ f.UpToDate m c := by
  unfold UpToDate
  rw [h.1, h.2]

theorem upToDate_iff_of_target {m : Platform W F} {f : CopyFile} {c : ConfigurationContext W}
    {b : Bytes} (h : f.targetBytes m c = some b) : f.UpToDate m c ↔ f.sourceBytes m c = some b := by
  refine ⟨fun ⟨x, hsource, htarget⟩ => ?_, fun hsource => ⟨b, hsource, h⟩⟩
  obtain rfl := Option.some.inj (htarget.symm.trans h)
  exact hsource

theorem Outdated.not_upToDate {m : Platform W F} {f : CopyFile} {c : ConfigurationContext W}
    (h : f.Outdated m c) : ¬ f.UpToDate m c := by
  intro ⟨x, hsource, htarget⟩
  obtain ⟨a, b, ha, hb, hne⟩ := h
  have hax : a = x := Option.some.inj (ha.symm.trans hsource)
  have hbx : b = x := Option.some.inj (hb.symm.trans htarget)
  exact hne (hax.trans hbx.symm)

end CopyFile

/-! ## What the three operations do -/

section Operations

variable {m : Platform W F} {f : CopyFile} {c c' : ConfigurationContext W}

theorem onMachine_run {α : Type} {e : Eff W Exn α} {o : Except Exn α}
    (h : onMachine e c = (o, c')) : e c.machine = (o, c'.machine) := by
  obtain ⟨ho, rfl⟩ := Prod.ext_iff.mp h
  exact Prod.ext ho rfl

theorem onMachine_keeps {α β : Type} {e : Eff W Exn α} {g : W → β} (he : Eff.Keeps g e) :
    Eff.Keeps (fun c : ConfigurationContext W => g c.machine) (onMachine e) :=
  ⟨fun c => he.run c.machine⟩

theorem onMachine_installedVersion {α : Type} (e : Eff W Exn α) :
    Eff.Keeps ConfigurationContext.installedVersion (onMachine e) := ⟨fun _ => rfl⟩

theorem computeHash_keeps (m : Platform W F) (path : String) (file : F) :
    Eff.Keeps (m.bytes · file) (m.computeHash path) :=
  Eff.moves_bind (m.openRead_keeps path file) fun _ => Eff.moves_pure _

theorem computeHash_ok {path : String} {h : Bytes}
    (hrun : onMachine (m.computeHash path) c = (.ok h, c')) :
    ∃ b, m.bytes c.machine (m.name path) = some b ∧ h = m.sha1 b := by
  have hrun := onMachine_run hrun
  unfold Platform.computeHash at hrun
  rcases ho : m.openRead path c.machine with ⟨e | b, w⟩
  · rw [Eff.bind_error ho] at hrun
    exact nomatch (Prod.ext_iff.mp hrun).1
  · rw [Eff.bind_ok ho] at hrun
    exact ⟨b, m.openRead_ok ho, (Except.ok.inj (Prod.ext_iff.mp hrun).1).symm⟩

theorem CopyFile.test_keeps {β : Type} {g : ConfigurationContext W → β}
    (hg : ∀ path, Eff.Keeps g (onMachine (m.computeHash path))) : Eff.Keeps g (f.test m) := by
  refine Eff.moves_bind Eff.moves_get fun c => ?_
  split
  · refine Eff.moves_bind (hg _) fun _ => Eff.moves_bind (hg _) fun _ => Eff.moves_pure _
  · exact Eff.moves_pure _

theorem CopyFile.test_bytes (file : F) :
    Eff.Keeps (fun c : ConfigurationContext W => m.bytes c.machine file) (f.test m) :=
  CopyFile.test_keeps fun path => onMachine_keeps (computeHash_keeps m path file)

theorem CopyFile.test_sameFiles {o : Except Exn Bool} (h : f.test m c = (o, c')) :
    f.SameFiles m c c' :=
  ⟨Eff.keeps_run (CopyFile.test_bytes _) h, Eff.keeps_run (CopyFile.test_bytes _) h⟩

/-- `Test` answers true for a target that differs from its source, and false for one
that is missing or equal. -/
theorem CopyFile.test_ok {b : Bool} (h : f.test m c = (.ok b, c')) (hsha : f.CollisionFree m c) :
    b = true ∧ f.Outdated m c ∨
      b = false ∧ (f.targetBytes m c = none ∨ f.UpToDate m c) := by
  rw [CopyFile.test, Eff.bind_ok (Eff.get_run c)] at h
  cases he : m.fileExists (f.expandedTarget m) c.machine with
  | false =>
    rw [if_neg (by simp [he])] at h
    refine .inr ⟨(Except.ok.inj (Prod.ext_iff.mp h).1).symm, .inl ?_⟩
    show m.bytes c.machine (m.name (f.expandedTarget m)) = none
    simpa [Platform.fileExists] using he
  | true =>
    rw [if_pos he] at h
    rcases hs : onMachine (m.computeHash (f.expandedSource m)) c with ⟨e | sourceHash, c₁⟩
    · rw [Eff.bind_error hs] at h
      exact nomatch (Prod.ext_iff.mp h).1
    rw [Eff.bind_ok hs] at h
    rcases ht : onMachine (m.computeHash (f.expandedTarget m)) c₁ with ⟨e | targetHash, c₂⟩
    · rw [Eff.bind_error ht] at h
      exact nomatch (Prod.ext_iff.mp h).1
    rw [Eff.bind_ok ht] at h
    obtain rfl := Except.ok.inj (Prod.ext_iff.mp h).1
    obtain ⟨x, hx, rfl⟩ := computeHash_ok hs
    obtain ⟨y, hy, rfl⟩ := computeHash_ok ht
    -- reading the source does not touch the target
    have hy : f.targetBytes m c = some y :=
      (Eff.keeps_run (onMachine_keeps (computeHash_keeps m _ _)) hs).symm.trans hy
    by_cases hhash : m.sha1 x = m.sha1 y
    · obtain rfl := hsha x y hx hy hhash
      exact .inr ⟨by simp, .inr ⟨x, hx, hy⟩⟩
    · exact .inl ⟨by simp [hhash], x, y, hx, hy, fun hxy => hhash (congrArg m.sha1 hxy)⟩

/-- `Set` brings the bytes that the source has to the target. -/
theorem CopyFile.set_ok (h : f.set m c = (.ok (), c')) :
    ∃ b, f.sourceBytes m c = some b ∧ f.targetBytes m c' = some b :=
  m.copy_ok (onMachine_run h)

theorem CopyFile.unset_ok (h : f.unset m c = (.ok (), c')) : f.targetBytes m c' = none :=
  m.delete_ok (onMachine_run h)

/-- A source that is there behind `Unset` is another file than the target. -/
theorem CopyFile.unset_source {b : Bytes} (h : f.unset m c = (.ok (), c'))
    (hb : f.sourceBytes m c' = some b) : f.sourceBytes m c = some b := by
  have hne : m.name (f.expandedSource m) ≠ m.name (f.expandedTarget m) := by
    intro hself
    have hnone : f.sourceBytes m c' = none :=
      (congrArg (m.bytes c'.machine) hself).trans (CopyFile.unset_ok h)
    exact nomatch hb.symm.trans hnone
  have hkeeps : f.sourceBytes m c' = f.sourceBytes m c :=
    Eff.keeps_run (onMachine_keeps (m.delete_others hne)) h
  exact hkeeps.symm.trans hb

end Operations

/-! ## One such resource in a pass -/

/-- Whether the run sets `r` whatever it tests. -/
def forced (p : Installer W) (r : Resource W) (c : ConfigurationContext W) : Bool :=
  r.runAllways || (c.updating p && r.onUpdateAction == .install)

section Handle

variable {p : Installer W} {m : Platform W F} {f : CopyFile} {r : Resource W}
  {c c' : ConfigurationContext W}

theorem passesOver_install (hp : p.uninstall = false) (hskip : r.onUpdateAction ≠ .skip) (b : Bool)
    (c : ConfigurationContext W) : passesOver p r b c = (!forced p r c && b) := by
  unfold passesOver forced
  rw [hp]
  revert hskip
  cases r.runAllways <;> cases c.updating p <;> cases r.onUpdateAction <;> simp

theorem forced_of_reinstalls {b : Bool} (h : reinstalls p r b c = true) : forced p r c = true := by
  unfold reinstalls at h
  unfold forced
  revert h
  cases r.runAllways <;> cases c.updating p <;> cases r.onUpdateAction <;> simp

theorem reinstalls_uninstall (hp : p.uninstall = true) (r : Resource W) (b : Bool)
    (c : ConfigurationContext W) : reinstalls p r b c = false := by
  simp [reinstalls, hp]

theorem CopyFile.forced_test (hf : r = f.resource m r) {b : Bool} (h : r.test c = (.ok b, c')) :
    forced p r c' = forced p r c := by
  rw [hf] at h
  have hv : c'.installedVersion = c.installedVersion :=
    Eff.keeps_run (CopyFile.test_keeps fun _ => onMachine_installedVersion _) h
  unfold forced ConfigurationContext.updating
  rw [hv]

/-- When it installs, a pass leaves an outdated target as it is, unless it is forced
to replace it, and brings the source to every other one. -/
theorem CopyFile.handled_install (hp : p.uninstall = false) (hf : r = f.resource m r)
    (hskip : r.onUpdateAction ≠ .skip) (hsha : f.CollisionFree m c) {b : Bool}
    (h : Handled p r c b c') :
    f.Outdated m c ∧ forced p r c = false ∧ f.targetBytes m c' = f.targetBytes m c ∨
      (f.Outdated m c → forced p r c = true) ∧
        ∃ b, f.sourceBytes m c = some b ∧ f.targetBytes m c' = some b := by
  have htest : r.test = f.test m := congrArg Resource.test hf
  have hset : r.set = f.set m := congrArg Resource.set hf
  have hunset : r.unset = f.unset m := congrArg Resource.unset hf
  have hchange : change p r = f.set m := by rw [change, hp, ← hset]; rfl
  cases h with
  | @passed _ t ht ho =>
    rw [passesOver_install hp hskip, CopyFile.forced_test hf ht] at ho
    obtain ⟨hforced, rfl⟩ := Bool.and_eq_true_iff.mp ho
    rw [htest] at ht
    obtain ⟨-, hold⟩ := (CopyFile.test_ok ht hsha).resolve_right fun h => nomatch h.1
    exact .inl ⟨hold, by simpa using hforced, (CopyFile.test_sameFiles ht).2⟩
  | @changed _ _ t ht ho hr hc =>
    rw [passesOver_install hp hskip, CopyFile.forced_test hf ht] at ho
    rw [htest] at ht
    obtain ⟨b, hsource, htarget⟩ := CopyFile.set_ok (hchange ▸ hc)
    refine .inr ⟨fun hold => ?_, b, (CopyFile.test_sameFiles ht).1.symm.trans hsource, htarget⟩
    rcases CopyFile.test_ok ht hsha with ⟨rfl, -⟩ | ⟨-, hnone | heq⟩
    · simpa using ho
    · obtain ⟨a, b, -, hb, -⟩ := hold
      exact nomatch hnone.symm.trans hb
    · exact absurd heq hold.not_upToDate
  | reinstalled ht hr hu hc =>
    have hforced := forced_of_reinstalls hr
    rw [CopyFile.forced_test hf ht] at hforced
    rw [htest] at ht
    rw [hunset] at hu
    obtain ⟨b, hsource, htarget⟩ := CopyFile.set_ok (hchange ▸ hc)
    have hsource := CopyFile.unset_source hu hsource
    exact .inr ⟨fun _ => hforced, b, (CopyFile.test_sameFiles ht).1.symm.trans hsource, htarget⟩

/-- When it uninstalls, a pass leaves a target that holds the bytes of its source, and
deletes every other one. -/
theorem CopyFile.handled_uninstall (hp : p.uninstall = true) (hf : r = f.resource m r)
    (hsha : f.CollisionFree m c) (hthere : f.targetBytes m c ≠ none) {b : Bool}
    (h : Handled p r c b c') :
    f.UpToDate m c ∧ r.runAllways = false ∧ f.targetBytes m c' = f.targetBytes m c ∨
      (f.UpToDate m c → r.runAllways = true) ∧ f.targetBytes m c' = none := by
  have htest : r.test = f.test m := congrArg Resource.test hf
  have hchange : change p r = f.unset m := by
    rw [change, hp, if_pos rfl]
    exact congrArg Resource.unset hf
  cases h with
  | @passed _ t ht ho =>
    rw [htest] at ht
    obtain ⟨hall, rfl⟩ : r.runAllways = false ∧ t = false := by
      rw [passesOver, hp] at ho
      cases hall : r.runAllways with
      | true => simp [hall] at ho
      | false => exact ⟨rfl, by simpa [hall] using ho⟩
    rcases CopyFile.test_ok ht hsha with ⟨hnot, -⟩ | ⟨-, hnone | heq⟩
    · exact nomatch hnot
    · exact absurd hnone hthere
    · exact .inl ⟨heq, hall, (CopyFile.test_sameFiles ht).2⟩
  | @changed _ _ t ht ho hr hc =>
    rw [htest] at ht
    refine .inr ⟨fun hold => ?_, CopyFile.unset_ok (hchange ▸ hc)⟩
    rcases CopyFile.test_ok ht hsha with ⟨-, hout⟩ | ⟨rfl, -⟩
    · exact absurd hold hout.not_upToDate
    · cases hall : r.runAllways with
      | true => rfl
      | false => simp [passesOver, hall, hp] at ho
  | reinstalled _ hr _ _ => exact nomatch (reinstalls_uninstall hp r _ _).symm.trans hr

end Handle

/-! ## A manifest with such resources -/

/-- `file` tells which resources are of the type `CopyFile`.  Their targets are
different files, and no other resource writes one. -/
structure Copies (m : Platform W F) (file : Resource W → Option CopyFile)
    (resources : List (Resource W)) : Prop where
  resource : ∀ r ∈ resources, ∀ f, file r = some f → r = f.resource m r
  apart : resources.Pairwise fun r r' => ∀ f f', file r = some f → file r' = some f' →
    m.name (f.expandedTarget m) ≠ m.name (f'.expandedTarget m)
  others : ∀ r ∈ resources, file r = none → ∀ r' ∈ resources, ∀ f, file r' = some f →
    Leaves (f.targetBytes m) r

/-- The pass over `graph` that begins in `c` reaches `r` in `e`. -/
def ReachedIn (p : Installer W) (graph : List (Resource W)) (c : ConfigurationContext W)
    (r : Resource W) (e : ConfigurationContext W) : Prop :=
  ∃ pre post done, graph = pre ++ r :: post ∧ Goes p [] pre c (.finished done) e

/-- The pass over `graph` that begins in `c` reaches `r` in `e`, and goes from there
to its end in `e'`. -/
def PassesThrough (p : Installer W) (graph : List (Resource W)) (c : ConfigurationContext W)
    (r : Resource W) (e e' : ConfigurationContext W) : Prop :=
  ∃ pre post done d, graph = pre ++ r :: post ∧ Goes p [] pre c (.finished done) e ∧
    Goes p done (r :: post) e (.finished d) e'

/-- SHA-1 tells each source from its target when the run looks at them. -/
def TellsApart (m : Platform W F) (p : Installer W) (file : Resource W → Option CopyFile)
    (graph : List (Resource W)) (c : ConfigurationContext W) : Prop :=
  ∀ r e, ReachedIn p graph c r e → ∀ f, file r = some f → f.CollisionFree m e

/-- What a run that succeeds from `c` to `c'` should have done to the targets. -/
structure Converged (m : Platform W F) (p : Installer W) (file : Resource W → Option CopyFile)
    (resources : List (Resource W)) (c c' : ConfigurationContext W) : Prop where
  install : p.uninstall = false → ∀ r ∈ keptResources p resources c, ∀ f, file r = some f →
    r.onUpdateAction ≠ .skip → f.UpToDate m c'
  uninstall : p.uninstall = true → ∀ r ∈ keptResources p resources c, ∀ f, file r = some f →
    f.UpToDate m c → f.targetBytes m c' = none

/-- The target of `f` is not outdated when the run gets to `r` in `e`, or the run is
forced to replace it, and behind it the source stays as it is until `e'`.  (Or an
outdated target is left alone, and the source becomes what it holds.) -/
def CopyFile.Suits (m : Platform W F) (p : Installer W) (f : CopyFile) (r : Resource W)
    (e e' : ConfigurationContext W) : Prop :=
  (f.Outdated m e → forced p r e = true) ∧ f.sourceBytes m e' = f.sourceBytes m e ∨
    f.Outdated m e ∧ forced p r e = false ∧ f.sourceBytes m e' = f.targetBytes m e

/-- No resource is reached whose target the negated comparison leaves as it is, though
it should be replaced or deleted, and no source is written behind its copy. -/
structure Unharmed (m : Platform W F) (p : Installer W) (file : Resource W → Option CopyFile)
    (graph : List (Resource W)) (c : ConfigurationContext W) : Prop where
  install : p.uninstall = false → ∀ r f e e', PassesThrough p graph c r e e' → file r = some f →
    r.onUpdateAction ≠ .skip → f.Suits m p r e e'
  uninstall : p.uninstall = true → ∀ r f e, ReachedIn p graph c r e → file r = some f →
    f.UpToDate m c → f.UpToDate m e → r.runAllways = true

section Manifest

variable {p : Installer W} {m : Platform W F} {file : Resource W → Option CopyFile}
  {resources graph : List (Resource W)} {c c₁ : ConfigurationContext W}

theorem CopyFile.leaves_file {f : CopyFile} {r : Resource W} (hf : r = f.resource m r) {x : F}
    (hx : x ≠ m.name (f.expandedTarget m)) :
    Leaves (fun c : ConfigurationContext W => m.bytes c.machine x) r := by
  rw [hf]
  exact ⟨CopyFile.test_bytes x, onMachine_keeps (m.copy_others _ hx),
    onMachine_keeps (m.delete_others hx)⟩

/-- Each resource leaves the target of the other alone. -/
def SpareEachOther (m : Platform W F) (file : Resource W → Option CopyFile) (r r' : Resource W) :
    Prop :=
  (∀ f, file r = some f → Leaves (f.targetBytes m) r') ∧
    ∀ f, file r' = some f → Leaves (f.targetBytes m) r

theorem Copies.spare (hm : Copies m file resources) :
    resources.Pairwise (SpareEachOther m file) := by
  refine hm.apart.imp_of_mem fun {r r'} hr hr' happart => ⟨fun f hf => ?_, fun f hf => ?_⟩
  · cases hf' : file r' with
    | none => exact hm.others r' hr' hf' r hr f hf
    | some f' => exact CopyFile.leaves_file (hm.resource r' hr' f' hf') (happart f f' hf hf')
  · cases hf' : file r with
    | none => exact hm.others r hr hf' r' hr' f hf
    | some f' => exact CopyFile.leaves_file (hm.resource r hr f' hf') (happart f' f hf' hf).symm

theorem mem_of_mem_graph (hgraph : buildDependencyGraph p resources c = (.ok graph, c₁))
    {r : Resource W} (hr : r ∈ graph) : r ∈ resources := by
  have hr := (buildDependencyGraph_perm hgraph).mem_iff.mp hr
  exact (List.mem_filter.mp (List.mem_filter.mp (List.mem_filter.mp hr).1).1).1

theorem Copies.spare_graph (hm : Copies m file resources)
    (hgraph : buildDependencyGraph p resources c = (.ok graph, c₁)) :
    graph.Pairwise (SpareEachOther m file) := by
  have hkept : (keptResources p resources c).Pairwise (SpareEachOther m file) :=
    ((hm.spare.filter _).filter _).filter _
  exact hkept.perm (buildDependencyGraph_perm hgraph).symm fun h => ⟨h.2, h.1⟩

theorem graph_machine (hgraph : buildDependencyGraph p resources c = (.ok graph, c₁)) :
    c₁.machine = c.machine := by
  have hkeeps : Eff.Keeps ConfigurationContext.machine (buildDependencyGraph p resources) := by
    refine Eff.moves_bind Eff.moves_get fun _ => ?_
    dsimp only
    split
    · exact Eff.moves_throw _
    · exact Eff.moves_bind ⟨fun _ => rfl⟩ fun _ => Eff.moves_pure _
  exact Eff.keeps_run hkeeps hgraph

/-- A run that succeeds is a pass that comes through. -/
theorem apply_succeeded {s : Session W}
    (hgraph : buildDependencyGraph p resources c = (.ok graph, c₁))
    (h : apply p resources ⟨c, []⟩ = (.ok .succeeded, s)) :
    ∃ done c₂, Goes p [] graph c₁ (.finished done) c₂ ∧ s.context = closed c₂ := by
  have hend : ∀ {ret c₂ calls}, applyLocal p (undo p) p.uninstall graph ⟨c₁, []⟩
      = (.ok ret, ⟨c₂, calls⟩) → ret = .succeeded ∧ s.context = closed c₂ := by
    intro ret c₂ calls hlocal
    obtain ⟨s', hs, hc⟩ := apply_closed hgraph hlocal
    obtain ⟨ho, rfl⟩ := Prod.ext_iff.mp (h.symm.trans hs)
    exact ⟨(Except.ok.inj ho).symm, hc⟩
  obtain ⟨pass, c₂, hgo⟩ := goes_exists p graph [] c₁
  cases pass with
  | finished done =>
    obtain ⟨calls, hlocal⟩ := applyLocal_finished hgo
    exact ⟨done, c₂, hgo, (hend hlocal).2⟩
  | pendingRestart =>
    obtain ⟨calls, hlocal⟩ := applyLocal_pendingRestart hgo
    exact nomatch (hend hlocal).1
  | threw done =>
    cases hp : p.uninstall with
    | true =>
      obtain ⟨calls, hlocal⟩ := applyLocal_failed hp hgo
      exact nomatch (hend hlocal).1
    | false =>
      obtain ⟨pass', c₃, hgo'⟩ := goes_exists p done [] c₂
      obtain ⟨calls, hlocal⟩ := applyLocal_rolledBack hp hgo hgo'
      exact nomatch (hend hlocal).1

/-! ### Before and behind one resource -/

theorem ReachedIn.mem {r : Resource W} {e : ConfigurationContext W} (h : ReachedIn p graph c r e) :
    r ∈ graph := by
  obtain ⟨pre, post, -, hsplit, -⟩ := h
  rw [hsplit]
  exact List.mem_append_right _ List.mem_cons_self

theorem PassesThrough.reachedIn {r : Resource W} {e e' : ConfigurationContext W}
    (h : PassesThrough p graph c r e e') : ReachedIn p graph c r e := by
  obtain ⟨pre, post, done, -, hsplit, hpre, -⟩ := h
  exact ⟨pre, post, done, hsplit, hpre⟩

/-- A run that succeeds passes through every resource of the graph. -/
theorem apply_passesThrough {s : Session W}
    (hgraph : buildDependencyGraph p resources c = (.ok graph, c₁))
    (h : apply p resources ⟨c, []⟩ = (.ok .succeeded, s)) {r : Resource W} (hr : r ∈ graph) :
    ∃ e e', PassesThrough p graph c₁ r e e' := by
  obtain ⟨d, e', hgo, -⟩ := apply_succeeded hgraph h
  obtain ⟨pre, post, rfl⟩ := List.append_of_mem hr
  obtain ⟨done, e, hpre, hpost⟩ := goes_append.mp hgo
  exact ⟨e, e', pre, post, done, d, rfl, hpre, hpost⟩

/-- One that is reached is passed through. -/
theorem ReachedIn.passesThrough {s : Session W}
    (hgraph : buildDependencyGraph p resources c = (.ok graph, c₁))
    (h : apply p resources ⟨c, []⟩ = (.ok .succeeded, s)) {r : Resource W}
    {e : ConfigurationContext W} (hreach : ReachedIn p graph c₁ r e) :
    ∃ e', PassesThrough p graph c₁ r e e' := by
  obtain ⟨pre, post, done, hsplit, hpre⟩ := hreach
  obtain ⟨d, e', hgo, -⟩ := apply_succeeded hgraph h
  rw [hsplit] at hgo
  obtain ⟨done', e'', hpre', hpost⟩ := goes_append.mp hgo
  obtain ⟨hdone, rfl⟩ := hpre.unique hpre'
  obtain rfl := Pass.finished.inj hdone
  exact ⟨e', pre, post, done, d, hsplit, hpre, hpost⟩

theorem PassesThrough.machine {s : Session W}
    (hgraph : buildDependencyGraph p resources c = (.ok graph, c₁))
    (h : apply p resources ⟨c, []⟩ = (.ok .succeeded, s)) {r : Resource W}
    {e e' : ConfigurationContext W} (hpass : PassesThrough p graph c₁ r e e') :
    s.context.machine = e'.machine := by
  obtain ⟨pre, post, done, d, hsplit, hpre, hpost⟩ := hpass
  obtain ⟨d', c₂, hgo, hclosed⟩ := apply_succeeded hgraph h
  have hgo' : Goes p [] graph c₁ (.finished d) e' := hsplit ▸ goes_append.mpr ⟨done, e, hpre, hpost⟩
  obtain rfl := (hgo'.unique hgo).2
  rw [hclosed, closed]
  split <;> rfl

/-- Before and behind the resource itself nothing happens to its target. -/
theorem Copies.handled (hm : Copies m file resources)
    (hgraph : buildDependencyGraph p resources c = (.ok graph, c₁)) {r : Resource W} {f : CopyFile}
    (hf : file r = some f) {e e' : ConfigurationContext W}
    (hpass : PassesThrough p graph c₁ r e e') :
    ∃ b e₁, f.targetBytes m e = f.targetBytes m c₁ ∧ Handled p r e b e₁ ∧
      f.targetBytes m e' = f.targetBytes m e₁ := by
  obtain ⟨pre, post, done, d, hsplit, hpre, hpost⟩ := hpass
  have hpair := hm.spare_graph hgraph
  rw [hsplit] at hpair
  obtain ⟨-, hbehind, hbefore⟩ := List.pairwise_append.mp hpair
  obtain ⟨b, e₁, done₁, hh, hgo⟩ := hpost.first
  have hkept : f.targetBytes m e = f.targetBytes m c₁ :=
    hpre.keeps fun x hx => (hbefore x hx r List.mem_cons_self).2 f hf
  have hkept' : f.targetBytes m e' = f.targetBytes m e₁ :=
    hgo.keeps fun x hx => ((List.pairwise_cons.mp hbehind).1 x hx).1 f hf
  exact ⟨b, e₁, hkept, hh, hkept'⟩

/-- What an installation comes to for one target. -/
theorem Copies.installed (hm : Copies m file resources)
    (hgraph : buildDependencyGraph p resources c = (.ok graph, c₁)) (hp : p.uninstall = false)
    {r : Resource W} {f : CopyFile} (hf : file r = some f) (hskip : r.onUpdateAction ≠ .skip)
    {e e' : ConfigurationContext W} (hpass : PassesThrough p graph c₁ r e e')
    (hsha : f.CollisionFree m e) : f.UpToDate m e' ↔ f.Suits m p r e e' := by
  have hmem := mem_of_mem_graph hgraph hpass.reachedIn.mem
  obtain ⟨b, e₁, -, hh, hend⟩ := hm.handled hgraph hf hpass
  rcases CopyFile.handled_install hp (hm.resource r hmem f hf) hskip hsha hh with
    ⟨hold, hforced, hleft⟩ | ⟨hforced, x, hsource, htarget⟩
  · obtain ⟨-, y, -, hy, -⟩ := id hold
    rw [CopyFile.upToDate_iff_of_target (hend.trans (hleft.trans hy)), CopyFile.Suits, hy]
    refine ⟨fun h => .inr ⟨hold, hforced, h⟩, ?_⟩
    rintro (⟨h, -⟩ | ⟨-, -, h⟩)
    · exact nomatch hforced.symm.trans (h hold)
    · exact h
  · rw [CopyFile.upToDate_iff_of_target (hend.trans htarget), CopyFile.Suits, hsource]
    refine ⟨fun h => .inl ⟨hforced, h⟩, ?_⟩
    rintro (⟨-, h⟩ | ⟨hold, h, -⟩)
    · exact h
    · exact nomatch h.symm.trans (hforced hold)

/-- What an uninstallation comes to for a target that was there. -/
theorem Copies.uninstalled (hm : Copies m file resources)
    (hgraph : buildDependencyGraph p resources c = (.ok graph, c₁)) (hp : p.uninstall = true)
    {r : Resource W} {f : CopyFile} (hf : file r = some f) (hthere : f.targetBytes m c₁ ≠ none)
    {e e' : ConfigurationContext W} (hpass : PassesThrough p graph c₁ r e e')
    (hsha : f.CollisionFree m e) :
    f.targetBytes m e' = none ↔ (f.UpToDate m e → r.runAllways = true) := by
  have hmem := mem_of_mem_graph hgraph hpass.reachedIn.mem
  obtain ⟨b, e₁, hbefore, hh, hend⟩ := hm.handled hgraph hf hpass
  rw [hend]
  rcases CopyFile.handled_uninstall hp (hm.resource r hmem f hf) hsha (hbefore ▸ hthere) hh with
    ⟨hold, hall, hleft⟩ | ⟨hall, hnone⟩
  · rw [hleft, hbefore]
    exact ⟨fun h => absurd h hthere, fun h => nomatch hall.symm.trans (h hold)⟩
  · exact ⟨fun _ => hall, fun _ => hnone⟩

/-- **When a run brings the targets where they belong.** -/
theorem apply_copies_iff (m : Platform W F) (p : Installer W) (file : Resource W → Option CopyFile)
    (resources graph : List (Resource W)) (c c₁ : ConfigurationContext W) (s : Session W)
    (hm : Copies m file resources)
    (hgraph : buildDependencyGraph p resources c = (.ok graph, c₁))
    (hsha : TellsApart m p file graph c₁)
    (h : apply p resources ⟨c, []⟩ = (.ok .succeeded, s)) :
    Converged m p file resources c s.context ↔ Unharmed m p file graph c₁ := by
  have hkept : ∀ {r}, r ∈ keptResources p resources c ↔ r ∈ graph :=
    (buildDependencyGraph_perm hgraph).mem_iff.symm
  have hstart : ∀ f : CopyFile, f.SameFiles m c c₁ :=
    fun f => CopyFile.sameFiles_of_machine m f (graph_machine hgraph)
  have hend : ∀ {r e e'} (f : CopyFile), PassesThrough p graph c₁ r e e' →
      f.SameFiles m e' s.context :=
    fun f hpass => CopyFile.sameFiles_of_machine m f (hpass.machine hgraph h)
  have hthere : ∀ {f : CopyFile}, f.UpToDate m c₁ → f.targetBytes m c₁ ≠ none := by
    intro f hup hnone
    obtain ⟨x, -, hx⟩ := hup
    exact nomatch hx.symm.trans hnone
  constructor
  · intro hconv
    refine ⟨fun hp r f e e' hpass hf hskip => ?_, fun hp r f e hreach hf hold => ?_⟩
    · have hup := hconv.install hp r (hkept.mpr hpass.reachedIn.mem) f hf hskip
      exact (hm.installed hgraph hp hf hskip hpass (hsha r e hpass.reachedIn f hf)).mp
        ((hend f hpass).upToDate.mp hup)
    · obtain ⟨e', hpass⟩ := hreach.passesThrough hgraph h
      have hnone := hconv.uninstall hp r (hkept.mpr hreach.mem) f hf ((hstart f).upToDate.mp hold)
      exact (hm.uninstalled hgraph hp hf (hthere hold) hpass (hsha r e hreach f hf)).mp
        ((hend f hpass).2.symm.trans hnone)
  · intro hun
    refine ⟨fun hp r hr f hf hskip => ?_, fun hp r hr f hf hold => ?_⟩
    · obtain ⟨e, e', hpass⟩ := apply_passesThrough hgraph h (hkept.mp hr)
      exact (hend f hpass).upToDate.mpr
        ((hm.installed hgraph hp hf hskip hpass (hsha r e hpass.reachedIn f hf)).mpr
          (hun.install hp r f e e' hpass hf hskip))
    · obtain ⟨e, e', hpass⟩ := apply_passesThrough hgraph h (hkept.mp hr)
      have hold := (hstart f).upToDate.mpr hold
      have hreach := hpass.reachedIn
      exact (hend f hpass).2.trans
        ((hm.uninstalled hgraph hp hf (hthere hold) hpass (hsha r e hreach f hf)).mpr
          (hun.uninstall hp r f e hreach hf hold))

end Manifest

/-! ## A plugin that is not updated -/

/-- Files by their paths, with no file that cannot be read or written. -/
def inMemory : Platform (String → Option Bytes) String where
  name := id
  bytes := fun w file => w file
  copy := fun source target w =>
    match w source with
    | none => (.error (.other "Could not find file."), w)
    | some b => (.ok (), fun file => if file = target then some b else w file)
  delete := fun path w => (.ok (), fun file => if file = path then none else w file)
  openRead := fun path w =>
    match w path with
    | none => (.error (.other "Could not find file."), w)
    | some b => (.ok b, w)
  copy_ok := by
    intro source target w w' h
    split at h
    · exact nomatch (Prod.ext_iff.mp h).1
    · rename_i b hb
      obtain rfl := (Prod.ext_iff.mp h).2
      exact ⟨b, hb, if_pos rfl⟩
  delete_ok := by
    intro path w w' h
    obtain rfl := (Prod.ext_iff.mp h).2
    exact if_pos rfl
  openRead_ok := by
    intro path w w' b h
    split at h
    · exact nomatch (Prod.ext_iff.mp h).1
    · rename_i x hx
      obtain rfl := Except.ok.inj (Prod.ext_iff.mp h).1
      exact hx
  copy_others := by
    intro source target file hne
    constructor
    intro w
    show (_ : Option Bytes) = w file
    split
    · rfl
    · exact if_neg hne
  delete_others := fun hne => ⟨fun w => if_neg hne⟩
  openRead_keeps := by
    intro path file
    constructor
    intro w
    show (_ : Option Bytes) = w file
    split <;> rfl
  expandEnvironmentVariables := id
  sha1 := id

def buildx : CopyFile := ⟨"cli/cli-plugins/docker-buildx.exe", "cli-plugins/docker-buildx.exe"⟩

def compose : CopyFile := ⟨"cli/docker-compose.exe", "cli-plugins/docker-compose.exe"⟩

/-- Unpacks the new sources of both plugins over the old ones. -/
def unpackFiles : Resource (String → Option Bytes) where
  id := "UnpackFiles"
  onUpdateAction := .install
  test := onMachine fun w => (.ok (w buildx.source).isSome, w)
  set := onMachine fun w => (.ok (), fun file =>
    if file = buildx.source then some [2] else if file = compose.source then some [4] else w file)
  unset := onMachine fun w => (.ok (), fun file =>
    if file = buildx.source then none else if file = compose.source then none else w file)

def copyPlugin (id : String) (f : CopyFile) : Resource (String → Option Bytes) :=
  f.resource inMemory
    { id := id, noUninstall := true, test := pure true, set := pure (), unset := pure () }

def copyBuildx : Resource (String → Option Bytes) := copyPlugin "CopyCliPluginDockerBuildx" buildx

def copyCompose : Resource (String → Option Bytes) :=
  copyPlugin "CopyCliPluginDockerDockerCompose" compose

def plugin (r : Resource (String → Option Bytes)) : Option CopyFile :=
  if r.id = "CopyCliPluginDockerBuildx" then some buildx
  else if r.id = "CopyCliPluginDockerDockerCompose" then some compose else none

def cliManifest : List (Resource (String → Option Bytes)) := [unpackFiles, copyBuildx, copyCompose]

def cliInstaller : Installer (String → Option Bytes) where
  uninstall := false
  version := "1.0.0"
  toUpperInvariant := Char.toUpper
  userConsent := pure true
  requestReboot := pure true

/-- An older version is installed, with `target` as the buildx plugin and no compose
plugin. -/
def olderVersion (target : Option Bytes) : ConfigurationContext (String → Option Bytes) where
  installedVersion := some "0.9.0"
  state := none
  stateFile := none
  restartPending := false
  delayReboot := false
  machine := fun file =>
    if file = buildx.source then some [1]
    else if file = compose.source then some [3]
    else if file = buildx.target then target else none

theorem copies_cli : Copies inMemory plugin cliManifest where
  resource := by
    intro r hr f hf
    obtain rfl | rfl | rfl : r = unpackFiles ∨ r = copyBuildx ∨ r = copyCompose := by
      simpa [cliManifest] using hr
    · exact nomatch hf
    · obtain rfl := Option.some.inj hf
      rfl
    · obtain rfl := Option.some.inj hf
      rfl
  apart := by
    refine .cons ?_ (.cons ?_ (List.pairwise_singleton _ _))
    · intro r _ f f' hf
      exact nomatch hf
    · intro r hr f f' hf hf'
      obtain rfl := List.mem_singleton.mp hr
      obtain rfl := Option.some.inj hf
      obtain rfl := Option.some.inj hf'
      decide
  others := by
    intro r hr hnone r' hr' f hf
    obtain rfl | rfl | rfl : r = unpackFiles ∨ r = copyBuildx ∨ r = copyCompose := by
      simpa [cliManifest] using hr
    · obtain rfl | rfl | rfl : r' = unpackFiles ∨ r' = copyBuildx ∨ r' = copyCompose := by
        simpa [cliManifest] using hr'
      · exact nomatch hf
      · obtain rfl := Option.some.inj hf
        exact ⟨⟨fun _ => rfl⟩, ⟨fun _ => rfl⟩, ⟨fun _ => rfl⟩⟩
      · obtain rfl := Option.some.inj hf
        exact ⟨⟨fun _ => rfl⟩, ⟨fun _ => rfl⟩, ⟨fun _ => rfl⟩⟩
    · exact nomatch hnone
    · exact nomatch hnone

/-- The context in which the pass over the resources begins. -/
def cliStart (target : Option Bytes) : ConfigurationContext (String → Option Bytes) :=
  { olderVersion target with state := some (.strings []), stateFile := some [] }

theorem cli_graph (target : Option Bytes) :
    buildDependencyGraph cliInstaller cliManifest (olderVersion target)
      = (.ok cliManifest, cliStart target) :=
  buildDependencyGraph_onePass rfl rfl rfl rfl

theorem cli_tellsApart (c : ConfigurationContext (String → Option Bytes)) :
    TellsApart inMemory cliInstaller plugin cliManifest c :=
  fun _ _ _ _ _ _ _ _ _ h => h

theorem cli_succeeds {target : Option Bytes} {done : List (Resource (String → Option Bytes))}
    {c : ConfigurationContext (String → Option Bytes)}
    (h : Goes cliInstaller [] cliManifest (cliStart target) (.finished done) c) :
    ∃ s, apply cliInstaller cliManifest ⟨olderVersion target, []⟩ = (.ok .succeeded, s) ∧
      s.context = closed c := by
  obtain ⟨calls, hlocal⟩ := applyLocal_finished h
  exact apply_closed (cli_graph target) hlocal

/-- Where the resources that copy a plugin stand. -/
theorem cli_split {pre post : List (Resource (String → Option Bytes))}
    {r : Resource (String → Option Bytes)} {f : CopyFile} (h : cliManifest = pre ++ r :: post)
    (hf : plugin r = some f) :
    f = buildx ∧ pre = [unpackFiles] ∧ r :: post = [copyBuildx, copyCompose] ∨
      f = compose ∧ pre = [unpackFiles, copyBuildx] ∧ r :: post = [copyCompose] := by
  match pre, h with
  | [], h =>
    obtain rfl := (List.cons.inj h).1
    exact nomatch hf
  | [x], h =>
    obtain ⟨hx, h⟩ := List.cons.inj h
    obtain rfl := (List.cons.inj h).1
    rw [← hx]
    exact .inl ⟨(Option.some.inj hf).symm, rfl, h.symm⟩
  | [x, y], h =>
    obtain ⟨hx, h⟩ := List.cons.inj h
    obtain ⟨hy, h⟩ := List.cons.inj h
    obtain rfl := (List.cons.inj h).1
    rw [← hx, ← hy]
    exact .inr ⟨(Option.some.inj hf).symm, rfl, h.symm⟩
  | x :: y :: z :: pre, h => cases pre <;> simp [cliManifest] at h

/-- The sources are unpacked anew. -/
def cliUnpacked (target : Option Bytes) : ConfigurationContext (String → Option Bytes) :=
  (unpackFiles.set (unpackFiles.unset (cliStart target)).2).2

theorem cli_unpacks (target : Option Bytes) :
    Handled cliInstaller unpackFiles (cliStart target) true (cliUnpacked target) :=
  .reinstalled rfl rfl rfl rfl

theorem cli_copies_buildx :
    Handled cliInstaller copyBuildx (cliUnpacked none) true (copyBuildx.set (cliUnpacked none)).2 :=
  .changed rfl rfl rfl rfl

/-- Missing plugins are installed, from the sources that the run has unpacked before. -/
theorem apply_copies_cli :
    ∃ s, apply cliInstaller cliManifest ⟨olderVersion none, []⟩ = (.ok .succeeded, s) ∧
      Converged inMemory cliInstaller plugin cliManifest (olderVersion none) s.context := by
  have hcompose : Goes cliInstaller [copyBuildx, unpackFiles] [copyCompose]
      (copyBuildx.set (cliUnpacked none)).2 (.finished [copyCompose, copyBuildx, unpackFiles])
      (copyCompose.set (copyBuildx.set (cliUnpacked none)).2).2 :=
    .changed (.changed rfl rfl rfl rfl) rfl .finished
  have hbuildx := Goes.changed cli_copies_buildx rfl hcompose
  obtain ⟨s, hs, -⟩ := cli_succeeds (.changed (cli_unpacks none) rfl hbuildx)
  refine ⟨s, hs, (apply_copies_iff inMemory cliInstaller plugin cliManifest cliManifest _ _ s
    copies_cli (cli_graph none) (cli_tellsApart _) hs).mpr ⟨?_, fun h => nomatch h⟩⟩
  intro _ r f e e' hpass hf _
  obtain ⟨pre, post, done, d, hsplit, hpre, hpost⟩ := hpass
  -- neither target is there when its copy is reached, and nothing writes its source behind it
  refine .inl ⟨fun ⟨a, b, _, hb, _⟩ => ?_, ?_⟩
  all_goals
    obtain ⟨rfl, rfl, hr⟩ | ⟨rfl, rfl, hr⟩ := cli_split hsplit hf
  · obtain rfl := (hpre.unique (.changed (cli_unpacks none) rfl .finished)).2
    exact nomatch hb
  · obtain rfl := (hpre.unique (.changed (cli_unpacks none) rfl
      (.changed cli_copies_buildx rfl .finished))).2
    exact nomatch hb
  · obtain ⟨hdone, rfl⟩ := hpre.unique (.changed (cli_unpacks none) rfl .finished)
    obtain rfl := Pass.finished.inj hdone
    rw [hr] at hpost
    obtain rfl := (hpost.unique hbuildx).2
    rfl
  · obtain ⟨hdone, rfl⟩ := hpre.unique (.changed (cli_unpacks none) rfl
      (.changed cli_copies_buildx rfl .finished))
    obtain rfl := Pass.finished.inj hdone
    rw [hr] at hpost
    obtain rfl := (hpost.unique hcompose).2
    rfl

/-- An old plugin is left as it is when a newer one has been unpacked, and the run
succeeds. -/
theorem apply_keeps_old_buildx :
    ¬ ∀ (m : Platform (String → Option Bytes) String) (p : Installer (String → Option Bytes))
      (file : Resource (String → Option Bytes) → Option CopyFile)
      (resources : List (Resource (String → Option Bytes)))
      (c : ConfigurationContext (String → Option Bytes)) (s : Session (String → Option Bytes)),
      (∀ a b, m.sha1 a = m.sha1 b → a = b) → Copies m file resources →
      (∀ r ∈ resources, ∀ f, file r = some f → f.sourceBytes m c ≠ none) →
      apply p resources ⟨c, []⟩ = (.ok .succeeded, s) →
      Converged m p file resources c s.context := by
  intro h
  obtain ⟨s, hs, hc⟩ := cli_succeeds (.changed (cli_unpacks (some [1])) rfl
    (.passed (.passed rfl rfl) (.changed (.changed rfl rfl rfl rfl) rfl .finished)))
  have hsource : ∀ r ∈ cliManifest, ∀ f, plugin r = some f →
      f.sourceBytes inMemory (olderVersion (some [1])) ≠ none := by
    intro r hr f hf
    obtain rfl | rfl | rfl : r = unpackFiles ∨ r = copyBuildx ∨ r = copyCompose := by
      simpa [cliManifest] using hr
    · exact nomatch hf
    · obtain rfl := Option.some.inj hf
      exact fun h => nomatch h
    · obtain rfl := Option.some.inj hf
      exact fun h => nomatch h
  have hconv := h inMemory cliInstaller plugin cliManifest (olderVersion (some [1])) s
    (fun _ _ h => h) copies_cli hsource hs
  have hmem : copyBuildx ∈ keptResources cliInstaller cliManifest (olderVersion (some [1])) :=
    List.mem_cons_of_mem _ List.mem_cons_self
  obtain ⟨x, hx, hx'⟩ := hconv.install rfl copyBuildx hmem buildx rfl (by decide)
  rw [hc] at hx hx'
  have hbytes : some [2] = some ([1] : Bytes) := hx.trans hx'.symm
  exact absurd hbytes (by decide)

end ContainerDesktop.DesiredStateConfiguration
