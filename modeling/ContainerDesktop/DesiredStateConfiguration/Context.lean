import ContainerDesktop.Effect

/-!
# Resources and the context they run in

An installer manifest is a list of resources: things with a `Test`, a `Set` and
an `Unset`, and flags that say when these are called.  The three operations are
arbitrary here.  They see the `ConfigurationContext` and the machine behind it,
an arbitrary type `W`, may change both, and may throw.  `W` has the fields of the
resource objects in it too: `RequiresReboot` is one that an operation may write
(`EnableWindowsFeatures` does), so it is read from `W`.

The get-only properties of the context, which no resource can change, are in
`Installer`, together with the two interactions of a restart and the table
behind `StringComparison.OrdinalIgnoreCase`.
-/

namespace ContainerDesktop.DesiredStateConfiguration

/-- An exception: the program's own, or any other. -/
inductive Exn
  | resourceException (message : String)
  | other (message : String)
  deriving DecidableEq, Repr

inductive UpdateAction
  | none
  | install
  | skip
  deriving DecidableEq, Repr

inductive ConfigurationResult
  | succeeded
  | failed
  | rolledBack
  | pendingRestart
  deriving DecidableEq, Repr

/-- `State["DisabledResources"]`.  What `LoadState` reads from
`installer-state.json` is a `JArray`; what the program itself puts there is a
`string[]`, and only the former is read back. -/
inductive DisabledResources
  | jArray (ids : List String)
  | strings (ids : List String)
  deriving DecidableEq, Repr

def DisabledResources.ids : DisabledResources → List String
  | .jArray ids => ids
  | .strings ids => ids

/-- The mutable part of a `ConfigurationContext`, the state file, and the
machine. -/
structure ConfigurationContext (W : Type) where
  installedVersion : Option String
  state : Option DisabledResources
  /-- The ids in `installer-state.json`, when the file exists. -/
  stateFile : Option (List String)
  restartPending : Bool
  delayReboot : Bool
  machine : W

/-- The get-only part of a `ConfigurationContext`. -/
structure Installer (W : Type) where
  uninstall : Bool
  /-- `ProductInformation.Version`. -/
  version : String
  /-- The upper-casing behind `OrdinalIgnoreCase`. -/
  toUpperInvariant : Char → Char
  userConsent : Eff (ConfigurationContext W) Exn Bool
  requestReboot : Eff (ConfigurationContext W) Exn Bool

structure Resource (W : Type) where
  id : String
  dependsOn : List String := []
  enabled : Bool := true
  noUninstall : Bool := false
  requiresReboot : W → Bool := fun _ => false
  runAllwaysFirst : Bool := false
  runAllways : Bool := false
  onUpdateAction : UpdateAction := .none
  test : Eff (ConfigurationContext W) Exn Bool
  set : Eff (ConfigurationContext W) Exn Unit
  unset : Eff (ConfigurationContext W) Exn Unit

variable {W : Type}

/-- `a.Equals(b, StringComparison.OrdinalIgnoreCase)`. -/
def Installer.equalsIgnoreCase (p : Installer W) (a b : String) : Bool :=
  a.toList.map p.toUpperInvariant == b.toList.map p.toUpperInvariant

/-- `!string.IsNullOrEmpty(InstalledVersion) && InstalledVersion != ProductInformation.Version`. -/
def ConfigurationContext.updating (p : Installer W) (c : ConfigurationContext W) : Bool :=
  match c.installedVersion with
  | Option.none => false
  | some v => v != "" && v != p.version

/-- `SaveState`. -/
def saveState : Eff (ConfigurationContext W) Exn Unit :=
  Eff.modify fun c => { c with stateFile := some ((c.state.map DisabledResources.ids).getD []) }

/-- `ClearState`. -/
def clearState : Eff (ConfigurationContext W) Exn Unit :=
  Eff.modify fun c => { c with stateFile := Option.none, state := Option.none }

end ContainerDesktop.DesiredStateConfiguration
