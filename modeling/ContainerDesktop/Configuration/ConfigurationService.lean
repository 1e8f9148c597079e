import Mathlib.Data.Finset.Basic

/-!
# The configuration service

`config.json` is written and read by `saveAndNotify` and `load`.  The service
also keeps `loadedConfiguration`, the configuration of the last save or load, and
`isChanged` compares it with the one in memory.

Both functions raise `ConfigurationChanged` on their way.  What the subscribers
do is the argument `deliver`: it takes the service as it is when the event is
raised to the service after the last subscriber, with the states that the
subscribers could look at.

`PopulateObject` sets the properties that have a setter.  The three collections
have none and it adds to them: `populate_eq_iff` says when this comes to the
configuration in the file.
-/

namespace ContainerDesktop.Configuration

inductive DnsMode where
  | wsl
  | auto
  | static
  deriving DecidableEq

inductive HostEntryMode where
  | wsl
  | static
  deriving DecidableEq

structure AdapterInfo where
  id : Option String
  name : Option String
  deriving DecidableEq

inductive StoreName where
  | addressBook
  | authRoot
  | certificateAuthority
  | disallowed
  | my
  | root
  | trustedPeople
  | trustedPublisher
  deriving DecidableEq

inductive StoreLocation where
  | currentUser
  | localMachine
  deriving DecidableEq

structure CertificateInfo where
  thumbprint : Option String
  name : Option String
  storeName : StoreName
  storeLocation : StoreLocation
  fileName : Option String
  deriving DecidableEq

/-- The persisted properties. -/
structure ContainerDesktopConfiguration where
  enabledDistributions : Finset String
  portForwardInterfaces : Finset String
  dnsMode : DnsMode
  dnsAddresses : Option String
  portForwardingEnabled : Bool
  daemonConfig : String
  certificates : List CertificateInfo
  hostEntryMode : HostEntryMode
  hostEntryAdapter : Option AdapterInfo
  deriving DecidableEq

namespace ContainerDesktopConfiguration

/-- `new ContainerDesktopConfiguration(productInformation)` -/
def new : ContainerDesktopConfiguration where
  enabledDistributions := ∅
  portForwardInterfaces := ∅
  dnsMode := .wsl
  dnsAddresses := none
  portForwardingEnabled := false
  daemonConfig := "\x7b\r\n\x7d"
  certificates := []
  hostEntryMode := .wsl
  hostEntryAdapter := none

/-- Populating `c` with the properties of `F`. -/
def populate (c F : ContainerDesktopConfiguration) : ContainerDesktopConfiguration :=
  { F with
    enabledDistributions := c.enabledDistributions ∪ F.enabledDistributions
    portForwardInterfaces := c.portForwardInterfaces ∪ F.portForwardInterfaces
    certificates := c.certificates ++ F.certificates }

theorem populate_eq_iff (c F : ContainerDesktopConfiguration) :
    c.populate F = F ↔ c.enabledDistributions ⊆ F.enabledDistributions ∧
      c.portForwardInterfaces ⊆ F.portForwardInterfaces ∧ c.certificates = [] := by
  obtain ⟨enabled, interfaces, _, _, _, _, certificates, _, _⟩ := F
  simp [populate, Finset.union_eq_right]

@[simp] theorem new_populate (F : ContainerDesktopConfiguration) : new.populate F = F :=
  (populate_eq_iff new F).mpr ⟨Finset.empty_subset _, Finset.empty_subset _, rfl⟩

end ContainerDesktopConfiguration

open ContainerDesktopConfiguration (new)

/-- `JsonConvert`, over the texts that a file can hold. -/
structure JsonConvert where
  Text : Type
  serializeObject : ContainerDesktopConfiguration → Text
  populateObject : Text → ContainerDesktopConfiguration → ContainerDesktopConfiguration
  populate_serialize : ∀ F c, populateObject (serializeObject F) c = c.populate F

/-- `CompareLogic` on configurations, where `none` is null.  Sets are compared as sets. -/
structure CompareLogic where
  areEqual : Option ContainerDesktopConfiguration → Option ContainerDesktopConfiguration → Bool
  areEqual_iff : ∀ a b, areEqual a b = true ↔ a = b

structure ConfigurationService (J : JsonConvert) where
  configuration : ContainerDesktopConfiguration
  loadedConfiguration : Option ContainerDesktopConfiguration
  file : Option J.Text

namespace ConfigurationService

variable {J : JsonConvert} (L : CompareLogic) (isValid : ContainerDesktopConfiguration → Bool)

def isChanged (s : ConfigurationService J) : Bool :=
  !L.areEqual s.loadedConfiguration (some s.configuration)

/-- `Load(notify)`.  Without a file it throws before it changes anything. -/
def load (notify : Bool)
    (deliver : ConfigurationService J → List (ConfigurationService J) × ConfigurationService J)
    (s : ConfigurationService J) : List (ConfigurationService J) × ConfigurationService J :=
  match s.file with
  | none => ([], s)
  | some json =>
    let loaded := J.populateObject json new
    if L.areEqual (some s.configuration) (some loaded) then
      ([], { s with loadedConfiguration := some loaded })
    else
      let s := { s with configuration := J.populateObject json s.configuration }
      let (seen, s) := if notify then deliver s else ([], s)
      (seen, { s with loadedConfiguration := some loaded })

/-- `SaveAndNotify(notify)` -/
def saveAndNotify (notify : Bool)
    (deliver : ConfigurationService J → List (ConfigurationService J) × ConfigurationService J)
    (s : ConfigurationService J) : List (ConfigurationService J) × ConfigurationService J :=
  if isValid s.configuration then
    if L.areEqual s.loadedConfiguration (some s.configuration) then ([], s)
    else
      let json := J.serializeObject s.configuration
      let s := { s with file := some json }
      let (seen, s) := if notify then deliver s else ([], s)
      (seen, { s with loadedConfiguration := some (J.populateObject json new) })
  else ([], s)

/-- The constructor, with `config.json` as it finds it. -/
def init (file : Option J.Text) (saveOnInitialize : Bool) : ConfigurationService J :=
  let s : ConfigurationService J := ⟨new, none, file⟩
  if file.isSome then (load L false (fun s => ([], s)) s).2
  else if saveOnInitialize then (saveAndNotify L isValid false (fun s => ([], s)) s).2
  else s

/-! ## Discarding changes -/

/-- The configuration in memory is the saved one, and the service sees no change. -/
def Restored (F : ContainerDesktopConfiguration) (s : ConfigurationService J) : Prop :=
  s.configuration = F ∧ isChanged L s = false

theorem isChanged_eq_false {s : ConfigurationService J} :
    isChanged L s = false ↔ s.loadedConfiguration = some s.configuration := by
  rw [isChanged, Bool.not_eq_false', L.areEqual_iff]

/-- **When `Load` restores the saved configuration.**  `F` is in the file and `c` in memory,
and the subscribers leave the configuration alone. -/
theorem load_restores_iff (F c : ContainerDesktopConfiguration)
    (saved : Option ContainerDesktopConfiguration)
    (deliver : ConfigurationService J → List (ConfigurationService J) × ConfigurationService J)
    (h : ∀ s, (deliver s).2.configuration = s.configuration) :
    Restored L F (load L true deliver ⟨c, saved, some (J.serializeObject F)⟩).2 ↔
      c = F ∨ c.enabledDistributions ⊆ F.enabledDistributions ∧
        c.portForwardInterfaces ⊆ F.portForwardInterfaces ∧ c.certificates = [] := by
  have hloaded : J.populateObject (J.serializeObject F) new = F := by
    rw [J.populate_serialize, ContainerDesktopConfiguration.new_populate]
  unfold Restored
  rw [isChanged_eq_false, ← ContainerDesktopConfiguration.populate_eq_iff]
  by_cases hc : c = F
  · have heq : L.areEqual (some c) (some F) = true := (L.areEqual_iff _ _).mpr (congrArg some hc)
    simp only [load, hloaded, if_pos heq]
    exact iff_of_true ⟨hc, congrArg some hc.symm⟩ (.inl hc)
  · have hne : ¬ L.areEqual (some c) (some F) = true :=
      fun he => hc (Option.some.inj ((L.areEqual_iff _ _).mp he))
    simp only [load, hloaded, if_neg hne, if_true, J.populate_serialize, h, or_iff_right hc]
    exact ⟨fun hr => hr.1, fun hp => ⟨hp, congrArg some hp.symm⟩⟩

/-- Files that hold configurations as they are. -/
def plainJson : JsonConvert where
  Text := ContainerDesktopConfiguration
  serializeObject F := F
  populateObject F c := c.populate F
  populate_serialize _ _ := rfl

def compareValues : CompareLogic where
  areEqual a b := a = b
  areEqual_iff _ _ := decide_eq_true_iff

/-- A changed scalar is restored. -/
theorem load_restores_port_forwarding :
    Restored compareValues new
      (load (J := plainJson) compareValues true (fun s => ([s], s))
        ⟨{ new with portForwardingEnabled := true }, some new, some new⟩).2 :=
  (load_restores_iff compareValues new _ (some new) (fun s => ([s], s)) fun _ => rfl).mpr
    (.inr (by decide))

/-- A distribution that was enabled since the last save stays enabled. -/
theorem load_keeps_distribution :
    ¬ ∀ (J : JsonConvert) (L : CompareLogic) (F c : ContainerDesktopConfiguration)
      (saved : Option ContainerDesktopConfiguration),
      Restored L F (load L true (fun s => ([s], s)) ⟨c, saved, some (J.serializeObject F)⟩).2 := by
  intro h
  have hr := h plainJson compareValues new
    { new with enabledDistributions := {"Ubuntu"} } (some new)
  exact absurd hr.1 (by decide)

end ConfigurationService

end ContainerDesktop.Configuration
