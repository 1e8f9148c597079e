import ContainerDesktop.Configuration.Validation
import ContainerDesktop.Services.Engine

/-!
# Changes of the certificates that reach the daemon

`Save` raises `ConfigurationChanged` with the names of the differences between the
configuration in memory and the saved one.  The engine looks for the name of the
property `Certificates` among them.

The names come from a structural comparison.  Lists are compared by position: lists
of different lengths give the name of the property, and elements that differ give
the name of the member inside the element.  `save_schedules_iff` says which changes
of the list the engine sees.
-/

namespace ContainerDesktop.Configuration

/-! ## The names of differences -/

/-- The members in which two certificates differ. -/
def memberDifferences (a b : CertificateInfo) : List String :=
  (if a.thumbprint = b.thumbprint then [] else ["Thumbprint"]) ++
    (if a.name = b.name then [] else ["Name"]) ++
    (if a.storeName = b.storeName then [] else ["StoreName"]) ++
    (if a.storeLocation = b.storeLocation then [] else ["StoreLocation"]) ++
    (if a.fileName = b.fileName then [] else ["FileName"])

/-- `Certificates[i].Member` -/
def elementName (i : Nat) (member : String) : String :=
  "Certificates[" ++ toString i ++ "]." ++ member

/-- The differences inside the elements from `i` on. -/
def elementDifferences : Nat → List CertificateInfo → List CertificateInfo → List String
  | i, a :: as, b :: bs =>
    (memberDifferences a b).map (elementName i) ++ elementDifferences (i + 1) as bs
  | _, _, _ => []

/-- The differences of two lists of certificates. -/
def certificateDifferences (as bs : List CertificateInfo) : List String :=
  (if as.length = bs.length then [] else ["Certificates"]) ++ elementDifferences 0 as bs

/-- The property that a difference is inside of. -/
def rootProperty (name : String) : List Char := name.toList.takeWhile fun c => c ≠ '.' ∧ c ≠ '['

/-- The properties other than `Certificates` that are compared. -/
def otherProperties : List String :=
  ["EnabledDistributions", "PortForwardInterfaces", "DnsMode", "DnsAddresses",
    "PortForwardingEnabled", "DaemonConfig", "HostEntryMode", "HostEntryAdapter"]

/-- `CompareLogic` with the names of the differences.  Of those in other properties than
`Certificates` it is known that they begin with the name of the property. -/
structure DifferenceLogic where
  others : ContainerDesktopConfiguration → ContainerDesktopConfiguration → List String
  others_eq_nil : ∀ a b, others a b = [] ↔
    { a with certificates := [] } = { b with certificates := [] }
  others_root : ∀ a b, ∀ name ∈ others a b, ∃ property ∈ otherProperties,
    rootProperty name = property.toList

section Names

variable {a b : CertificateInfo} {as bs : List CertificateInfo} {i : Nat}

theorem memberDifferences_eq_nil : memberDifferences a b = [] ↔ a = b := by
  obtain ⟨thumbprint, name, storeName, storeLocation, fileName⟩ := a
  obtain ⟨thumbprint', name', storeName', storeLocation', fileName'⟩ := b
  simp only [memberDifferences, List.append_eq_nil_iff, ite_eq_left_iff, reduceCtorEq, imp_false,
    Decidable.not_not, CertificateInfo.mk.injEq, and_assoc]

theorem elementDifferences_eq_nil (h : as.length = bs.length) :
    elementDifferences i as bs = [] ↔ as = bs := by
  induction as generalizing bs i with
  | nil =>
    cases bs with
    | nil => simp [elementDifferences]
    | cons b bs => exact absurd h (by simp)
  | cons a as ih =>
    cases bs with
    | nil => exact absurd h (by simp)
    | cons b bs =>
      rw [elementDifferences, List.append_eq_nil_iff, List.map_eq_nil_iff, memberDifferences_eq_nil,
        ih (Nat.succ.inj h), List.cons.injEq]

theorem certificateDifferences_eq_nil : certificateDifferences as bs = [] ↔ as = bs := by
  unfold certificateDifferences
  by_cases h : as.length = bs.length
  · rw [if_pos h, List.nil_append, elementDifferences_eq_nil h]
  · rw [if_neg h]
    exact iff_of_false (List.cons_ne_nil _ _) fun heq => h (congrArg List.length heq)

theorem elementName_ne (i : Nat) (member : String) : elementName i member ≠ "Certificates" := by
  intro h
  have hlen := congrArg String.length h
  simp only [elementName, String.length_append] at hlen
  have hleft : "Certificates[".length = 13 := rfl
  have hright : "Certificates".length = 12 := rfl
  omega

theorem not_mem_elementDifferences : "Certificates" ∉ elementDifferences i as bs := by
  induction as generalizing bs i with
  | nil => simp [elementDifferences]
  | cons a as ih =>
    cases bs with
    | nil => simp [elementDifferences]
    | cons b bs =>
      rw [elementDifferences, List.mem_append, List.mem_map, not_or]
      exact ⟨fun ⟨member, _, heq⟩ => elementName_ne i member heq, ih⟩

/-- The name of the property is among the differences only for lists of different lengths. -/
theorem mem_certificateDifferences :
    "Certificates" ∈ certificateDifferences as bs ↔ as.length ≠ bs.length := by
  unfold certificateDifferences
  rw [List.mem_append, or_iff_left not_mem_elementDifferences]
  by_cases h : as.length = bs.length <;> simp [h]

theorem rootProperty_certificates : ∀ property ∈ otherProperties,
    rootProperty "Certificates" ≠ property.toList := by
  decide

end Names

/-! ## The event -/

structure ConfigurationChangedEventArgs where
  restartRequested : Bool
  propertiesChanged : List String

/-- The properties with a `RestartRequiredAttribute`. -/
def restartRequired : List String := ["DaemonConfig"]

namespace DifferenceLogic

variable (D : DifferenceLogic)

/-- `result.Differences`, by their names.  A difference of the configuration itself, when one of
the two is null, has an empty name. -/
def differences : Option ContainerDesktopConfiguration → Option ContainerDesktopConfiguration →
    List String
  | some a, some b => D.others a b ++ certificateDifferences a.certificates b.certificates
  | none, none => []
  | _, _ => [""]

theorem differences_eq_nil (a b : Option ContainerDesktopConfiguration) :
    D.differences a b = [] ↔ a = b := by
  cases a with
  | none => cases b <;> simp [differences]
  | some a =>
    cases b with
    | none => simp [differences]
    | some b =>
      rw [differences, List.append_eq_nil_iff, D.others_eq_nil, certificateDifferences_eq_nil,
        Option.some.injEq]
      obtain ⟨⟩ := a
      obtain ⟨⟩ := b
      simp only [ContainerDesktopConfiguration.mk.injEq, true_and]
      tauto

/-- The comparison as `isChanged` and `saveAndNotify` use it. -/
def logic : CompareLogic where
  areEqual a b := (D.differences a b).isEmpty
  areEqual_iff a b := by rw [List.isEmpty_iff, D.differences_eq_nil]

theorem mem_differences (a b : ContainerDesktopConfiguration) :
    "Certificates" ∈ D.differences (some a) (some b) ↔
      a.certificates.length ≠ b.certificates.length := by
  rw [differences, List.mem_append, mem_certificateDifferences, or_iff_right]
  intro h
  obtain ⟨property, hproperty, hroot⟩ := D.others_root a b _ h
  exact rootProperty_certificates property hproperty hroot

/-- The arguments that `SaveAndNotify` makes. -/
def eventArgs (loaded : Option ContainerDesktopConfiguration) (c : ContainerDesktopConfiguration) :
    ConfigurationChangedEventArgs where
  restartRequested := restartRequired.any fun name => (D.differences loaded (some c)).contains name
  propertiesChanged := D.differences loaded (some c)

end DifferenceLogic

/-- The events that `Save` raises, seen by a subscriber that leaves the service alone. -/
def ConfigurationService.raised {J : JsonConvert} (D : DifferenceLogic)
    (isValid : ContainerDesktopConfiguration → Bool) (s : ConfigurationService J) :
    List ConfigurationChangedEventArgs :=
  (ConfigurationService.saveAndNotify D.logic isValid true (fun s => ([s], s)) s).1.map fun s =>
    D.eventArgs s.loadedConfiguration s.configuration

section Raised

variable {J : JsonConvert} {D : DifferenceLogic} {isValid : ContainerDesktopConfiguration → Bool}
  {s : ConfigurationService J}

theorem ConfigurationService.raised_changed (hvalid : isValid s.configuration = true)
    (hne : s.loadedConfiguration ≠ some s.configuration) :
    s.raised D isValid = [D.eventArgs s.loadedConfiguration s.configuration] := by
  have hdiffer : ¬ D.logic.areEqual s.loadedConfiguration (some s.configuration) = true :=
    fun h => hne ((D.logic.areEqual_iff _ _).mp h)
  simp only [raised, saveAndNotify, if_pos hvalid, if_neg hdiffer, if_true, List.map_cons,
    List.map_nil]

/-- An invalid configuration is not saved. -/
theorem ConfigurationService.raised_invalid (hvalid : ¬ isValid s.configuration = true) :
    s.raised D isValid = [] := by
  simp only [raised, saveAndNotify, if_neg hvalid, List.map_nil]

end Raised

end ContainerDesktop.Configuration

namespace ContainerDesktop.Services

open ContainerDesktop.Configuration

/-! ## The subscriber -/

/-- `OnConfigurationChanged`: the tasks that it schedules. -/
def onConfigurationChanged (W : World) (cfg : Settings) (e : ConfigurationChangedEventArgs) :
    List (EngineM Unit) :=
  if e.propertiesChanged.contains "Certificates" then [updateCertificates W cfg] else []

/-- `Save` lets the engine update the certificates. -/
def SchedulesUpdate {J : JsonConvert} (D : DifferenceLogic)
    (isValid : ContainerDesktopConfiguration → Bool) (W : World) (cfg : Settings)
    (s : ConfigurationService J) : Prop :=
  ∃ e ∈ s.raised D isValid, updateCertificates W cfg ∈ onConfigurationChanged W cfg e

theorem mem_onConfigurationChanged {W : World} {cfg : Settings}
    {e : ConfigurationChangedEventArgs} :
    updateCertificates W cfg ∈ onConfigurationChanged W cfg e ↔
      "Certificates" ∈ e.propertiesChanged := by
  unfold onConfigurationChanged
  by_cases h : e.propertiesChanged.contains "Certificates" = true
  · rw [if_pos h]
    exact iff_of_true (List.mem_singleton_self _) (List.contains_iff_mem.mp h)
  · rw [if_neg h]
    exact iff_of_false List.not_mem_nil fun hmem => h (List.contains_iff_mem.mpr hmem)

/-- A change of the list of certificates reaches the engine exactly when the new configuration
is valid and the new list has another length. -/
theorem save_schedules_iff {J : JsonConvert} (D : DifferenceLogic)
    (isValid : ContainerDesktopConfiguration → Bool) (W : World) (cfg : Settings)
    (s : ConfigurationService J) (saved : ContainerDesktopConfiguration)
    (hsaved : s.loadedConfiguration = some saved)
    (hchanged : s.configuration.certificates ≠ saved.certificates) :
    SchedulesUpdate D isValid W cfg s ↔
      isValid s.configuration = true ∧
        s.configuration.certificates.length ≠ saved.certificates.length := by
  have hne : s.loadedConfiguration ≠ some s.configuration := by
    rw [hsaved]
    intro h
    exact hchanged (congrArg ContainerDesktopConfiguration.certificates (Option.some.inj h)).symm
  unfold SchedulesUpdate
  by_cases hvalid : isValid s.configuration = true
  · rw [s.raised_changed hvalid hne, and_iff_right hvalid]
    simp only [List.mem_singleton, exists_eq_left, mem_onConfigurationChanged]
    rw [DifferenceLogic.eventArgs, hsaved, D.mem_differences]
    exact ne_comm
  · rw [s.raised_invalid hvalid]
    simp [hvalid]

/-- A comparison that tells the other properties apart as one. -/
def compareOthers : DifferenceLogic where
  others a b :=
    if { a with certificates := [] } = { b with certificates := [] } then [] else ["DnsMode"]
  others_eq_nil a b := by simp
  others_root a b name h := by
    split at h
    · exact nomatch h
    · obtain rfl := List.mem_singleton.mp h
      exact ⟨"DnsMode", by decide, by decide⟩

/-- A certificate of the machine's root store. -/
def rootCertificate (thumbprint : String) : CertificateInfo :=
  ⟨some thumbprint, some thumbprint, .root, .localMachine, some ("cd-" ++ thumbprint ++ ".crt")⟩

/-- A service with these certificates in memory and those saved. -/
def changing (certificates saved : List CertificateInfo) :
    ConfigurationService ConfigurationService.plainJson :=
  ⟨{ ContainerDesktopConfiguration.new with certificates := certificates },
    some { ContainerDesktopConfiguration.new with certificates := saved }, none⟩

theorem save_schedules_added :
    SchedulesUpdate compareOthers (isValid fun _ => true) calm ⟨.empty, [], "", []⟩
      (changing [rootCertificate "A1"] []) :=
  (save_schedules_iff compareOthers (isValid fun _ => true) calm ⟨.empty, [], "", []⟩
    (changing [rootCertificate "A1"] []) _ rfl (by decide)).mpr ⟨rfl, by decide⟩

/-- One certificate in the place of another is not noticed. -/
theorem save_misses_replaced :
    ¬ ∀ (J : JsonConvert) (D : DifferenceLogic) (W : World) (cfg : Settings)
      (s : ConfigurationService J) (saved : ContainerDesktopConfiguration),
      s.loadedConfiguration = some saved → isValid (fun _ => true) s.configuration = true →
      s.configuration.certificates ≠ saved.certificates →
      SchedulesUpdate D (isValid fun _ => true) W cfg s := by
  intro h
  obtain ⟨e, he, htask⟩ := h ConfigurationService.plainJson compareOthers calm ⟨.empty, [], "", []⟩
    (changing [rootCertificate "B2"] [rootCertificate "A1"]) _ rfl rfl (by decide)
  rw [ConfigurationService.raised_changed rfl (by decide)] at he
  obtain rfl := List.mem_singleton.mp he
  rw [mem_onConfigurationChanged] at htask
  exact (compareOthers.mem_differences _ _).mp htask rfl

end ContainerDesktop.Services
