import ContainerDesktop.Configuration.Snapshot
import ContainerDesktop.Regex

/-!
# Validation

The validation attributes of the configuration, and the two checks that are made with them.
`SaveAndNotify` asks `IsValid` of the object, which looks at required properties only; the
settings page has all attributes looked at.  `isValid_eq_iff` says for which configurations
they agree.

The object is one for everybody, and so a toggle saves it with what is being edited on the
settings page.  `written_valid` says when `config.json` is written with valid
configurations throughout a run.
-/

namespace ContainerDesktop.Configuration

open ContainerDesktopConfiguration (new)

/-! ## The attributes -/

/-- `char.IsWhiteSpace`, and `\s` -/
def isWhiteSpace (c : Char) : Bool :=
  (0x09 ≤ c.toNat ∧ c.toNat ≤ 0x0D) ∨ (0x2000 ≤ c.toNat ∧ c.toNat ≤ 0x200A) ∨
    c.toNat ∈ [0x20, 0x85, 0xA0, 0x1680, 0x2028, 0x2029, 0x202F, 0x205F, 0x3000]

/-- `string.IsNullOrWhiteSpace` of a string -/
def isBlank (s : String) : Bool := s.toList.all isWhiteSpace

section Pattern

open Regex

/-- `[lo-hi]` -/
def between (lo hi : Char) : Regex Char := char fun c => lo ≤ c ∧ c ≤ hi

def digit : Regex Char := between '0' '9'

/-- `25[0-5]|2[0-4][0-9]|[01]?[0-9][0-9]?` -/
def octet : Regex Char :=
  alt (seq (lit "25".toList) (between '0' '5'))
    (alt (seq (lit "2".toList) (seq (between '0' '4') digit))
      (seq (opt (between '0' '1')) (seq digit (opt digit))))

/-- `\.` and an octet -/
def dotOctet : Regex Char := seq (lit ".".toList) octet

def address : Regex Char := seq octet (seq dotOctet (seq dotOctet dotOctet))

/-- The pattern of `DnsAddresses`.  Its `\b` stand between the beginning of the text, a comma or a
space and the digit that an octet begins with, where there always is a word boundary. -/
def dnsPattern : Regex Char :=
  seq address
    (star (seq (star (char isWhiteSpace)) (seq (lit ",".toList)
      (seq (star (char isWhiteSpace)) address))))

end Pattern

/-- What a property can hold. -/
inductive PropertyValue where
  | null
  | string (s : String)
  | object

inductive ValidationAttribute where
  /-- With the test of the other property. -/
  | requiredIf (applies : ContainerDesktopConfiguration → Bool)
  | regularExpression (pattern : Regex Char)
  | json

/-- `RequiredAttribute.IsValid` -/
def isPresent : PropertyValue → Bool
  | .null => false
  | .string s => !isBlank s
  | .object => true

namespace ValidationAttribute

/-- The attribute is a `RequiredAttribute`. -/
def isRequired : ValidationAttribute → Bool
  | requiredIf _ => true
  | _ => false

/-- `GetValidationResult`, for a `JToken.Parse` that throws unless `parses`.  A match of
`dnsPattern` goes as far as one can, so the first one is the whole text if any is. -/
def isValid (parses : String → Bool) (c : ContainerDesktopConfiguration) (value : PropertyValue) :
    ValidationAttribute → Bool
  | requiredIf applies => !applies c || isPresent value
  | regularExpression pattern =>
    match value with
    | .string s => s = "" || pattern.whole s.toList
    | _ => true
  | json =>
    match value with
    | .string s => !isBlank s && parses s
    | _ => false

end ValidationAttribute

/-- A property that has validation attributes. -/
structure ValidatedProperty where
  value : ContainerDesktopConfiguration → PropertyValue
  attributes : List ValidationAttribute

def dnsAddressesProperty : ValidatedProperty where
  value := fun c => c.dnsAddresses.elim .null .string
  attributes := [.requiredIf fun c => c.dnsMode = .static, .regularExpression dnsPattern]

def daemonConfigProperty : ValidatedProperty where
  value := fun c => .string c.daemonConfig
  attributes := [.json]

def hostEntryAdapterProperty : ValidatedProperty where
  value := fun c => c.hostEntryAdapter.elim .null fun _ => .object
  attributes := [.requiredIf fun c => c.hostEntryMode = .static]

def validatedProperties : List ValidatedProperty :=
  [dnsAddressesProperty, daemonConfigProperty, hostEntryAdapterProperty]

section Checks

variable (parses : String → Bool)

/-- The attributes of one property, or only the first required one. -/
def ValidatedProperty.validate (validateAllProperties : Bool) (c : ContainerDesktopConfiguration)
    (p : ValidatedProperty) : Bool :=
  if validateAllProperties then p.attributes.all (·.isValid parses c (p.value c))
  else ((p.attributes.find? (·.isRequired)).map (·.isValid parses c (p.value c))).getD true

/-- `Validator.TryValidateObject` -/
def tryValidateObject (validateAllProperties : Bool) (c : ContainerDesktopConfiguration) : Bool :=
  validatedProperties.all (·.validate parses validateAllProperties c)

/-- `ConfigurationObject.IsValid` -/
def isValid (c : ContainerDesktopConfiguration) : Bool := tryValidateObject parses false c

/-- `SettingsViewModel.IsValid` -/
def settingsIsValid (c : ContainerDesktopConfiguration) : Bool := tryValidateObject parses true c

/-! ## What they accept -/

/-- The modes have the properties that they need. -/
structure RequiredPresent (c : ContainerDesktopConfiguration) : Prop where
  dnsAddresses : c.dnsMode = .static → ∃ s, c.dnsAddresses = some s ∧ isBlank s = false
  hostEntryAdapter : c.hostEntryMode = .static → ∃ adapter, c.hostEntryAdapter = some adapter

/-- The texts are what they are the texts of. -/
structure WellFormed (c : ContainerDesktopConfiguration) : Prop where
  dnsAddresses : ∀ s, c.dnsAddresses = some s → s = "" ∨ dnsPattern.Matches s.toList []
  daemonConfig : isBlank c.daemonConfig = false ∧ parses c.daemonConfig = true

theorem requiredIf_iff {c : ContainerDesktopConfiguration} {value : PropertyValue}
    {applies : ContainerDesktopConfiguration → Bool} :
    (ValidationAttribute.requiredIf applies).isValid parses c value = true ↔
      (applies c = true → isPresent value = true) := by
  rw [ValidationAttribute.isValid]
  cases applies c <;> simp

theorem dnsAddresses_required {c : ContainerDesktopConfiguration} :
    dnsAddressesProperty.validate parses false c = true ↔
      (c.dnsMode = .static → ∃ s, c.dnsAddresses = some s ∧ isBlank s = false) := by
  have hfirst : dnsAddressesProperty.validate parses false c
      = (ValidationAttribute.requiredIf fun c => c.dnsMode = .static).isValid parses c
        (c.dnsAddresses.elim .null .string) := rfl
  rw [hfirst, requiredIf_iff, decide_eq_true_iff]
  cases c.dnsAddresses <;> simp [isPresent]

theorem hostEntryAdapter_required (validateAllProperties : Bool)
    {c : ContainerDesktopConfiguration} :
    hostEntryAdapterProperty.validate parses validateAllProperties c = true ↔
      (c.hostEntryMode = .static → ∃ adapter, c.hostEntryAdapter = some adapter) := by
  have hone : hostEntryAdapterProperty.validate parses validateAllProperties c
      = (ValidationAttribute.requiredIf fun c => c.hostEntryMode = .static).isValid parses c
        (c.hostEntryAdapter.elim .null fun _ => .object) := by
    cases validateAllProperties with
    | false => rfl
    | true => exact Bool.and_true _
  rw [hone, requiredIf_iff, decide_eq_true_iff]
  cases c.hostEntryAdapter <;> simp [isPresent]

theorem dnsAddresses_all {c : ContainerDesktopConfiguration} :
    dnsAddressesProperty.validate parses true c = true ↔
      dnsAddressesProperty.validate parses false c = true ∧
        ∀ s, c.dnsAddresses = some s → s = "" ∨ dnsPattern.Matches s.toList [] := by
  have hall : dnsAddressesProperty.validate parses true c
      = (dnsAddressesProperty.validate parses false c &&
        ((ValidationAttribute.regularExpression dnsPattern).isValid parses c
          (c.dnsAddresses.elim .null .string) && true)) := rfl
  rw [hall, Bool.and_true, Bool.and_eq_true]
  refine and_congr_right fun _ => ?_
  cases c.dnsAddresses <;> simp [ValidationAttribute.isValid, Regex.whole_iff]

theorem daemonConfig_all {c : ContainerDesktopConfiguration} :
    daemonConfigProperty.validate parses true c = true ↔
      isBlank c.daemonConfig = false ∧ parses c.daemonConfig = true := by
  have hall : daemonConfigProperty.validate parses true c
      = (!isBlank c.daemonConfig && parses c.daemonConfig && true) := rfl
  rw [hall, Bool.and_true, Bool.and_eq_true, Bool.not_eq_true']

/-- The gate of `SaveAndNotify` looks at the required properties. -/
theorem isValid_iff {c : ContainerDesktopConfiguration} :
    isValid parses c = true ↔ RequiredPresent c := by
  have hgate : isValid parses c = (dnsAddressesProperty.validate parses false c &&
      (true && (hostEntryAdapterProperty.validate parses false c && true))) := rfl
  rw [hgate, Bool.true_and, Bool.and_true, Bool.and_eq_true, dnsAddresses_required,
    hostEntryAdapter_required]
  exact ⟨fun h => ⟨h.1, h.2⟩, fun h => ⟨h.1, h.2⟩⟩

/-- The settings page looks at the texts as well. -/
theorem settingsIsValid_iff {c : ContainerDesktopConfiguration} :
    settingsIsValid parses c = true ↔ RequiredPresent c ∧ WellFormed parses c := by
  have hpage : settingsIsValid parses c = (dnsAddressesProperty.validate parses true c &&
      (daemonConfigProperty.validate parses true c &&
        (hostEntryAdapterProperty.validate parses true c && true))) := rfl
  rw [hpage, Bool.and_true, Bool.and_eq_true, Bool.and_eq_true, dnsAddresses_all, daemonConfig_all,
    dnsAddresses_required, hostEntryAdapter_required]
  exact ⟨fun h => ⟨⟨h.1.1, h.2.2⟩, h.1.2, h.2.1⟩,
    fun h => ⟨⟨h.1.dnsAddresses, h.2.dnsAddresses⟩, h.2.daemonConfig, h.1.hostEntryAdapter⟩⟩

/-- **When the two checks agree.** -/
theorem isValid_eq_iff {c : ContainerDesktopConfiguration} :
    (isValid parses c = true ↔ settingsIsValid parses c = true) ↔
      (RequiredPresent c → WellFormed parses c) := by
  rw [isValid_iff, settingsIsValid_iff]
  exact ⟨fun h hpresent => (h.mp hpresent).2, fun h => ⟨fun hp => ⟨hp, h hp⟩, And.left⟩⟩

end Checks

/-! ## What is written -/

namespace ConfigurationService

section Runs

variable {J : JsonConvert} (L : CompareLogic) (parses : String → Bool)

mutual

/-- The changed configurations that `SaveAndNotify` is called with in one call. -/
def savedInCall : Call → ConfigurationService J → List ContainerDesktopConfiguration
  | .edit _, _ => []
  | .load handlers, s =>
    match s.file with
    | none => []
    | some json =>
      if L.areEqual (some s.configuration) (some (J.populateObject json new)) then []
      else savedInHandlers handlers
        { s with configuration := J.populateObject json s.configuration }
  | .saveAndNotify notify handlers, s =>
    if L.areEqual s.loadedConfiguration (some s.configuration) then []
    else
      s.configuration ::
        if isValid parses s.configuration && notify then
          savedInHandlers handlers { s with file := some (J.serializeObject s.configuration) }
        else []

def savedInHandlers : List (List Call) → ConfigurationService J → List ContainerDesktopConfiguration
  | [], _ => []
  | h :: hs, s => savedInCalls h s ++ savedInHandlers hs (runCalls L (isValid parses) h s).2

def savedInCalls : List Call → ConfigurationService J → List ContainerDesktopConfiguration
  | [], _ => []
  | c :: cs, s => savedInCall c s ++ savedInCalls cs (runCall L (isValid parses) c s).2

end

/-- The file is the one from the start, or holds a configuration that the settings page accepts. -/
def HoldsValid (file : Option J.Text) (s : ConfigurationService J) : Prop :=
  s.file = file ∨ ∃ c, s.file = some (J.serializeObject c) ∧ settingsIsValid parses c = true

variable {L parses} {file : Option J.Text}

/-- The condition on the configurations that are saved. -/
abbrev Sound (parses : String → Bool) (saved : List ContainerDesktopConfiguration) : Prop :=
  ∀ c ∈ saved, RequiredPresent c → WellFormed parses c

/-- The states seen on the way and the last one. -/
abbrev HoldsAlong (parses : String → Bool) (file : Option J.Text)
    (run : List (ConfigurationService J) × ConfigurationService J) : Prop :=
  (∀ x ∈ run.1, HoldsValid parses file x) ∧ HoldsValid parses file run.2

theorem HoldsValid.along_nil {s : ConfigurationService J} (h : HoldsValid parses file s) :
    HoldsAlong parses file ([], s) := ⟨fun _ hx => absurd hx List.not_mem_nil, h⟩

theorem saveAndNotify_holdsValid (notify : Bool) (handlers : List (List Call))
    {s : ConfigurationService J} (h : HoldsValid parses file s)
    (hsound : Sound parses (savedInCall L parses (.saveAndNotify notify handlers) s))
    (ih : ∀ s : ConfigurationService J, HoldsValid parses file s →
      Sound parses (savedInHandlers L parses handlers s) →
        HoldsAlong parses file (runHandlers L (isValid parses) handlers s)) :
    HoldsAlong parses file (runCall L (isValid parses) (.saveAndNotify notify handlers) s) := by
  simp only [savedInCall] at hsound
  simp only [runCall, saveAndNotify]
  by_cases hvalid : isValid parses s.configuration = true
  · rw [if_pos hvalid]
    by_cases heq : L.areEqual s.loadedConfiguration (some s.configuration) = true
    · rw [if_pos heq]
      exact h.along_nil
    · rw [if_neg heq] at hsound ⊢
      rw [hvalid, Bool.true_and] at hsound
      have hpresent := (isValid_iff parses).mp hvalid
      have hwritten : HoldsValid parses file
          { s with file := some (J.serializeObject s.configuration) } :=
        .inr ⟨s.configuration, rfl,
          (settingsIsValid_iff parses).mpr ⟨hpresent, hsound _ List.mem_cons_self hpresent⟩⟩
      cases notify with
      | false => exact hwritten.along_nil
      | true => exact ih _ hwritten fun c hc => hsound c (List.mem_cons_of_mem _ hc)
  · rw [if_neg hvalid]
    exact h.along_nil

theorem load_holdsValid (handlers : List (List Call)) {s : ConfigurationService J}
    (h : HoldsValid parses file s) (hsound : Sound parses (savedInCall L parses (.load handlers) s))
    (ih : ∀ s : ConfigurationService J, HoldsValid parses file s →
      Sound parses (savedInHandlers L parses handlers s) →
        HoldsAlong parses file (runHandlers L (isValid parses) handlers s)) :
    HoldsAlong parses file (runCall L (isValid parses) (.load handlers) s) := by
  obtain ⟨configuration, snapshot, contents⟩ := s
  cases contents with
  | none => exact h.along_nil
  | some json =>
    simp only [savedInCall] at hsound
    simp only [runCall, load]
    by_cases heq : L.areEqual (some configuration) (some (J.populateObject json new)) = true
    · rw [if_pos heq]
      exact h.along_nil
    · rw [if_neg heq] at hsound ⊢
      exact ih _ h hsound

mutual

theorem runCall_holdsValid : ∀ (c : Call) (s : ConfigurationService J), HoldsValid parses file s →
    Sound parses (savedInCall L parses c s) →
    HoldsAlong parses file (runCall L (isValid parses) c s)
  | .edit _, _, h, _ => h.along_nil
  | .load handlers, _, h, hsound =>
    load_holdsValid handlers h hsound (runHandlers_holdsValid handlers)
  | .saveAndNotify notify handlers, _, h, hsound =>
    saveAndNotify_holdsValid notify handlers h hsound (runHandlers_holdsValid handlers)

theorem runHandlers_holdsValid : ∀ (hs : List (List Call)) (s : ConfigurationService J),
    HoldsValid parses file s → Sound parses (savedInHandlers L parses hs s) →
    HoldsAlong parses file (runHandlers L (isValid parses) hs s)
  | [], _, h, _ => h.along_nil
  | hd :: hs, s, h, hsound => by
    simp only [savedInHandlers] at hsound
    obtain ⟨hfirst, hrest⟩ := List.forall_mem_append.mp hsound
    obtain ⟨hseen, hafter⟩ := runCalls_holdsValid hd s h hfirst
    obtain ⟨hseen', hafter'⟩ := runHandlers_holdsValid hs _ hafter hrest
    simp only [runHandlers]
    exact ⟨List.forall_mem_append.mpr ⟨List.forall_mem_cons.mpr ⟨h, hseen⟩, hseen'⟩, hafter'⟩

theorem runCalls_holdsValid :
    ∀ (cs : List Call) (s : ConfigurationService J), HoldsValid parses file s →
    Sound parses (savedInCalls L parses cs s) →
    HoldsAlong parses file (runCalls L (isValid parses) cs s)
  | [], _, h, _ => h.along_nil
  | c :: cs, s, h, hsound => by
    simp only [savedInCalls] at hsound
    obtain ⟨hfirst, hrest⟩ := List.forall_mem_append.mp hsound
    obtain ⟨hseen, hafter⟩ := runCall_holdsValid c s h hfirst
    obtain ⟨hseen', hafter'⟩ := runCalls_holdsValid cs _ hafter hrest
    simp only [runCalls]
    exact ⟨List.forall_mem_append.mpr ⟨hseen, List.forall_mem_cons.mpr ⟨hafter, hseen'⟩⟩, hafter'⟩

end

end Runs

/-- **When the gate of `SaveAndNotify` keeps invalid configurations out.**  It agrees with the
settings page on the configurations that lack a required property or whose texts are well formed;
and if only such ones are saved in a run, what is written is valid throughout. -/
theorem written_valid (parses : String → Bool) :
    (∀ c, (isValid parses c = true ↔ settingsIsValid parses c = true) ↔
        (RequiredPresent c → WellFormed parses c)) ∧
      ∀ (J : JsonConvert) (L : CompareLogic) (s : ConfigurationService J) (calls : List Call),
        (∀ c ∈ savedInCalls L parses calls s, RequiredPresent c → WellFormed parses c) →
          ∀ x ∈ (runCalls L (isValid parses) calls s).1, HoldsValid parses s.file x :=
  ⟨fun _ => isValid_eq_iff parses, fun _ _ s calls hsound =>
    (runCalls_holdsValid calls s (.inl rfl) hsound).1⟩

/-- A distribution was toggled and nothing else edited. -/
def toggled : ContainerDesktopConfiguration := { new with enabledDistributions := {"Ubuntu"} }

theorem wellFormed_toggled {parses : String → Bool} (h : parses new.daemonConfig = true) :
    WellFormed parses toggled where
  dnsAddresses := fun _ hs => nomatch hs
  daemonConfig := ⟨by decide, h⟩

theorem written_valid_toggled :
    ∀ x ∈ (runCalls compareValues (isValid fun s => s = new.daemonConfig)
        [.edit toggled, .saveAndNotify true []]
        (⟨new, some new, some new⟩ : ConfigurationService plainJson)).1,
      HoldsValid (fun s => s = new.daemonConfig) (some new) x := by
  refine (written_valid _).2 plainJson compareValues ⟨new, some new, some new⟩ _ fun c hc _ => ?_
  have hchanged : compareValues.areEqual (some new) (some toggled) = false := by decide
  obtain rfl : c = toggled := by
    simpa [savedInCalls, savedInCall, savedInHandlers, runCall, hchanged] using hc
  exact wellFormed_toggled (decide_eq_true rfl)

/-- An address of three numbers passes the gate, since nothing is required of the mode. -/
theorem isValid_ne_settingsIsValid :
    ¬ ∀ (parses : String → Bool) (c : ContainerDesktopConfiguration),
      isValid parses c = true ↔ settingsIsValid parses c = true := by
  intro h
  have hdiffer := h (fun s => s = new.daemonConfig) { new with dnsAddresses := some "8.8.8" }
  rw [isValid_iff, settingsIsValid_iff] at hdiffer
  have hwell := (hdiffer.mp ⟨fun h => (nomatch h), fun h => (nomatch h)⟩).2
  rcases hwell.dnsAddresses "8.8.8" rfl with hempty | hmatch
  · exact absurd hempty (by decide)
  · exact absurd (Regex.whole_iff.mpr hmatch) (by decide)

end ConfigurationService

end ContainerDesktop.Configuration
