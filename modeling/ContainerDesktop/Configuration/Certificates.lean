import ContainerDesktop.Configuration.ConfigurationService
import ContainerDesktop.FirstOccurrences

/-!
# Listing and exporting certificates

`GetCertificates` lists the valid certificates of four stores, and `GetPem` exports
one of them: it opens the store that the entry names and looks for the thumbprint.
Every entry names the root store of the machine, whichever store it was read from.

`exports_all_iff` says when all of them are exported.
-/

namespace ContainerDesktop.Configuration

/-! ## The stores -/

/-- What is read of a certificate. -/
structure X509Certificate2 where
  thumbprint : String
  rawData : List UInt8
  issuer : String
  serialNumber : String
  /-- `GetNameInfo(X509NameType.SimpleName, false)` -/
  simpleName : String
  deriving DecidableEq

/-- `GetHashCode`: the first four bytes of the thumbprint, here as hexadecimal digits. -/
def X509Certificate2.hashCode (x : X509Certificate2) : List Char := x.thumbprint.toList.take 8

/-- What a hash set tells certificates apart by: the hash code, and what
`X509Certificate.Equals` compares. -/
def X509Certificate2.identity (x : X509Certificate2) : List Char × String × String :=
  (x.hashCode, x.issuer, x.serialNumber)

/-- The contents of the certificate stores.  A thumbprint belongs to one certificate, wherever
it is. -/
structure CertificateStores where
  certificates : StoreName → StoreLocation → List X509Certificate2
  identified : ∀ {n l n' l' x y}, x ∈ certificates n l → y ∈ certificates n' l' →
    x.thumbprint = y.thumbprint → x = y

/-- `Verify`, `PemEncoding.Write`, and the order of names. -/
structure Cryptography where
  verify : X509Certificate2 → Bool
  writePem : List UInt8 → String
  writePem_injective : ∀ a b, writePem a = writePem b → a = b
  writePem_ne : ∀ a, writePem a ≠ ""
  nameLe : Option String → Option String → Bool

namespace CertificateInfo

variable (K : Cryptography) (S : CertificateStores)

def getPem (c : CertificateInfo) : String :=
  match (S.certificates c.storeName c.storeLocation).find?
      (fun x => some x.thumbprint = c.thumbprint) with
  | some cert => K.writePem cert.rawData
  | none => ""

def fromCertificate (cert : X509Certificate2) (storeName : StoreName)
    (storeLocation : StoreLocation) : CertificateInfo where
  thumbprint := some cert.thumbprint
  name := some cert.simpleName
  storeName := storeName
  storeLocation := storeLocation
  fileName := some ("cd-" ++ cert.thumbprint ++ ".crt")

/-- The certificates of one store that are valid, with the store that is recorded for them. -/
def labelled (storeName : StoreName) (storeLocation : StoreLocation) :
    List (StoreName × StoreLocation × X509Certificate2) :=
  ((S.certificates storeName storeLocation).filter K.verify).map fun x => (.root, .localMachine, x)

/-- What `Union` tells two of the records apart by. -/
def recordKey (x : StoreName × StoreLocation × X509Certificate2) :
    StoreName × StoreLocation × List Char × String × String :=
  (x.1, x.2.1, x.2.2.identity)

/-- The union of the four stores. -/
def records : List (StoreName × StoreLocation × X509Certificate2) :=
  unionBy recordKey
    (unionBy recordKey
      (unionBy recordKey (labelled K S .root .localMachine)
        (labelled K S .certificateAuthority .localMachine))
      (labelled K S .root .currentUser))
    (labelled K S .certificateAuthority .currentUser)

def getCertificates : List CertificateInfo :=
  ((records K S).map fun x => fromCertificate x.2.2 x.1 x.2.1).mergeSort
    fun a b => K.nameLe a.name b.name

/-! ## What is listed -/

variable {K S} {x : X509Certificate2} {c : CertificateInfo}

/-- The valid certificates of the four stores, one store after the other. -/
def validCertificates (K : Cryptography) (S : CertificateStores) : List X509Certificate2 :=
  (S.certificates .root .localMachine ++ S.certificates .certificateAuthority .localMachine ++
    S.certificates .root .currentUser ++ S.certificates .certificateAuthority .currentUser).filter
      K.verify

/-- The entry of a certificate. -/
def entry (x : X509Certificate2) : CertificateInfo := fromCertificate x .root .localMachine

theorem records_eq : records K S =
    distinctBy recordKey ((validCertificates K S).map fun x => (.root, .localMachine, x)) := by
  simp only [records, unionBy, distinctBy_append, labelled, validCertificates, List.filter_append,
    List.map_append]

theorem mem_records {z : StoreName × StoreLocation × X509Certificate2} :
    z ∈ records K S ↔
      ∃ x, IsFirst X509Certificate2.identity x (validCertificates K S) ∧
        z = (.root, .localMachine, x) := by
  have hinj : Function.Injective fun x : X509Certificate2 =>
      (StoreName.root, StoreLocation.localMachine, x) :=
    fun _ _ h => (Prod.ext_iff.mp (Prod.ext_iff.mp h).2).2
  have hkey (x y : X509Certificate2) :
      recordKey (StoreName.root, StoreLocation.localMachine, x)
          = recordKey (StoreName.root, StoreLocation.localMachine, y) ↔
          x.identity = y.identity := by
    simp [recordKey]
  rw [records_eq, mem_distinctBy]
  constructor
  · intro h
    obtain ⟨x, -, rfl⟩ := List.mem_map.mp h.mem
    exact ⟨x, (isFirst_congr hkey).mp ((isFirst_map hinj).mp h), rfl⟩
  · rintro ⟨x, hx, rfl⟩
    exact (isFirst_map hinj).mpr ((isFirst_congr hkey).mpr hx)

/-- Listed is every valid certificate that is not taken for an earlier one. -/
theorem mem_getCertificates :
    c ∈ getCertificates K S ↔
      ∃ x, IsFirst X509Certificate2.identity x (validCertificates K S) ∧ c = entry x := by
  rw [getCertificates, List.mem_mergeSort, List.mem_map]
  constructor
  · rintro ⟨z, hz, rfl⟩
    obtain ⟨x, hx, rfl⟩ := mem_records.mp hz
    exact ⟨x, hx, rfl⟩
  · rintro ⟨x, hx, rfl⟩
    exact ⟨_, mem_records.mpr ⟨x, hx, rfl⟩, rfl⟩

/-- The certificate is in one of the stores. -/
def Stored (S : CertificateStores) (x : X509Certificate2) : Prop := ∃ n l, x ∈ S.certificates n l

theorem stored_of_isFirst (h : IsFirst X509Certificate2.identity x (validCertificates K S)) :
    Stored S x := by
  have hx := (List.mem_filter.mp h.mem).1
  simp only [List.mem_append] at hx
  rcases hx with ((hx | hx) | hx) | hx <;> exact ⟨_, _, hx⟩

/-! ## What is exported -/

/-- `GetPem` gives the text of the certificate with this thumbprint, which is not empty. -/
def Exports (K : Cryptography) (S : CertificateStores) (c : CertificateInfo) : Prop :=
  getPem K S c ≠ "" ∧
    ∃ x, Stored S x ∧ c.thumbprint = some x.thumbprint ∧ getPem K S c = K.writePem x.rawData

theorem getPem_found (h : x ∈ S.certificates .root .localMachine) :
    getPem K S (entry x) = K.writePem x.rawData := by
  have hsome : ((S.certificates .root .localMachine).find?
      fun y => decide (some y.thumbprint = some x.thumbprint)).isSome :=
    List.find?_isSome.mpr ⟨x, h, decide_eq_true rfl⟩
  obtain ⟨y, hy⟩ := Option.isSome_iff_exists.mp hsome
  have hthumbprint : y.thumbprint = x.thumbprint := by simpa using List.find?_some hy
  obtain rfl := S.identified (List.mem_of_find?_eq_some hy) h hthumbprint
  unfold getPem entry fromCertificate
  rw [hy]

theorem getPem_missing (hstored : Stored S x) (h : x ∉ S.certificates .root .localMachine) :
    getPem K S (entry x) = "" := by
  have hnone : (S.certificates .root .localMachine).find?
      (fun y => decide (some y.thumbprint = some x.thumbprint)) = none := by
    refine List.find?_eq_none.mpr fun y hy heq => h ?_
    obtain ⟨n, l, hx⟩ := hstored
    have hthumbprint : y.thumbprint = x.thumbprint := by simpa using heq
    exact S.identified hy hx hthumbprint ▸ hy
  unfold getPem entry fromCertificate
  rw [hnone]

/-- A certificate of the stores is exported exactly when it is in the root store of the
machine. -/
theorem exports_entry_iff (hstored : Stored S x) :
    Exports K S (entry x) ↔ x ∈ S.certificates .root .localMachine := by
  constructor
  · intro ⟨hne, _⟩
    by_cases h : x ∈ S.certificates .root .localMachine
    · exact h
    · exact absurd (getPem_missing hstored h) hne
  · intro h
    exact ⟨getPem_found h ▸ K.writePem_ne _, x, hstored, rfl, getPem_found h⟩

theorem exports_all_iff :
    (∀ c ∈ getCertificates K S, Exports K S c) ↔
      ∀ x, IsFirst X509Certificate2.identity x (validCertificates K S) →
        x ∈ S.certificates .root .localMachine := by
  constructor
  · intro h x hx
    exact (exports_entry_iff (stored_of_isFirst hx)).mp (h _ (mem_getCertificates.mpr ⟨x, hx, rfl⟩))
  · intro h c hc
    obtain ⟨x, hx, rfl⟩ := mem_getCertificates.mp hc
    exact (exports_entry_iff (stored_of_isFirst hx)).mpr (h x hx)

end CertificateInfo

end ContainerDesktop.Configuration
