import ContainerDesktop.Configuration.Certificates
import ContainerDesktop.Services.Shutdown

/-!
# The certificate files of the daemon

`UpdateCertificates` exports each selected certificate that has no file yet and
writes what it gets, also when that is empty.  `selectable_iff` says for which
contents of the stores everything that can be selected can be exported, and that
then no empty file is written.
-/

namespace ContainerDesktop.Services

open ContainerDesktop.Configuration
open Eff (Moves)

variable {K : Cryptography} {S : CertificateStores} {selection : List CertificateInfo} {W : World}
  {cfg : Settings}

/-- The command that writes a certificate file. -/
def writeFile (fileName pem : String) : String :=
  "cat <<EOF > /usr/local/share/ca-certificates/" ++ fileName ++ "\n" ++ pem ++ "\nEOF\n"

/-- What `UpdateCertificates` may request for a selection: it writes the files of selected
certificates, each with the text of its certificate. -/
inductive UpdateRequest (K : Cryptography) (S : CertificateStores)
    (selection : List CertificateInfo) : Request → Prop where
  | list : UpdateRequest K S selection (command "ls -1 /usr/local/share/ca-certificates/cd-*.crt")
  | remove (fileName : String) :
    UpdateRequest K S selection (command ("rm /usr/local/share/ca-certificates/" ++ fileName))
  | getPem (fileName : String) : UpdateRequest K S selection (.getPem fileName)
  | write {c : CertificateInfo} {fileName : String} {x : X509Certificate2} (hc : c ∈ selection)
    (hname : c.fileName = some fileName) (hx : CertificateInfo.Stored S x)
    (hthumbprint : c.thumbprint = some x.thumbprint) (hne : K.writePem x.rawData ≠ "") :
    UpdateRequest K S selection (command (writeFile fileName (K.writePem x.rawData)))
  | update : UpdateRequest K S selection (command "update-ca-certificates")

/-- The engine sees these stores and this selection. -/
structure Selected (K : Cryptography) (S : CertificateStores) (selection : List CertificateInfo)
    (W : World) (cfg : Settings) : Prop where
  listed : ∀ c ∈ selection, c ∈ CertificateInfo.getCertificates K S
  fileNames : ∀ fileName ∈ cfg.certificates, ∃ c ∈ selection, c.fileName = some fileName
  getPem : ∀ n, ∀ c ∈ selection, ∀ fileName, c.fileName = some fileName →
    W.reply n (.getPem fileName) = .ok (c.getPem K S)

/-- Everything that can be selected is exported, and no empty file is written for it. -/
structure Selectable (K : Cryptography) (S : CertificateStores) : Prop where
  exports : ∀ c ∈ CertificateInfo.getCertificates K S, CertificateInfo.Exports K S c
  writes : ∀ (selection : List CertificateInfo) (W : World) (cfg : Settings),
    Selected K S selection W cfg → Moves (Within (UpdateRequest K S selection))
    (updateCertificates W cfg)

theorem moves_command {P : Request → Prop} {text : String} (h : P (command text)) :
    Moves (Within P) (executeCommand W text >>= fun _ => (pure () : EngineM Unit)) :=
  Eff.moves_bind (Eff.moves_bind (moves_ask h) fun _ => Eff.moves_pure _) fun _ => Eff.moves_pure _

/-- Exporting a certificate and writing its file. -/
theorem moves_write {P : Request → Prop} {fileName pem : String}
    (hask : P (.getPem fileName)) (hpem : ∀ n, W.reply n (.getPem fileName) = .ok pem)
    (hwrite : P (command (writeFile fileName pem))) :
    Moves (Within P) (do
      let pem : String ← ask W (.getPem fileName)
      let _ ← executeCommand W
        ("cat <<EOF > /usr/local/share/ca-certificates/" ++ fileName ++ "\n" ++ pem
          ++ "\nEOF\n")) := by
  constructor
  intro s
  have hrun : ask W (.getPem fileName) s = (.ok pem, (ask W (.getPem fileName) s).2) :=
    Prod.ext (hpem _) rfl
  rw [Eff.bind_ok hrun]
  exact trans_of (Within P) ((moves_ask hask).run s) ((moves_command hwrite).run _)

theorem updateCertificates_moves (h : Selected K S selection W cfg)
    (hexports : ∀ c ∈ selection, CertificateInfo.Exports K S c) :
    Moves (Within (UpdateRequest K S selection)) (updateCertificates W cfg) := by
  refine Eff.moves_bind (moves_ask .list) fun reply => ?_
  refine Eff.moves_bind (Eff.moves_forEach _ fun removedCert _ =>
    moves_command (.remove _)) fun _ => ?_
  refine Eff.moves_bind (Eff.moves_forEach _ fun addedCert hadded => ?_) fun _ =>
    moves_command .update
  obtain ⟨c, hc, hname⟩ := h.fileNames addedCert (List.mem_of_mem_filter hadded)
  obtain ⟨hne, x, hx, hthumbprint, hpem⟩ := hexports c hc
  rw [hpem] at hne
  exact moves_write (.getPem addedCert) (fun n => (h.getPem n c hc _ hname).trans (congrArg _ hpem))
    (.write hc hname hx hthumbprint hne)

/-- Everything that can be selected can be exported exactly when every valid certificate that is
not taken for one before it is also in the root store of the machine. -/
theorem selectable_iff (K : Cryptography) (S : CertificateStores) :
    Selectable K S ↔
      ∀ x, IsFirst X509Certificate2.identity x (CertificateInfo.validCertificates K S) →
        x ∈ S.certificates .root .localMachine := by
  rw [← CertificateInfo.exports_all_iff]
  exact ⟨Selectable.exports, fun h => ⟨h, fun _ _ _ hsel =>
    updateCertificates_moves hsel fun c hc => h c (hsel.listed c hc)⟩⟩

/-- Texts that are the bytes after a dash. -/
def dashed (bytes : List UInt8) : String := String.ofList ('-' :: bytes.map Char.ofUInt8)

theorem dashed_injective (a b : List UInt8) (h : dashed a = dashed b) : a = b := by
  have hchars : a.map Char.ofUInt8 = b.map Char.ofUInt8 :=
    (List.cons.inj (String.ofList_injective h)).2
  refine List.map_injective_iff.mpr (fun x y hxy => ?_) hchars
  exact UInt8.toUInt32_inj.mp (congrArg Char.val hxy)

/-- Every certificate is valid, and the names are not compared. -/
def trusting : Cryptography where
  verify _ := true
  writePem := dashed
  writePem_injective := dashed_injective
  writePem_ne _ h := by simp [dashed] at h
  nameLe _ _ := true

def companyRoot : X509Certificate2 where
  thumbprint := "A1B2C3D4E5F60718293A4B5C6D7E8F9001122334"
  rawData := [48]
  issuer := "CN=Company"
  serialNumber := "01"
  simpleName := "Company"

/-- One certificate, in the root store of the user. -/
def userRootOnly : CertificateStores where
  certificates
    | .root, .currentUser => [companyRoot]
    | _, _ => []
  identified {n l n' l' x y} hx hy _ := by
    have hx : x = companyRoot := by split at hx <;> simp at hx; exact hx
    have hy : y = companyRoot := by split at hy <;> simp at hy; exact hy
    rw [hx, hy]

/-- The certificate is listed, and cannot be exported. -/
theorem not_selectable : ¬ ∀ (K : Cryptography) (S : CertificateStores), Selectable K S := by
  intro h
  have hlisted : CertificateInfo.entry companyRoot ∈ CertificateInfo.getCertificates trusting
      userRootOnly :=
    CertificateInfo.mem_getCertificates.mpr ⟨companyRoot,
      ⟨[], [], rfl, fun _ hy => nomatch hy⟩, rfl⟩
  have hexports := (h trusting userRootOnly).exports _ hlisted
  have hstored : CertificateInfo.Stored userRootOnly companyRoot :=
    ⟨.root, .currentUser, List.mem_singleton_self _⟩
  exact hexports.1 (CertificateInfo.getPem_missing hstored List.not_mem_nil)

end ContainerDesktop.Services
