import Mathlib.Data.List.Basic
import Curf.Basic
import Curf.Lib.Lowercase

/-!
# Certificates and keys

`SslManager` loads a certificate chain and a private key for each domain with TLS and
builds from them the table by which the certificate is chosen for the server name that
a client asks for. The PEM reader, the check of a key, the check of a certificate against
its name and the look-up by the name of a handshake belong to `rustls`; `Rustls` is what
is asked of it.

`loadKey_eq_ok_iff` says which key of a file is taken, and `build_eq_ok_iff` and
`resolve_eq` what the table has.
-/

namespace Curf

open Lib

/-- A section of a PEM file. -/
inductive PemItem where
  | certificate (der : Bytes)
  | pkcs8 (der : Bytes)
  | pkcs1 (der : Bytes)
  | sec1 (der : Bytes)
  | other
  deriving DecidableEq, Repr

/-- A file that can be opened: its sections, `none` for one that cannot be read, and
whether one can go back to its start. -/
structure PemFile where
  items : List (Option PemItem)
  seekable : Bool
  deriving DecidableEq, Repr

inductive PrivateKey where
  | pkcs8 (der : Bytes)
  | pkcs1 (der : Bytes)
  | sec1 (der : Bytes)
  deriving DecidableEq, Repr

/-- What an error begins with: a message of the program, or an error from outside. -/
inductive Cause where
  | io
  | pem
  | tls
  | message (text : String)
  deriving DecidableEq, Repr

/-- An error with what was added to it on its way, the last first. -/
structure Failure where
  contexts : List String
  cause : Cause
  deriving DecidableEq, Repr

/-- `with_context`. -/
def Failure.under {α : Type} (text : String) : Except Failure α → Except Failure α
  | .error f => .error { f with contexts := text :: f.contexts }
  | .ok a => .ok a

/-- The sections of a kind, collected. The iterator ends in an error at the first
section that cannot be read, of whatever kind. -/
def sections (kind : PemItem → Option Bytes) : List (Option PemItem) → Option (List Bytes)
  | [] => some []
  | none :: _ => none
  | some item :: rest =>
    match kind item with
    | none => sections kind rest
    | some der => (sections kind rest).map (der :: ·)

namespace PemItem

def certificate? : PemItem → Option Bytes
  | .certificate der => some der
  | _ => none

def pkcs8? : PemItem → Option Bytes
  | .pkcs8 der => some der
  | _ => none

def pkcs1? : PemItem → Option Bytes
  | .pkcs1 der => some der
  | _ => none

def sec1? : PemItem → Option Bytes
  | .sec1 der => some der
  | _ => none

end PemItem

/-- The first section of a kind, an error being taken for no sections. -/
def firstSection (kind : PemItem → Option Bytes) (file : PemFile) : Option Bytes :=
  ((sections kind file.items).getD []).head?

def loadKey (file : PemFile) : Except Failure PrivateKey :=
  match firstSection PemItem.pkcs8? file with
  | some k => .ok (.pkcs8 k)
  | none =>
    if file.seekable = false then .error ⟨[], .io⟩
    else
      match firstSection PemItem.pkcs1? file with
      | some k => .ok (.pkcs1 k)
      | none =>
        match firstSection PemItem.sec1? file with
        | some k => .ok (.sec1 k)
        | none => .error ⟨[], .message "No supported private key found (expected PKCS#8, PKCS#1, or EC)"⟩

/-- The chain and the key in the files of two paths. -/
def loadCertAndKey (files : String → Option PemFile) (certPath keyPath : String) :
    Except Failure (List Bytes × PrivateKey) :=
  match files certPath with
  | none => .error ⟨["Cannot open cert file '" ++ certPath ++ "'"], .io⟩
  | some certFile =>
    match sections PemItem.certificate? certFile.items with
    | none => .error ⟨["Failed to parse certificate PEM"], .pem⟩
    | some [] => .error ⟨[], .message ("No certificates found in '" ++ certPath ++ "'")⟩
    | some certs =>
      match files keyPath with
      | none => .error ⟨["Cannot open key file '" ++ keyPath ++ "'"], .io⟩
      | some keyFile =>
        match Failure.under ("Failed to load private key from '" ++ keyPath ++ "'") (loadKey keyFile) with
        | .error f => .error f
        | .ok key => .ok (certs, key)

structure DomainCert where
  name : Text
  certs : List Bytes
  key : PrivateKey
  deriving DecidableEq, Repr

/-- A chain with its key. -/
structure CertifiedKey where
  certs : List Bytes
  key : PrivateKey
  deriving DecidableEq, Repr

/-- What is asked of `rustls`. -/
structure Rustls where
  /-- The key is one to sign with. -/
  supported : PrivateKey → Bool
  /-- The name under which a chain is stored for a domain, if the domain has a DNS name and
  the chain begins with a certificate for it. -/
  sniName : Text → List Bytes → Option Text
  sniName_lower : ∀ name certs n, sniName name certs = some n → n = name.map Char.toLower
  /-- The certificate for the server name of a handshake, if one is sent, by the table. -/
  resolve : DashMap Text CertifiedKey → Option Text → Option CertifiedKey
  resolve_none : ∀ resolver, resolve resolver none = none
  /-- Server names are looked up in lower case. -/
  resolve_some : ∀ resolver name, resolve resolver (some name) = resolver (name.map Char.toLower)

structure SslManager where
  domains : List DomainCert
  acceptor : Option (DashMap Text CertifiedKey)

namespace SslManager

def new : SslManager := ⟨[], none⟩

def addDomain (ssl : SslManager) (files : String → Option PemFile) (domain : Text) (certPath keyPath : String) :
    Except Failure SslManager :=
  match Failure.under ("Failed to load TLS materials for '" ++ String.ofList domain ++ "'")
      (loadCertAndKey files certPath keyPath) with
  | .error f => .error f
  | .ok (certs, key) => .ok { ssl with domains := ssl.domains ++ [⟨domain, certs, key⟩] }

/-- Add the certificate of a domain to the table. -/
def addCert (K : Rustls) (resolver : DashMap Text CertifiedKey) (d : DomainCert) :
    Except Failure (DashMap Text CertifiedKey) :=
  if K.supported d.key = false then .error ⟨["Unsupported or invalid private key"], .tls⟩
  else
    match K.sniName d.name d.certs with
    | none => .error ⟨["Failed to register cert for '" ++ String.ofList d.name ++ "'"], .tls⟩
    | some n => .ok (resolver.insert n ⟨d.certs, d.key⟩)

def build (K : Rustls) (ssl : SslManager) : Except Failure SslManager :=
  match ssl.domains.foldlM (addCert K) .empty with
  | .error f => .error f
  | .ok resolver => .ok { ssl with acceptor := some resolver }

def hasDomains (ssl : SslManager) : Bool := !ssl.domains.isEmpty

end SslManager

variable {kind : PemItem → Option Bytes} {file : PemFile} {files : String → Option PemFile} {key : PrivateKey}

/-! ## Which key is taken -/

/-- Every section of the file can be read. -/
def PemFile.Readable (file : PemFile) : Prop := ∀ item ∈ file.items, item.isSome = true

instance (file : PemFile) : Decidable file.Readable := inferInstanceAs (Decidable (∀ _ ∈ _, _))

/-- The sections of a kind that can be read. -/
def PemFile.those (file : PemFile) (kind : PemItem → Option Bytes) : List Bytes :=
  file.items.filterMap fun item => item.bind kind

theorem sections_eq_some_iff {ders : List Bytes} :
    sections kind file.items = some ders ↔ file.Readable ∧ file.those kind = ders := by
  obtain ⟨items, seekable⟩ := file
  simp only [PemFile.Readable, PemFile.those]
  induction items generalizing ders with
  | nil => simp [sections]
  | cons item items ih =>
    cases item with
    | none => simp [sections]
    | some item =>
      cases hk : kind item with
      | none => simp [sections, hk, ih]
      | some der =>
        simp only [sections, hk, Option.map_eq_some_iff, ih, List.forall_mem_cons, Option.isSome_some, true_and,
          List.filterMap_cons, Option.bind_some]
        constructor
        · rintro ⟨rest, ⟨hall, rfl⟩, rfl⟩; exact ⟨hall, rfl⟩
        · rintro ⟨hall, rfl⟩; exact ⟨_, ⟨hall, rfl⟩, rfl⟩

/-- One section that cannot be read, and there are none. -/
theorem firstSection_eq (kind : PemItem → Option Bytes) (file : PemFile) :
    firstSection kind file = if file.Readable then (file.those kind).head? else none := by
  unfold firstSection
  cases hs : sections kind file.items with
  | none =>
    have hnot : ¬ file.Readable := fun hr => by
      rw [sections_eq_some_iff.mpr ⟨hr, rfl⟩] at hs
      cases hs
    rw [if_neg hnot]
    rfl
  | some ders =>
    obtain ⟨hr, rfl⟩ := sections_eq_some_iff.mp hs
    rw [if_pos hr]
    rfl

/-- The key that a file is good for. -/
def PemFile.keyOf (file : PemFile) : Option PrivateKey :=
  ((file.those PemItem.pkcs8?).head?.map .pkcs8).or
    (if file.seekable then
      ((file.those PemItem.pkcs1?).head?.map .pkcs1).or ((file.those PemItem.sec1?).head?.map .sec1)
    else none)

/-- **The key of a file.** A PKCS#8 key comes before a PKCS#1 key and this before a SEC1
key, wherever they stand. A section that cannot be read, also behind the key, leaves the
file without a key. -/
theorem loadKey_eq_ok_iff : loadKey file = .ok key ↔ file.Readable ∧ file.keyOf = some key := by
  unfold loadKey PemFile.keyOf
  simp only [firstSection_eq]
  by_cases hr : file.Readable
  · simp only [hr, if_true, true_and]
    cases (file.those PemItem.pkcs8?).head? with
    | some k => simp
    | none =>
      cases file.seekable with
      | false => simp
      | true =>
        cases (file.those PemItem.pkcs1?).head? with
        | some k => simp
        | none => cases (file.those PemItem.sec1?).head? <;> simp
  · simp only [hr, if_false, false_and, iff_false]
    cases file.seekable <;> simp

/-! ## The table -/

namespace DashMap

variable {α β δ : Type} [DecidableEq α] {keyOf : δ → α} (val : δ → β)

/-- Entries stored one after the other under different keys. -/
theorem foldl_insert {ds : List δ} (hnodup : (ds.map keyOf).Nodup) (m : DashMap α β) (k : α) :
    ds.foldl (fun m d => m.insert (keyOf d) (val d)) m k =
      ((ds.find? fun d => keyOf d = k).map val).or (m k) := by
  induction ds generalizing m with
  | nil => rfl
  | cons d ds ih =>
    obtain ⟨hnot, hnodup⟩ := List.nodup_cons.mp hnodup
    rw [List.foldl_cons, ih hnodup]
    by_cases hk : keyOf d = k
    · subst hk
      have hnone : ds.find? (fun x => keyOf x = keyOf d) = none := by
        refine List.find?_eq_none.mpr fun x hx he => hnot ?_
        rw [← of_decide_eq_true he]
        exact List.mem_map_of_mem hx
      rw [hnone, List.find?_cons_of_pos (by simp), insert_same]
      rfl
    · rw [List.find?_cons_of_neg (by simpa using hk), insert_other _ _ (Ne.symm hk)]

end DashMap

variable {K : Rustls} {ssl ssl' : SslManager} {resolver : DashMap Text CertifiedKey}

/-- The name of a domain as clients are matched against it. -/
def DomainCert.serverName (d : DomainCert) : Text := d.name.map Char.toLower

def DomainCert.certified (d : DomainCert) : CertifiedKey := ⟨d.certs, d.key⟩

/-- `rustls` takes the certificate and the key. -/
def Rustls.Accepts (K : Rustls) (d : DomainCert) : Prop :=
  K.supported d.key = true ∧ (K.sniName d.name d.certs).isSome = true

instance (K : Rustls) (d : DomainCert) : Decidable (K.Accepts d) := inferInstanceAs (Decidable (_ ∧ _))

namespace SslManager

theorem addCert_of_accepts {d : DomainCert} (h : K.Accepts d) :
    addCert K resolver d = .ok (resolver.insert d.serverName d.certified) := by
  obtain ⟨n, hn⟩ := Option.isSome_iff_exists.mp h.2
  have hlower := K.sniName_lower _ _ _ hn
  unfold addCert
  rw [if_neg (by simp [h.1]), hn, hlower]
  rfl

/-- A certificate that is not taken ends in an error that says what is wrong with it. -/
theorem addCert_of_not_accepts (resolver : DashMap Text CertifiedKey) {d : DomainCert} (h : ¬ K.Accepts d) :
    ∃ f, addCert K resolver d = .error f ∧ (f.contexts = ["Unsupported or invalid private key"] ∨
      f.contexts = ["Failed to register cert for '" ++ String.ofList d.name ++ "'"]) := by
  unfold addCert
  split
  · exact ⟨_, rfl, .inl rfl⟩
  · rename_i hkey
    have hnone : K.sniName d.name d.certs = none := by
      rw [← Option.not_isSome_iff_eq_none]
      exact fun hsome => h ⟨by simpa using hkey, hsome⟩
    rw [hnone]
    exact ⟨_, rfl, .inr rfl⟩

theorem foldlM_addCert {ds : List DomainCert} {r : DashMap Text CertifiedKey} :
    ds.foldlM (addCert K) resolver = .ok r ↔
      (∀ d ∈ ds, K.Accepts d) ∧ ds.foldl (fun m d => m.insert d.serverName d.certified) resolver = r := by
  induction ds generalizing resolver with
  | nil => simp [pure, Except.pure]
  | cons d ds ih =>
    rw [List.foldlM_cons, List.foldl_cons, List.forall_mem_cons]
    by_cases h : K.Accepts d
    · rw [addCert_of_accepts h]
      show List.foldlM (addCert K) (resolver.insert d.serverName d.certified) ds = .ok r ↔ _
      rw [ih]
      simp only [h, true_and]
    · obtain ⟨f, hf, -⟩ := addCert_of_not_accepts resolver h
      rw [hf]
      simp [h, bind, Except.bind]

/-- **The acceptor** is built when every key and certificate is taken, and then has the
domains' certificates under their names. -/
theorem build_eq_ok_iff : build K ssl = .ok ssl' ↔ (∀ d ∈ ssl.domains, K.Accepts d) ∧
    ssl' = { ssl with
      acceptor := some (ssl.domains.foldl (fun m d => m.insert d.serverName d.certified) .empty) } := by
  unfold build
  cases hfold : ssl.domains.foldlM (addCert K) .empty with
  | error f =>
    refine iff_of_false nofun fun h => ?_
    rw [foldlM_addCert.mpr ⟨h.1, rfl⟩] at hfold
    cases hfold
  | ok r =>
    obtain ⟨hall, rfl⟩ := foldlM_addCert.mp hfold
    exact ⟨fun h => ⟨hall, (Except.ok.inj h).symm⟩, fun h => by rw [h.2]⟩

end SslManager

/-- **The certificate for a name.** If no two domains have the same name up to case, the
table answers a server name with the certificate of the domain of that name up to case. -/
theorem resolve_eq (hbuild : SslManager.build K ssl = .ok ssl')
    (hnames : (ssl.domains.map DomainCert.serverName).Nodup) (serverName : Option Text) :
    ∃ r, ssl'.acceptor = some r ∧ K.resolve r serverName = serverName.bind fun name =>
      (ssl.domains.find? fun d => d.serverName = name.map Char.toLower).map DomainCert.certified := by
  obtain ⟨-, rfl⟩ := SslManager.build_eq_ok_iff.mp hbuild
  refine ⟨_, rfl, ?_⟩
  cases serverName with
  | none => exact K.resolve_none _
  | some name =>
    have htable := DashMap.foldl_insert DomainCert.certified hnames .empty (name.map Char.toLower)
    rw [DashMap.empty_apply, Option.or_none] at htable
    exact (K.resolve_some _ name).trans htable

end Curf
