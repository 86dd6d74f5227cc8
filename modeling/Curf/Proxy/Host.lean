import Curf.Lib.Authority
import Curf.Lib.Utf8
import Curf.Balancer.Select
import Curf.Static.SafePath

/-!
# From a host to its domain

`handle` reads the host of a request off the `Host` header, up to the first `:` and
lower-cased, and looks it up in three maps whose keys are the names of the
configured domains as they are written. An HTTP/2 request has its authority in the
URI, and need not have a `Host` header or have one that agrees with it.

`served_iff` compares the domain that is found with the one that is asked for.
-/

namespace Curf

open Lib

/-! ## Headers -/

/-- The header lines of a message, by lower-case names. -/
abbrev HeaderMap := List (String × Bytes)

/-- The first value under a name. -/
def HeaderMap.get (headers : HeaderMap) (name : String) : Option Bytes := headers.lookup name

/-- The value as a text, if it has only visible ASCII, spaces and tabs. -/
def headerToStr (v : Bytes) : Option Text :=
  if v.all fun b => (32 ≤ b.toNat && b.toNat < 127) || b = 9 then some (v.map fun b => Char.ofNat b.toNat)
  else none

/-- The host that `handle` works with. -/
def hostOf (T : CaseTable) (headers : HeaderMap) : Text :=
  (((headers.get "host").bind headerToStr).map fun h => toLowercase T (h.takeWhile (· ≠ ':'))).getD []

/-! ## Domains -/

/-- The configured domains. -/
structure Domains where
  entries : List (Text × DomainConfig)
  nodup : (entries.map (·.1)).Nodup

def Domains.names (d : Domains) : List Text := d.entries.map (·.1)

/-- The domain with the name `host`. -/
def Domains.find (d : Domains) (host : Text) : Option (Text × DomainConfig) :=
  d.entries.find? fun e => e.1 = host

/-- Store what is built of a domain, if anything, under its name. -/
def store {β : Type} (build : DomainConfig → Option β) (m : DashMap Text β) (e : Text × DomainConfig) :
    DashMap Text β :=
  match build e.2 with
  | none => m
  | some v => m.insert e.1 v

/-- What is built of each domain, under the domains' names. -/
def Domains.collect {β : Type} (d : Domains) (build : DomainConfig → Option β) : DashMap Text β :=
  d.entries.foldl (store build) .empty

def StaticFileServer.new (sf : StaticFilesConfig) : StaticFileServer :=
  ⟨sf.root.toUTF8.data.toList, sf.index, sf.autoindex⟩

structure ProxyHandler where
  lbManager : DashMap Text LoadBalancer
  domainConfigs : Domains
  staticServers : DashMap Text StaticFileServer

namespace ProxyHandler

/-- The load balancers that `main` registers. -/
def registered (d : Domains) : DashMap Text LoadBalancer :=
  d.collect fun cfg => some (.new cfg)

def new (lbManager : DashMap Text LoadBalancer) (domainConfigs : Domains) : ProxyHandler :=
  ⟨lbManager, domainConfigs, domainConfigs.collect fun cfg => cfg.staticFiles.map .new⟩

/-- What `handle` looks up for a host: the configuration for the redirect and the
extra headers, the static files, and the load balancer. -/
structure Served where
  config : Option DomainConfig
  staticServer : Option StaticFileServer
  loadBalancer : Option LoadBalancer
  deriving DecidableEq, Repr

def lookups (p : ProxyHandler) (host : Text) : Served :=
  ⟨(p.domainConfigs.find host).map (·.2), p.staticServers host, p.lbManager host⟩

/-- What belongs to a domain. -/
def Served.ofDomain (e : Option (Text × DomainConfig)) : Served :=
  ⟨e.map (·.2), e.bind fun e => e.2.staticFiles.map .new, e.map fun e => .new e.2⟩

end ProxyHandler

variable {β : Type} {build : DomainConfig → Option β} {es : List (Text × DomainConfig)} {m : DashMap Text β}
  {e : Text × DomainConfig} {key : Text}

theorem store_same : store build m e e.1 = (build e.2).or (m e.1) := by
  unfold store
  cases build e.2 with
  | none => rfl
  | some v => exact DashMap.insert_same m e.1 v

theorem store_other (h : key ≠ e.1) : store build m e key = m key := by
  unfold store
  cases build e.2 with
  | none => rfl
  | some v => exact DashMap.insert_other m v h

theorem foldl_store_of_not_mem (h : key ∉ es.map (·.1)) : es.foldl (store build) m key = m key := by
  induction es generalizing m with
  | nil => rfl
  | cons e es ih =>
    rw [List.map_cons, List.mem_cons, not_or] at h
    rw [List.foldl_cons, ih h.2, store_other h.1]

theorem foldl_store (hnodup : (es.map (·.1)).Nodup) (hm : m key = none) :
    es.foldl (store build) m key = (es.find? fun e => e.1 = key).bind fun e => build e.2 := by
  induction es generalizing m with
  | nil => exact hm
  | cons e es ih =>
    obtain ⟨hnot, hnodup⟩ := List.nodup_cons.mp hnodup
    rw [List.foldl_cons]
    by_cases he : e.1 = key
    · subst he
      rw [foldl_store_of_not_mem hnot, store_same, hm, Option.or_none, List.find?_cons_of_pos (by simp)]
      rfl
    · rw [ih hnodup ((store_other (Ne.symm he)).trans hm), List.find?_cons_of_neg (by simpa using he)]

/-- **The handler's maps** have under each name what is built of its domain. -/
theorem Domains.collect_apply (d : Domains) (build : DomainConfig → Option β) (host : Text) :
    d.collect build host = (d.find host).bind fun e => build e.2 :=
  foldl_store d.nodup rfl

/-- All that `handle` uses belongs to one domain. -/
theorem lookups_eq (d : Domains) (host : Text) :
    (ProxyHandler.new (ProxyHandler.registered d) d).lookups host = .ofDomain (d.find host) := by
  show (⟨(d.find host).map (·.2), d.collect _ host, d.collect _ host⟩ : ProxyHandler.Served) = _
  rw [Domains.collect_apply, Domains.collect_apply]
  cases d.find host <;> rfl

/-! ## Requests -/

/-- The part of a request that says where it goes. -/
structure RequestHead where
  headers : HeaderMap
  /-- The authority of the request URI: the `:authority` of HTTP/2. -/
  uriAuthority : Option Text
  deriving DecidableEq, Repr

/-- The request is for the authority `a`: its URI says so, whatever the `Host` header is,
or else, as in HTTP/1.1, the `Host` header does. -/
def RequestHead.IsFor (req : RequestHead) (a : Authority) : Prop :=
  match req.uriAuthority with
  | some u => u = a.text
  | none => req.headers.get "host" = some (utf8 a.text)

/-- What the `Host` header names: its text up to the first `:`, and the empty text if
there is none that can be read. -/
def RequestHead.named (req : RequestHead) : Text :=
  (((req.headers.get "host").bind headerToStr).map fun h => h.takeWhile (· ≠ ':')).getD []

/-- No domain has the name `host`, in whatever case. -/
def Domains.HasNone (d : Domains) (host : Text) : Prop := ∀ e ∈ d.entries, ¬ EqIgnoreAsciiCase e.1 host

/-- The domain found is the one asked for: its name is `host` up to case, and there is
no such domain if none is found. -/
def Domains.Right (d : Domains) (host : Text) : Option (Text × DomainConfig) → Prop
  | some e => e ∈ d.entries ∧ EqIgnoreAsciiCase e.1 host
  | none => d.HasNone host

/-- When the lookup of `named` goes right for `host`: if they are one name, it is configured
in lower case or not at all; if not, neither is configured. -/
def Domains.Serves (d : Domains) (named host : Text) : Prop :=
  if EqIgnoreAsciiCase named host then host.map Char.toLower ∈ d.names ∨ d.HasNone host
  else named.map Char.toLower ∉ d.names ∧ d.HasNone host

variable {d : Domains} {a : Authority} {req : RequestHead} {T : CaseTable} {host : Text} {s : Text} {c : Char}
  {v : Bytes}

theorem headerToStr_utf8 (hs : ∀ c ∈ s, Visible c) : headerToStr (utf8 s) = some s := by
  have hascii : ∀ c ∈ s, c.toNat < 128 := fun c hc => Nat.lt_trans (hs c hc).2 (by decide)
  have hcode : ∀ c ∈ s, c.toUInt8.toNat = c.toNat := fun c hc => toNat_toUInt8 (hascii c hc)
  have hall : ((s.map Char.toUInt8).all fun b => (32 ≤ b.toNat && b.toNat < 127) || b = 9) = true := by
    rw [List.all_map, List.all_eq_true]
    intro c hc
    obtain ⟨h1, h2⟩ := hs c hc
    simp only [Function.comp_apply, hcode c hc, Bool.or_eq_true, Bool.and_eq_true, decide_eq_true_eq]
    omega
  rw [headerToStr, utf8_eq_map hascii, if_pos hall, List.map_map]
  refine congrArg some ((List.map_congr_left fun c hc => ?_).trans (List.map_id s))
  rw [Function.comp_apply, hcode c hc, Char.ofNat_toNat, id]

/-- A character of a header value that can be read as text. -/
def Printable (c : Char) : Prop := (32 ≤ c.toNat ∧ c.toNat < 127) ∨ c = '\t'

theorem printable_of_headerToStr (h : headerToStr v = some s) : ∀ c ∈ s, Printable c := by
  unfold headerToStr at h
  split at h
  · rename_i hall
    cases h
    intro c hc
    obtain ⟨b, hb, rfl⟩ := List.mem_map.mp hc
    have hbyte := List.all_eq_true.mp hall b hb
    simp only [Bool.or_eq_true, Bool.and_eq_true, decide_eq_true_eq] at hbyte
    rcases hbyte with hbyte | rfl
    · left
      rw [Char.toNat_ofNat, if_pos (.inl (by omega))]
      exact hbyte
    · exact .inr rfl
  · cases h

theorem Printable.toLower (h : Printable c) : Printable c.toLower := by
  rcases h with h | rfl
  · left
    rcases toLower_eq_or_isLower c with heq | hlower
    · rwa [heq]
    · obtain ⟨h1, h2⟩ : 97 ≤ c.toLower.toNat ∧ c.toLower.toNat ≤ 122 := by
        simpa [Char.isLower, UInt32.le_iff_toNat_le] using hlower
      omega
  · exact .inr rfl

theorem Printable.lt (h : Printable c) : c.toNat < 128 := by
  rcases h with h | rfl
  · omega
  · decide

theorem RequestHead.named_chars (req : RequestHead) : ∀ c ∈ req.named, Printable c ∧ c ≠ ':' := by
  unfold named
  cases hv : (req.headers.get "host").bind headerToStr with
  | none => exact nofun
  | some h =>
    obtain ⟨v, -, hh⟩ := Option.bind_eq_some_iff.mp hv
    intro c hc
    rw [Option.map_some, Option.getD_some] at hc
    exact ⟨printable_of_headerToStr hh c (List.takeWhile_subset _ hc), by simpa using List.mem_takeWhile_imp hc⟩

/-- **The host of `handle`** is what the `Host` header names, in lower case. -/
theorem hostOf_named (T : CaseTable) (req : RequestHead) : hostOf T req.headers = req.named.map Char.toLower := by
  rw [← toLowercase_ascii fun c hc => (req.named_chars c hc).1.lt]
  unfold hostOf RequestHead.named
  cases (req.headers.get "host").bind headerToStr <;> rfl

/-- The host that `handle` works with: a text without `:`, in lower case. -/
theorem hostOf_eq (T : CaseTable) (headers : HeaderMap) :
    ∃ s : Text, (∀ c ∈ s, Printable c ∧ c ≠ ':') ∧ hostOf T headers = s.map Char.toLower :=
  ⟨_, RequestHead.named_chars ⟨headers, none⟩, hostOf_named T ⟨headers, none⟩⟩

/-- It can be read as text. -/
theorem printable_hostOf (T : CaseTable) (headers : HeaderMap) : ∀ c ∈ hostOf T headers, Printable c := by
  obtain ⟨s, hs, heq⟩ := hostOf_eq T headers
  rw [heq]
  intro c hc
  obtain ⟨d, hd, rfl⟩ := List.mem_map.mp hc
  exact (hs d hd).1.toLower

theorem RequestHead.named_of_none (h : req.headers.get "host" = none) : req.named = [] := by
  rw [named, h]; rfl

/-- With the authority in the `Host` header, `handle` works with what stands before its first `:`. -/
theorem RequestHead.named_of_authority (h : req.headers.get "host" = some (utf8 a.text)) :
    req.named = a.host.beforeColon := by
  rw [named, h, Option.bind_some, headerToStr_utf8 fun c hc => Authority.visible hc, Option.map_some,
    Option.getD_some, Authority.takeWhile_text]

theorem hostOf_of_authority (h : req.headers.get "host" = some (utf8 a.text)) :
    hostOf T req.headers = a.host.beforeColon.map Char.toLower := by
  rw [hostOf_named, RequestHead.named_of_authority h]

theorem Domains.find_some {e : Text × DomainConfig} (h : d.find key = some e) : e ∈ d.entries ∧ e.1 = key :=
  ⟨List.mem_of_find?_eq_some h, by simpa using List.find?_some h⟩

theorem Domains.find_eq_none_iff : d.find key = none ↔ key ∉ d.names := by
  simp only [find, List.find?_eq_none, decide_eq_true_eq, names, List.mem_map, not_exists, not_and]

/-- The lookup of a name that is the host up to case. -/
theorem Domains.right_find_of_eq (h : EqIgnoreAsciiCase key host) :
    d.Right host (d.find key) ↔ key ∈ d.names ∨ d.HasNone host := by
  cases hf : d.find key with
  | none =>
    have hnot := find_eq_none_iff.mp hf
    exact ⟨.inr, fun h => h.resolve_left hnot⟩
  | some e =>
    obtain ⟨hmem, rfl⟩ := find_some hf
    exact ⟨fun _ => .inl (List.mem_map_of_mem hmem), fun _ => ⟨hmem, h⟩⟩

/-- The lookup of a name that is not the host. -/
theorem Domains.right_find_of_ne (h : ¬ EqIgnoreAsciiCase key host) :
    d.Right host (d.find key) ↔ key ∉ d.names ∧ d.HasNone host := by
  rw [← find_eq_none_iff]
  cases hf : d.find key with
  | none => exact ⟨fun h => ⟨rfl, h⟩, fun h => h.2⟩
  | some e =>
    obtain ⟨hmem, rfl⟩ := find_some hf
    exact ⟨fun hr => absurd hr.2 h, fun hr => absurd hr.1 (by simp)⟩

/-- **The lookup** goes right exactly as in `Serves`. -/
theorem Domains.right_iff (d : Domains) (named host : Text) :
    d.Right host (d.find (named.map Char.toLower)) ↔ d.Serves named host := by
  unfold Serves
  split
  · rename_i h
    rw [show named.map Char.toLower = host.map Char.toLower from h]
    exact right_find_of_eq (eqIgnoreAsciiCase_lower host)
  · rename_i h
    exact right_find_of_ne fun heq => h ((eqIgnoreAsciiCase_lower named).symm.trans heq)

theorem eqIgnoreAsciiCase_nil_iff : EqIgnoreAsciiCase [] s ↔ s = [] :=
  ⟨fun h => List.length_eq_zero_iff.mp h.length_eq.symm, fun h => h ▸ rfl⟩

/-- **Which requests get their domain.** All that `handle` uses belongs to the domain it
finds. That is the domain asked for exactly when the host and what the `Host` header names
are as in `Serves`. A `Host` header that has the authority names the host unless that is an
IPv6 address, and without a `Host` header only the empty host is named. -/
theorem served_iff (T : CaseTable) (d : Domains) (req : RequestHead) (a : Authority) (hfor : req.IsFor a) :
    (ProxyHandler.new (ProxyHandler.registered d) d).lookups (hostOf T req.headers) =
        .ofDomain (d.find (hostOf T req.headers)) ∧
      (d.Right a.host.text (d.find (hostOf T req.headers)) ↔ d.Serves req.named a.host.text) ∧
      (req.uriAuthority = none ∨ req.headers.get "host" = some (utf8 a.text) →
        (EqIgnoreAsciiCase req.named a.host.text ↔ ∃ text chars, a.host = .name text chars)) ∧
      (req.headers.get "host" = none → (EqIgnoreAsciiCase req.named a.host.text ↔ a.host.text = [])) := by
  refine ⟨lookups_eq d _, ?_, fun hhost => ?_, fun hnone => ?_⟩
  · rw [hostOf_named]
    exact d.right_iff req.named a.host.text
  · have hget : req.headers.get "host" = some (utf8 a.text) := by
      refine hhost.elim (fun huri => ?_) id
      rw [RequestHead.IsFor, huri] at hfor
      exact hfor
    rw [RequestHead.named_of_authority hget]
    exact a.host.eq_beforeColon_iff
  · rw [RequestHead.named_of_none hnone]
    exact eqIgnoreAsciiCase_nil_iff

def Domains.single (name : Text) : Domains := ⟨[(name, {})], List.nodup_singleton name⟩

/-- A port and capitals in the `Host` header do no harm. -/
theorem served_iff_port :
    (Domains.single "example.com".toList).Right "Example.COM".toList
      ((Domains.single "example.com".toList).find
        (hostOf asciiTable [("host", utf8 "Example.COM:8080".toList)])) :=
  (served_iff asciiTable (.single "example.com".toList) ⟨[("host", utf8 "Example.COM:8080".toList)], none⟩
    ⟨.name "Example.COM".toList (by decide), some "8080".toList, by decide⟩ rfl).2.1.mpr
    (.inl List.mem_cons_self)

theorem Domains.not_right_single {name : Text} (h : (single name).find key = none) :
    ¬ (single name).Right name ((single name).find key) := by
  rw [h]
  exact fun hnone => hnone (name, {}) List.mem_cons_self rfl

/-- A name configured with a capital, an IPv6 address, and over HTTP/2 a request without
a `Host` header and one with another host in it are not found. -/
theorem domain_missed :
    ¬ (∀ (T : CaseTable) (d : Domains) (req : RequestHead) (a : Authority), req.IsFor a →
        d.Right a.host.text (d.find (hostOf T req.headers))) ∧
      ¬ (Domains.single "[::1]".toList).Right "[::1]".toList
        ((Domains.single "[::1]".toList).find (hostOf asciiTable [("host", utf8 "[::1]:80".toList)])) ∧
      ¬ (Domains.single "example.com".toList).Right "example.com".toList
        ((Domains.single "example.com".toList).find (hostOf asciiTable [])) ∧
      ¬ (Domains.single "example.com".toList).Right "example.com".toList
        ((Domains.single "example.com".toList).find (hostOf asciiTable [("host", utf8 "other".toList)])) := by
  refine ⟨fun h => ?_, Domains.not_right_single ?_, Domains.not_right_single ?_, Domains.not_right_single ?_⟩
  · exact Domains.not_right_single rfl (h asciiTable (.single "Example.com".toList)
      ⟨[("host", utf8 "Example.com".toList)], none⟩ ⟨.name "Example.com".toList (by decide), none, rfl⟩ rfl)
  · rfl
  · rfl
  · rfl

end Curf
