import Curf.Proxy.Isolation
import Curf.Proxy.Redirect
import Curf.Server.Ssl

/-!
# Startup

`main` registers a load balancer for each domain and loads the certificates of the
domains with TLS, in the order in which the map of domains is gone through. It then
spawns the health checks and the HTTP listener, and goes on to the HTTPS listener if a
domain has TLS; a key or certificate that `rustls` does not take comes out only then.

`main_outcome` says how far startup gets, `https_iff` when there is an HTTPS listener and
`https_served` which certificate and which domain a client of it gets. `restart` says that
the order of the domains does not matter.
-/

namespace Curf

open Lib

/-- The settings of the server besides the ports. -/
structure ServerSettings where
  maxConnections : Nat := 10000
  maxConnectionsPerIp : Nat := 100
  rateLimitRps : UInt32 := 100
  rateLimitBurst : UInt32 := 200
  security : SecurityFlags := {}
  deriving DecidableEq, Repr

structure MainConfig extends Config where
  settings : ServerSettings

/-- What `main` spawns. -/
inductive Task where
  | healthCheck (domain : Text) (cfg : DomainConfig)
  | http (port : UInt16) (maxConns : Nat)
  deriving DecidableEq, Repr

/-- How far `main` has come when the listeners are to run. -/
structure Started where
  handler : Handler
  tasks : List Task
  /-- The port and the certificates of the HTTPS listener, if there is to be one. -/
  https : Except Failure (Option (UInt16 × SslManager))

/-- Load the certificate of a domain, if it has TLS. -/
def addTls (files : String → Option PemFile) (ssl : SslManager) (e : Text × DomainConfig) :
    Except Failure SslManager :=
  match e.2.tls with
  | none => .ok ssl
  | some tls =>
    Failure.under ("Failed to load TLS certs for '" ++ String.ofList e.1 ++ "'")
      (ssl.addDomain files e.1 tls.cert tls.key)

/-- The loop of `main` over the domains. -/
def register (files : String → Option PemFile) (made : DashMap Text LoadBalancer × SslManager)
    (e : Text × DomainConfig) : Except Failure (DashMap Text LoadBalancer × SslManager) :=
  match addTls files made.2 e with
  | .error f => .error f
  | .ok ssl => .ok (made.1.insert e.1 (.new e.2), ssl)

/-- One task for each domain that has checks enabled and a backend. -/
def startHealthChecks (d : Domains) : List Task :=
  (d.entries.filter fun e => e.2.healthCheck.enabled && !e.2.backends.isEmpty).map fun e => .healthCheck e.1 e.2

def main (K : Rustls) (files : String → Option PemFile) (config : MainConfig) (args : Args) :
    Except Failure Started :=
  let server := (config.toConfig.override args).server
  match config.domains.entries.foldlM (register files) (.empty, .new) with
  | .error f => .error f
  | .ok (lbManager, ssl) =>
    .ok {
      handler := {
        toProxyHandler := .new lbManager config.domains
        rateLimiter := .new config.settings.rateLimitRps config.settings.rateLimitBurst
        security := .new config.settings.maxConnectionsPerIp config.settings.security }
      tasks := startHealthChecks config.domains ++ [.http server.httpPort config.settings.maxConnections]
      https :=
        if ssl.hasDomains then
          match Failure.under "Failed to build TLS acceptor" (ssl.build K) with
          | .error f => .error f
          | .ok ssl => .ok (some (server.httpsPort, ssl))
        else .ok none }

variable {K : Rustls} {files : String → Option PemFile} {config : MainConfig} {args : Args} {st : Started}
  {e : Text × DomainConfig} {f : Failure} {ssl ssl' : SslManager}

/-! ## Loading -/

/-- The chain and the key of a domain, if it has TLS. -/
def materials (files : String → Option PemFile) (e : Text × DomainConfig) :
    Option (Except Failure (List Bytes × PrivateKey)) :=
  e.2.tls.map fun tls => loadCertAndKey files tls.cert tls.key

/-- The files of the domain can be loaded, if it has TLS. -/
def Loads (files : String → Option PemFile) (e : Text × DomainConfig) : Prop :=
  ∀ r ∈ materials files e, ∃ m, r = .ok m

/-- The certificate of a domain that loads. -/
def certOf (files : String → Option PemFile) (e : Text × DomainConfig) : Option DomainCert :=
  (materials files e).bind fun r => r.toOption.map fun m => ⟨e.1, m.1, m.2⟩

/-- The certificates of all domains with TLS, in the order of the map. -/
def certsOf (files : String → Option PemFile) (d : Domains) : List DomainCert := d.entries.filterMap (certOf files)

theorem addTls_of_loads (h : Loads files e) :
    addTls files ssl e = .ok { ssl with domains := ssl.domains ++ (certOf files e).toList } := by
  unfold Loads materials at h
  unfold addTls certOf materials
  cases htls : e.2.tls with
  | none => simp
  | some tls =>
    rw [htls] at h
    obtain ⟨⟨certs, key⟩, hm⟩ := h _ rfl
    simp only [SslManager.addDomain, hm, Failure.under, Option.map_some, Option.bind_some, Except.toOption,
      Option.toList_some]

/-- A domain that does not load is named in the error. -/
theorem addTls_of_not_loads (ssl : SslManager) (h : ¬ Loads files e) : ∃ rest cause, addTls files ssl e = .error
    ⟨("Failed to load TLS certs for '" ++ String.ofList e.1 ++ "'") ::
      ("Failed to load TLS materials for '" ++ String.ofList e.1 ++ "'") :: rest, cause⟩ := by
  unfold Loads materials at h
  unfold addTls
  cases htls : e.2.tls with
  | none => rw [htls] at h; exact absurd (fun r hr => nomatch hr) h
  | some tls =>
    rw [htls] at h
    cases hload : loadCertAndKey files tls.cert tls.key with
    | ok m =>
      refine absurd (fun r hr => ⟨m, ?_⟩) h
      exact (Option.some.inj hr).symm.trans hload
    | error f =>
      obtain ⟨contexts, cause⟩ := f
      exact ⟨contexts, cause, by simp only [SslManager.addDomain, hload, Failure.under]⟩

/-- The loop registers all load balancers and loads all certificates. -/
theorem foldlM_register {es : List (Text × DomainConfig)} {lbs : DashMap Text LoadBalancer}
    (h : ∀ e ∈ es, Loads files e) :
    es.foldlM (register files) (lbs, ssl) =
      .ok (es.foldl (store fun cfg => some (.new cfg)) lbs,
        { ssl with domains := ssl.domains ++ es.filterMap (certOf files) }) := by
  induction es generalizing lbs ssl with
  | nil => simp [pure, Except.pure]
  | cons e es ih =>
    obtain ⟨he, hes⟩ := List.forall_mem_cons.mp h
    have hstep : register files (lbs, ssl) e =
        .ok (lbs.insert e.1 (.new e.2), { ssl with domains := ssl.domains ++ (certOf files e).toList }) := by
      unfold register
      rw [addTls_of_loads he]
    rw [List.foldlM_cons, hstep]
    show List.foldlM (register files) (_, _) es = _
    rw [ih hes, List.foldl_cons, List.filterMap_cons, List.append_assoc]
    cases certOf files e <;> rfl

/-- The loop ends at a domain that does not load. -/
theorem foldlM_register_error {es : List (Text × DomainConfig)} {lbs : DashMap Text LoadBalancer}
    (h : ¬ ∀ e ∈ es, Loads files e) :
    ∃ e ∈ es, ¬ Loads files e ∧ ∃ rest cause, es.foldlM (register files) (lbs, ssl) = .error
      ⟨("Failed to load TLS certs for '" ++ String.ofList e.1 ++ "'") ::
        ("Failed to load TLS materials for '" ++ String.ofList e.1 ++ "'") :: rest, cause⟩ := by
  induction es generalizing lbs ssl with
  | nil => exact absurd (fun e he => nomatch he) h
  | cons e es ih =>
    by_cases he : Loads files e
    · have hes : ¬ ∀ e ∈ es, Loads files e := fun hall => h (List.forall_mem_cons.mpr ⟨he, hall⟩)
      obtain ⟨e', he', hnot, rest, cause, herror⟩ :=
        ih hes
      refine ⟨e', List.mem_cons_of_mem e he', hnot, rest, cause, ?_⟩
      have hstep : register files (lbs, ssl) e =
          .ok (lbs.insert e.1 (.new e.2), { ssl with domains := ssl.domains ++ (certOf files e).toList }) := by
        unfold register
        rw [addTls_of_loads he]
      rw [List.foldlM_cons, hstep]
      exact herror
    · obtain ⟨rest, cause, herror⟩ := addTls_of_not_loads ssl he
      refine ⟨e, List.mem_cons_self, he, rest, cause, ?_⟩
      have hstep : register files (lbs, ssl) e = .error
          ⟨("Failed to load TLS certs for '" ++ String.ofList e.1 ++ "'") ::
            ("Failed to load TLS materials for '" ++ String.ofList e.1 ++ "'") :: rest, cause⟩ := by
        unfold register
        rw [herror]
      rw [List.foldlM_cons, hstep]
      rfl

/-- The HTTPS listener that the certificates make. -/
def httpsOf (K : Rustls) (port : UInt16) (certs : List DomainCert) :
    Except Failure (Option (UInt16 × SslManager)) :=
  if certs.isEmpty then .ok none
  else
    match Failure.under "Failed to build TLS acceptor" (SslManager.build K ⟨certs, none⟩) with
    | .error f => .error f
    | .ok ssl => .ok (some (port, ssl))

/-- What `main` comes to when all domains load. -/
def startedOf (K : Rustls) (files : String → Option PemFile) (config : MainConfig) (args : Args) : Started where
  handler :=
    { toProxyHandler := .new (ProxyHandler.registered config.domains) config.domains
      rateLimiter := .new config.settings.rateLimitRps config.settings.rateLimitBurst
      security := .new config.settings.maxConnectionsPerIp config.settings.security }
  tasks := startHealthChecks config.domains ++
    [.http (args.httpPort.getD config.server.httpPort) config.settings.maxConnections]
  https := httpsOf K (args.httpsPort.getD config.server.httpsPort) (certsOf files config.domains)

theorem main_of_loads (h : ∀ e ∈ config.domains.entries, Loads files e) :
    main K files config args = .ok (startedOf K files config args) := by
  unfold main
  have hfold : config.domains.entries.foldlM (register files) (.empty, .new) =
      .ok (ProxyHandler.registered config.domains, ⟨certsOf files config.domains, none⟩) := foldlM_register h
  rw [hfold]
  dsimp only
  unfold startedOf httpsOf SslManager.hasDomains
  dsimp only
  cases (certsOf files config.domains).isEmpty <;> rfl

/-- **Startup.** If the files of all domains with TLS can be loaded, `main` makes the
handler of the configuration and spawns the tasks. Otherwise nothing is spawned, and the
error names a domain whose files cannot be loaded. -/
theorem main_outcome (K : Rustls) (files : String → Option PemFile) (config : MainConfig) (args : Args) :
    ((∀ e ∈ config.domains.entries, Loads files e) ∧
        main K files config args = .ok (startedOf K files config args)) ∨
      ∃ e ∈ config.domains.entries, ¬ Loads files e ∧ ∃ rest cause, main K files config args = .error
        ⟨("Failed to load TLS certs for '" ++ String.ofList e.1 ++ "'") ::
          ("Failed to load TLS materials for '" ++ String.ofList e.1 ++ "'") :: rest, cause⟩ := by
  by_cases h : ∀ e ∈ config.domains.entries, Loads files e
  · exact .inl ⟨h, main_of_loads h⟩
  · obtain ⟨e, he, hnot, rest, cause, herror⟩ := foldlM_register_error h
    refine .inr ⟨e, he, hnot, rest, cause, ?_⟩
    unfold main
    rw [herror]

/-! ## The HTTPS listener -/

/-- The names of the domains with TLS, up to case. -/
def Domains.tlsNames (d : Domains) : List Text :=
  (d.entries.filter fun e => e.2.tls.isSome).map fun e => e.1.map Char.toLower

theorem loads_of_main (h : main K files config args = .ok st) :
    (∀ e ∈ config.domains.entries, Loads files e) ∧ st = startedOf K files config args := by
  rcases main_outcome K files config args with ⟨hloads, hmain⟩ | ⟨e, -, -, rest, cause, hmain⟩
  · exact ⟨hloads, Except.ok.inj (h.symm.trans hmain)⟩
  · rw [hmain] at h; cases h

theorem certOf_eq_some_iff {d : DomainCert} :
    certOf files e = some d ↔ materials files e = some (.ok (d.certs, d.key)) ∧ d.name = e.1 := by
  obtain ⟨name, certs, key⟩ := d
  unfold certOf
  cases materials files e with
  | none => simp
  | some r =>
    cases r with
    | error f => simp [Except.toOption]
    | ok m => obtain ⟨certs', key'⟩ := m; simp [Except.toOption, and_comm, eq_comm]

/-- A domain that loads has a certificate if it has TLS. -/
theorem certOf_isSome (h : Loads files e) : (certOf files e).isSome = e.2.tls.isSome := by
  unfold Loads at h
  unfold certOf
  unfold materials at h ⊢
  cases htls : e.2.tls with
  | none => rfl
  | some tls =>
    rw [htls] at h
    obtain ⟨m, hm⟩ := h _ rfl
    simp [hm, Except.toOption]

theorem certsOf_eq_nil_iff (h : ∀ e ∈ config.domains.entries, Loads files e) :
    certsOf files config.domains = [] ↔ ∀ e ∈ config.domains.entries, e.2.tls = none := by
  unfold certsOf
  rw [List.filterMap_eq_nil_iff]
  refine forall₂_congr fun e he => ?_
  rw [← Option.isSome_eq_false_iff.trans Option.isNone_iff_eq_none, certOf_isSome (h e he),
    Option.isSome_eq_false_iff, Option.isNone_iff_eq_none]

/-- **When there is an HTTPS listener.** With no TLS domain there is none, and the process
goes on. With one it is made if `rustls` takes all certificates and keys; otherwise the
process ends. -/
theorem https_iff (h : main K files config args = .ok st) :
    (st.https = .ok none ↔ ∀ e ∈ config.domains.entries, e.2.tls = none) ∧
      ((∃ port ssl, st.https = .ok (some (port, ssl))) ↔
        (∃ e ∈ config.domains.entries, e.2.tls ≠ none) ∧ ∀ d ∈ certsOf files config.domains, K.Accepts d) := by
  obtain ⟨hloads, rfl⟩ := loads_of_main h
  have hnil := certsOf_eq_nil_iff hloads
  have hsome : (∃ e ∈ config.domains.entries, e.2.tls ≠ none) ↔ ¬ certsOf files config.domains = [] := by
    rw [hnil]
    simp
  rw [← hnil, hsome]
  simp only [startedOf, httpsOf]
  by_cases hcerts : certsOf files config.domains = []
  · simp [hcerts]
  · rw [if_neg (by simpa using hcerts)]
    cases hbuild : SslManager.build K ⟨certsOf files config.domains, none⟩ with
    | error f =>
      have hnot : ¬ ∀ d ∈ certsOf files config.domains, K.Accepts d := fun hall => by
        rw [SslManager.build_eq_ok_iff.mpr ⟨hall, rfl⟩] at hbuild
        cases hbuild
      simp [Failure.under, hcerts, hnot]
    | ok ssl =>
      have hall := (SslManager.build_eq_ok_iff.mp hbuild).1
      simp only [Failure.under, hcerts, not_false_eq_true, true_and]
      exact ⟨by simp, iff_of_true ⟨_, _, rfl⟩ hall⟩

/-- The listener is at the port of the configuration or the command line, with the
certificates that were loaded. -/
theorem https_eq {port : UInt16} (h : main K files config args = .ok st)
    (hhttps : st.https = .ok (some (port, ssl))) :
    port = args.httpsPort.getD config.server.httpsPort ∧
      SslManager.build K ⟨certsOf files config.domains, none⟩ = .ok ssl := by
  obtain ⟨-, rfl⟩ := loads_of_main h
  simp only [startedOf, httpsOf] at hhttps
  split at hhttps
  · cases hhttps
  · cases hbuild : SslManager.build K ⟨certsOf files config.domains, none⟩ with
    | error f => rw [hbuild] at hhttps; cases hhttps
    | ok ssl' => rw [hbuild] at hhttps; cases hhttps; exact ⟨rfl, rfl⟩

theorem serverNames_certsOf (h : ∀ e ∈ config.domains.entries, Loads files e) :
    (certsOf files config.domains).map DomainCert.serverName = config.domains.tlsNames := by
  unfold certsOf Domains.tlsNames
  rw [List.map_filterMap, ← List.filterMap_eq_map, List.filterMap_filter]
  refine List.filterMap_congr fun e he => ?_
  have hsome := certOf_isSome (h e he)
  cases hcert : certOf files e with
  | none => rw [← hsome, hcert]; rfl
  | some d =>
    rw [← hsome, hcert, Option.map_some]
    exact congrArg (fun name => some (name.map Char.toLower)) (certOf_eq_some_iff.mp hcert).2

/-- **The certificates of the listener.** If no two domains with TLS have the same name up
to case, a client gets the certificate of the domain that it names, up to case, and none
if it names no such domain. -/
theorem https_certificate {port : UInt16} (h : main K files config args = .ok st)
    (hhttps : st.https = .ok (some (port, ssl))) (hnames : config.domains.tlsNames.Nodup) :
    ∃ r, ssl.acceptor = some r ∧ K.resolve r none = none ∧ ∀ name ck, K.resolve r (some name) = some ck ↔
      ∃ e ∈ config.domains.entries, EqIgnoreAsciiCase e.1 name ∧
        materials files e = some (.ok (ck.certs, ck.key)) := by
  have hloads := (loads_of_main h).1
  have hnodup := hnames
  rw [← serverNames_certsOf hloads] at hnodup
  obtain ⟨r, hr, -⟩ := resolve_eq (https_eq h hhttps).2 hnodup none
  refine ⟨r, hr, K.resolve_none r, fun name ck => ?_⟩
  obtain ⟨r', hr', hcert⟩ := resolve_eq (https_eq h hhttps).2 hnodup (some name)
  obtain rfl : r = r' := Option.some.inj (hr.symm.trans hr')
  rw [hcert, Option.bind_some, Option.map_eq_some_iff]
  simp only [find?_key_iff hnodup]
  constructor
  · rintro ⟨d, ⟨hd, hname⟩, rfl⟩
    obtain ⟨e, he, hcert⟩ := List.mem_filterMap.mp hd
    obtain ⟨hm, hdname⟩ := certOf_eq_some_iff.mp hcert
    refine ⟨e, he, ?_, hm⟩
    rw [← hdname]
    exact hname
  · rintro ⟨e, he, hname, hm⟩
    refine ⟨⟨e.1, ck.certs, ck.key⟩, ⟨List.mem_filterMap.mpr ⟨e, he, ?_⟩, hname⟩, rfl⟩
    exact certOf_eq_some_iff.mpr ⟨hm, rfl⟩

/-- **Certificate and domain.** Let a client of the HTTPS listener name the same domain,
up to case, in the handshake and in the `Host` header. It gets the certificate of the
domain. Its requests go to the domain exactly when that is configured in lower case. -/
theorem https_served (T : CaseTable) (req : RequestHead) {a : Authority} {port : UInt16} {name : Text}
    {chars : name.all isNameChar = true} (h : main K files config args = .ok st)
    (hhttps : st.https = .ok (some (port, ssl))) (hnames : config.domains.tlsNames.Nodup)
    (he : e ∈ config.domains.entries) (htls : e.2.tls ≠ none) (hname : EqIgnoreAsciiCase e.1 name)
    (hhost : req.headers.get "host" = some (utf8 a.text)) (ha : a.host = .name name chars) :
    (∃ r ck, ssl.acceptor = some r ∧ K.resolve r (some name) = some ck ∧
        materials files e = some (.ok (ck.certs, ck.key))) ∧
      (st.handler.lookups (hostOf T req.headers) = .ofDomain (some e) ↔ e.1.map Char.toLower = e.1) := by
  obtain ⟨hloads, hst⟩ := loads_of_main h
  constructor
  · obtain ⟨r, hr, -, hcert⟩ := https_certificate h hhttps hnames
    have hsome : (certOf files e).isSome = true := by
      rw [certOf_isSome (hloads e he)]
      exact Option.isSome_iff_ne_none.mpr htls
    obtain ⟨d, hd⟩ := Option.isSome_iff_exists.mp hsome
    obtain ⟨hm, -⟩ := certOf_eq_some_iff.mp hd
    exact ⟨r, d.certified, hr, (hcert name d.certified).mpr ⟨e, he, hname, hm⟩, hm⟩
  · have hlookups : st.handler.lookups (hostOf T req.headers) =
        .ofDomain (config.domains.find (e.1.map Char.toLower)) := by
      rw [hst, hostOf_of_authority hhost, ha]
      show (ProxyHandler.new (ProxyHandler.registered config.domains) config.domains).lookups
        (name.map Char.toLower) = _
      rw [lookups_eq, hname]
    rw [hlookups]
    constructor
    · intro heq
      cases hfind : config.domains.find (e.1.map Char.toLower) with
      | none =>
        rw [hfind] at heq
        cases congrArg ProxyHandler.Served.config heq
      | some e' =>
        obtain ⟨he', hname'⟩ := Domains.find_some hfind
        rw [hfind] at heq
        have hcfg : e'.2 = e.2 := Option.some.inj (congrArg ProxyHandler.Served.config heq)
        -- the names of both are the same up to case, and both have TLS
        have hmem (x : Text × DomainConfig) (hx : x ∈ config.domains.entries) (hcfg : x.2 = e.2) :
            x ∈ config.domains.entries.filter fun e => e.2.tls.isSome :=
          List.mem_filter.mpr ⟨hx, by rw [hcfg]; exact Option.isSome_iff_ne_none.mpr htls⟩
        have hlower : e'.1.map Char.toLower = e.1.map Char.toLower := by
          rw [hname']
          exact eqIgnoreAsciiCase_lower e.1
        obtain rfl : e' = e := List.inj_on_of_nodup_map hnames (hmem e' he' hcfg) (hmem e he rfl) hlower
        exact hname'.symm
    · intro hlower
      have hfind : config.domains.find e.1 = some e := (find?_key_iff config.domains.nodup).mpr ⟨he, rfl⟩
      rw [hlower, hfind]

/-- Every key is one to sign with, and every chain is for the domain that it comes with. -/
def Rustls.sample : Rustls where
  supported _ := true
  sniName name certs := if certs.isEmpty then none else some (name.map Char.toLower)
  sniName_lower name certs n h := by
    split at h
    · cases h
    · exact (Option.some.inj h).symm
  resolve resolver serverName := serverName.bind fun name => resolver (name.map Char.toLower)
  resolve_none _ := rfl
  resolve_some _ _ := rfl

/-- Every file has a certificate and a key. -/
def PemFile.sample : PemFile := ⟨[some (.certificate [1]), some (.pkcs8 [2])], true⟩

def DomainConfig.sampleTls : DomainConfig := { backends := ["http://a"], tls := some ⟨"cert.pem", "key.pem"⟩ }

def MainConfig.sample : MainConfig where
  server := {}
  domains := ⟨[("a.org".toList, .sampleTls), ("B.org".toList, .sampleTls)], by decide⟩
  settings := {}

/-- A domain with a capital in its name: its certificate is sent, and its requests go astray. -/
theorem https_served_capital :
    ∃ st port ssl r ck, main .sample (fun _ => some .sample) .sample ⟨none, none⟩ = .ok st ∧
      st.https = .ok (some (port, ssl)) ∧ ssl.acceptor = some r ∧
      Rustls.sample.resolve r (some "b.org".toList) = some ck ∧
      st.handler.lookups (hostOf asciiTable [("host", utf8 "b.org".toList)]) ≠
        .ofDomain (some ("B.org".toList, .sampleTls)) := by
  obtain ⟨st, hmain⟩ : ∃ st, main .sample (fun _ => some .sample) .sample ⟨none, none⟩ = .ok st := ⟨_, rfl⟩
  obtain ⟨port, ssl, hhttps⟩ := (https_iff hmain).2.mpr ⟨⟨_, List.mem_cons_self, by decide⟩, by decide⟩
  have hchars : "b.org".toList.all isNameChar = true := by decide
  have ha : (Authority.mk (.name "b.org".toList hchars) none rfl).host = .name "b.org".toList hchars := rfl
  obtain ⟨⟨r, ck, hr, hcert, -⟩, hserved⟩ := https_served asciiTable
    ⟨[("host", utf8 "b.org".toList)], none⟩ hmain hhttps (by decide)
    (List.mem_cons_of_mem _ List.mem_cons_self) (by decide) (by decide) rfl ha
  exact ⟨st, port, ssl, r, ck, hmain, hhttps, hr, hcert, mt hserved.mp (by decide)⟩

/-! ## The order of the domains -/

/-- The handler with the domains in another order. -/
def Handler.reorder (p : Handler) (d : Domains) : Handler := { p with domainConfigs := d }

def Outcome.reorder (d : Domains) (out : Outcome) : Outcome := { out with handler := out.handler.reorder d }

section

variable {C : Crates} {p : Handler} {d : Domains}

theorem Handler.answer_reorder (service : Option Service) (r : Except Panic Response) :
    (p.answer service r).map (Outcome.reorder d) = (p.reorder d).answer service r := by
  cases r <;> rfl

/-- The handler goes by what it finds among the domains, and not by their order. -/
theorem Handler.handle_reorder (hfind : ∀ host, d.find host = p.domainConfigs.find host) (env : Environment)
    (peer : IpAddr) (req : Request) (isTls : Bool) :
    (p.handle C env peer req isTls).map (Outcome.reorder d) = (p.reorder d).handle C env peer req isTls := by
  have hcheck (rl : RateLimiter) : ({ p.reorder d with rateLimiter := rl } : Handler).checkRequest C req =
      p.checkRequest C req := rfl
  have hredirects (rl : RateLimiter) : ({ p.reorder d with rateLimiter := rl } : Handler).redirects C req isTls =
      p.redirects C req isTls := by
    simp only [redirects, configOf, reorder, hfind]
  have hstatic (rl : RateLimiter) : ({ p.reorder d with rateLimiter := rl } : Handler).serveStatic C env req =
      p.serveStatic C env req := rfl
  have hlbs : (p.reorder d).lbManager = p.lbManager := rfl
  have hinject (resp : Response) : injectExtraHeaders C resp (hostOf C.caseTable req.headers) d =
      injectExtraHeaders C resp (hostOf C.caseTable req.headers) p.domainConfigs := by
    rw [injectExtraHeaders_eq, injectExtraHeaders_eq, hfind]
  unfold handle
  dsimp only
  show _ = (if (p.rateLimiter.isAllowed peer env.now).2 = false then _ else _)
  by_cases hlimit : (p.rateLimiter.isAllowed peer env.now).2 = false
  · rw [if_pos hlimit, if_pos hlimit, answer_reorder]
    rfl
  · rw [if_neg hlimit, if_neg hlimit, checkRequest_limiter, hcheck]
    cases p.checkRequest C req with
    | error reason => exact answer_reorder none _
    | ok u =>
      dsimp only
      rw [redirects_limiter, hredirects]
      by_cases hredirect : p.redirects C req isTls = true
      · rw [if_pos hredirect, if_pos hredirect, answer_reorder]
        rfl
      · rw [if_neg hredirect, if_neg hredirect]
        by_cases hws : isWebsocketUpgrade req = true
        · rw [if_pos hws, if_pos hws]
          rw [hlbs]
          cases proxyWebsocket C env.network env.lbNow p.lbManager req (hostOf C.caseTable req.headers) peer with
          | error e => rfl
          | ok f =>
            obtain ⟨result, x, lbs⟩ := f
            cases result with
            | error e => exact answer_reorder _ _
            | ok resp => rfl
        · rw [if_neg hws, if_neg hws, serveStatic_limiter, hstatic]
          cases p.serveStatic C env req with
          | error e => rfl
          | ok served =>
            cases served with
            | some resp =>
              dsimp only
              rw [answer_reorder, ← hinject]
              rfl
            | none =>
              rw [hlbs]
              cases proxyHttp C env.network env.lbNow p.lbManager req (hostOf C.caseTable req.headers) peer with
              | error e => rfl
              | ok f =>
                obtain ⟨result, x, lbs⟩ := f
                cases result with
                | error e => exact answer_reorder _ _
                | ok resp =>
                  dsimp only
                  rw [answer_reorder, ← hinject]
                  rfl

end

namespace Serving

variable {C : Crates} {p : Handler} {d : Domains} {s s' t : Serving} {c : Call} {calls : List Call}

/-- The second state is that of the handler with the domains in the order `d`. -/
structure Reordered (d : Domains) (s t : Serving) : Prop where
  find : ∀ host, d.find host = s.handler.domainConfigs.find host
  eq : t = ⟨s.handler.reorder d, s.log⟩

theorem Reordered.step (h : Reordered d s t) (hs : step C s c = some s') :
    ∃ t', Serving.step C t c = some t' ∧ Reordered d s' t' := by
  obtain ⟨out, hout, rfl⟩ := step_eq_some.mp hs
  have hreorder := Handler.handle_reorder (C := C) h.find c.env c.peer c.req c.isTls
  rw [hout] at hreorder
  obtain rfl := h.eq
  refine ⟨_, step_eq_some.mpr ⟨out.reorder d, hreorder.symm, rfl⟩, fun host => ?_, rfl⟩
  obtain ⟨o, -, rfl⟩ := Handler.local_of_handle hout
  exact h.find host

/-- All requests get the same answers. -/
theorem exec_reorder (hfind : ∀ host, d.find host = p.domainConfigs.find host)
    (hrun : exec (Serving.step C) ⟨p, []⟩ calls = some s) :
    ∃ t, exec (Serving.step C) ⟨p.reorder d, []⟩ calls = some t ∧ t.log = s.log := by
  have hstart : Reordered d ⟨p, []⟩ ⟨p.reorder d, []⟩ := ⟨hfind, rfl⟩
  have hstep (s t : Serving) (c : Call) (s' : Serving) (h : Reordered d s t) (hs : Serving.step C s c = some s') :
      ∃ t', Serving.step C t c = some t' ∧ Reordered d s' t' := h.step hs
  obtain ⟨t, ht, hend⟩ := exec_simulates hstep hstart hrun
  exact ⟨t, ht, by rw [hend.eq]⟩

end Serving

section

variable {d : Domains}

/-- The configuration with the domains in another order. -/
def MainConfig.reorder (config : MainConfig) (d : Domains) : MainConfig := { config with domains := d }

theorem find_of_perm (hperm : d.entries.Perm config.domains.entries) (host : Text) :
    d.find host = config.domains.find host := find?_key_perm d.nodup hperm

theorem startedOf_reorder (hperm : d.entries.Perm config.domains.entries) :
    (startedOf K files (config.reorder d) args).handler = (startedOf K files config args).handler.reorder d := by
  have hcollect {β : Type} (build : DomainConfig → Option β) : d.collect build = config.domains.collect build := by
    funext host
    rw [Domains.collect_apply, Domains.collect_apply, find_of_perm hperm]
  simp only [startedOf, MainConfig.reorder, Handler.reorder, ProxyHandler.new, ProxyHandler.registered, hcollect]

/-- **The order of the domains does not matter.** Whatever order the map of domains is gone
through in, startup gets equally far, the same tasks are spawned, all traffic gets the
same answers, and the HTTPS listener is the same, the table of certificates included if no
two domains with TLS have the same name up to case. -/
theorem restart (h : main K files config args = .ok st) (hperm : d.entries.Perm config.domains.entries) :
    ∃ st', main K files (config.reorder d) args = .ok st' ∧ st'.tasks.Perm st.tasks ∧
      (∀ C calls s, exec (Serving.step C) ⟨st.handler, []⟩ calls = some s →
        ∃ s', exec (Serving.step C) ⟨st'.handler, []⟩ calls = some s' ∧ s'.log = s.log) ∧
      (st'.https = .ok none ↔ st.https = .ok none) ∧
      ((∃ port ssl, st'.https = .ok (some (port, ssl))) ↔ ∃ port ssl, st.https = .ok (some (port, ssl))) ∧
      ∀ port ssl port' ssl', config.domains.tlsNames.Nodup → st.https = .ok (some (port, ssl)) →
        st'.https = .ok (some (port', ssl')) → port' = port ∧ ssl'.acceptor = ssl.acceptor := by
  obtain ⟨hloads, hst⟩ := loads_of_main h
  have hmem (x : Text × DomainConfig) : x ∈ d.entries ↔ x ∈ config.domains.entries := hperm.mem_iff
  have hloads' : ∀ e ∈ (config.reorder d).domains.entries, Loads files e := fun e he =>
    hloads e ((hmem e).mp he)
  have h' : main K files (config.reorder d) args = _ := main_of_loads hloads'
  have hcerts : (certsOf files d).Perm (certsOf files config.domains) := hperm.filterMap _
  obtain ⟨hnone, hsome⟩ := https_iff h
  obtain ⟨hnone', hsome'⟩ := https_iff h'
  refine ⟨_, h', ?_, fun C calls s hrun => ?_, ?_, ?_, fun port ssl port' ssl' hnames hhttps hhttps' => ?_⟩
  · rw [hst]
    exact ((hperm.filter _).map _).append_right _
  · rw [startedOf_reorder hperm, ← hst]
    refine Serving.exec_reorder (fun host => ?_) hrun
    rw [hst]
    exact find_of_perm hperm host
  · rw [hnone, hnone']
    exact forall_congr' fun e => by rw [← hmem e]; rfl
  · rw [hsome, hsome']
    refine and_congr (exists_congr fun e => by rw [← hmem e]; rfl) (forall_congr' fun c => ?_)
    rw [← hcerts.mem_iff]
    rfl
  · obtain ⟨rfl, hbuild⟩ := https_eq h hhttps
    obtain ⟨rfl, hbuild'⟩ := https_eq h' hhttps'
    obtain ⟨-, rfl⟩ := SslManager.build_eq_ok_iff.mp hbuild
    obtain ⟨-, rfl⟩ := SslManager.build_eq_ok_iff.mp hbuild'
    refine ⟨rfl, congrArg some (funext fun name => ?_)⟩
    have hnodup := hnames
    rw [← serverNames_certsOf hloads] at hnodup
    have hnodup' := (hcerts.map DomainCert.serverName).nodup_iff.mpr hnodup
    have htable := DashMap.foldl_insert DomainCert.certified hnodup .empty name
    have htable' := DashMap.foldl_insert DomainCert.certified hnodup' .empty name
    rw [← find?_key_perm hnodup' hcerts] at htable
    exact htable'.trans htable.symm

/-- The other order of two domains. -/
theorem restart_two :
    ∃ st st', main .sample (fun _ => some .sample) .sample ⟨none, none⟩ = .ok st ∧
      main .sample (fun _ => some .sample) (.reorder .sample
        ⟨[("B.org".toList, .sampleTls), ("a.org".toList, .sampleTls)], by decide⟩) ⟨none, none⟩ = .ok st' ∧
      st'.tasks.Perm st.tasks := by
  obtain ⟨st, hmain⟩ : ∃ st, main .sample (fun _ => some .sample) .sample ⟨none, none⟩ = .ok st := ⟨_, rfl⟩
  obtain ⟨st', hmain', htasks, -⟩ := restart
    (d := ⟨[("B.org".toList, .sampleTls), ("a.org".toList, .sampleTls)], by decide⟩) hmain (.swap ..)
  exact ⟨st, st', hmain, hmain', htasks⟩

end

end Curf
