import Curf.Lib.UriReference
import Curf.Proxy.Handle

/-!
# The redirect to HTTPS

A request over plain HTTP to a domain with `redirect_to_https` is sent to `https://`, its
host and its path and query, put together as texts. The port of the HTTPS listener is not
among them: `leadsBack_iff` says for which ports, hosts and request-targets the location
is a URL of what was asked for.
-/

namespace Curf

open Lib

/-! ## Ports -/

structure ServerConfig where
  httpPort : UInt16 := 80
  httpsPort : UInt16 := 443
  deriving DecidableEq, Repr

structure Config where
  server : ServerConfig
  domains : Domains

/-- The ports given on the command line. -/
structure Args where
  httpPort : Option UInt16
  httpsPort : Option UInt16
  deriving DecidableEq, Repr

/-- The configuration that `main` goes on with. -/
def Config.override (config : Config) (args : Args) : Config :=
  { config with server := {
      httpPort := args.httpPort.getD config.server.httpPort
      httpsPort := args.httpsPort.getD config.server.httpsPort } }

/-- The HTTPS listener, which `main` starts when a domain has a certificate, is bound to
`port`: to the configured port, or to one that the system chooses if that is zero. -/
def Config.ListensAt (config : Config) (port : UInt16) : Prop :=
  (∃ e ∈ config.domains.entries, e.2.tls.isSome = true) ∧
    (config.server.httpsPort ≠ 0 → port = config.server.httpsPort)

/-! ## Request-targets -/

def queryText : Option Text → Text
  | none => []
  | some query => '?' :: query

inductive RequestTarget where
  | origin (path : Text) (query : Option Text)
  /-- With a scheme and an authority in front, which are not looked at. -/
  | absolute (path : Text) (query : Option Text)
  | asterisk
  deriving DecidableEq, Repr

namespace RequestTarget

/-- `Uri::path`. -/
def path : RequestTarget → Text
  | .origin path _ => path
  | .absolute path _ => if path = [] then ['/'] else path
  | .asterisk => ['*']

/-- `Uri::query`. -/
def query : RequestTarget → Option Text
  | .origin _ query | .absolute _ query => query
  | .asterisk => none

/-- `PathAndQuery::as_str`. -/
def pathAndQuery : RequestTarget → Text
  | .origin path query => path ++ queryText query
  | .absolute path query => if path ++ queryText query = [] then ['/'] else path ++ queryText query
  | .asterisk => ['*']

/-- A path ends before the first `?`, a query before the first `#`. -/
def Splits (path : Text) (query : Option Text) : Prop := '?' ∉ path ∧ '#' ∉ path ++ queryText query

def WellFormed : RequestTarget → Prop
  | .origin path query => path.head? = some '/' ∧ Splits path query
  | .absolute path query => (path = [] ∨ path.head? = some '/') ∧ Splits path query
  | .asterisk => True

end RequestTarget

/-- What `hyper` says of a request with the target `t`. -/
def Request.Targets (req : Request) (t : RequestTarget) : Prop :=
  t.WellFormed ∧ req.path = t.path ∧ req.query = t.query ∧ req.pathAndQuery = some t.pathAndQuery

/-! ## Locations -/

structure HttpsUrl where
  host : Bytes
  port : Nat
  path : Bytes
  query : Option Bytes
  deriving DecidableEq, Repr

namespace HttpsUrl

/-- The port of an authority, 443 if there is none. -/
def portOf : Option Bytes → Nat
  | none | some [] => 443
  | some port => Nat.ofDigitChars 10 (charsOf port) 0

/-- A URL with the scheme `https`, which must have a host. -/
def parse (s : Bytes) : Option HttpsUrl :=
  let r := Reference.parse s
  match r.authority with
  | none => none
  | some authority =>
    let host := splitPort (hostPort authority)
    if r.scheme = some (utf8 "https".toList) ∧ host.1 ≠ [] ∧ isHost (charsOf host.1) = true then
      some ⟨host.1, portOf host.2, if r.path = [] then [47] else r.path, r.query⟩
    else none

end HttpsUrl

namespace Handler

/-- The URL leads to what the request asks for, under the HTTPS port `port`. -/
structure LeadsTo (C : Crates) (domains : Domains) (req : Request) (port : UInt16) (url : HttpsUrl) : Prop where
  port : url.port = port.toNat
  domain : ∃ e, domains.find (hostOf C.caseTable req.headers) = some e ∧
    domains.find (hostOf C.caseTable [("host", url.host)]) = some e
  path : url.path = utf8 req.path
  query : url.query = req.query.map utf8

/-- The request is redirected to what it asks for. -/
def LeadsBack (C : Crates) (env : Environment) (p : Handler) (peer : IpAddr) (req : Request)
    (port : UInt16) : Prop :=
  ∃ out loc url, p.handle C env peer req false = .ok out ∧ out.response.status = 301 ∧
    out.response.headers.get "location" = some loc ∧ HttpsUrl.parse loc = some url ∧
      LeadsTo C p.domainConfigs req port url

variable {C : Crates} {env : Environment} {p : Handler} {peer : IpAddr} {req : Request} {port : UInt16}
  {t : RequestTarget} {host s : Text} {bs : Bytes} {T : CaseTable} {headers : HeaderMap}

/-! ## Hosts -/

/-- The host that `handle` works with is in lower case and has no port. -/
theorem hostOf_spec (T : CaseTable) (headers : HeaderMap) :
    ':' ∉ hostOf T headers ∧ (hostOf T headers).map Char.toLower = hostOf T headers ∧
      ∀ c ∈ hostOf T headers, c.toNat < 128 := by
  obtain ⟨s, hs, heq⟩ := hostOf_eq T headers
  refine ⟨fun h => ?_, ?_, fun c hc => (printable_hostOf T headers c hc).lt⟩
  · rw [heq] at h
    obtain ⟨c, hc, hlower⟩ := List.mem_map.mp h
    rcases toLower_eq_or_isLower c with he | he
    · exact (hs c hc).2 (he ▸ hlower)
    · rw [hlower] at he
      cases he
  · rw [heq, List.map_map]
    exact List.map_congr_left fun c _ => Char.toLower_toLower_eq_toLower c

/-- The host that `handle` takes from the host of a URL. -/
theorem hostOf_urlHost (hbs : isHost (charsOf bs) = true) (hcolon : 58 ∉ bs) :
    hostOf T [("host", bs)] = (charsOf bs).map Char.toLower := by
  have hvisible : ∀ c ∈ charsOf bs, Visible c := fun c hc =>
    (visible_of_isHostChar (isHostChar_of_isHost hbs c hc)).1
  have hread : headerToStr bs = some (charsOf bs) := by
    refine if_pos (List.all_eq_true.mpr fun b hb => ?_)
    obtain ⟨h1, h2⟩ := hvisible _ (List.mem_map_of_mem hb)
    rw [toNat_ofNat_byte] at h1 h2
    simp only [Bool.or_eq_true, Bool.and_eq_true, decide_eq_true_eq]
    omega
  have hmark : ':' ∉ charsOf bs := by
    intro hc
    obtain ⟨b, hb, hcode⟩ := mem_charsOf hc
    have hbyte : b = 58 := UInt8.toNat_inj.mp hcode
    exact hcolon (hbyte ▸ hb)
  have hget : (HeaderMap.get [("host", bs)] "host").bind headerToStr = some (charsOf bs) := hread
  rw [hostOf, hget, Option.map_some, Option.getD_some, takeWhile_ne hmark]
  exact toLowercase_ascii fun c hc => Nat.lt_trans (hvisible c hc).2 (by decide)

/-! ## The location in parts -/

/-- What the location has between `https://` and the first mark. -/
def authorityOf (host pathAndQuery : Text) : Bytes :=
  (utf8 host ++ utf8 pathAndQuery).takeWhile fun b => !isUriMark b

theorem parse_location (host pathAndQuery : Text) :
    Reference.parse (utf8 ("https://".toList ++ host ++ pathAndQuery)) =
      ⟨some (utf8 "https".toList), some (authorityOf host pathAndQuery),
        (cut 63 (cut 35 (utf8 host ++ utf8 pathAndQuery)).1).1.dropWhile (· ≠ 47),
        (cut 63 (cut 35 (utf8 host ++ utf8 pathAndQuery)).1).2, (cut 35 (utf8 host ++ utf8 pathAndQuery)).2⟩ := by
  have hbytes : utf8 ("https://".toList ++ host ++ pathAndQuery) =
      utf8 "https".toList ++ 58 :: 47 :: 47 :: (utf8 host ++ utf8 pathAndQuery) := by
    rw [List.append_assoc, StaticFileServer.utf8_append, StaticFileServer.utf8_append]
    rfl
  have hname : (utf8 "https".toList).all (fun b => decide (b ≠ 58 ∧ isUriMark b = false)) = true := by decide
  rw [hbytes]
  exact parse_absolute (by decide) (fun b hb => of_decide_eq_true (List.all_eq_true.mp hname b hb)) _

/-- A target other than `*` begins with a `/` or a `?`, and is split there. -/
theorem RequestTarget.exists_split (ht : t.WellFormed) (hne : t ≠ .asterisk) :
    ∃ path query, t.pathAndQuery = path ++ queryText query ∧ (path = [] ∨ path.head? = some '/') ∧
      RequestTarget.Splits path query ∧ path ++ queryText query ≠ [] ∧ t.path = (if path = [] then ['/'] else path) ∧
      t.query = query := by
  cases t with
  | origin path query =>
    obtain ⟨hhead, hsplit⟩ := ht
    have hnil : path ≠ [] := by
      rintro rfl
      cases hhead
    exact ⟨path, query, rfl, .inr hhead, hsplit, by simp [hnil], (if_neg hnil).symm, rfl⟩
  | absolute path query =>
    obtain ⟨hhead, hsplit⟩ := ht
    by_cases hnil : path ++ queryText query = []
    · obtain ⟨rfl, hquery⟩ := List.append_eq_nil_iff.mp hnil
      have hnone : query = none := by
        cases query with
        | none => rfl
        | some q => cases hquery
      subst hnone
      exact ⟨['/'], none, rfl, .inr rfl, ⟨by decide, by decide⟩, by decide, rfl, rfl⟩
    · exact ⟨path, query, if_neg hnil, hhead, hsplit, hnil, rfl, rfl⟩
  | asterisk => exact absurd rfl hne

/-- The authority is the host, unless the host has a mark or the target is `*`. -/
theorem authorityOf_eq (ht : t.WellFormed) (hmark : ∀ b ∈ utf8 host, isUriMark b = false) :
    authorityOf host t.pathAndQuery = if t = .asterisk then utf8 host ++ [42] else utf8 host := by
  have hall : ∀ b ∈ utf8 host, (!isUriMark b) = true := fun b hb => by rw [hmark b hb]; rfl
  rw [authorityOf, List.takeWhile_append_of_pos hall]
  by_cases hne : t = .asterisk
  · subst hne
    rfl
  · obtain ⟨path, query, heq, hhead, -, hnil, -⟩ := RequestTarget.exists_split ht hne
    have hfirst : (utf8 t.pathAndQuery).takeWhile (fun b => !isUriMark b) = [] := by
      rw [heq]
      cases path with
      | cons c path =>
        obtain rfl : c = '/' := by simpa using hhead
        rfl
      | nil =>
        cases query with
        | none => exact absurd rfl hnil
        | some query => rfl
    rw [hfirst, List.append_nil, if_neg hne]

theorem authorityOf_mark (hmark : ¬ ∀ b ∈ utf8 host, isUriMark b = false) (pathAndQuery : Text) :
    authorityOf host pathAndQuery <+: utf8 host ∧ (authorityOf host pathAndQuery).length < (utf8 host).length := by
  have hlt : ((utf8 host).takeWhile fun b => !isUriMark b).length ≠ (utf8 host).length := by
    intro hlen
    refine hmark fun b hb => ?_
    have hall := List.takeWhile_eq_self_iff.mp ((List.takeWhile_prefix _).eq_of_length hlen) b hb
    simpa using hall
  have hstart := List.takeWhile_prefix (l := utf8 host) fun b => !isUriMark b
  rw [authorityOf, List.takeWhile_append, if_neg hlt]
  exact ⟨hstart, by have := hstart.length_le; omega⟩

/-- The location as a URL, with a host that has no port. -/
theorem parse_location_eq_some {url : HttpsUrl} (hcolon : 58 ∉ authorityOf host t.pathAndQuery)
    (h : HttpsUrl.parse (utf8 ("https://".toList ++ host ++ t.pathAndQuery)) = some url) :
    url.host = hostPort (authorityOf host t.pathAndQuery) ∧ url.host ≠ [] ∧ isHost (charsOf url.host) = true ∧
      url.port = 443 := by
  have hnone : 58 ∉ hostPort (authorityOf host t.pathAndQuery) := fun hmem =>
    hcolon ((hostPort_suffix _).subset hmem)
  unfold HttpsUrl.parse at h
  dsimp only at h
  rw [parse_location] at h
  dsimp only at h
  rw [splitPort_of_not_mem hnone] at h
  split at h
  · rename_i hhost
    cases h
    exact ⟨rfl, hhost.2.1, hhost.2.2, rfl⟩
  · cases h

theorem at_mem_of_mem_toLower (h : '@' ∈ (charsOf bs).map Char.toLower) : 64 ∈ bs := by
  obtain ⟨c, hc, hlower⟩ := List.mem_map.mp h
  have he : c = '@' := by
    rcases toLower_eq_or_isLower c with he | he
    · exact he.symm.trans hlower
    · rw [hlower] at he
      cases he
  obtain ⟨b, hb, hcode⟩ := mem_charsOf hc
  rw [he] at hcode
  have hbyte : b = 64 := UInt8.toNat_inj.mp hcode
  exact hbyte ▸ hb

/-- A location whose host is the one that `handle` works with has it between `https://` and
the path. -/
theorem eq_of_location {url : HttpsUrl} (ht : t.WellFormed) (hcolon : ':' ∉ host)
    (hascii : ∀ c ∈ host, c.toNat < 128)
    (h : HttpsUrl.parse (utf8 ("https://".toList ++ host ++ t.pathAndQuery)) = some url)
    (hhost : hostOf T [("host", url.host)] = host) :
    t ≠ .asterisk ∧ host ≠ [] ∧ isHost host = true ∧ url.port = 443 := by
  have hbyte : 58 ∉ utf8 host := fun hmem => hcolon ((mem_utf8_iff (by decide) (by decide)).mp hmem)
  have hlen : (utf8 host).length = host.length := by rw [utf8_eq_map hascii, List.length_map]
  have hauthority : 58 ∉ authorityOf host t.pathAndQuery := by
    by_cases hmark : ∀ b ∈ utf8 host, isUriMark b = false
    · rw [authorityOf_eq ht hmark]
      split
      · simpa using hbyte
      · exact hbyte
    · exact fun hmem => hbyte ((authorityOf_mark hmark _).1.subset hmem)
  obtain ⟨hurl, hne, hvalid, hport⟩ := parse_location_eq_some hauthority h
  have hnone : 58 ∉ url.host := by
    rw [hurl]
    exact fun hmem => hauthority ((hostPort_suffix _).subset hmem)
  rw [hostOf_urlHost hvalid hnone] at hhost
  have hlength : url.host.length = host.length := by
    rw [← hhost, List.length_map, charsOf, List.length_map]
  have hmark : ∀ b ∈ utf8 host, isUriMark b = false := by
    by_contra hmark
    have hshort := (authorityOf_mark hmark t.pathAndQuery).2
    have hsuffix := (hostPort_suffix (authorityOf host t.pathAndQuery)).length_le
    rw [← hurl] at hsuffix
    omega
  -- an `@` of the host would be one of the host in the URL
  have hat : 64 ∉ utf8 host := by
    intro hmem
    have hchar : '@' ∈ host := (mem_utf8_iff (by decide) (by decide)).mp hmem
    rw [← hhost] at hchar
    have hbyte := at_mem_of_mem_toLower hchar
    rw [hurl] at hbyte
    exact at_not_mem_hostPort _ hbyte
  rw [authorityOf_eq ht hmark] at hurl
  by_cases hstar : t = .asterisk
  · rw [if_pos hstar, hostPort_of_not_mem (by simpa using hat)] at hurl
    rw [hurl, List.length_append, hlen] at hlength
    simp at hlength
  · rw [if_neg hstar, hostPort_of_not_mem hat] at hurl
    rw [hurl] at hne hvalid
    rw [charsOf_utf8 hascii] at hvalid
    exact ⟨hstar, by rintro rfl; exact hne rfl, hvalid, hport⟩

/-- A valid host has none of the marks that end an authority, and no `@`. -/
theorem mark_not_mem_of_isHost {b : UInt8} (hhost : isHost host = true) (hb : isUriMark b = true ∨ b = 64) :
    b ∉ utf8 host := by
  have hmark : b = 47 ∨ b = 63 ∨ b = 35 ∨ b = 64 := by
    simpa only [isUriMark, Bool.or_eq_true, decide_eq_true_eq, or_assoc] using hb
  intro hmem
  have hchar {c : Char} (hc : c.toNat = b.toNat) (h7 : b.toNat < 128) := visible_of_isHostChar
    (isHostChar_of_isHost hhost c ((mem_utf8_iff h7 hc).mp hmem))
  rcases hmark with rfl | rfl | rfl | rfl
  · exact (@hchar '/' rfl (by decide)).2.1 rfl
  · exact (@hchar '?' rfl (by decide)).2.2.1 rfl
  · exact (@hchar '#' rfl (by decide)).2.2.2.1 rfl
  · exact (@hchar '@' rfl (by decide)).2.2.2.2 rfl

/-- The query of a target is cut off at its mark. -/
theorem cut_target {path : Text} {query : Option Text} (h63 : 63 ∉ utf8 host) (hpath : '?' ∉ path) :
    cut 63 (utf8 host ++ utf8 (path ++ queryText query)) = (utf8 host ++ utf8 path, query.map utf8) := by
  have hnone : 63 ∉ utf8 host ++ utf8 path := by
    rw [List.mem_append, not_or]
    exact ⟨h63, fun hmem => hpath ((mem_utf8_iff (by decide) (by decide)).mp hmem)⟩
  rw [StaticFileServer.utf8_append, ← List.append_assoc]
  cases query with
  | none => exact (congrArg (cut 63) (List.append_nil _)).trans (cut_of_not_mem hnone)
  | some q => exact cut_mark hnone (utf8 q)

/-- **The location in parts**, with a valid host and another target than `*`. -/
theorem parse_location_of_isHost (ht : t.WellFormed) (hstar : t ≠ .asterisk) (hcolon : ':' ∉ host)
    (hne : host ≠ []) (hhost : isHost host = true) :
    HttpsUrl.parse (utf8 ("https://".toList ++ host ++ t.pathAndQuery)) =
      some ⟨utf8 host, 443, utf8 t.path, t.query.map utf8⟩ := by
  have hascii : ∀ c ∈ host, c.toNat < 128 := fun c hc =>
    Nat.lt_trans (visible_of_isHostChar (isHostChar_of_isHost hhost c hc)).1.2 (by decide)
  have hmark {b : UInt8} (hb : isUriMark b = true) : b ∉ utf8 host := mark_not_mem_of_isHost hhost (.inl hb)
  have h64 : 64 ∉ utf8 host := mark_not_mem_of_isHost hhost (.inr rfl)
  have h58 : 58 ∉ utf8 host := fun hmem => hcolon ((mem_utf8_iff (by decide) (by decide)).mp hmem)
  have hauthority := @authorityOf_eq t host ht fun b hb => Bool.eq_false_iff.mpr fun hm => hmark hm hb
  obtain ⟨path, query, hpq, hhead, ⟨hpath, hfragment⟩, -, htpath, htquery⟩ := RequestTarget.exists_split ht hstar
  have hsplit : cut 63 (utf8 host ++ utf8 t.pathAndQuery) = (utf8 host ++ utf8 path, query.map utf8) := by
    rw [hpq]
    exact cut_target (hmark rfl) hpath
  have hwhole : cut 35 (utf8 host ++ utf8 t.pathAndQuery) = (utf8 host ++ utf8 t.pathAndQuery, none) := by
    refine cut_of_not_mem ?_
    rw [List.mem_append, not_or, hpq]
    exact ⟨hmark rfl, fun hmem => hfragment ((mem_utf8_iff (by decide) (by decide)).mp hmem)⟩
  have hdrop : (utf8 host ++ utf8 path).dropWhile (· ≠ 47) = utf8 path := by
    rw [dropWhile_ne_append (hmark rfl)]
    cases path with
    | nil => rfl
    | cons c path =>
      obtain rfl : c = '/' := by simpa using hhead
      rfl
  unfold HttpsUrl.parse
  rw [parse_location]
  dsimp only
  rw [hauthority, if_neg hstar, hostPort_of_not_mem h64, splitPort_of_not_mem h58, hwhole]
  dsimp only
  rw [hsplit, hdrop, charsOf_utf8 hascii, if_pos ⟨rfl, fun he => hne (utf8_eq_nil he), hhost⟩, htpath, htquery]
  by_cases hnil : path = []
  · subst hnil
    rfl
  · rw [if_neg fun he => hnil (utf8_eq_nil he), if_neg hnil]
    rfl

/-! ## Redirected requests -/

theorem exit_redirected (hstage : p.stage C env peer req false = .redirected) :
    p.exit C env peer req false = if C.validValue (location C req) then
      .ok ⟨301, [("location", location C req)], none⟩ else .error .response := by
  rw [exit, hstage]

theorem find_of_redirected (hstage : p.stage C env peer req false = .redirected) :
    ∃ e, p.domainConfigs.find (hostOf C.caseTable req.headers) = some e := by
  cases hf : p.domainConfigs.find (hostOf C.caseTable req.headers) with
  | some e => exact ⟨e, rfl⟩
  | none =>
    have hno : p.redirects C req false = false := by
      rw [redirects, configOf, hf]
      rfl
    unfold stage at hstage
    split at hstage
    · cases hstage
    · split at hstage
      · cases hstage
      · rw [hno, if_neg Bool.false_ne_true] at hstage
        split at hstage <;> cases hstage

/-- A valid host and a valid path and query make a valid location. -/
theorem validValue_location (ht : req.pathAndQuery = some t.pathAndQuery)
    (hhost : isHost (hostOf C.caseTable req.headers) = true) :
    C.validValue (location C req) = C.validValue (utf8 t.pathAndQuery) := by
  have hplain : Bytes.plain (utf8 ("https://".toList ++ hostOf C.caseTable req.headers)) = true := by
    have hhttps : Bytes.plain (utf8 "https://".toList) = true := by decide
    have hchars := fun c hc => (visible_of_isHostChar (isHostChar_of_isHost hhost c hc)).1
    rw [StaticFileServer.utf8_append, plain_append, hhttps, Bool.true_and, Bytes.plain,
      utf8_eq_map (hostOf_spec C.caseTable req.headers).2.2, List.all_map, List.all_eq_true]
    intro c hc
    obtain ⟨h1, h2⟩ := hchars c hc
    have hcode : c.toUInt8.toNat = c.toNat := toNat_toUInt8 (by omega)
    simp only [Function.comp_apply, hcode, Bool.and_eq_true, decide_eq_true_eq]
    omega
  rw [location, ht, Option.getD_some, StaticFileServer.utf8_append, Crates.validValue, List.all_append]
  exact (congrArg (· && _) (validValue_of_plain hplain)).trans (Bool.true_and _)

/-- What a redirected request is sent to. -/
theorem leadsBack_iff_url (hstage : p.stage C env peer req false = .redirected) :
    p.LeadsBack C env peer req port ↔ C.validValue (location C req) = true ∧
      ∃ url, HttpsUrl.parse (location C req) = some url ∧ LeadsTo C p.domainConfigs req port url := by
  have hexit := exit_redirected hstage
  constructor
  · rintro ⟨out, loc, url, hout, -, hget, hurl, hleads⟩
    rw [exit_of_handle hout] at hexit
    split at hexit
    · rename_i hvalid
      have hheaders : out.response.headers = [("location", location C req)] :=
        congrArg Exit.headers (Except.ok.inj hexit)
      rw [hheaders] at hget
      have hgot : location C req = loc := Option.some.inj hget
      exact ⟨hvalid, url, hgot ▸ hurl, hleads⟩
    · cases hexit
  · rintro ⟨hvalid, url, hurl, hleads⟩
    rw [if_pos hvalid] at hexit
    obtain ⟨out, hout⟩ := exists_handle_iff.mpr ⟨_, hexit⟩
    have hsame : out.exit = ⟨301, [("location", location C req)], none⟩ :=
      Except.ok.inj ((exit_of_handle hout).symm.trans hexit)
    have hheaders : out.response.headers = [("location", location C req)] := congrArg Exit.headers hsame
    exact ⟨out, location C req, url, hout, congrArg Exit.status hsame, by rw [hheaders]; rfl, hurl, hleads⟩

/-- **Which redirects lead back.** A redirected request is sent to what it asks for exactly
when the HTTPS port is 443, the host is a host of URLs, the target is not `*`, and the path
and query make a header value. -/
theorem leadsBack_iff (C : Crates) (env : Environment) (p : Handler) (peer : IpAddr) (req : Request)
    (config : Config) (args : Args) (port : UInt16) (t : RequestTarget)
    (hlisten : (config.override args).ListensAt port) (ht : req.Targets t)
    (hstage : p.stage C env peer req false = .redirected) :
    p.LeadsBack C env peer req port ↔
      ((config.override args).server.httpsPort = 443 ∨ (config.override args).server.httpsPort = 0 ∧ port = 443) ∧
        hostOf C.caseTable req.headers ≠ [] ∧ isHost (hostOf C.caseTable req.headers) = true ∧
        t ≠ .asterisk ∧ C.validValue (utf8 t.pathAndQuery) = true := by
  have hport : port = 443 ↔ (config.override args).server.httpsPort = 443 ∨
      (config.override args).server.httpsPort = 0 ∧ port = 443 := by
    by_cases hzero : (config.override args).server.httpsPort = 0
    · rw [hzero]
      simp
    · rw [hlisten.2 hzero]
      simp [hzero]
  obtain ⟨hwf, hpath, hquery, hpq⟩ := ht
  obtain ⟨hcolon, hlower, hascii⟩ := hostOf_spec C.caseTable req.headers
  have hloc : location C req =
      utf8 ("https://".toList ++ hostOf C.caseTable req.headers ++ t.pathAndQuery) := by
    rw [location, hpq, Option.getD_some]
  rw [← hport, leadsBack_iff_url hstage]
  constructor
  · rintro ⟨hvalid, url, hurl, hleads⟩
    rw [hloc] at hurl
    obtain ⟨e, he, hsame⟩ := hleads.domain
    have hhost : hostOf C.caseTable [("host", url.host)] = hostOf C.caseTable req.headers :=
      (Domains.find_some hsame).2.symm.trans (Domains.find_some he).2
    obtain ⟨hstar, hne, hishost, h443⟩ := eq_of_location hwf hcolon hascii hurl hhost
    refine ⟨?_, hne, hishost, hstar, ?_⟩
    · rw [← UInt16.toNat_inj, ← hleads.port, h443]
      rfl
    · rw [← validValue_location hpq hishost]
      exact hvalid
  · rintro ⟨rfl, hne, hishost, hstar, hvalid⟩
    rw [validValue_location hpq hishost, hloc]
    refine ⟨hvalid, _, parse_location_of_isHost hwf hstar hcolon hne hishost, ?_⟩
    obtain ⟨e, he⟩ := find_of_redirected hstage
    have h58 : 58 ∉ utf8 (hostOf C.caseTable req.headers) := fun hmem =>
      hcolon ((mem_utf8_iff (by decide) (by decide)).mp hmem)
    have hback : hostOf C.caseTable [("host", utf8 (hostOf C.caseTable req.headers))] =
        hostOf C.caseTable req.headers := by
      rw [hostOf_urlHost (by rw [charsOf_utf8 hascii]; exact hishost) h58, charsOf_utf8 hascii, hlower]
    exact ⟨rfl, ⟨e, he, by rw [hback]; exact he⟩, by rw [hpath], by rw [hquery]⟩

/-- A domain `a` that is redirected. -/
def redirecting : Handler := .single "a" { tls := some ⟨"cert.pem", "key.pem"⟩, redirectToHttps := true }

/-- A configuration with that domain. -/
def redirectingConfig : Config := ⟨{}, redirecting.domainConfigs⟩

/-- `GET /?q` for the domain. -/
def askingQuery : Request := ⟨.get, ['/'], some ['q'], some "/?q".toList, [("host", .ofString "A:80")], []⟩

/-- With the default ports a path and a query are led back. -/
theorem leadsBack_iff_query :
    redirecting.LeadsBack .sample (replying ⟨200, [], []⟩) (.v4 7) askingQuery 443 :=
  (leadsBack_iff .sample (replying ⟨200, [], []⟩) redirecting (.v4 7) askingQuery redirectingConfig ⟨none, none⟩ 443
    (.origin ['/'] (some ['q'])) ⟨⟨_, List.mem_cons_self, rfl⟩, fun _ => rfl⟩
    ⟨⟨rfl, by unfold RequestTarget.Splits; decide⟩, rfl, rfl, rfl⟩ (by decide)).mpr
    ⟨.inl rfl, by decide, by decide, by decide, by decide⟩

/-- `OPTIONS *` for the domain. -/
def askingAll : Request := ⟨.other "OPTIONS", ['*'], none, some ['*'], [("host", .ofString "a")], []⟩

/-- **Another port, and `*`.** With `--https-port 8443` a request is sent to the port 443,
and with the default ports `OPTIONS *` is sent to the host `a*`. -/
theorem redirect_leads_elsewhere :
    ((redirectingConfig.override ⟨none, some 8443⟩).ListensAt 8443 ∧
        askingQuery.Targets (.origin ['/'] (some ['q'])) ∧
        redirecting.stage .sample (replying ⟨200, [], []⟩) (.v4 7) askingQuery false = .redirected ∧
        ¬ redirecting.LeadsBack .sample (replying ⟨200, [], []⟩) (.v4 7) askingQuery 8443) ∧
      ((redirectingConfig.override ⟨none, none⟩).ListensAt 443 ∧ askingAll.Targets .asterisk ∧
        redirecting.stage .sample (replying ⟨200, [], []⟩) (.v4 7) askingAll false = .redirected ∧
        ¬ redirecting.LeadsBack .sample (replying ⟨200, [], []⟩) (.v4 7) askingAll 443) := by
  have hquery : redirecting.stage .sample (replying ⟨200, [], []⟩) (.v4 7) askingQuery false = .redirected := by
    decide
  have hall : redirecting.stage .sample (replying ⟨200, [], []⟩) (.v4 7) askingAll false = .redirected := by
    decide
  refine ⟨⟨⟨⟨_, List.mem_cons_self, rfl⟩, fun _ => rfl⟩,
    ⟨⟨rfl, by unfold RequestTarget.Splits; decide⟩, rfl, rfl, rfl⟩, hquery, fun h => ?_⟩,
    ⟨⟨_, List.mem_cons_self, rfl⟩, fun _ => rfl⟩, ⟨trivial, rfl, rfl, rfl⟩, hall, fun h => ?_⟩
  · obtain ⟨-, url, hurl, hleads⟩ := (leadsBack_iff_url hquery).mp h
    have hparse : HttpsUrl.parse (location .sample askingQuery) =
        some ⟨.ofString "a", 443, .ofString "/", some (.ofString "q")⟩ := by decide
    rw [hparse] at hurl
    obtain rfl := Option.some.inj hurl
    exact absurd hleads.port (by decide)
  · obtain ⟨-, url, hurl, hleads⟩ := (leadsBack_iff_url hall).mp h
    have hparse : HttpsUrl.parse (location .sample askingAll) =
        some ⟨.ofString "a*", 443, .ofString "/", none⟩ := by decide
    rw [hparse] at hurl
    obtain rfl := Option.some.inj hurl
    exact absurd hleads.path (by decide)

end Handler

end Curf
