import Curf.Lib.Url
import Curf.Proxy.Handle

/-!
# What the health checker connects to

`do_get` takes the URL it is given apart by hand, whereas `proxy_http` has the backend's
URL parsed as a `Uri`. `same_target_iff` says for which URLs a health check and a proxied
request for the same path come to the same address with the same path.
-/

namespace Curf

open Lib

/-- An address that is connected to and the path that is asked for there. -/
structure Target where
  addr : Text
  path : Text
  deriving DecidableEq, Repr

/-- The host and the port in what `do_get` takes for the authority. -/
def splitHostPort (hostPort : Text) : Text × UInt16 :=
  match splitLast ':' hostPort with
  | some (host, port) => (host, (parseU16 port).getD 80)
  | none => (hostPort, 80)

/-- Where `do_get` sends its request to, unless it refuses the URL. -/
def doGetTarget (url : Text) : Option Target :=
  (url.dropPrefix? "http://".toList).map fun withoutScheme =>
    let hostPort := if '/' ∈ withoutScheme then withoutScheme.takeWhile (· ≠ '/') else withoutScheme
    let path := if '/' ∈ withoutScheme then withoutScheme.dropWhile (· ≠ '/') else ['/']
    let addr := splitHostPort hostPort
    ⟨addr.1 ++ ':' :: Nat.toDigits 10 addr.2.toNat, path⟩

/-- The configured path, with a slash in front. -/
def checkPath (path : Text) : Text := if path.head? = some '/' then path else '/' :: path

def checkUrl (backendUrl path : Text) : Text := trimEnd '/' backendUrl ++ checkPath path

/-- Where `proxy_http` sends a request for `path` to. -/
def proxyTarget (C : Crates) (backendUrl path : Text) : Option Target :=
  (C.parseUri backendUrl).map fun uri => ⟨backendAddr uri, path⟩

/-- What the parser of `hyper` makes of a URL. -/
def uriOf (u : Url) : Uri := ⟨some u.host, u.port.bind parseU16⟩

/-- If `hyper` parses the text with a host, it is a URL and taken apart as such. -/
def Crates.Splits (C : Crates) (s : Text) : Prop :=
  ∀ uri, C.parseUri s = some uri → uri.host.isSome = true → ∃ u : Url, u.text = s ∧ uriOf u = uri

/-- What stands before the last `:` of the authority, or all of it, is the host, and the
rest is the port, if there is one. -/
def AuthorityAlike (u : Url) : Prop :=
  match u.userinfo, u.port with
  | none, none => ':' ∉ u.host ∧ u.trimmed = []
  | none, some p => u.trimmed = [] ∨ (parseU16 p).getD 80 = 80
  | some ui, none => ':' ∉ u.host ∧ ∃ b, ui = u.host ++ ':' :: b ∧ ':' ∉ b
  | some _, some _ => False

/-- A URL that both ways of reading take apart alike: the scheme is `http`, and slashes
only, or a query or fragment without `/` and `:`, follow the authority. -/
def ReadAlike (u : Url) : Prop :=
  u.scheme = some "http".toList ∧ '/' ∉ u.trimmed ∧ ':' ∉ u.trimmed ∧ AuthorityAlike u

variable {C : Crates} {u : Url} {r t path host : Text} {port : UInt16}

theorem colon_not_mem_toDigits (n : Nat) : ':' ∉ Nat.toDigits 10 n := fun h => by
  have := Nat.isDigit_of_mem_toDigits (by decide) (by decide) h
  cases this

/-- The text of an address says its host and its port. -/
theorem addr_inj {host' : Text} {port' : UInt16} :
    host ++ ':' :: Nat.toDigits 10 port.toNat = host' ++ ':' :: Nat.toDigits 10 port'.toNat ↔
      host = host' ∧ port = port' := by
  rw [append_last_inj (colon_not_mem_toDigits _) (colon_not_mem_toDigits _)]
  refine and_congr_right fun _ => ⟨fun h => ?_, fun h => h ▸ rfl⟩
  have hvalue := congrArg (Nat.ofDigitChars 10 · 0) h
  simp only [Nat.ofDigitChars_toDigits (show 1 < 10 by decide) (show 10 ≤ 10 by decide)] at hvalue
  exact UInt16.toNat_inj.mp hvalue

theorem checkPath_slash (path : Text) : ∃ q, checkPath path = '/' :: q := by
  unfold checkPath
  cases path with
  | nil => exact ⟨[], rfl⟩
  | cons x xs =>
    by_cases hx : x = '/'
    · subst hx
      exact ⟨xs, rfl⟩
    · exact ⟨x :: xs, if_neg (by simpa using hx)⟩

/-! ## Cutting at the first slash -/

theorem dropWhile_slash (h : '/' ∉ r) (q : Text) : (r ++ '/' :: q).dropWhile (· ≠ '/') = '/' :: q := by
  rw [dropWhile_ne_append h]
  rfl

/-- After the scheme, the path that is asked for is the configured one exactly when there
is no slash before it. -/
theorem doGetTarget_http :
    doGetTarget ("http://".toList ++ (r ++ checkPath path)) = some ⟨t, checkPath path⟩ ↔
      '/' ∉ r ∧ (splitHostPort r).1 ++ ':' :: Nat.toDigits 10 (splitHostPort r).2.toNat = t := by
  obtain ⟨q, hq⟩ := checkPath_slash path
  have hmem : '/' ∈ r ++ '/' :: q := List.mem_append_right _ List.mem_cons_self
  rw [hq, doGetTarget, List.dropPrefix?_append_of_beq _ (beq_self_eq_true _), Option.map_some]
  simp only [if_pos hmem, Option.some.injEq, Target.mk.injEq]
  by_cases hr : '/' ∈ r
  · refine iff_of_false (fun h => ?_) fun h => h.1 hr
    -- what is asked for is longer than the configured path
    obtain ⟨x, y, rfl, hx⟩ := List.eq_append_cons_of_mem hr
    rw [List.append_assoc, List.cons_append, dropWhile_slash hx] at h
    have hlen := congrArg List.length h.2
    simp only [List.length_cons, List.length_append] at hlen
    omega
  · rw [takeWhile_ne_mark hr, dropWhile_slash hr]
    simp [hr]

/-- A path that is asked for is no longer than what follows the scheme. -/
theorem doGetTarget_length {url : Text} {target : Target} (h : doGetTarget url = some target) :
    ∃ w, url = "http://".toList ++ w ∧ target.path.length ≤ max 1 w.length := by
  obtain ⟨w, hw, rfl⟩ := Option.map_eq_some_iff.mp h
  obtain ⟨p, rfl, hp⟩ := List.dropPrefix?_eq_some_iff.mp hw
  refine ⟨w, by rw [eq_of_beq hp], ?_⟩
  dsimp only
  split
  · have := (List.dropWhile_sublist (· ≠ '/') (l := w)).length_le
    omega
  · simp

/-- Without the scheme `http` a check never asks for the configured path. -/
theorem doGetTarget_scheme {target : Target} (h : doGetTarget (checkUrl u.text path) = some target)
    (hpath : target.path = checkPath path) : u.scheme = some "http".toList := by
  obtain ⟨w, hw, hlen⟩ := doGetTarget_length h
  rw [checkUrl, Url.trimEnd_text, Url.schemeText] at hw
  cases hs : u.scheme with
  | none =>
    -- then `http:` is all of the authority, and the rest of the prefix belongs to the path
    obtain ⟨hp, hr⟩ := u.bare hs
    have htrimmed : u.trimmed = [] := by rw [Url.trimmed, hp, hr]; rfl
    obtain ⟨q, hq⟩ := checkPath_slash path
    rw [hs, htrimmed, List.append_nil, hq] at hw
    have hq' := (@append_first_inj '/' _ _ "http:".toList ('/' :: w) u.slash_not_mem_authority (by decide) hw).2
    rw [hpath, hq, hq'] at hlen
    simp only [List.length_cons] at hlen
    omega
  | some sch =>
    rw [hs, Option.map_some, Option.getD_some, List.append_assoc, List.append_assoc, List.append_assoc] at hw
    have hsch : ':' ∉ sch := fun hmem => by
      have hall := u.scheme_chars
      rw [hs] at hall
      simpa using List.all_eq_true.mp hall _ hmem
    rw [(@append_first_inj ':' _ _ "http".toList _ hsch (by decide) hw).1]

/-! ## Cutting at the last colon -/

theorem splitHostPort_last {b : Text} (hb : ':' ∉ b) :
    splitHostPort (r ++ ':' :: b) = (r, (parseU16 b).getD 80) := by
  rw [splitHostPort, splitLast_append hb]

theorem splitHostPort_whole (h : ':' ∉ r) : splitHostPort r = (r, 80) := by
  rw [splitHostPort, splitLast_eq_none h]

/-- A text with a character that no host has. -/
theorem ne_host {c : Char} {n m : UInt16} (hc : c ∈ r) (h : endsAuthority c = true ∨ c = '@') :
    (r, n) ≠ (u.host, m) := by
  intro he
  rw [(Prod.mk.inj he).1] at hc
  obtain ⟨h1, h2⟩ := Url.host_not hc
  rcases h with h | h
  · rw [h1] at h
    cases h
  · exact h2 h

/-- A port before a query or a fragment is not read. -/
theorem parseU16_trimmed (h : '/' ∉ u.trimmed) (hne : u.trimmed ≠ []) (p : Text) :
    parseU16 (p ++ u.trimmed) = none := by
  obtain ⟨m, t, hm, hmark⟩ := (Url.trimmed_mark h).resolve_left hne
  have hmem : m ∈ p ++ u.trimmed := by
    rw [hm]
    exact List.mem_append_right _ List.mem_cons_self
  rcases Bool.or_eq_true_iff.mp hmark with h | h
  · rw [of_decide_eq_true h] at hmem
    exact parseU16_eq_none hmem rfl (by decide)
  · rw [of_decide_eq_true h] at hmem
    exact parseU16_eq_none hmem rfl (by decide)

theorem colon_not_mem_port {p : Text} (hp : u.port = some p) (hcolon : ':' ∉ u.trimmed) : ':' ∉ p ++ u.trimmed := by
  intro h
  rcases List.mem_append.mp h with h | h
  · exact (Url.port_not hp h).2.2 rfl
  · exact hcolon h

/-- The authority without user information. -/
theorem splitHostPort_host (hui : u.userinfo = none) (hslash : '/' ∉ u.trimmed) (hcolon : ':' ∉ u.trimmed) :
    splitHostPort (u.authority ++ u.trimmed) = (u.host, (u.port.bind parseU16).getD 80) ↔ AuthorityAlike u := by
  unfold AuthorityAlike Url.authority Url.userinfoText Url.portText
  cases hp : u.port with
  | none =>
    simp only [hui, Option.map_none, Option.getD_none, List.nil_append, List.append_nil, Option.bind_none]
    by_cases hhost : ':' ∈ u.host
    · refine iff_of_false (fun h => ?_) fun h => h.1 hhost
      obtain ⟨x, y, he, hy⟩ := eq_append_last hhost
      have hyq : ':' ∉ y ++ u.trimmed := by simp [hy, hcolon]
      rw [he, List.append_assoc, List.cons_append, splitHostPort_last hyq] at h
      have hlen := congrArg List.length (Prod.mk.inj h).1
      simp only [List.length_append, List.length_cons] at hlen
      omega
    · rw [splitHostPort_whole (by simp [hhost, hcolon])]
      simp [hhost]
  | some p =>
    have hpq := colon_not_mem_port hp hcolon
    simp only [hui, Option.map_none, Option.map_some, Option.getD_none, Option.getD_some, List.nil_append,
      Option.bind_some, List.append_assoc, List.cons_append]
    rw [splitHostPort_last hpq]
    by_cases hq : u.trimmed = []
    · simp [hq]
    · simp only [parseU16_trimmed hslash hq p, hq, Option.getD_none, Prod.mk.injEq, true_and, false_or]
      exact eq_comm

/-- The authority with user information. -/
theorem splitHostPort_userinfo {ui : Text} (hui : u.userinfo = some ui) (hcolon : ':' ∉ u.trimmed) :
    splitHostPort (u.authority ++ u.trimmed) = (u.host, (u.port.bind parseU16).getD 80) ↔ AuthorityAlike u := by
  unfold AuthorityAlike Url.authority Url.userinfoText Url.portText
  cases hp : u.port with
  | some p =>
    have hpq := colon_not_mem_port hp hcolon
    have hr : ui ++ ['@'] ++ u.host ++ ':' :: p ++ u.trimmed = (ui ++ '@' :: u.host) ++ ':' :: (p ++ u.trimmed) := by
      simp
    simp only [hui, Option.map_some, Option.getD_some]
    rw [hr, splitHostPort_last hpq]
    exact iff_of_false (ne_host (c := '@') (by simp) (.inr rfl)) id
  | none =>
    simp only [hui, Option.map_some, Option.map_none, Option.getD_some, Option.getD_none, List.append_nil,
      List.append_assoc, Option.bind_none]
    by_cases hhost : ':' ∈ u.host
    · refine iff_of_false ?_ fun h => h.1 hhost
      obtain ⟨x, y, he, hy⟩ := eq_append_last hhost
      have hyq : ':' ∉ y ++ u.trimmed := by simp [hy, hcolon]
      have hr : ui ++ (['@'] ++ (u.host ++ u.trimmed)) = (ui ++ '@' :: x) ++ ':' :: (y ++ u.trimmed) := by
        rw [he]
        simp
      rw [hr, splitHostPort_last hyq]
      exact ne_host (c := '@') (by simp) (.inr rfl)
    · by_cases hcui : ':' ∈ ui
      · obtain ⟨x, y, rfl, hy⟩ := eq_append_last hcui
        have hyq : ':' ∉ y ++ (['@'] ++ (u.host ++ u.trimmed)) := by simp [hy, hhost, hcolon]
        rw [List.append_assoc, List.cons_append, splitHostPort_last hyq,
          parseU16_eq_none (c := '@') (by simp) rfl (by decide)]
        simp only [Prod.mk.injEq, Option.getD_none, and_true, hhost, not_false_eq_true, true_and]
        constructor
        · rintro rfl
          exact ⟨y, rfl, hy⟩
        · rintro ⟨b, hb, hcb⟩
          exact ((append_last_inj hy hcb).mp hb).1
      · rw [splitHostPort_whole (by simp [hcui, hhost, hcolon])]
        refine iff_of_false (ne_host (c := '@') (by simp) (.inr rfl)) ?_
        rintro ⟨-, b, rfl, -⟩
        exact hcui (by simp)

/-- **What `do_get` takes for the address** is the URL's host and port, or the default
port, exactly for the URLs that both ways of reading take apart alike. -/
theorem splitHostPort_iff (hslash : '/' ∉ u.trimmed) :
    splitHostPort (u.authority ++ u.trimmed) = (u.host, (u.port.bind parseU16).getD 80) ↔
      ':' ∉ u.trimmed ∧ AuthorityAlike u := by
  by_cases hcolon : ':' ∈ u.trimmed
  · refine iff_of_false ?_ fun h => h.1 hcolon
    obtain ⟨m, t, hm, hmark⟩ := (Url.trimmed_mark hslash).resolve_left (List.ne_nil_of_mem hcolon)
    obtain ⟨x, y, he, hy⟩ := eq_append_last hcolon
    have hx : m ∈ u.authority ++ x := by
      cases x with
      | nil =>
        rw [hm] at he
        cases he
        cases hmark
      | cons z zs =>
        rw [hm] at he
        rw [(List.cons.inj he).1]
        exact List.mem_append_right _ List.mem_cons_self
    rw [he, ← List.append_assoc, splitHostPort_last hy]
    exact ne_host hx (.inl (by simp [endsAuthority, hmark]))
  · rw [and_iff_right hcolon]
    cases hui : u.userinfo with
    | none => exact splitHostPort_host hui hslash hcolon
    | some ui => exact splitHostPort_userinfo hui hcolon

/-- **When a health check and a proxied request have the same target**: for a backend URL
that `hyper` parses with a host, exactly when both ways of reading take it apart alike. -/
theorem same_target_iff {s : Text} {uri : Uri} (hC : C.Splits s) (hs : C.parseUri s = some uri)
    (hhost : uri.host.isSome = true) :
    ∃ u : Url, u.text = s ∧ uriOf u = uri ∧
      ∀ path, doGetTarget (checkUrl s path) = proxyTarget C s (checkPath path) ↔ ReadAlike u := by
  obtain ⟨u, rfl, rfl⟩ := hC uri hs hhost
  refine ⟨u, rfl, rfl, fun path => ?_⟩
  rw [proxyTarget, hs, Option.map_some]
  by_cases hscheme : u.scheme = some "http".toList
  · have hurl : checkUrl u.text path = "http://".toList ++ (u.authority ++ u.trimmed ++ checkPath path) := by
      rw [checkUrl, Url.trimEnd_text, Url.schemeText, hscheme]
      simp
    have hmem : '/' ∉ u.authority ++ u.trimmed ↔ '/' ∉ u.trimmed := by
      simp [u.slash_not_mem_authority]
    rw [hurl, doGetTarget_http, ReadAlike, and_iff_right hscheme, hmem]
    refine and_congr_right fun hslash => ?_
    rw [← splitHostPort_iff hslash, Prod.ext_iff]
    exact addr_inj
  · exact iff_of_false (fun h => hscheme (doGetTarget_scheme h rfl)) fun h => hscheme h.1

/-- A backend by name. -/
theorem same_target_named :
    ∃ u : Url, u.text = "http://a".toList ∧ uriOf u = ⟨some "a".toList, none⟩ ∧
      ∀ path, doGetTarget (checkUrl "http://a".toList path) =
        proxyTarget .sample "http://a".toList (checkPath path) ↔ ReadAlike u := by
  refine @same_target_iff .sample "http://a".toList _ (fun uri hs hhost => ?_) rfl rfl
  cases hs
  exact ⟨⟨some "http".toList, none, ['a'], none, [], [], rfl, rfl, rfl, rfl, by decide, by decide, .inl rfl,
    .inl rfl, nofun⟩, rfl, rfl⟩

/-- **A backend at an IPv6 address** without a port is proxied to, and checked elsewhere. -/
theorem targets_differ_ipv6 :
    ¬ ∀ (C : Crates) (s : Text), C.Splits s → ∀ uri, C.parseUri s = some uri → uri.host.isSome = true → ∀ path,
      doGetTarget (checkUrl s path) = proxyTarget C s (checkPath path) := by
  intro h
  have hbad := h { Crates.sample with
    parseUri := fun s => if s = "http://[::1]".toList then some ⟨some "[::1]".toList, none⟩ else none }
    "http://[::1]".toList (fun uri hs _ => ?_) _ rfl rfl "/".toList
  · revert hbad
    decide
  · cases hs
    exact ⟨⟨some "http".toList, none, "[::1]".toList, none, [], [], rfl, rfl, rfl, rfl, by decide, by decide,
      .inl rfl, .inl rfl, nofun⟩, rfl, rfl⟩

end Curf
