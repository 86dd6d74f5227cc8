import Curf.Proxy.Forward
import Curf.RateLimit.Limiter
import Curf.Security.Waf

/-!
# The request handler

`handle` takes a request through the rate limiter, the filter, the redirect to HTTPS,
the WebSocket tunnel, the static files and the load balancer; each of them may answer
it. Besides the response it returns the service that the request got: an answer from
static files or an exchange with a backend.

`stage` is how far a request gets on what it says and the state it finds, and
`handle_eq` is `handle` by stages.
-/

namespace Curf

open Lib Lib.Multimap

/-- The proxy handler with the limiter and the checker it shares with the listeners. -/
structure Handler extends ProxyHandler where
  rateLimiter : RateLimiter
  security : SecurityChecker

/-- What a request meets outside of the process: the clocks, the files and the network. -/
structure Environment where
  now : Rat
  lbNow : UInt64
  fs : FileSystem
  network : Network

inductive Service where
  | staticFile
  | backend (x : Exchange)
  deriving DecidableEq, Repr

structure Outcome where
  response : Response
  handler : Handler
  service : Option Service

/-- The head of a response, and the service. -/
structure Exit where
  status : Nat
  headers : HeaderMap
  service : Option Service
  deriving DecidableEq, Repr

def Outcome.exit (out : Outcome) : Exit := ⟨out.response.status, out.response.headers, out.service⟩

namespace Handler

variable (C : Crates) (env : Environment) (p : Handler) (peer : IpAddr) (req : Request) (isTls : Bool)

/-- The answer of the filter. -/
def checkRequest : Except String Unit :=
  p.security.checkRequest C.caseTable req.path req.query ((req.headers.get "user-agent").bind headerToStr)

/-- The configuration of the request's host. -/
def configOf : Option DomainConfig := (p.domainConfigs.find (hostOf C.caseTable req.headers)).map (·.2)

def redirects : Bool := !isTls && ((p.configOf C req).map (·.redirectToHttps)).getD false

/-- Where a redirected request is sent to. -/
def location : Bytes :=
  utf8 ("https://".toList ++ hostOf C.caseTable req.headers ++ req.pathAndQuery.getD ['/'])

def redirect : Except Panic Response := Response.build C 301 [("location", location C req)] []

/-- The answer from the static files of the host. -/
def serveStatic : Except Panic (Option Response) :=
  match p.staticServers (hostOf C.caseTable req.headers) with
  | none => .ok none
  | some sf => sf.serve C env.fs (utf8 req.path) req.method req.headers

/-- The request is answered, and gets the service `service`. -/
def answer (service : Option Service) (r : Except Panic Response) : Except Panic Outcome :=
  r.map fun response => ⟨response, p, service⟩

def handle : Except Panic Outcome :=
  let host := hostOf C.caseTable req.headers
  let allowed := p.rateLimiter.isAllowed peer env.now
  let p := { p with rateLimiter := allowed.1 }
  if allowed.2 = false then p.answer none (errorResponse C 429 "Too Many Requests")
  else
    match p.checkRequest C req with
    | .error reason => p.answer none (htmlError C 403 "Forbidden" reason)
    | .ok () =>
      if p.redirects C req isTls then p.answer none (redirect C req)
      else if isWebsocketUpgrade req then
        match proxyWebsocket C env.network env.lbNow p.lbManager req host peer with
        | .error e => .error e
        | .ok f =>
          let p := { p with lbManager := f.lbManager }
          match f.result with
          | .ok resp => p.answer (f.exchange.map .backend) (.ok resp)
          | .error _ => p.answer (f.exchange.map .backend) (errorResponse C 502 "WebSocket proxy error")
      else
        match p.serveStatic C env req with
        | .error e => .error e
        | .ok (some resp) => p.answer (some .staticFile) (injectExtraHeaders C resp host p.domainConfigs)
        | .ok none =>
          match proxyHttp C env.network env.lbNow p.lbManager req host peer with
          | .error e => .error e
          | .ok f =>
            let p := { p with lbManager := f.lbManager }
            match f.result with
            | .ok resp => p.answer (f.exchange.map .backend) (injectExtraHeaders C resp host p.domainConfigs)
            | .error _ =>
              p.answer (f.exchange.map .backend)
                (htmlError C 502 "Bad Gateway" "The upstream server is unreachable.")

/-! ## Stages -/

inductive Stage where
  | limited
  | filtered (reason : String)
  | redirected
  | upgraded
  | plain
  deriving DecidableEq, Repr

/-- How far the request gets. -/
def stage : Stage :=
  if (p.rateLimiter.isAllowed peer env.now).2 = false then .limited
  else
    match p.checkRequest C req with
    | .error reason => .filtered reason
    | .ok () =>
      if p.redirects C req isTls then .redirected else if isWebsocketUpgrade req then .upgraded else .plain

/-- The exchange with a backend that the request comes to if it gets that far. -/
def exchangeOf : Option Exchange :=
  exchange C env.network env.lbNow p.lbManager req (hostOf C.caseTable req.headers) peer

/-- The request's headers are too many for the forwarding headers. -/
def Overfull : Prop :=
  (destination C env.lbNow p.lbManager req (hostOf C.caseTable req.headers) peer).isSome = true ∧
    ¬ FitsForwarding C req (hostOf C.caseTable req.headers) peer

/-- The valid extra headers of the request's host. -/
def extraOf : HeaderMap := ((p.configOf C req).map (·.extraHeaders C)).getD []

/-- A response with these headers has no room for the extra headers of the host. -/
def OverfullWith (headers : HeaderMap) : Prop := ¬ Fits C.maxHeaders headers (p.extraOf C req)

instance : Decidable (p.Overfull C env peer req) := inferInstanceAs (Decidable (_ ∧ _))

instance (headers : HeaderMap) : Decidable (p.OverfullWith C req headers) := inferInstanceAs (Decidable (¬ _))

/-- The response passed on with the extra headers, if they fit. -/
def passOn (resp : Response) (service : Option Service) : Except Panic Exit :=
  if p.OverfullWith C req resp.headers then .error .headerMap
  else .ok ⟨resp.status, putAll resp.headers (p.extraOf C req), service⟩

/-- What a request comes to, by the stage it gets to. -/
def exit : Except Panic Exit :=
  let backend := (p.exchangeOf C env peer req).map .backend
  match p.stage C env peer req isTls with
  | .limited => .ok ⟨429, textErrorHeaders, none⟩
  | .filtered _ => .ok ⟨403, htmlErrorHeaders, none⟩
  | .redirected =>
    if C.validValue (location C req) then .ok ⟨301, [("location", location C req)], none⟩ else .error .response
  | .upgraded =>
    if p.Overfull C env peer req then .error .headerMap
    else
      match switched (resultOf (p.exchangeOf C env peer req)) with
      | some resp => .ok ⟨resp.status, resp.headers, backend⟩
      | none => .ok ⟨502, textErrorHeaders, backend⟩
  | .plain =>
    match p.serveStatic C env req with
    | .error e => .error e
    | .ok (some resp) => p.passOn C req resp (some .staticFile)
    | .ok none =>
      if p.Overfull C env peer req then .error .headerMap
      else
        match resultOf (p.exchangeOf C env peer req) with
        | some reply => p.passOn C req reply backend
        | none => .ok ⟨502, htmlErrorHeaders, backend⟩

/-- The ways through `exit`. -/
inductive Exits : Except Panic Exit → Prop
  | limited (hstage : p.stage C env peer req isTls = .limited) : Exits (.ok ⟨429, textErrorHeaders, none⟩)
  | filtered {reason : String} (hstage : p.stage C env peer req isTls = .filtered reason) :
      Exits (.ok ⟨403, htmlErrorHeaders, none⟩)
  | redirected (hstage : p.stage C env peer req isTls = .redirected)
      (hvalid : C.validValue (location C req) = true) : Exits (.ok ⟨301, [("location", location C req)], none⟩)
  | badLocation (hstage : p.stage C env peer req isTls = .redirected)
      (hvalid : ¬ C.validValue (location C req) = true) : Exits (.error .response)
  | upgradeFull (hstage : p.stage C env peer req isTls = .upgraded) (hfull : p.Overfull C env peer req) :
      Exits (.error .headerMap)
  | switched {resp : Response} (hstage : p.stage C env peer req isTls = .upgraded)
      (hroom : ¬ p.Overfull C env peer req)
      (hreply : Curf.switched (resultOf (p.exchangeOf C env peer req)) = some resp) :
      Exits (.ok ⟨resp.status, resp.headers, (p.exchangeOf C env peer req).map .backend⟩)
  | rejected (hstage : p.stage C env peer req isTls = .upgraded) (hroom : ¬ p.Overfull C env peer req)
      (hreply : Curf.switched (resultOf (p.exchangeOf C env peer req)) = none) :
      Exits (.ok ⟨502, textErrorHeaders, (p.exchangeOf C env peer req).map .backend⟩)
  | unserved {e : Panic} (hstage : p.stage C env peer req isTls = .plain)
      (hstatic : p.serveStatic C env req = .error e) : Exits (.error e)
  | served {resp : Response} (hstage : p.stage C env peer req isTls = .plain)
      (hstatic : p.serveStatic C env req = .ok (some resp)) (hfits : ¬ p.OverfullWith C req resp.headers) :
      Exits (.ok ⟨resp.status, putAll resp.headers (p.extraOf C req), some .staticFile⟩)
  | servedFull {resp : Response} (hstage : p.stage C env peer req isTls = .plain)
      (hstatic : p.serveStatic C env req = .ok (some resp)) (hfull : p.OverfullWith C req resp.headers) :
      Exits (.error .headerMap)
  | proxyFull (hstage : p.stage C env peer req isTls = .plain) (hstatic : p.serveStatic C env req = .ok none)
      (hfull : p.Overfull C env peer req) : Exits (.error .headerMap)
  | proxied {reply : Response} (hstage : p.stage C env peer req isTls = .plain)
      (hstatic : p.serveStatic C env req = .ok none) (hroom : ¬ p.Overfull C env peer req)
      (hreply : resultOf (p.exchangeOf C env peer req) = some reply)
      (hfits : ¬ p.OverfullWith C req reply.headers) :
      Exits (.ok ⟨reply.status, putAll reply.headers (p.extraOf C req),
        (p.exchangeOf C env peer req).map .backend⟩)
  | proxiedFull {reply : Response} (hstage : p.stage C env peer req isTls = .plain)
      (hstatic : p.serveStatic C env req = .ok none) (hroom : ¬ p.Overfull C env peer req)
      (hreply : resultOf (p.exchangeOf C env peer req) = some reply)
      (hfull : p.OverfullWith C req reply.headers) : Exits (.error .headerMap)
  | unreachable (hstage : p.stage C env peer req isTls = .plain) (hstatic : p.serveStatic C env req = .ok none)
      (hroom : ¬ p.Overfull C env peer req) (hreply : resultOf (p.exchangeOf C env peer req) = none) :
      Exits (.ok ⟨502, htmlErrorHeaders, (p.exchangeOf C env peer req).map .backend⟩)

variable {C env p peer req isTls}

theorem exits (C : Crates) (env : Environment) (p : Handler) (peer : IpAddr) (req : Request) (isTls : Bool) :
    p.Exits C env peer req isTls (p.exit C env peer req isTls) := by
  unfold exit
  dsimp only
  cases hstage : p.stage C env peer req isTls with
  | limited => exact .limited hstage
  | filtered reason => exact .filtered hstage
  | redirected =>
    dsimp only
    split
    · rename_i hvalid; exact .redirected hstage hvalid
    · rename_i hvalid; exact .badLocation hstage hvalid
  | upgraded =>
    dsimp only
    split
    · rename_i hfull; exact .upgradeFull hstage hfull
    · rename_i hroom
      split
      · rename_i hreply; exact .switched hstage hroom hreply
      · rename_i hreply; exact .rejected hstage hroom hreply
  | plain =>
    dsimp only
    split
    · rename_i hstatic; exact .unserved hstage hstatic
    · rename_i hstatic
      unfold passOn
      split
      · rename_i hfull; exact .servedFull hstage hstatic hfull
      · rename_i hfits; exact .served hstage hstatic hfits
    · rename_i hstatic
      split
      · rename_i hfull; exact .proxyFull hstage hstatic hfull
      · rename_i hroom
        split
        · rename_i hreply
          unfold passOn
          split
          · rename_i hfull; exact .proxiedFull hstage hstatic hroom hreply hfull
          · rename_i hfits; exact .proxied hstage hstatic hroom hreply hfits
        · rename_i hreply; exact .unreachable hstage hstatic hroom hreply

/-- Injecting the extra headers passes the response on. -/
theorem answer_inject (q : Handler) (resp : Response) (service : Option Service) :
    (q.answer service (injectExtraHeaders C resp (hostOf C.caseTable req.headers) p.domainConfigs)).map
      Outcome.exit = p.passOn C req resp service := by
  unfold passOn
  rw [injectExtraHeaders_eq]
  cases hf : p.domainConfigs.find (hostOf C.caseTable req.headers) with
  | none =>
    have hextra : p.extraOf C req = [] := by rw [extraOf, configOf, hf]; rfl
    have hfits : ¬ p.OverfullWith C req resp.headers := by
      rw [OverfullWith, hextra, not_not]
      exact .inl rfl
    rw [if_neg hfits, hextra]
    rfl
  | some e =>
    have hextra : p.extraOf C req = e.2.extraHeaders C := by rw [extraOf, configOf, hf]; rfl
    have hover : p.OverfullWith C req resp.headers ↔ ¬ Fits C.maxHeaders resp.headers (e.2.extraHeaders C) := by
      rw [OverfullWith, hextra]
    dsimp only
    by_cases hfits : Fits C.maxHeaders resp.headers (e.2.extraHeaders C)
    · rw [if_pos hfits, if_neg fun h => hover.mp h hfits, hextra]
      rfl
    · rw [if_neg hfits, if_pos (hover.mpr hfits)]
      rfl

theorem answer_errorResponse (q : Handler) (service : Option Service) (status : Nat) (message : String) :
    (q.answer service (errorResponse C status message)).map Outcome.exit =
      .ok ⟨status, textErrorHeaders, service⟩ := by
  obtain ⟨body, h⟩ := errorResponse_eq C status message
  rw [h]
  rfl

theorem answer_htmlError (q : Handler) (service : Option Service) (status : Nat) (title body : String) :
    (q.answer service (htmlError C status title body)).map Outcome.exit =
      .ok ⟨status, htmlErrorHeaders, service⟩ := by
  obtain ⟨page, h⟩ := htmlError_eq C status title body
  rw [h]
  rfl

section Limiter

variable (rateLimiter : RateLimiter)

@[simp] theorem checkRequest_limiter :
    ({ p with rateLimiter } : Handler).checkRequest C req = p.checkRequest C req := rfl

@[simp] theorem redirects_limiter :
    ({ p with rateLimiter } : Handler).redirects C req isTls = p.redirects C req isTls := rfl

@[simp] theorem serveStatic_limiter :
    ({ p with rateLimiter } : Handler).serveStatic C env req = p.serveStatic C env req := rfl

end Limiter

theorem answer_redirect (q : Handler) :
    (q.answer none (redirect C req)).map Outcome.exit =
      if C.validValue (location C req) then .ok ⟨301, [("location", location C req)], none⟩
      else .error .response := by
  unfold redirect
  by_cases hvalid : C.validValue (location C req) = true
  · rw [if_pos hvalid, Response.build_of_valid (by simpa using hvalid)]
    rfl
  · rw [if_neg hvalid, Response.build, if_neg (by simpa using hvalid)]
    rfl

/-- The WebSocket stage, by the exchange. -/
theorem websocket_exit (rateLimiter : RateLimiter) :
    Except.map Outcome.exit
      (match proxyWebsocket C env.network env.lbNow p.lbManager req (hostOf C.caseTable req.headers) peer with
      | .error e => .error e
      | .ok f =>
        match f.result with
        | .ok resp =>
          ({ p with rateLimiter, lbManager := f.lbManager } : Handler).answer (f.exchange.map .backend) (.ok resp)
        | .error _ =>
          ({ p with rateLimiter, lbManager := f.lbManager } : Handler).answer (f.exchange.map .backend)
            (errorResponse C 502 "WebSocket proxy error")) =
      if p.Overfull C env peer req then .error .headerMap
      else
        match switched (resultOf (p.exchangeOf C env peer req)) with
        | some resp => .ok ⟨resp.status, resp.headers, (p.exchangeOf C env peer req).map .backend⟩
        | none => .ok ⟨502, textErrorHeaders, (p.exchangeOf C env peer req).map .backend⟩ := by
  obtain ⟨herror, hok⟩ := @proxyWebsocket_spec C env.network env.lbNow p.lbManager req
    (hostOf C.caseTable req.headers) peer
  by_cases h : p.Overfull C env peer req
  · rw [if_pos h, herror h]
    rfl
  · obtain ⟨f, hf, hx, hres⟩ := hok h
    rw [if_neg h, hf, exchangeOf, ← hres, ← hx]
    dsimp only
    cases f.result with
    | ok resp => rfl
    | error e => exact answer_errorResponse ..

/-- The last stage, by the exchange. -/
theorem proxy_exit (rateLimiter : RateLimiter) :
    Except.map Outcome.exit
      (match proxyHttp C env.network env.lbNow p.lbManager req (hostOf C.caseTable req.headers) peer with
      | .error e => .error e
      | .ok f =>
        match f.result with
        | .ok resp =>
          ({ p with rateLimiter, lbManager := f.lbManager } : Handler).answer (f.exchange.map .backend)
            (injectExtraHeaders C resp (hostOf C.caseTable req.headers) p.domainConfigs)
        | .error _ =>
          ({ p with rateLimiter, lbManager := f.lbManager } : Handler).answer (f.exchange.map .backend)
            (htmlError C 502 "Bad Gateway" "The upstream server is unreachable.")) =
      if p.Overfull C env peer req then .error .headerMap
      else
        match resultOf (p.exchangeOf C env peer req) with
        | some reply => p.passOn C req reply ((p.exchangeOf C env peer req).map .backend)
        | none => .ok ⟨502, htmlErrorHeaders, (p.exchangeOf C env peer req).map .backend⟩ := by
  obtain ⟨herror, hok⟩ := @forward_spec C env.network env.lbNow p.lbManager req
    (hostOf C.caseTable req.headers) peer .success
  unfold proxyHttp
  by_cases h : p.Overfull C env peer req
  · rw [if_pos h, herror h]
    rfl
  · obtain ⟨f, hf, hx, hres⟩ := hok h
    rw [if_neg h, hf, exchangeOf, ← hres, ← hx]
    dsimp only
    cases f.result with
    | ok resp => exact answer_inject ..
    | error e => exact answer_htmlError ..

/-- **`handle` by stages.** -/
theorem handle_exit :
    (p.handle C env peer req isTls).map Outcome.exit = p.exit C env peer req isTls := by
  unfold handle exit stage
  dsimp only
  by_cases hlimit : (p.rateLimiter.isAllowed peer env.now).2 = false
  · rw [if_pos hlimit, if_pos hlimit]
    exact answer_errorResponse ..
  · rw [if_neg hlimit, if_neg hlimit, checkRequest_limiter]
    cases hcheck : p.checkRequest C req with
    | error reason => exact answer_htmlError ..
    | ok u =>
      dsimp only
      rw [redirects_limiter]
      by_cases hredirect : p.redirects C req isTls = true
      · rw [if_pos hredirect, if_pos hredirect]
        exact answer_redirect ..
      · rw [if_neg hredirect, if_neg hredirect]
        by_cases hws : isWebsocketUpgrade req = true
        · rw [if_pos hws, if_pos hws]
          exact websocket_exit ..
        · rw [if_neg hws, if_neg hws, serveStatic_limiter]
          dsimp only
          cases hstatic : p.serveStatic C env req with
          | error e => rfl
          | ok served =>
            cases served with
            | some resp => exact answer_inject ..
            | none => exact proxy_exit ..

/-- The outcome has the head that the exit says. -/
theorem exit_of_handle {out : Outcome} (h : p.handle C env peer req isTls = .ok out) :
    p.exit C env peer req isTls = .ok out.exit := by
  rw [← handle_exit, h]
  rfl

/-- A response is returned when the exit is one. -/
theorem exists_handle_iff :
    (∃ out, p.handle C env peer req isTls = .ok out) ↔ ∃ x, p.exit C env peer req isTls = .ok x := by
  rw [← handle_exit]
  cases p.handle C env peer req isTls with
  | error e => exact ⟨fun ⟨_, h⟩ => (nomatch h), fun ⟨_, h⟩ => (nomatch h)⟩
  | ok out => exact ⟨fun _ => ⟨_, rfl⟩, fun _ => ⟨_, rfl⟩⟩

end Handler

/-! ## An example to compute with -/

/-- The crates on the inputs of the examples: texts without `%`, the URLs `http://a` and
`/`, lower-case header names, files of plain text and the first second of 1970. -/
def Crates.sample : Crates where
  caseTable := asciiTable
  percentDecode := id
  parseUri s :=
    if s = "http://a".toList then some ⟨some "a".toList, none⟩
    else if s = "/".toList then some ⟨none, none⟩
    else none
  parseHeaderName := some
  valueByte b := (32 ≤ b.toNat && b.toNat ≠ 127) || b.toNat = 9
  maxHeaders := 24576
  mimeType _ := .ofString "text/plain"
  httpDate _ := .ofString "Thu, 01 Jan 1970 00:00:00 GMT"
  parseHttpDate _ := none
  valueByte_visible b h1 h2 := by simp [h1]; omega
  mimeType_plain _ := by decide
  httpDate_plain _ := by decide

/-- A handler of one domain without a rate limit. -/
def Handler.single (name : String) (cfg : DomainConfig) : Handler where
  toProxyHandler :=
    let d : Domains := ⟨[(name.toList, cfg)], List.nodup_singleton _⟩
    .new (ProxyHandler.registered d) d
  rateLimiter := .new 0 0
  security := .new 100 {}

/-- There are no files, and every backend replies with `reply`. -/
def Handler.replying (reply : Response) : Environment :=
  ⟨0, 0, ⟨fun _ => none, fun _ => none, fun _ => []⟩, ⟨fun _ => true, fun _ _ => some reply⟩⟩

/-- `GET /` for a host, with further headers. -/
def Request.getRoot (host : String) (headers : HeaderMap) : Request :=
  ⟨.get, ['/'], none, some ['/'], ("host", .ofString host) :: headers, []⟩

end Curf
